import CommandMacros.Proofs.Binding.CommandEnd
import CommandMacros.Proofs.Expansion.FrameStack
import CommandMacros.Proofs.Keyword

/-!
Inert tokens. A macro that is named only by inert tokens is not called, so that it can be taken out
of the table and the expansion stays the same, with all it reports. Binding forgets the flags of the
tokens it captures: the law holds as long as no call binds such a token to a parameter whose value
is searched for calls, and fails otherwise.
-/

namespace CommandMacros

/-- The token names the macro with this upper-case name. -/
def Token.names (t : Token) (key : String) : Bool :=
  t.isIdentifier && Text.upper t.text == key

namespace Table

/-- The table without the macro of this upper-case name. -/
def without (table : Table) (key : String) : Table :=
  ⟨table.entries.filter fun entry => entry.1 != key⟩

theorem lookup_without (table : Table) (key name : String) :
    (table.without key).lookup name =
      if Text.upper name = key then none else table.lookup name := by
  obtain ⟨entries⟩ := table
  simp only [lookup, without]
  generalize Text.upper name = sought
  induction entries with
  | nil => rw [List.filter_nil, List.lookup_nil, ite_self]
  | cons entry entries ih =>
      obtain ⟨k, d⟩ := entry
      by_cases hk : k = key
      · rw [List.filter_cons_of_neg (by simpa using hk), ih, List.lookup_cons, ← hk]
        by_cases hsought : sought = k
        · rw [if_pos hsought, if_pos hsought]
        · rw [if_neg hsought, if_neg hsought, beq_false_of_ne hsought]
      · rw [List.filter_cons_of_pos (by simpa using hk), List.lookup_cons, List.lookup_cons, ih]
        by_cases hsought : sought = k
        · simp [hsought, hk]
        · rw [beq_false_of_ne hsought]

end Table

/-! ### Macros that are silent about another one -/

/-- The operand does not expand a text. -/
inductive Operand.EvalFree : Operand → Prop
  | token (t : Token) : EvalFree (.token t)
  | parameter (index : Nat) : EvalFree (.parameter index)
  | allPositionals : EvalFree .allPositionals
  | call {function : Builtin} {arguments : List Operand} {span : Span}
      (hfunction : function ≠ .eval)
      (harguments : ∀ argument ∈ arguments, EvalFree argument) :
      EvalFree (.call function arguments span)

/-- No operand of the expression expands a text. -/
def Expr.EvalFree : Expr → Prop
  | .or left right | .and left right | .relation _ left right => left.EvalFree ∧ right.EvalFree
  | .not inner => inner.EvalFree
  | .operand leaf => leaf.EvalFree

/-- The directive expands no text, and the text it copies does not name the macro. -/
inductive Directive.Silent (key : String) : Directive → Prop
  | literal {tokens : List Token} (h : ∀ t ∈ tokens, t.names key = false) :
      Silent key (.literal tokens)
  | parameter (index : Nat) : Silent key (.parameter index)
  | allPositionals : Silent key .allPositionals
  | call {function : Builtin} {arguments : List Operand} {span : Span}
      (hfunction : function ≠ .eval)
      (harguments : ∀ argument ∈ arguments, argument.EvalFree) :
      Silent key (.call function arguments span)
  | cond {condition : Expr} {thenBranch : List Directive} {elseBranch : Option (List Directive)}
      (hcondition : condition.EvalFree) (hthen : ∀ d ∈ thenBranch, Silent key d)
      (helse : ∀ branch ∈ elseBranch, ∀ d ∈ branch, Silent key d) :
      Silent key (.cond condition thenBranch elseBranch)
  | doRange {variableName : String} {first last : Expr} {step : Option Expr}
      {body : List Directive} {span : Span} (hfirst : first.EvalFree) (hlast : last.EvalFree)
      (hstep : ∀ expr ∈ step, expr.EvalFree) (hbody : ∀ d ∈ body, Silent key d) :
      Silent key (.doRange variableName first last step body span)
  | doIn {variableName : String} {list : Expr} {body : List Directive} {span : Span}
      (hlist : list.EvalFree) (hbody : ∀ d ∈ body, Silent key d) :
      Silent key (.doIn variableName list body span)
  | assign {variableName : String} {value : Expr} (hvalue : value.EvalFree) :
      Silent key (.assign variableName value)
  | setExpand (enabled : Bool) : Silent key (.setExpand enabled)
  | breakLoop : Silent key .breakLoop
  | invalid (error : MacroError) (span : Span) : Silent key (.invalid error span)

/-- Every macro of the table is silent about the one with this name. -/
def Table.Silent (table : Table) (key : String) : Prop :=
  ∀ entry ∈ table.entries, ∀ d ∈ entry.2.body, d.Silent key

namespace Expansion

/-! ### Values that are only read -/

section Values

variable {α β : Type} {eval other : Evaluator}

/-- The two computations are the same and leave the scene as it is. -/
structure SameReading (first second : Eval α) : Prop where
  same : first = second
  ok {scene after : Scene} {value : α} : first scene = .ok value after → after = scene
  error {scene after : Scene} {d : Diagnostic} : first scene = .error d after → after = scene

namespace SameReading

theorem bind {first second : Eval α} {next after : α → Eval β} (h : SameReading first second)
    (hnext : ∀ value, SameReading (next value) (after value)) :
    SameReading (first >>= next) (second >>= after) := by
  refine ⟨by rw [h.same, funext fun value => (hnext value).same], ?_, ?_⟩
  · intro scene final value hfinal
    change EStateM.bind first next scene = _ at hfinal
    unfold EStateM.bind at hfinal
    split at hfinal
    · next between hfirst =>
        obtain rfl := h.ok hfirst
        exact (hnext _).ok hfinal
    · contradiction
  · intro scene final d hfinal
    change EStateM.bind first next scene = _ at hfinal
    unfold EStateM.bind at hfinal
    split at hfinal
    · next between hfirst =>
        obtain rfl := h.ok hfirst
        exact (hnext _).error hfinal
    · next hfirst =>
        cases hfinal
        exact h.error hfirst

theorem read (f : Activation → α) : SameReading (fun scene => .ok (f scene.activation) scene)
    (fun scene => .ok (f scene.activation) scene) := by
  refine ⟨rfl, ?_, nofun⟩
  rintro _ _ _ ⟨⟩
  rfl

theorem pure (value : α) : SameReading (Pure.pure value) (Pure.pure value) :=
  read fun _ => value

theorem throw (f : Activation → Diagnostic) :
    SameReading (fun scene => (.error (f scene.activation) scene : EStateM.Result _ _ α))
      (fun scene => .error (f scene.activation) scene) := by
  refine ⟨rfl, nofun, ?_⟩
  rintro _ _ _ ⟨⟩
  rfl

end SameReading

theorem same_applyBuiltin {function : Builtin} (h : function ≠ .eval) (arguments : List String)
    (span : Span) :
    SameReading (applyBuiltin eval function arguments span)
      (applyBuiltin other function arguments span) := by
  unfold applyBuiltin
  simp only [Builtin.apply_of_ne_eval _ h]
  cases function.compute arguments with
  | ok text => exact .pure text
  | error cause => exact .throw fun _ => { error := .call function cause, span := some span }

mutual

theorem same_operandText (operand : Operand) (h : operand.EvalFree) :
    SameReading (operandText eval operand) (operandText other operand) := by
  match operand with
  | .token t => exact .read fun activation => activation.tokenText t
  | .parameter index => exact .read fun activation => argumentText activation index
  | .allPositionals => exact .read positionalsText
  | .call function arguments span =>
    cases h with
    | call hfunction harguments =>
        exact (same_operandTexts arguments harguments).bind fun texts =>
          same_applyBuiltin hfunction texts span

theorem same_operandTexts (operands : List Operand) (h : ∀ operand ∈ operands, operand.EvalFree) :
    SameReading (operandTexts eval operands) (operandTexts other operands) := by
  match operands with
  | [] => exact .pure []
  | operand :: others =>
    obtain ⟨hoperand, hothers⟩ := List.forall_mem_cons.mp h
    exact (same_operandText operand hoperand).bind fun text =>
      (same_operandTexts others hothers).bind fun texts => .pure (text :: texts)

end

theorem same_evaluate {expr : Expr} (h : expr.EvalFree) :
    SameReading (evaluate eval expr) (evaluate other expr) := by
  induction expr with
  | or left right ihleft ihright =>
      exact (ihleft h.1).bind fun _ => (ihright h.2).bind fun _ => .pure _
  | and left right ihleft ihright =>
      exact (ihleft h.1).bind fun _ => (ihright h.2).bind fun _ => .pure _
  | not inner ih => exact (ih h).bind fun _ => .pure _
  | relation relation left right ihleft ihright =>
      exact (ihleft h.1).bind fun _ => (ihright h.2).bind fun _ => .pure _
  | operand operand => exact (same_operandText operand h).bind fun _ => .pure _

theorem same_evaluateNumber {expr : Expr} (h : expr.EvalFree) :
    SameReading (evaluateNumber eval expr) (evaluateNumber other expr) := by
  refine (same_evaluate h).bind fun text => ?_
  cases singleNumber? text with
  | some value => exact .pure value
  | none =>
      exact .throw fun activation =>
        { error := .binding activation.definition.name (.notANumber text) }

theorem same_loopBounds {first last : Expr} {step : Option Expr} (hfirst : first.EvalFree)
    (hlast : last.EvalFree) (hstep : ∀ expr ∈ step, expr.EvalFree) :
    SameReading (loopBounds eval first last step) (loopBounds other first last step) := by
  have hloopStep (first last : Float) :
      SameReading (loopStep eval first last step) (loopStep other first last step) := by
    cases step with
    | some expr => exact same_evaluateNumber (hstep expr rfl)
    | none => exact .pure _
  have hnonzero (step : Float) : SameReading (nonzeroStep step) (nonzeroStep step) := by
    unfold nonzeroStep
    cases step == 0.0 with
    | true =>
        exact .throw fun activation => { error := .binding activation.definition.name .zeroStep }
    | false => exact .pure step
  refine (same_evaluateNumber hfirst).bind fun first => ?_
  refine (same_evaluateNumber hlast).bind fun last => ?_
  refine (hloopStep first last).bind fun step => ?_
  exact (hnonzero step).bind fun step => .pure (first, last, step)

end Values

/-! ### Runs of directives -/

/-- What names the macro is inert. -/
def Quiet (key : String) (tokens : List Emitted) : Prop :=
  ∀ e ∈ tokens, e.token.names key = true → e.expandable = false

instance (key : String) (tokens : List Emitted) : Decidable (Quiet key tokens) :=
  inferInstanceAs (Decidable (∀ e ∈ tokens, e.token.names key = true → e.expandable = false))

/-- No value that is searched for calls names the macro. -/
def QuietBindings (key : String) (bindings : List Binding) : Prop :=
  ∀ b ∈ bindings, b.expandable = true → ∀ t ∈ b.tokens, t.names key = false

namespace Quiet

variable {key : String} {tokens others : List Emitted}

theorem append (h : Quiet key tokens) (hothers : Quiet key others) : Quiet key (tokens ++ others) :=
  List.forall_mem_append.mpr ⟨h, hothers⟩

theorem nil (key : String) : Quiet key [] :=
  List.forall_mem_nil _

theorem inert (key : String) (tokens : List Token) : Quiet key (Emitted.inert tokens) := by
  intro e he _
  obtain ⟨t, _, rfl⟩ := List.mem_map.mp he
  rfl

theorem flatMap {α : Type} {f : α → List Emitted} {values : List α}
    (h : ∀ value ∈ values, Quiet key (f value)) : Quiet key (values.flatMap f) := by
  intro e he
  obtain ⟨value, hvalue, he⟩ := List.mem_flatMap.mp he
  exact h value hvalue e he

end Quiet

/-- The two runs are the same, and quiet if the bindings are, which they leave as they are. -/
structure QuietRun (key : String) (first second : Scene → Emission) : Prop where
  same : first = second
  bindings (scene : Scene) : (first scene).scene.activation.bindings = scene.activation.bindings
  tokens {scene : Scene} (h : QuietBindings key scene.activation.bindings) :
    Quiet key (first scene).tokens

namespace QuietRun

variable {α : Type} {key : String}

/-- A run that gives no tokens and keeps the bindings. -/
theorem ofScene {f : Scene → Scene} (broken : Bool)
    (hf : ∀ scene, (f scene).activation.bindings = scene.activation.bindings) :
    QuietRun key (fun scene => ⟨[], broken, f scene⟩) (fun scene => ⟨[], broken, f scene⟩) :=
  ⟨rfl, hf, fun _ => .nil key⟩

theorem silent : QuietRun key Emission.silent Emission.silent :=
  ofScene false fun _ => rfl

theorem ofTokens {f g : Scene → List Emitted} (hsame : f = g)
    (hquiet : ∀ {scene}, QuietBindings key scene.activation.bindings → Quiet key (f scene)) :
    QuietRun key (fun scene => .ofTokens (f scene) scene)
      (fun scene => .ofTokens (g scene) scene) :=
  ⟨by rw [hsame], fun _ => rfl, hquiet⟩

theorem fail (d : Diagnostic) (fallback : Span) :
    QuietRun key (fun scene => fail scene d fallback) (fun scene => fail scene d fallback) :=
  ⟨rfl, fun _ => rfl, fun _ => .inert key _⟩

theorem orFail {computation alike : Eval α} {next after : α → Scene → Emission}
    (h : SameReading computation alike) (hnext : ∀ value, QuietRun key (next value) (after value))
    (fallback : Span) :
    QuietRun key (orFail computation fallback next) (orFail alike fallback after) := by
  have hcases (scene : Scene) :
      (∃ value, Expansion.orFail computation fallback next scene = next value scene) ∨
        ∃ d, Expansion.orFail computation fallback next scene =
          Expansion.fail scene d fallback := by
    unfold Expansion.orFail
    cases hresult : computation scene with
    | ok value between =>
        obtain rfl := h.ok hresult
        exact .inl ⟨value, rfl⟩
    | error d between =>
        obtain rfl := h.error hresult
        exact .inr ⟨d, rfl⟩
  refine ⟨?_, fun scene => ?_, fun {scene} hbindings => ?_⟩
  · rw [h.same, funext fun value => (hnext value).same]
  · obtain ⟨value, hvalue⟩ | ⟨d, hfail⟩ := hcases scene
    · rw [hvalue, (hnext value).bindings]
    · rw [hfail, (@fail key d fallback).bindings]
  · obtain ⟨value, hvalue⟩ | ⟨d, hfail⟩ := hcases scene
    · rw [hvalue]
      exact (hnext value).tokens hbindings
    · rw [hfail]
      exact (fail d fallback).tokens hbindings

/-- Going on from what the directives gave. -/
theorem andThen {first second next after : Scene → Emission} (h : QuietRun key first second)
    (hnext : QuietRun key next after) :
    QuietRun key (fun scene => (first scene).andThen next)
      (fun scene => (second scene).andThen after) := by
  refine ⟨by rw [h.same, hnext.same], fun scene => ?_, fun {scene} hbindings => ?_⟩
  · unfold Emission.andThen
    split
    · exact h.bindings scene
    · exact (hnext.bindings _).trans (h.bindings scene)
  · have hfirst := h.tokens hbindings
    unfold Emission.andThen
    split
    · exact hfirst
    · exact hfirst.append (hnext.tokens (by rwa [h.bindings]))

theorem andPasses {once alike others after : Scene → Emission} (h : QuietRun key once alike)
    (hothers : QuietRun key others after) :
    QuietRun key (fun scene => (once scene).andPasses others)
      (fun scene => (alike scene).andPasses after) := by
  refine ⟨by rw [h.same, hothers.same], fun scene => ?_, fun {scene} hbindings => ?_⟩
  · unfold Emission.andPasses
    split
    · exact h.bindings scene
    · exact (hothers.bindings _).trans (h.bindings scene)
  · have hfirst := h.tokens hbindings
    unfold Emission.andPasses
    split
    · exact hfirst
    · exact hfirst.append (hothers.tokens (by rwa [h.bindings]))

theorem within {first second : Scene → Emission} (h : QuietRun key first second) (name : String) :
    QuietRun key (within name first) (within name second) :=
  ⟨by rw [h.same], fun scene => h.bindings (scene.enter name),
    fun {scene} hbindings => @QuietRun.tokens _ _ _ h (scene.enter name) hbindings⟩

theorem iteration {body alike : Scene → Emission} (h : QuietRun key body alike)
    (variableName value : String) :
    QuietRun key (iteration body variableName value) (iteration alike variableName value) :=
  ⟨by rw [h.same], fun scene => h.bindings (scene.setVariable variableName value),
    fun {scene} hbindings =>
      @QuietRun.tokens _ _ _ h (scene.setVariable variableName value) hbindings⟩

end QuietRun

section Substitution

variable {key : String} {left right : Environment} (hsettings : right.settings = left.settings)
  {eval other : Evaluator}

include hsettings

theorem iterationLimit_eq (span : Span) : iterationLimit right span = iterationLimit left span := by
  rw [iterationLimit, iterationLimit, hsettings]

theorem quiet_iterateRange {body alike : Scene → Emission} (h : QuietRun key body alike)
    (variableName : String) (last step : Float) (span : Span) (remaining : Nat) (index : Float) :
    QuietRun key (iterateRange left body variableName last step span remaining index)
      (iterateRange right alike variableName last step span remaining index) := by
  induction remaining generalizing index with
  | zero =>
      by_cases hbounds : withinBounds index last step = true
      · rw [iterateRange_limit hbounds, iterateRange_limit hbounds, iterationLimit_eq hsettings]
        exact .ofScene false fun _ => rfl
      · rw [iterateRange_past hbounds, iterateRange_past hbounds]
        exact .silent
  | succ remaining ih =>
      by_cases hbounds : withinBounds index last step = true
      · rw [iterateRange_pass hbounds, iterateRange_pass hbounds]
        exact (h.iteration variableName (Number.text index)).andPasses (ih (index + step))
      · rw [iterateRange_past hbounds, iterateRange_past hbounds]
        exact .silent

theorem quiet_iterateList {body alike : Scene → Emission} (h : QuietRun key body alike)
    (variableName : String) (span : Span) (remaining : Nat) (values : List String) :
    QuietRun key (iterateList left body variableName span remaining values)
      (iterateList right alike variableName span remaining values) := by
  induction values generalizing remaining with
  | nil =>
      rw [iterateList_nil, iterateList_nil]
      exact .silent
  | cons value values ih =>
      cases remaining with
      | zero =>
          change QuietRun key (fun scene => .silent (scene.report (iterationLimit left span)))
            (fun scene => .silent (scene.report (iterationLimit right span)))
          rw [iterationLimit_eq hsettings]
          exact .ofScene false fun _ => rfl
      | succ remaining => exact (h.iteration variableName value).andPasses (ih remaining)

theorem textExpandable_eq (scene : Scene) :
    textExpandable right scene = textExpandable left scene := by
  rw [textExpandable, textExpandable, hsettings]

theorem quiet_literal {tokens : List Token} (h : ∀ t ∈ tokens, t.names key = false) :
    QuietRun key (substituteOne left eval (.literal tokens))
      (substituteOne right other (.literal tokens)) := by
  refine .ofTokens ?_ fun {scene} _ => .flatMap fun t ht => ?_
  · funext scene
    congr 1
    funext t
    rw [literalTokens, literalTokens, textExpandable_eq hsettings]
  · unfold literalTokens
    split
    · exact .inert key _
    · intro e he hnames
      obtain rfl := List.mem_singleton.mp he
      rw [h t ht] at hnames
      contradiction

theorem bindingTokens_eq (scene : Scene) :
    bindingTokens right scene = bindingTokens left scene := by
  funext binding
  rw [bindingTokens, bindingTokens, textExpandable_eq hsettings]

omit hsettings in
theorem quiet_bindingTokens {scene : Scene} (h : QuietBindings key scene.activation.bindings)
    {binding : Binding} (hbinding : binding ∈ scene.activation.bindings) :
    Quiet key (bindingTokens left scene binding) := by
  intro e he hnames
  obtain ⟨t, ht, rfl⟩ := List.mem_map.mp he
  have hexpandable : ¬binding.expandable = true := by
    intro hexpandable
    rw [h binding hbinding hexpandable t ht] at hnames
    contradiction
  rw [Bool.eq_false_iff.mpr hexpandable, Bool.false_and]

theorem quiet_parameter (index : Nat) :
    QuietRun key (substituteOne left eval (.parameter index))
      (substituteOne right other (.parameter index)) := by
  refine ⟨?_, fun scene => ?_, fun {scene} h => ?_⟩
  · funext scene
    rw [substituteOne, substituteOne, bindingTokens_eq hsettings]
  · rw [substituteOne]
    split <;> rfl
  · rw [substituteOne]
    split
    · next binding hbinding => exact quiet_bindingTokens h (List.mem_of_getElem? hbinding)
    · exact .nil key

theorem quiet_allPositionals :
    QuietRun key (substituteOne left eval .allPositionals)
      (substituteOne right other .allPositionals) := by
  refine .ofTokens ?_ fun {scene} h => .flatMap fun binding hbinding => ?_
  · funext scene
    rw [bindingTokens_eq hsettings]
  · obtain ⟨pair, hpair, rfl⟩ := List.mem_map.mp hbinding
    exact quiet_bindingTokens h (List.of_mem_zip (List.mem_filter.mp hpair |>.1)).2

end Substitution

mutual

/-- One directive, by the form of it. -/
theorem quiet_substituteOne {key : String} {left right : Environment}
    (hsettings : right.settings = left.settings) {eval other : Evaluator} (directive : Directive)
    (h : directive.Silent key) :
    QuietRun key (substituteOne left eval directive) (substituteOne right other directive) := by
  match directive, h with
  | .literal tokens, .literal htokens => exact quiet_literal hsettings htokens
  | .parameter index, _ => exact quiet_parameter hsettings index
  | .allPositionals, _ => exact quiet_allPositionals hsettings
  | .call function arguments span, .call hfunction harguments =>
    refine .orFail ((same_operandTexts arguments harguments).bind fun texts =>
      same_applyBuiltin hfunction texts span) (fun text => ?_) span
    exact .ofTokens rfl fun _ => .inert key _
  | .cond condition thenBranch elseBranch, .cond hcondition hthen helse =>
    have hleft := funext (substituteOne_cond left eval condition thenBranch elseBranch)
    have hright := funext (substituteOne_cond right other condition thenBranch elseBranch)
    rw [hleft, hright]
    refine .orFail (same_evaluate hcondition) (fun value => ?_) (.point 0)
    cases truth value with
    | true => exact (quiet_substitute hsettings thenBranch hthen).within "!IF"
    | false =>
        match elseBranch with
        | some branch => exact (quiet_substitute hsettings branch (helse branch rfl)).within "!IF"
        | none => exact .silent
  | .doRange variableName first last step body span, .doRange hfirst hlast hstep hbody =>
    refine QuietRun.within
      (.orFail (same_loopBounds hfirst hlast hstep) (fun bounds => ?_) span) "!DO"
    rw [hsettings]
    exact quiet_iterateRange hsettings (quiet_substitute hsettings body hbody) variableName
      bounds.2.1 bounds.2.2 span _ bounds.1
  | .doIn variableName list body span, .doIn hlist hbody =>
    refine QuietRun.within (.orFail (same_evaluate hlist) (fun text => ?_) span) "!DO"
    rw [hsettings]
    exact quiet_iterateList hsettings (quiet_substitute hsettings body hbody) variableName span _ _
  | .assign variableName value, .assign hvalue =>
    refine .orFail (same_evaluate hvalue) (fun text => ?_) (.point 0)
    exact .ofScene false fun _ => rfl
  | .setExpand enabled, _ => exact .ofScene false fun _ => rfl
  | .breakLoop, _ => exact .ofScene true fun _ => rfl
  | .invalid error span, _ => exact .fail { error, span := some span } span

theorem quiet_substitute {key : String} {left right : Environment}
    (hsettings : right.settings = left.settings) {eval other : Evaluator} (tree : List Directive)
    (h : ∀ d ∈ tree, d.Silent key) :
    QuietRun key (substitute left eval tree) (substitute right other tree) := by
  match tree with
  | [] => exact .silent
  | directive :: others =>
    obtain ⟨hdirective, hothers⟩ := List.forall_mem_cons.mp h
    exact (quiet_substituteOne hsettings directive hdirective).andThen
      (quiet_substitute hsettings others hothers)

end

/-! ### Scans -/

/-- No call in the expansion of the tokens binds a token that names the macro to a parameter whose
value is searched for calls. -/
inductive PassedInertly (env : Environment) (eval : Evaluator) (key : String) :
    Nat → List Emitted → Log → Prop
  | nil (depth : Nat) (log : Log) : PassedInertly env eval key depth [] log
  | copy {depth : Nat} {e : Emitted} {following : List Emitted} {log : Log}
      (he : callee? env e = none) (hrest : PassedInertly env eval key depth following log) :
      PassedInertly env eval key depth (e :: following) log
  | call {depth : Nat} {e : Emitted} {following : List Emitted} {log entered : Log}
      {d : Definition} {bound : BoundCall} (he : callee? env e = some d)
      (hbound : bindArguments d following = bound) (hentered : enterCall log d bound = entered)
      (hquiet : QuietBindings key bound.bindings)
      (hbody : depth + 1 ≤ env.settings.nestLimit →
        PassedInertly env eval key (depth + 1)
          (callBody env eval d bound.bindings (depth + 1) entered).1
          (callBody env eval d bound.bindings (depth + 1) entered).2)
      (hrest : PassedInertly env eval key depth bound.rest
        (leaveCall env depth e.token
          (callExpansion env eval depth d e.token bound.bindings entered))) :
      PassedInertly env eval key depth (e :: following) log

section Scans

variable {table : Table} {settings : Settings} {key : String} {eval other : Evaluator}

theorem callee?_without {e : Emitted} (h : e.token.names key = true → e.expandable = false) :
    callee? ⟨table.without key, settings⟩ e = callee? ⟨table, settings⟩ e := by
  unfold callee?
  split
  · next hcall =>
      obtain ⟨hexpandable, hname⟩ := Bool.and_eq_true_iff.mp hcall
      rw [Table.lookup_without, if_neg]
      intro hkey
      rw [h (Bool.and_eq_true_iff.mpr ⟨hname, beq_iff_eq.mpr hkey⟩)] at hexpandable
      contradiction
  · rfl

theorem mem_entries_of_callee {e : Emitted} {d : Definition}
    (h : callee? ⟨table, settings⟩ e = some d) : ∃ name, (name, d) ∈ table.entries := by
  unfold callee? at h
  split at h
  · obtain ⟨before, after, hentries, _⟩ := List.lookup_eq_some_iff.mp h
    exact ⟨_, by rw [hentries]; exact List.mem_append_right _ List.mem_cons_self⟩
  · contradiction

theorem quiet_callBody {d : Definition} (hsilent : ∀ directive ∈ d.body, directive.Silent key)
    {bindings : List Binding} (hbindings : QuietBindings key bindings) (depth : Nat) (log : Log) :
    callBody ⟨table.without key, settings⟩ other d bindings depth log =
        callBody ⟨table, settings⟩ eval d bindings depth log ∧
      Quiet key (callBody ⟨table, settings⟩ eval d bindings depth log).1 := by
  have hrun : QuietRun key (substitute ⟨table, settings⟩ eval d.body)
      (substitute ⟨table.without key, settings⟩ other d.body) := by
    refine quiet_substitute ?_ d.body hsilent
    rfl
  refine ⟨?_, hrun.tokens hbindings⟩
  rw [callBody, callBody, hrun.same]

theorem expandRecursively_without (htable : table.Silent key) {depth : Nat}
    {tokens : List Emitted} {log : Log}
    (h : PassedInertly ⟨table, settings⟩ eval key depth tokens log) (hquiet : Quiet key tokens) :
    expandRecursively ⟨table.without key, settings⟩ other depth tokens log =
      expandRecursively ⟨table, settings⟩ eval depth tokens log := by
  induction h with
  | nil depth log => rw [expandRecursively_nil, expandRecursively_nil]
  | copy he _ ih =>
      obtain ⟨hhead, hfollowing⟩ := List.forall_mem_cons.mp hquiet
      rw [expandRecursively_copy he, expandRecursively_copy ((callee?_without hhead).trans he),
        ih hfollowing]
  | @call depth e following log entered d bound he hbound hentered hbindings _ _ ihbody ihrest =>
      obtain ⟨hhead, hfollowing⟩ := List.forall_mem_cons.mp hquiet
      have hrest : Quiet key bound.rest := by
        obtain ⟨taken, htaken, _⟩ := bindArguments_leaves d following
        rw [hbound] at htaken
        exact fun f hf => hfollowing f (by rw [htaken]; exact List.mem_append_right taken hf)
      obtain ⟨name, hentry⟩ := mem_entries_of_callee he
      obtain ⟨hbody, hbodyQuiet⟩ := quiet_callBody (htable _ hentry) hbindings (depth + 1) entered
      have hexpansion :
          callExpansion ⟨table.without key, settings⟩ other depth d e.token bound.bindings entered =
            callExpansion ⟨table, settings⟩ eval depth d e.token bound.bindings entered := by
        unfold callExpansion
        split
        · next hdepth =>
            rw [hbody]
            exact ihbody hdepth hbodyQuiet
        · rfl
      rw [expandRecursively_call he, expandRecursively_call ((callee?_without hhead).trans he)]
      simp only [hbound, hentered, hexpansion]
      have hleave (expansion : List Token × Log) :
          leaveCall ⟨table.without key, settings⟩ depth e.token expansion =
            leaveCall ⟨table, settings⟩ depth e.token expansion := rfl
      rw [hleave, ihrest hrest]

/-- Where every value is kept from being searched, none is passed on otherwise. -/
theorem passedInertly_of_noExpand
    (htable : ∀ entry ∈ table.entries, ∀ p ∈ entry.2.parameters, p.noExpand = true) (depth : Nat)
    (tokens : List Emitted) (log : Log) :
    PassedInertly ⟨table, settings⟩ eval key depth tokens log := by
  induction depth, tokens using scan_induction settings.nestLimit generalizing log with
  | nil depth => exact .nil depth log
  | cons depth e following hdeeper hfollowing =>
      cases he : callee? ⟨table, settings⟩ e with
      | none => exact .copy he (hfollowing following (Nat.le_refl _) log)
      | some d =>
          obtain ⟨name, hentry⟩ := mem_entries_of_callee he
          refine .call he rfl rfl ?_ (fun hdepth => hdeeper hdepth _ _)
            (hfollowing _ (bindArguments_rest_le d following) _)
          intro b hb hexpandable
          obtain ⟨⟨p, value⟩, hpair, rfl⟩ := List.mem_map.mp hb
          have hsearched : (!p.noExpand) = true := hexpandable
          rw [htable _ hentry p (List.of_mem_zip hpair).1] at hsearched
          contradiction

end Scans

/-- A macro that is only named by inert tokens can be taken away, unless one of them is passed on in
an argument that is searched for calls. -/
theorem expandCalls_without (table : Table) (settings : Settings) (key : String)
    (tokens : List Emitted) (depth : Nat) (log : Log) (htable : table.Silent key)
    (hquiet : Quiet key tokens)
    (hpassed : PassedInertly ⟨table, settings⟩ (evaluator ⟨table, settings⟩) key depth tokens log) :
    expandCalls ⟨table.without key, settings⟩ tokens depth log =
      expandCalls ⟨table, settings⟩ tokens depth log := by
  rw [expandCalls, expandCalls, expandWith_eq_expandRecursively, expandWith_eq_expandRecursively]
  exact expandRecursively_without htable hpassed hquiet

/-- A macro that gives back its argument, which may be kept from being searched for calls. -/
def passOn (noExpand : Bool) : Definition where
  name := "pass"
  span := .point 0
  parameters := [{ role := .positional, capture := .tokens 1, noExpand }]
  body := [.parameter 0]

/-- A macro that stands for a word. -/
def called : Definition where
  name := "n"
  span := .point 0
  parameters := []
  body := [.literal [.word "called" (.point 0)]]

def passing (noExpand : Bool) : Table :=
  ⟨[("N", called), ("PASS", passOn noExpand)]⟩

/-- A call of `pass` with an inert `n`. -/
def passedName : List Emitted :=
  [⟨.word "pass" (.point 0), true⟩, ⟨.word "n" (.point 0), false⟩]

theorem silent_passing (noExpand : Bool) : (passing noExpand).Silent "N" := by
  intro entry hentry
  rcases List.mem_cons.mp hentry with rfl | hentry
  · refine List.forall_mem_singleton.mpr (.literal ?_)
    exact List.forall_mem_singleton.mpr (by decide)
  · obtain rfl := List.mem_singleton.mp hentry
    exact List.forall_mem_singleton.mpr (.parameter 0)

theorem quiet_passedName : Quiet "N" passedName := by
  decide

theorem expandCalls_without_passing :
    (passing true).Silent "N" ∧ Quiet "N" passedName ∧
      expandCalls ⟨(passing true).without "N", {}⟩ passedName 0 {} =
        expandCalls ⟨passing true, {}⟩ passedName 0 {} := by
  have hparameters : ∀ entry ∈ (passing true).entries, ∀ p ∈ entry.2.parameters,
      p.noExpand = true := by
    decide
  exact ⟨silent_passing true, quiet_passedName, expandCalls_without _ _ _ _ _ _
    (silent_passing true) quiet_passedName (passedInertly_of_noExpand hparameters _ _ _)⟩

/-- A call that takes all tokens gives what its body gives. -/
theorem expandRecursively_whole {env : Environment} {e : Emitted} {d : Definition}
    (he : callee? env e = some d) {following : List Emitted} {bindings : List Binding}
    (hbound : bindArguments d following = ⟨bindings, [], []⟩) {depth : Nat}
    (hdepth : depth + 1 ≤ env.settings.nestLimit) (eval : Evaluator) (log : Log) :
    (expandRecursively env eval depth (e :: following) log).1 =
      (expandRecursively env eval (depth + 1)
        (callBody env eval d bindings (depth + 1) (log.enter d.name)).1
        (callBody env eval d bindings (depth + 1) (log.enter d.name)).2).1 := by
  rw [expandRecursively_call he]
  simp only [hbound, callExpansion, if_pos hdepth, expandRecursively_nil, List.append_nil]
  rfl

theorem bindArguments_passOn (noExpand : Bool) :
    bindArguments (passOn noExpand) [⟨.word "n" (.point 0), false⟩] =
      ⟨[⟨[.word "n" (.point 0)], !noExpand⟩], [], []⟩ := by
  have hkeywords : Call.bindKeywords ⟨passOn noExpand, [⟨.word "n" (.point 0), false⟩]⟩
      { values := [some [.word "n" (.point 0)]], rest := [] } =
      { values := [some [.word "n" (.point 0)]], rest := [] } :=
    Call.bindKeywords_of_allBound rfl
  exact congrArg (fun state : Call.State => BoundCall.mk
    (((passOn noExpand).parameters.zip state.values).map fun pair => pair.1.bind pair.2) state.rest
    state.errors) hkeywords

/-- An inert name is called after all once it has been passed on in such an argument. -/
theorem inert_name_called :
    (passing false).Silent "N" ∧ Quiet "N" passedName ∧
      (∀ entry ∈ (passing false).entries, ∀ p ∈ entry.2.parameters, p.default = none) ∧
      (expandCalls ⟨(passing false).without "N", {}⟩ passedName 0 {}).1 = [.word "n" (.point 0)] ∧
      (expandCalls ⟨passing false, {}⟩ passedName 0 {}).1 = [.word "called" (.point 0)] := by
  have hbound := bindArguments_passOn false
  have hcalled : bindArguments called [] = ⟨[], [], []⟩ := bindArguments_of_no_parameters rfl []
  refine ⟨silent_passing false, quiet_passedName, by decide, ?_, ?_⟩
  · rw [expandCalls, expandWith_eq_expandRecursively, passedName,
      expandRecursively_whole rfl hbound (by decide)]
    refine (congrArg Prod.fst (expandRecursively_copy ?_ _ 1 [] _)).trans ?_
    · rfl
    · rw [expandRecursively_nil]
  · rw [expandCalls, expandWith_eq_expandRecursively, passedName,
      expandRecursively_whole rfl hbound (by decide)]
    refine (expandRecursively_whole ?_ hcalled (by decide) _ _).trans ?_
    · rfl
    refine (congrArg Prod.fst (expandRecursively_copy ?_ _ 2 [] _)).trans ?_
    · rfl
    · rw [expandRecursively_nil]

end Expansion

end CommandMacros

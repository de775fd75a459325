import Mathlib.Data.List.Forall2
import CommandMacros.Proofs.Body.Literals
import CommandMacros.Proofs.Expansion.Break
import CommandMacros.Proofs.Expansion.Inert
import CommandMacros.Proofs.Expansion.Reports
import CommandMacros.Proofs.Token.Lossless

/-!
Markers of errors. A directive that fails leaves a marker where its result would stand, and no
other token is one: the scanner gives error tokens too, but none with the text of a marker. So where
no text is expanded on the way, the markers that a body gives are those of the errors it reports,
one for each and in the same order, and what stands after a failure is run.
-/

namespace CommandMacros

/-- The token stands for a result that could not be produced. -/
def Token.isMarker (t : Token) : Bool :=
  t.isError && t.text == markerText

/-- The scanner gave the token, at this place or at another one. -/
def Token.Scanned (t : Token) : Prop :=
  ∃ text, ∃ u ∈ tokenize text, t = { u with span := t.span }

/-! ### Tokens of texts -/

namespace Scan

variable {afterOperand : Bool} {position : Nat} {c : Char} {cs : List Char}

theorem ofList_ne_markerText {taken : List Char} (h : taken.head? ≠ some '!' ∨ taken.length = 1) :
    String.ofList taken ≠ Token.markerText := by
  intro hmarker
  have htaken : taken = Token.markerText.toList := by rw [← hmarker, String.toList_ofList]
  subst htaken
  revert h
  decide

/-- An unclosed string begins with its delimiter. -/
theorem isMarker_scanQuoted (hc : Quoted.isDelimiter c = true) (cs : List Char) (position : Nat) :
    ((scanQuoted c cs).toToken position).isMarker = false := by
  unfold scanQuoted
  split
  · rfl
  · refine beq_false_of_ne (ofList_ne_markerText (.inl ?_))
    rintro ⟨⟩
    cases hc

/-- A bad character is alone. -/
theorem isMarker_scanSingle (c : Char) (cs : List Char) (position : Nat) :
    ((scanSingle c cs).toToken position).isMarker = false := by
  unfold scanSingle
  split
  · rfl
  · exact beq_false_of_ne (ofList_ne_markerText (.inr rfl))

theorem isMarker_lexeme (afterOperand : Bool) (c : Char) (cs : List Char) (position : Nat) :
    ((lexeme afterOperand c cs).toToken position).isMarker = false := by
  unfold lexeme
  split
  · next hquoted => exact isMarker_scanQuoted hquoted cs position
  split
  · rfl
  split
  · split
    · rfl
    · unfold scanPoint
      split <;> rfl
  split
  · rfl
  split
  · rfl
  split
  · rfl
  · unfold scanPunct
    split
    · split
      · rfl
      · exact isMarker_scanSingle ..
    · exact isMarker_scanSingle ..

theorem isMarker_of_mem_scan {t : Token} (ht : t ∈ scan position afterOperand cs) :
    t.isMarker = false := by
  fun_induction scan position afterOperand cs with
  | case1 => cases ht
  | case2 position afterOperand c cs hblank ih => exact ih ht
  | case3 position afterOperand c cs hblank next ih =>
      rcases List.mem_cons.mp ht with rfl | ht
      · exact isMarker_lexeme ..
      · exact ih ht

end Scan

theorem Token.Scanned.isMarker {t : Token} (h : t.Scanned) : t.isMarker = false := by
  obtain ⟨text, u, hu, ht⟩ := h
  have hu : u.isMarker = false := Scan.isMarker_of_mem_scan hu
  rw [ht]
  exact hu

theorem scanned_of_mem_tokenizeAt {text : String} {span : Span} {t : Token}
    (h : t ∈ tokenizeAt text span) : t.Scanned := by
  obtain ⟨u, hu, rfl⟩ := List.mem_map.mp h
  exact ⟨text, u, hu, rfl⟩

/-! ### Directives that expand no text -/

/-- There is no `!EVAL` in the directive. -/
inductive Directive.EvalFree : Directive → Prop
  | literal (tokens : List Token) : EvalFree (.literal tokens)
  | parameter (index : Nat) : EvalFree (.parameter index)
  | allPositionals : EvalFree .allPositionals
  | call {function : Builtin} {arguments : List Operand} {span : Span}
      (h : (Operand.call function arguments span).EvalFree) :
      EvalFree (.call function arguments span)
  | cond {condition : Expr} {thenBranch : List Directive} {elseBranch : Option (List Directive)}
      (hcondition : condition.EvalFree) (hthen : ∀ d ∈ thenBranch, EvalFree d)
      (helse : ∀ branch ∈ elseBranch, ∀ d ∈ branch, EvalFree d) :
      EvalFree (.cond condition thenBranch elseBranch)
  | doRange {variableName : String} {first last : Expr} {step : Option Expr}
      {body : List Directive} {span : Span} (hfirst : first.EvalFree) (hlast : last.EvalFree)
      (hstep : ∀ expr ∈ step, expr.EvalFree) (hbody : ∀ d ∈ body, EvalFree d) :
      EvalFree (.doRange variableName first last step body span)
  | doIn {variableName : String} {list : Expr} {body : List Directive} {span : Span}
      (hlist : list.EvalFree) (hbody : ∀ d ∈ body, EvalFree d) :
      EvalFree (.doIn variableName list body span)
  | assign {variableName : String} {value : Expr} (hvalue : value.EvalFree) :
      EvalFree (.assign variableName value)
  | setExpand (enabled : Bool) : EvalFree (.setExpand enabled)
  | breakLoop : EvalFree .breakLoop
  | invalid (error : MacroError) (span : Span) : EvalFree (.invalid error span)

namespace Expansion

/-! ### Failures of expressions -/

section Failures

variable {α β : Type} {eval : Evaluator}

/-- What the computation fails with is an error and no warning. -/
def FailsInError (computation : Eval α) : Prop :=
  ∀ scene after d, computation scene = .error d after → d.severity = .error

namespace FailsInError

theorem bind {first : Eval α} {next : α → Eval β} (h : FailsInError first)
    (hnext : ∀ value, FailsInError (next value)) : FailsInError (first >>= next) := by
  intro scene after d hfails
  change EStateM.bind first next scene = _ at hfails
  unfold EStateM.bind at hfails
  split at hfails
  · exact hnext _ _ _ _ hfails
  · next hfirst =>
      cases hfails
      exact h _ _ _ hfirst

theorem read (f : Activation → α) : FailsInError fun scene => .ok (f scene.activation) scene := by
  rintro _ _ _ ⟨⟩

theorem pure (value : α) : FailsInError (Pure.pure value) :=
  read fun _ => value

theorem throw (f : Activation → Diagnostic) (hf : ∀ activation, (f activation).severity = .error) :
    FailsInError fun scene => (.error (f scene.activation) scene : EStateM.Result _ _ α) := by
  rintro scene _ _ ⟨⟩
  exact hf _

end FailsInError

theorem failsInError_applyBuiltin (function : Builtin) (arguments : List String) (span : Span) :
    FailsInError (applyBuiltin eval function arguments span) := by
  by_cases hfunction : function = .eval
  · subst hfunction
    rintro _ _ _ ⟨⟩
  · unfold applyBuiltin
    simp only [Builtin.apply_of_ne_eval _ hfunction]
    cases function.compute arguments with
    | ok text => exact .pure text
    | error cause =>
        exact .throw (fun _ => { error := .call function cause, span := some span }) fun _ => rfl

mutual

theorem failsInError_operandText (operand : Operand) : FailsInError (operandText eval operand) := by
  match operand with
  | .token t => exact .read fun activation => activation.tokenText t
  | .parameter index => exact .read fun activation => argumentText activation index
  | .allPositionals => exact .read positionalsText
  | .call function arguments span =>
    exact (failsInError_operandTexts arguments).bind fun texts =>
      failsInError_applyBuiltin function texts span

theorem failsInError_operandTexts (operands : List Operand) :
    FailsInError (operandTexts eval operands) := by
  match operands with
  | [] => exact .pure []
  | operand :: others =>
    exact (failsInError_operandText operand).bind fun text =>
      (failsInError_operandTexts others).bind fun texts => .pure (text :: texts)

end

theorem failsInError_evaluate (expr : Expr) : FailsInError (evaluate eval expr) := by
  induction expr with
  | or left right ihleft ihright => exact ihleft.bind fun _ => ihright.bind fun _ => .pure _
  | and left right ihleft ihright => exact ihleft.bind fun _ => ihright.bind fun _ => .pure _
  | not inner ih => exact ih.bind fun _ => .pure _
  | relation relation left right ihleft ihright =>
      exact ihleft.bind fun _ => ihright.bind fun _ => .pure _
  | operand operand => exact (failsInError_operandText operand).bind fun _ => .pure _

theorem failsInError_evaluateNumber (expr : Expr) : FailsInError (evaluateNumber eval expr) := by
  refine (failsInError_evaluate expr).bind fun text => ?_
  cases singleNumber? text with
  | some value => exact .pure value
  | none =>
      exact .throw (fun activation =>
        { error := .binding activation.definition.name (.notANumber text) }) fun _ => rfl

theorem failsInError_loopBounds (first last : Expr) (step : Option Expr) :
    FailsInError (loopBounds eval first last step) := by
  refine (failsInError_evaluateNumber first).bind fun first => ?_
  refine (failsInError_evaluateNumber last).bind fun last => ?_
  have hstep : FailsInError (loopStep eval first last step) := by
    cases step with
    | some step => exact failsInError_evaluateNumber step
    | none => exact .pure _
  refine hstep.bind fun step => ?_
  refine FailsInError.bind ?_ fun step => .pure (first, last, step)
  unfold nonzeroStep
  cases step == 0.0 with
  | true =>
      exact .throw (fun activation =>
        { error := .binding activation.definition.name .zeroStep }) fun _ => rfl
  | false => exact .pure step

end Failures

/-! ### Runs of directives -/

/-- The token is the marker of the diagnostic, and is not searched for calls. -/
structure Marks (e : Emitted) (d : Diagnostic) : Prop where
  token : e.token = .errorMarker d.message e.token.span
  span : ∀ span ∈ d.span, e.token.span = span
  inert : e.expandable = false

theorem marks_errorMarker (d : Diagnostic) (fallback : Span) :
    Marks ⟨.errorMarker d.message (d.span.getD fallback), false⟩ d := by
  refine ⟨rfl, fun span hspan => ?_, rfl⟩
  rw [Option.mem_def] at hspan
  rw [hspan]
  rfl

/-- The markers among the tokens. -/
def markers (tokens : List Emitted) : List Emitted :=
  tokens.filter (·.token.isMarker)

/-- The diagnostics that are no warnings. -/
def errors (reported : List Diagnostic) : List Diagnostic :=
  reported.filter (·.severity == .error)

/-- From the scene on, each error that was reported has left its marker, and there are no other
markers. -/
structure MarksErrors (scene : Scene) (emission : Emission) : Prop where
  bindings : emission.scene.activation.bindings = scene.activation.bindings
  matched : ∃ reported,
    emission.scene.log.diagnostics.toList = scene.log.diagnostics.toList ++ reported ∧
      List.Forall₂ Marks (markers emission.tokens) (errors reported)

/-- There is no marker among the arguments. -/
def MarkerFree (scene : Scene) : Prop :=
  ∀ binding ∈ scene.activation.bindings, ∀ t ∈ binding.tokens, t.isMarker = false

/-- The run leaves the markers of its errors, unless it was given others. -/
def MarkedRun (run : Scene → Emission) : Prop :=
  ∀ scene, MarkerFree scene → MarksErrors scene (run scene)

theorem markers_append (tokens others : List Emitted) :
    markers (tokens ++ others) = markers tokens ++ markers others :=
  List.filter_append ..

theorem errors_append (reported others : List Diagnostic) :
    errors (reported ++ others) = errors reported ++ errors others :=
  List.filter_append ..

namespace MarksErrors

variable {scene : Scene} {first second : Emission}

/-- Tokens that are no markers, and nothing reported. -/
theorem plain (htokens : ∀ e ∈ first.tokens, e.token.isMarker = false)
    (hbindings : first.scene.activation.bindings = scene.activation.bindings)
    (hlog : first.scene.log.diagnostics = scene.log.diagnostics) : MarksErrors scene first := by
  refine ⟨hbindings, [], by rw [hlog, List.append_nil], ?_⟩
  have hmarkers : markers first.tokens = [] :=
    List.filter_eq_nil_iff.mpr fun e he => Bool.eq_false_iff.mp (htokens e he)
  rw [hmarkers]
  exact .nil

/-- One more report goes with its marker, or is a warning and goes without one. -/
theorem report {tokens : List Emitted} {d : Diagnostic}
    (h : List.Forall₂ Marks (markers tokens) (errors [scene.log.reported d])) :
    MarksErrors scene (.ofTokens tokens (scene.report d)) :=
  ⟨rfl, [scene.log.reported d], Array.toList_push, h⟩

theorem fail {d : Diagnostic} (hd : d.severity = .error) (fallback : Span) :
    MarksErrors scene (fail scene d fallback) := by
  refine report ?_
  have herrors : errors [scene.log.reported d] = [scene.log.reported d] :=
    List.filter_eq_self.mpr (List.forall_mem_singleton.mpr (beq_iff_eq.mpr hd))
  rw [herrors]
  exact .cons (marks_errorMarker (scene.log.reported d) fallback) .nil

theorem warning {d : Diagnostic} (hd : d.severity = .warning) :
    MarksErrors scene (.silent (scene.report d)) := by
  refine report ?_
  have herrors : errors [scene.log.reported d] = [] := by
    refine List.filter_eq_nil_iff.mpr (List.forall_mem_singleton.mpr ?_)
    change ¬(d.severity == .error) = true
    rw [hd]
    decide
  rw [herrors]
  exact .nil

/-- What comes first leaves its markers first. -/
theorem after (h : MarksErrors scene first) (hnext : MarksErrors first.scene second) :
    MarksErrors scene (second.after first.tokens) := by
  obtain ⟨reported, hreported, hmarks⟩ := h.matched
  obtain ⟨more, hmore, hmoreMarks⟩ := hnext.matched
  refine ⟨hnext.bindings.trans h.bindings, reported ++ more, ?_, ?_⟩
  · change second.scene.log.diagnostics.toList = _
    rw [hmore, hreported, List.append_assoc]
  · change List.Forall₂ Marks (markers (first.tokens ++ second.tokens)) _
    rw [markers_append, errors_append]
    exact List.rel_append hmarks hmoreMarks

theorem endLoop (h : MarksErrors scene first) (leftOver : Prop) [Decidable leftOver]
    {d : Diagnostic} (hd : d.severity = .warning) :
    MarksErrors scene (first.endLoop leftOver d) := by
  unfold Emission.endLoop
  split
  · have hwarned := h.after (warning hd)
    rw [Emission.after, Emission.silent, List.append_nil] at hwarned
    exact hwarned
  · exact ⟨h.bindings, h.matched⟩

end MarksErrors

namespace MarkedRun

variable {α : Type} {eval : Evaluator} {run next body : Scene → Emission}

theorem silent : MarkedRun Emission.silent :=
  fun _ _ => .plain (List.forall_mem_nil _) rfl rfl

/-- A change of the variables or of a switch. -/
theorem ofScene {f : Scene → Scene} (broken : Bool)
    (hbindings : ∀ scene, (f scene).activation.bindings = scene.activation.bindings)
    (hlog : ∀ scene, (f scene).log = scene.log) : MarkedRun fun scene => ⟨[], broken, f scene⟩ := by
  intro scene _
  exact .plain (List.forall_mem_nil _) (hbindings scene) (by rw [hlog])

theorem orFail {computation : Eval α} (hreads : SameReading computation computation)
    (herrors : FailsInError computation) {next : α → Scene → Emission}
    (hnext : ∀ value, MarkedRun (next value)) (fallback : Span) :
    MarkedRun (orFail computation fallback next) := by
  intro scene hfree
  unfold Expansion.orFail
  cases hresult : computation scene with
  | ok value between =>
      obtain rfl := hreads.ok hresult
      exact hnext value _ hfree
  | error d between =>
      obtain rfl := hreads.error hresult
      exact .fail (herrors _ _ _ hresult) fallback

theorem andThen (h : MarkedRun run) (hnext : MarkedRun next) :
    MarkedRun fun scene => (run scene).andThen next := by
  intro scene hfree
  have hfirst := h scene hfree
  dsimp only [Emission.andThen]
  split
  · exact hfirst
  · refine hfirst.after (hnext _ ?_)
    rw [MarkerFree, hfirst.bindings]
    exact hfree

theorem within (h : MarkedRun run) (name : String) : MarkedRun (within name run) := by
  intro scene hfree
  have hrun := h (scene.enter name) hfree
  exact ⟨hrun.bindings, hrun.matched⟩

theorem iteration (h : MarkedRun body) (variableName value : String) :
    MarkedRun (iteration body variableName value) := by
  intro scene hfree
  have hrun := h (scene.setVariable variableName value) hfree
  exact ⟨hrun.bindings, hrun.matched⟩

theorem passes (h : MarkedRun body) (variableName : String) (values : List String) :
    MarkedRun (passes body variableName values) := by
  induction values with
  | nil => exact silent
  | cons value values ih => exact (h.iteration variableName value).andThen ih

end MarkedRun

/-! ### Directives -/

section Directives

variable {env : Environment} {eval : Evaluator}

/-- Tokens of a computed text are not markers. -/
theorem isMarker_inert (text : String) (span : Span) :
    ∀ e ∈ Emitted.inert (tokenizeAt text span), e.token.isMarker = false := by
  intro e he
  obtain ⟨t, ht, rfl⟩ := List.mem_map.mp he
  exact (scanned_of_mem_tokenizeAt ht).isMarker

theorem isMarker_literalTokens (scene : Scene) {t : Token} (ht : t.isMarker = false) :
    ∀ e ∈ literalTokens env scene t, e.token.isMarker = false := by
  unfold literalTokens
  split
  · exact isMarker_inert _ _
  · exact List.forall_mem_singleton.mpr ht

theorem isMarker_bindingTokens {scene : Scene} (h : MarkerFree scene) {binding : Binding}
    (hbinding : binding ∈ scene.activation.bindings) :
    ∀ e ∈ bindingTokens env scene binding, e.token.isMarker = false := by
  intro e he
  obtain ⟨t, ht, rfl⟩ := List.mem_map.mp he
  exact h binding hbinding t ht

theorem severity_of_ofBody {error : MacroError} (h : error.OfBody) : error.severity = .error := by
  cases error with
  | evaluation | call => rfl
  | definition | binding | nestingLimit | iterationLimit | evalNestingLimit | setting => cases h

/-- There is no `!EVAL` in the directive, its text has no markers, and its errors are those of
a body. -/
structure Markable (d : Directive) : Prop where
  evalFree : d.EvalFree
  spells : ∀ t, d.Spells t → t.isMarker = false
  errors : ∀ error, d.Holds error → error.OfBody

theorem marked_iterateRange {body : Scene → Emission} (h : MarkedRun body) (variableName : String)
    (last step : Float) (span : Span) (remaining : Nat) (index : Float) :
    MarkedRun (iterateRange env body variableName last step span remaining index) := by
  intro scene hfree
  rw [iterateRange_eq]
  exact (h.passes variableName _ scene hfree).endLoop _ rfl

theorem marked_iterateList {body : Scene → Emission} (h : MarkedRun body) (variableName : String)
    (span : Span) (remaining : Nat) (values : List String) :
    MarkedRun (iterateList env body variableName span remaining values) := by
  intro scene hfree
  rw [iterateList_eq]
  exact (h.passes variableName _ scene hfree).endLoop _ rfl

mutual

/-- One directive, by the form of it. -/
theorem marked_substituteOne (d : Directive) (h : Markable d) :
    MarkedRun (substituteOne env eval d) := by
  obtain ⟨hfree, hspells, herrors⟩ := h
  match d, hfree with
  | .literal tokens, _ =>
    intro scene _
    refine .plain (fun e he => ?_) rfl rfl
    obtain ⟨t, ht, he⟩ := List.mem_flatMap.mp he
    exact isMarker_literalTokens scene (hspells t (.literal ht)) e he
  | .parameter index, _ =>
    intro scene hbindings
    rw [substituteOne]
    split
    · next binding hbinding =>
        exact .plain (isMarker_bindingTokens hbindings (List.mem_of_getElem? hbinding)) rfl rfl
    · exact MarkedRun.silent scene hbindings
  | .allPositionals, _ =>
    intro scene hbindings
    refine .plain (fun e he => ?_) rfl rfl
    obtain ⟨binding, hbinding, he⟩ := List.mem_flatMap.mp he
    exact isMarker_bindingTokens hbindings (mem_bindings_of_mem_positionals hbinding) e he
  | .call function arguments span, .call hcall =>
    have herror : FailsInError (callText eval function arguments span) :=
      failsInError_operandText (.call function arguments span)
    refine .orFail (same_operandText _ hcall) herror (fun text scene _ => ?_) span
    exact .plain (isMarker_inert text span) rfl rfl
  | .cond condition thenBranch elseBranch, .cond hcondition hthen helse =>
    rw [funext (substituteOne_cond env eval condition thenBranch elseBranch)]
    refine .orFail (same_evaluate hcondition) (failsInError_evaluate condition) (fun value => ?_)
      (.point 0)
    cases truth value with
    | true =>
        refine (marked_substitute thenBranch fun d hd => ?_).within "!IF"
        exact ⟨hthen d hd, fun t ht => hspells t (.thenBranch hd ht),
          fun error herror => herrors error (.thenBranch hd herror)⟩
    | false =>
        match elseBranch with
        | some branch =>
          refine (marked_substitute branch fun d hd => ?_).within "!IF"
          exact ⟨helse branch rfl d hd, fun t ht => hspells t (.elseBranch hd ht),
            fun error herror => herrors error (.elseBranch hd herror)⟩
        | none => exact .silent
  | .doRange variableName first last step body span, .doRange hfirst hlast hstep hbody =>
    have hmarked : MarkedRun (substitute env eval body) := by
      refine marked_substitute body fun d hd => ?_
      exact ⟨hbody d hd, fun t ht => hspells t (.doRange hd ht),
        fun error herror => herrors error (.doRange hd herror)⟩
    exact MarkedRun.within (.orFail (same_loopBounds hfirst hlast hstep)
      (failsInError_loopBounds first last step)
      (fun bounds => marked_iterateRange hmarked variableName _ _ span _ _) span) "!DO"
  | .doIn variableName list body span, .doIn hlist hbody =>
    have hmarked : MarkedRun (substitute env eval body) := by
      refine marked_substitute body fun d hd => ?_
      exact ⟨hbody d hd, fun t ht => hspells t (.doIn hd ht),
        fun error herror => herrors error (.doIn hd herror)⟩
    exact MarkedRun.within (.orFail (same_evaluate hlist) (failsInError_evaluate list)
      (fun text => marked_iterateList hmarked variableName span _ _) span) "!DO"
  | .assign variableName value, .assign hvalue =>
    refine .orFail (same_evaluate hvalue) (failsInError_evaluate value) (fun text => ?_) (.point 0)
    exact .ofScene false (fun _ => rfl) fun _ => rfl
  | .setExpand enabled, _ => exact .ofScene false (fun _ => rfl) fun _ => rfl
  | .breakLoop, _ => exact .ofScene true (fun _ => rfl) fun _ => rfl
  | .invalid error span, _ =>
    exact fun _ _ => .fail (severity_of_ofBody (herrors error (.invalid span))) span

theorem marked_substitute (tree : List Directive) (h : ∀ d ∈ tree, Markable d) :
    MarkedRun (substitute env eval tree) := by
  match tree with
  | [] => exact .silent
  | d :: others =>
    obtain ⟨hd, hothers⟩ := List.forall_mem_cons.mp h
    exact (marked_substituteOne d hd).andThen (marked_substitute others hothers)

end

/-! ### What stands after a failure -/

/-- The directive itself fails: an expression of it does, or it did not compile. -/
inductive Fails (eval : Evaluator) (scene : Scene) : Directive → Diagnostic → Prop
  | call {function : Builtin} {arguments : List Operand} {span : Span} {d : Diagnostic}
      {next : Scene} (h : callText eval function arguments span scene = .error d next) :
      Fails eval scene (.call function arguments span) d
  | cond {condition : Expr} {thenBranch : List Directive} {elseBranch : Option (List Directive)}
      {d : Diagnostic} {next : Scene} (h : evaluate eval condition scene = .error d next) :
      Fails eval scene (.cond condition thenBranch elseBranch) d
  | doRange {variableName : String} {first last : Expr} {step : Option Expr}
      {body : List Directive} {span : Span} {d : Diagnostic} {next : Scene}
      (h : loopBounds eval first last step (scene.enter "!DO") = .error d next) :
      Fails eval scene (.doRange variableName first last step body span) d
  | doIn {variableName : String} {list : Expr} {body : List Directive} {span : Span}
      {d : Diagnostic} {next : Scene} (h : evaluate eval list (scene.enter "!DO") = .error d next) :
      Fails eval scene (.doIn variableName list body span) d
  | assign {variableName : String} {value : Expr} {d : Diagnostic} {next : Scene}
      (h : evaluate eval value scene = .error d next) :
      Fails eval scene (.assign variableName value) d
  | invalid (error : MacroError) (span : Span) :
      Fails eval scene (.invalid error span) { error, span := some span }

/-- The marker of the diagnostic, and the scene with the diagnostic recorded under some stack. -/
def LeavesMarker (scene : Scene) (d : Diagnostic) (emission : Emission) : Prop :=
  ∃ marker stack, Marks marker d ∧
    emission = .ofTokens [marker]
      { scene with
        log := { scene.log with diagnostics := scene.log.diagnostics.push { d with stack } } }

theorem leavesMarker_fail (scene : Scene) (d : Diagnostic) (fallback : Span) :
    LeavesMarker scene d (fail scene d fallback) :=
  ⟨_, scene.log.stack.reverse, marks_errorMarker d fallback, rfl⟩

theorem leavesMarker_within {name : String} {run : Scene → Emission} {scene : Scene}
    {d : Diagnostic} (h : LeavesMarker (scene.enter name) d (run (scene.enter name))) :
    LeavesMarker scene d (within name run scene) := by
  obtain ⟨marker, stack, hmarks, hrun⟩ := h
  refine ⟨marker, stack, hmarks, ?_⟩
  rw [within, hrun]
  rfl

theorem leavesMarker_orFail {α : Type} {computation : Eval α} {next : α → Scene → Emission}
    {scene after : Scene} {d : Diagnostic} (hreads : SameReading computation computation)
    (h : computation scene = .error d after) (fallback : Span) :
    LeavesMarker scene d (orFail computation fallback next scene) := by
  obtain rfl := hreads.error h
  rw [orFail, h]
  exact leavesMarker_fail _ d fallback

/-- A failure leaves a marker and is recorded, and nothing else happens. -/
theorem leavesMarker_of_fails {directive : Directive} (hfree : directive.EvalFree) {scene : Scene}
    {d : Diagnostic} (h : Fails eval scene directive d) :
    LeavesMarker scene d (substituteOne env eval directive scene) := by
  cases h with
  | call h =>
      cases hfree with
      | call hcall => exact leavesMarker_orFail (same_operandText _ hcall) h _
  | cond h =>
      cases hfree with
      | cond hcondition =>
          rw [substituteOne_cond]
          exact leavesMarker_orFail (same_evaluate hcondition) h _
  | doRange h =>
      cases hfree with
      | doRange hfirst hlast hstep =>
          exact leavesMarker_within
            (leavesMarker_orFail (same_loopBounds hfirst hlast hstep) h _)
  | doIn h =>
      cases hfree with
      | doIn hlist => exact leavesMarker_within (leavesMarker_orFail (same_evaluate hlist) h _)
  | assign h =>
      cases hfree with
      | assign hvalue => exact leavesMarker_orFail (same_evaluate hvalue) h _
  | invalid error span => exact leavesMarker_fail scene _ span

/-- What was compiled from tokens of the scanner has no markers in it. -/
theorem markable_compile {parameters : List Parameter} {tokens : List Token}
    (htokens : ∀ t ∈ tokens, t.Scanned)
    (hfree : ∀ d ∈ Body.compile parameters tokens, d.EvalFree) :
    ∀ d ∈ Body.compile parameters tokens, Markable d := by
  intro d hd
  have hspells := Body.spells_compile parameters fun t ht => (htokens t ht).isMarker
  exact ⟨hfree d hd, hspells d hd, Body.compile_holdOnly parameters tokens d hd⟩

end Directives

/-- Every error leaves its marker. Where a body was compiled from tokens of the scanner, has no
`!EVAL` in it and is given no markers, the markers among its tokens are those of the errors that it
reports, in order, each with the message and the place of the error, and inert. A directive that
fails, at any level, leaves its marker and no more, and the directives after it are run. -/
theorem markers_match_errors (env : Environment) (eval : Evaluator) (parameters : List Parameter)
    {tokens : List Token} (htokens : ∀ t ∈ tokens, t.Scanned)
    (hfree : ∀ d ∈ Body.compile parameters tokens, d.EvalFree) {scene : Scene}
    (hbindings : MarkerFree scene) :
    (let emission := substitute env eval (Body.compile parameters tokens) scene
      ∃ reported,
        emission.scene.log.diagnostics.toList = scene.log.diagnostics.toList ++ reported ∧
          List.Forall₂ Marks (markers emission.tokens) (errors reported)) ∧
      ∀ before directive after start next given d, directive.EvalFree →
        substitute env eval before start = ⟨given, false, next⟩ → Fails eval next directive d →
        ∃ failure, LeavesMarker next d failure ∧
          substitute env eval (before ++ directive :: after) start =
            (substitute env eval after failure.scene).after (given ++ failure.tokens) := by
  constructor
  · exact (marked_substitute _ (markable_compile htokens hfree) scene hbindings).matched
  · intro before directive after start next given d hdirective hbefore hfails
    have hmarker : LeavesMarker next d (substituteOne env eval directive next) :=
      leavesMarker_of_fails hdirective hfails
    refine ⟨_, hmarker, ?_⟩
    have hbroken : (substituteOne env eval directive next).broken = false := by
      obtain ⟨marker, stack, -, hone⟩ := hmarker
      rw [hone]
      rfl
    rw [substitute_append, hbefore, Emission.andThen_of_not_broken rfl, substitute,
      Emission.andThen_of_not_broken hbroken, Emission.after_after]

/-- A string that is not closed. -/
def unclosed : Token :=
  ⟨.error Scan.unterminatedMessage, "'open", .point 0⟩

/-- A `!BREAK` in no loop leaves a marker, and what stands after it is given. The scanner's own
error is copied and is no marker. -/
theorem markers_of_misplaced_break :
    let env : Environment := ⟨⟨[]⟩, {}⟩
    let tokens := [word "!BREAK", unclosed]
    let misplaced : Directive := .invalid (.evaluation .breakOutsideLoop) (.point 0)
    let scene : Scene :=
      ⟨{ definition := ⟨"m", .point 0, [], []⟩, bindings := [], depth := 1 }, {}⟩
    let tree := Body.compile [] tokens
    let emission := substitute env (evaluator env) tree scene
    (∀ t ∈ tokens, t.Scanned) ∧ (∀ d ∈ tree, d.EvalFree) ∧ MarkerFree scene ∧
      emission.tokens =
        [⟨.errorMarker "!BREAK outside !DO" (.point 0), false⟩, ⟨unclosed, true⟩] ∧
      (∃ reported, emission.scene.log.diagnostics.toList = reported ∧
        List.Forall₂ Marks (markers emission.tokens) (errors reported)) ∧
      ∃ d failure, Fails (evaluator env) scene misplaced d ∧ LeavesMarker scene d failure ∧
        emission = (substitute env (evaluator env) [.literal [unclosed]] failure.scene).after
          failure.tokens := by
  intro env tokens misplaced scene tree emission
  have htokens : ∀ t ∈ tokens, t.Scanned := by
    have hbreak : ⟨.identifier, "!BREAK", ⟨0, 6⟩⟩ ∈ tokenize "!BREAK" := by decide +kernel
    have hopen : { unclosed with span := ⟨0, 5⟩ } ∈ tokenize "'open" := by decide +kernel
    refine List.forall_mem_cons.mpr ⟨⟨"!BREAK", _, hbreak, rfl⟩, ?_⟩
    exact List.forall_mem_singleton.mpr ⟨"'open", _, hopen, rfl⟩
  have htree : tree = [misplaced, .literal [unclosed]] := rfl
  have hfree : ∀ d ∈ tree, d.EvalFree := by
    rw [htree]
    exact List.forall_mem_cons.mpr ⟨.invalid _ _, List.forall_mem_singleton.mpr (.literal _)⟩
  have hbindings : MarkerFree scene := List.forall_mem_nil _
  obtain ⟨hmatched, hfailed⟩ := markers_match_errors env (evaluator env) [] htokens hfree hbindings
  have hfails : Fails (evaluator env) scene misplaced
      { error := .evaluation .breakOutsideLoop, span := some (.point 0) } := .invalid _ _
  obtain ⟨failure, hmarker, hrest⟩ :=
    hfailed [] _ [.literal [unclosed]] scene scene [] _ (.invalid _ _) rfl hfails
  refine ⟨htokens, hfree, hbindings, ?_, hmatched, _, failure, hfails, hmarker, ?_⟩
  · change (substitute env (evaluator env) tree scene).tokens = _
    rw [htree]
    rfl
  · change substitute env (evaluator env) tree scene = _
    rw [htree]
    exact hrest

end Expansion

end CommandMacros

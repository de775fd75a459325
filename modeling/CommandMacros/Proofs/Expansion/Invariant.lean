import CommandMacros.Proofs.Body.Literals
import CommandMacros.Proofs.Expansion.Coupling
import CommandMacros.Proofs.Expansion.Sound

/-!
What an expansion keeps. An invariant is a condition on tokens, which those of every scanned text
and the markers of errors satisfy, and a condition on logs, which everything that is done to a log
from some depth on preserves. Where the macros of the table are made of such tokens, an expansion of
such tokens gives such tokens again, with such a log.
-/

namespace CommandMacros.Expansion

/-- A condition on the tokens of an expansion, and one on its log from the depth `floor` on. -/
structure Invariant (env : Environment) where
  token : Token → Prop
  log : Log → Prop
  floor : Nat
  scanned (text : String) (span : Span) {t : Token} (h : t ∈ tokenizeAt text span) : token t
  marker (message : String) (span : Span) : token (.errorMarker message span)
  enter {l : Log} (h : log l) (name : String) : log (l.enter name)
  leave {l : Log} (h : log l) : log l.leave
  report {l : Log} (h : log l) (d : Diagnostic) : log (l.report d)
  echo {l : Log} (h : log l) {depth : Nat} (hdepth : floor ≤ depth) (name : Token)
    (expansion : Unit → List Token) : log (echoExpansion l (echoName? env depth name) expansion)
  body {e : Emitted} {d : Definition} (h : callee? env e = some d) : SpellOnly token d.body
  defaults {e : Emitted} {d : Definition} (h : callee? env e = some d) :
    ∀ p ∈ d.parameters, ∀ t ∈ p.defaultTokens, token t

namespace Invariant

variable {env : Environment} (I : Invariant env) {α β : Type}

/-- A scene that is deep enough, with such arguments and such a log. -/
structure Admits (scene : Scene) : Prop where
  depth : I.floor ≤ scene.activation.depth
  log : I.log scene.log
  bindings : ∀ binding ∈ scene.activation.bindings, ∀ t ∈ binding.tokens, I.token t

/-- Such tokens and such a scene. -/
structure Emits (emission : Emission) : Prop where
  tokens : ∀ e ∈ emission.tokens, I.token e.token
  scene : I.Admits emission.scene

/-- Such tokens and such a log. -/
structure Expands (expansion : List Token × Log) : Prop where
  tokens : ∀ t ∈ expansion.1, I.token t
  log : I.log expansion.2

/-- The computation goes from such scenes to such scenes. -/
def KeepsEval (computation : Eval α) : Prop :=
  ∀ scene, I.Admits scene → I.Admits (Coupling.finalScene (computation scene))

/-- The run goes from such scenes to such scenes, and gives such tokens. -/
def KeepsRun (run : Scene → Emission) : Prop :=
  ∀ scene, I.Admits scene → I.Emits (run scene)

/-- The scan goes from such logs to such logs, and gives such tokens. -/
def KeepsScan (scan : Log → List Token × Log) : Prop :=
  ∀ log, I.log log → I.Expands (scan log)

/-- The evaluator goes from such scenes to such scenes, whatever the text. -/
def KeepsTexts (eval : Evaluator) : Prop :=
  ∀ text span scene, I.Admits scene → I.Admits (eval text span scene).2

variable {I}

/-- Variables and switches do not count. -/
theorem Admits.congr {scene other : Scene} (h : I.Admits scene)
    (hdepth : other.activation.depth = scene.activation.depth)
    (hbindings : other.activation.bindings = scene.activation.bindings) (hlog : I.log other.log) :
    I.Admits other :=
  ⟨hdepth ▸ h.depth, hlog, hbindings ▸ h.bindings⟩

theorem Admits.report {scene : Scene} (h : I.Admits scene) (d : Diagnostic) :
    I.Admits (scene.report d) :=
  h.congr rfl rfl (I.report h.log d)

theorem Admits.enter {scene : Scene} (h : I.Admits scene) (name : String) :
    I.Admits (scene.enter name) :=
  h.congr rfl rfl (I.enter h.log name)

theorem Admits.leave {scene : Scene} (h : I.Admits scene) : I.Admits scene.leave :=
  h.congr rfl rfl (I.leave h.log)

theorem Admits.setVariable {scene : Scene} (h : I.Admits scene) (name value : String) :
    I.Admits (scene.setVariable name value) :=
  h.congr rfl rfl h.log

theorem Emits.silent {scene : Scene} (h : I.Admits scene) : I.Emits (.silent scene) :=
  ⟨List.forall_mem_nil _, h⟩

theorem Emits.after {emission : Emission} (h : I.Emits emission) {tokens : List Emitted}
    (htokens : ∀ e ∈ tokens, I.token e.token) : I.Emits (emission.after tokens) :=
  ⟨List.forall_mem_append.mpr ⟨htokens, h.tokens⟩, h.scene⟩

theorem Emits.fail {scene : Scene} (h : I.Admits scene) (d : Diagnostic) (fallback : Span) :
    I.Emits (fail scene d fallback) :=
  ⟨List.forall_mem_singleton.mpr (I.marker _ _), h.report d⟩

theorem emitted_ofTokens {tokens : List Token} (h : ∀ t ∈ tokens, I.token t) (expandable : Bool) :
    ∀ e ∈ Emitted.ofTokens expandable tokens, I.token e.token := by
  intro e he
  obtain ⟨t, ht, rfl⟩ := List.mem_map.mp he
  exact h t ht

theorem emitted_scanned (text : String) (span : Span) :
    ∀ e ∈ Emitted.inert (tokenizeAt text span), I.token e.token :=
  emitted_ofTokens (fun _ ht => I.scanned text span ht) false

/-! ### Expressions -/

theorem KeepsEval.bind {first : Eval α} {next : α → Eval β} (h : I.KeepsEval first)
    (hnext : ∀ value, I.KeepsEval (next value)) : I.KeepsEval (first >>= next) := by
  intro scene hscene
  have hfirst := h scene hscene
  change I.Admits (Coupling.finalScene (EStateM.bind first next scene))
  unfold EStateM.bind
  cases hresult : first scene with
  | ok value between =>
      rw [hresult] at hfirst
      exact hnext value between hfirst
  | error d between =>
      rw [hresult] at hfirst
      exact hfirst

/-- A value read off the activation. -/
theorem KeepsEval.read (f : Activation → α) :
    I.KeepsEval (fun scene => .ok (f scene.activation) scene) :=
  fun _ hscene => hscene

theorem KeepsEval.pure (value : α) : I.KeepsEval (Pure.pure value) :=
  .read fun _ => value

/-- An error that depends on the activation. -/
theorem KeepsEval.throw (f : Activation → Diagnostic) :
    I.KeepsEval (α := α) (fun scene => .error (f scene.activation) scene) :=
  fun _ hscene => hscene

variable {eval : Evaluator}

theorem keeps_applyBuiltin (heval : I.KeepsTexts eval) (function : Builtin)
    (arguments : List String) (span : Span) :
    I.KeepsEval (applyBuiltin eval function arguments span) := by
  by_cases hfunction : function = .eval
  · subst hfunction
    exact heval _ span
  · unfold applyBuiltin
    simp only [Builtin.apply_of_ne_eval _ hfunction]
    cases function.compute arguments with
    | ok text => exact .pure text
    | error cause => exact .throw fun _ => { error := .call function cause, span := some span }

mutual

theorem keeps_operandText (heval : I.KeepsTexts eval) (operand : Operand) :
    I.KeepsEval (operandText eval operand) := by
  match operand with
  | .token t => exact .read fun activation => activation.tokenText t
  | .parameter index => exact .read fun activation => argumentText activation index
  | .allPositionals => exact .read positionalsText
  | .call function arguments span =>
    exact (keeps_operandTexts heval arguments).bind fun texts =>
      keeps_applyBuiltin heval function texts span

theorem keeps_operandTexts (heval : I.KeepsTexts eval) (operands : List Operand) :
    I.KeepsEval (operandTexts eval operands) := by
  match operands with
  | [] => exact .pure []
  | operand :: others =>
    exact (keeps_operandText heval operand).bind fun text =>
      (keeps_operandTexts heval others).bind fun texts => .pure (text :: texts)

end

theorem keeps_evaluate (heval : I.KeepsTexts eval) (expr : Expr) :
    I.KeepsEval (evaluate eval expr) := by
  induction expr with
  | or left right ihleft ihright => exact ihleft.bind fun _ => ihright.bind fun _ => .pure _
  | and left right ihleft ihright => exact ihleft.bind fun _ => ihright.bind fun _ => .pure _
  | not inner ih => exact ih.bind fun _ => .pure _
  | relation relation left right ihleft ihright =>
      exact ihleft.bind fun _ => ihright.bind fun _ => .pure _
  | operand operand => exact (keeps_operandText heval operand).bind fun _ => .pure _

theorem keeps_evaluateNumber (heval : I.KeepsTexts eval) (expr : Expr) :
    I.KeepsEval (evaluateNumber eval expr) := by
  refine (keeps_evaluate heval expr).bind fun text => ?_
  cases singleNumber? text with
  | some value => exact .pure value
  | none =>
      exact .throw fun activation =>
        { error := .binding activation.definition.name (.notANumber text) }

theorem keeps_loopBounds (heval : I.KeepsTexts eval) (first last : Expr) (step : Option Expr) :
    I.KeepsEval (loopBounds eval first last step) := by
  refine (keeps_evaluateNumber heval first).bind fun first => ?_
  refine (keeps_evaluateNumber heval last).bind fun last => ?_
  have hstep : I.KeepsEval (loopStep eval first last step) := by
    cases step with
    | some step => exact keeps_evaluateNumber heval step
    | none => exact .pure _
  refine hstep.bind fun step => ?_
  refine KeepsEval.bind ?_ fun step => .pure (first, last, step)
  unfold nonzeroStep
  cases step == 0.0 with
  | true =>
      exact .throw fun activation => { error := .binding activation.definition.name .zeroStep }
  | false => exact .pure step

/-! ### Runs of directives -/

theorem KeepsRun.orFail {computation : Eval α} {next : α → Scene → Emission}
    (h : I.KeepsEval computation) (hnext : ∀ value, I.KeepsRun (next value)) (fallback : Span) :
    I.KeepsRun (orFail computation fallback next) := by
  intro scene hscene
  have hcomputation := h scene hscene
  unfold Expansion.orFail
  cases hresult : computation scene with
  | ok value between =>
      rw [hresult] at hcomputation
      exact hnext value between hcomputation
  | error d between =>
      rw [hresult] at hcomputation
      exact .fail hcomputation d fallback

theorem KeepsRun.andThen {first next : Scene → Emission} (h : I.KeepsRun first)
    (hnext : I.KeepsRun next) : I.KeepsRun (fun scene => (first scene).andThen next) := by
  intro scene hscene
  have hfirst := h scene hscene
  dsimp only [Emission.andThen]
  split
  · exact hfirst
  · exact (hnext _ hfirst.scene).after hfirst.tokens

theorem KeepsRun.andPasses {once others : Scene → Emission} (h : I.KeepsRun once)
    (hothers : I.KeepsRun others) : I.KeepsRun (fun scene => (once scene).andPasses others) := by
  intro scene hscene
  have honce := h scene hscene
  dsimp only [Emission.andPasses]
  split
  · exact ⟨honce.tokens, honce.scene⟩
  · exact (hothers _ honce.scene).after honce.tokens

theorem KeepsRun.within {run : Scene → Emission} (h : I.KeepsRun run) (name : String) :
    I.KeepsRun (within name run) := by
  intro scene hscene
  have hrun := h _ (hscene.enter name)
  exact ⟨hrun.tokens, hrun.scene.leave⟩

theorem KeepsRun.iteration {body : Scene → Emission} (h : I.KeepsRun body)
    (variableName value : String) : I.KeepsRun (iteration body variableName value) :=
  fun _ hscene => h _ (hscene.setVariable variableName value)

theorem KeepsRun.iterateRange {body : Scene → Emission} (h : I.KeepsRun body)
    (variableName : String) (last step : Float) (span : Span) (remaining : Nat) (index : Float) :
    I.KeepsRun (iterateRange env body variableName last step span remaining index) := by
  induction remaining generalizing index with
  | zero =>
      by_cases hbounds : withinBounds index last step = true
      · rw [iterateRange_limit hbounds]
        exact fun _ hscene => .silent (hscene.report _)
      · rw [iterateRange_past hbounds]
        exact fun _ hscene => .silent hscene
  | succ remaining ih =>
      by_cases hbounds : withinBounds index last step = true
      · rw [iterateRange_pass hbounds]
        exact (h.iteration variableName (Number.text index)).andPasses (ih (index + step))
      · rw [iterateRange_past hbounds]
        exact fun _ hscene => .silent hscene

theorem KeepsRun.iterateList {body : Scene → Emission} (h : I.KeepsRun body)
    (variableName : String) (span : Span) (remaining : Nat) (values : List String) :
    I.KeepsRun (iterateList env body variableName span remaining values) := by
  induction remaining generalizing values with
  | zero =>
      cases values with
      | nil => exact fun _ hscene => .silent hscene
      | cons value values => exact fun _ hscene => .silent (hscene.report _)
  | succ remaining ih =>
      cases values with
      | nil => exact fun _ hscene => .silent hscene
      | cons value values => exact (h.iteration variableName value).andPasses (ih values)

/-! ### Directives -/

theorem emitted_literalTokens (scene : Scene) {t : Token} (ht : I.token t) :
    ∀ e ∈ literalTokens env scene t, I.token e.token := by
  unfold literalTokens
  split
  · exact emitted_scanned _ _
  · exact List.forall_mem_singleton.mpr ht

theorem emitted_bindingTokens {scene : Scene} (h : I.Admits scene) {binding : Binding}
    (hbinding : binding ∈ scene.activation.bindings) :
    ∀ e ∈ bindingTokens env scene binding, I.token e.token :=
  emitted_ofTokens (h.bindings binding hbinding) _

mutual

/-- One directive, by the form of it. -/
theorem keeps_substituteOne (heval : I.KeepsTexts eval) (directive : Directive)
    (h : ∀ t, directive.Spells t → I.token t) : I.KeepsRun (substituteOne env eval directive) := by
  match directive with
  | .literal tokens =>
    intro scene hscene
    refine ⟨fun e he => ?_, hscene⟩
    obtain ⟨t, ht, he⟩ := List.mem_flatMap.mp he
    exact emitted_literalTokens scene (h t (.literal ht)) e he
  | .parameter index =>
    intro scene hscene
    rw [substituteOne]
    split
    · next binding hbinding =>
        exact ⟨emitted_bindingTokens hscene (List.mem_of_getElem? hbinding), hscene⟩
    · exact .silent hscene
  | .allPositionals =>
    intro scene hscene
    refine ⟨fun e he => ?_, hscene⟩
    obtain ⟨binding, hbinding, he⟩ := List.mem_flatMap.mp he
    exact emitted_bindingTokens hscene (mem_bindings_of_mem_positionals hbinding) e he
  | .call function arguments span =>
    refine .orFail ((keeps_operandTexts heval arguments).bind fun texts =>
      keeps_applyBuiltin heval function texts span) (fun text scene hscene => ?_) span
    exact ⟨emitted_scanned text span, hscene⟩
  | .cond condition thenBranch elseBranch =>
    rw [funext (substituteOne_cond env eval condition thenBranch elseBranch)]
    refine .orFail (keeps_evaluate heval condition) (fun value => ?_) (.point 0)
    cases truth value with
    | true =>
        have hbranch := keeps_substitute heval thenBranch fun d hd t ht => h t (.thenBranch hd ht)
        exact hbranch.within "!IF"
    | false =>
        match elseBranch with
        | some branch =>
          have hbranch := keeps_substitute heval branch fun d hd t ht => h t (.elseBranch hd ht)
          exact hbranch.within "!IF"
        | none => exact fun _ hscene => .silent hscene
  | .doRange variableName first last step body span =>
    have hbody := keeps_substitute heval body fun d hd t ht => h t (.doRange hd ht)
    exact KeepsRun.within (.orFail (keeps_loopBounds heval first last step)
      (fun bounds => hbody.iterateRange variableName _ _ span _ _) span) "!DO"
  | .doIn variableName list body span =>
    have hbody := keeps_substitute heval body fun d hd t ht => h t (.doIn hd ht)
    exact KeepsRun.within (.orFail (keeps_evaluate heval list)
      (fun text => hbody.iterateList variableName span _ _) span) "!DO"
  | .assign variableName value =>
    exact .orFail (keeps_evaluate heval value)
      (fun text _ hscene => .silent (hscene.setVariable variableName text)) (.point 0)
  | .setExpand enabled => exact fun _ hscene => .silent (hscene.congr rfl rfl hscene.log)
  | .breakLoop => exact fun _ hscene => ⟨List.forall_mem_nil _, hscene⟩
  | .invalid error span => exact fun _ hscene => .fail hscene _ span

theorem keeps_substitute (heval : I.KeepsTexts eval) (tree : List Directive)
    (h : SpellOnly I.token tree) : I.KeepsRun (substitute env eval tree) := by
  match tree with
  | [] => exact fun _ hscene => .silent hscene
  | directive :: others =>
    obtain ⟨hfirst, hothers⟩ := List.forall_mem_cons.mp h
    exact (keeps_substituteOne heval directive hfirst).andThen
      (keeps_substitute heval others hothers)

end

/-! ### Scans -/

theorem log_enterCall {l : Log} (h : I.log l) (d : Definition) (bound : BoundCall) :
    I.log (enterCall l d bound) := by
  have hreports {l : Log} (h : I.log l) (ds : List Diagnostic) : I.log (ds.foldl Log.report l) := by
    induction ds generalizing l with
    | nil => exact h
    | cons d ds ih => exact ih (I.report h d)
  exact hreports (I.enter h d.name) bound.errors

/-- What a call contributes, and the log before it is left. -/
theorem keeps_callExpansion (heval : I.KeepsTexts eval) {depth : Nat} (hdepth : I.floor ≤ depth + 1)
    (hdeeper : depth + 1 ≤ env.settings.nestLimit → ∀ body : List Emitted,
      (∀ e ∈ body, I.token e.token) → I.KeepsScan (expandRecursively env eval (depth + 1) body))
    {e : Emitted} {d : Definition} (hcallee : callee? env e = some d) (name : Token)
    {bindings : List Binding} (hbindings : ∀ binding ∈ bindings, ∀ t ∈ binding.tokens, I.token t) :
    I.KeepsScan (callExpansion env eval depth d name bindings) := by
  intro log hlog
  unfold callExpansion
  split
  · next hnest =>
      have hbody := keeps_substitute heval d.body (I.body hcallee)
        ⟨{ definition := d, bindings, depth := depth + 1 }, log⟩ ⟨hdepth, hlog, hbindings⟩
      exact hdeeper hnest _ hbody.tokens _ hbody.scene.log
  · exact ⟨List.forall_mem_nil _, I.report hlog _⟩

theorem keeps_expandRecursively (heval : I.KeepsTexts eval) (depth : Nat)
    (tokens : List Emitted) (hdepth : I.floor ≤ depth) (htokens : ∀ e ∈ tokens, I.token e.token) :
    I.KeepsScan (expandRecursively env eval depth tokens) := by
  induction depth, tokens using scan_induction env.settings.nestLimit with
  | nil depth =>
      intro log hlog
      rw [expandRecursively_nil]
      exact ⟨List.forall_mem_nil _, hlog⟩
  | cons depth e following hdeeper hfollowing =>
      obtain ⟨he, hafter⟩ := List.forall_mem_cons.mp htokens
      intro log hlog
      cases hcallee : callee? env e with
      | none =>
          have hrest := hfollowing following (Nat.le_refl _) hdepth hafter log hlog
          rw [expandRecursively_copy hcallee]
          exact ⟨List.forall_mem_cons.mpr ⟨he, hrest.tokens⟩, hrest.log⟩
      | some d =>
          obtain ⟨hbindings, hleft⟩ := bindArguments_all (I.defaults hcallee) hafter
          have hcall := keeps_callExpansion heval (Nat.le_succ_of_le hdepth)
            (fun hnest body => hdeeper hnest body (Nat.le_succ_of_le hdepth)) hcallee e.token
            hbindings _ (log_enterCall hlog d (bindArguments d following))
          rw [expandRecursively_call hcallee]
          dsimp only
          generalize callExpansion env eval depth d e.token _ _ = expansion at hcall ⊢
          have hleave := I.echo (I.leave hcall.log) hdepth e.token fun _ => expansion.1
          have hrest := hfollowing _ (bindArguments_rest_le d following) hdepth hleft _ hleave
          exact ⟨List.forall_mem_append.mpr ⟨hcall.tokens, hrest.tokens⟩, hrest.log⟩

theorem keeps_expandWith (heval : I.KeepsTexts eval) {tokens : List Emitted}
    (htokens : ∀ e ∈ tokens, I.token e.token) {depth : Nat} (hdepth : I.floor ≤ depth) :
    I.KeepsScan (expandWith env eval tokens depth) := by
  rw [funext (expandWith_eq_expandRecursively env eval tokens depth)]
  exact keeps_expandRecursively heval depth tokens hdepth htokens

theorem keeps_evaluateText (I : Invariant env) (levels : Nat) :
    I.KeepsTexts (evaluateText env levels) := by
  induction levels with
  | zero => exact fun _ _ _ hscene => hscene.report _
  | succ levels ih =>
      intro text span scene hscene
      have htree : SpellOnly I.token
          (Body.compile scene.activation.definition.parameters (tokenizeAt text span)) :=
        Body.spells_compile _ fun _ ht => I.scanned text span ht
      have hemission := keeps_substitute ih _ htree _ (hscene.enter "!EVAL")
      have hscan := keeps_expandWith ih hemission.tokens hemission.scene.depth _ hemission.scene.log
      exact hemission.scene.congr rfl rfl (I.leave hscan.log)

end Invariant

end CommandMacros.Expansion

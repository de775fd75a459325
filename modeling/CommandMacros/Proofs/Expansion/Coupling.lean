import CommandMacros.Proofs.Expansion.Continuation
import CommandMacros.Proofs.Expansion.FrameStack

/-!
Two expansions side by side. A coupling relates the logs of two runs under environments with the
same macros; what each run does to its log keeps the relation. Runs that begin with related logs
then go the same way: they give the same tokens and the same activation, and end with related logs.
The limits of the second environment may be higher, if the first run is given up where it meets a
limit of its own.
-/

namespace CommandMacros.Expansion

/-- A relation between the logs of two runs that every operation on logs keeps. `lost` says after
which diagnostics the first run is given up. -/
structure Coupling (left right : Environment) where
  rel : Log → Log → Prop
  lost : List Diagnostic → Prop
  lost_mono {before after : List Diagnostic} : before <+: after → lost before → lost after
  enter {l m : Log} (h : rel l m) (name : String) : rel (l.enter name) (m.enter name)
  leave {l m : Log} (h : rel l m) : rel l.leave m.leave
  report {l m : Log} (h : rel l m) (d : Diagnostic) : rel (l.report d) (m.report d)
  echo {l m : Log} (h : rel l m) (depth : Nat) (name : Token) (expansion : Unit → List Token) :
    rel (echoExpansion l (echoName? left depth name) expansion)
      (echoExpansion m (echoName? right depth name) expansion)
  table : right.table = left.table
  expand : right.settings.expand = left.settings.expand
  nest_le : left.settings.nestLimit ≤ right.settings.nestLimit
  nest_lost (hlt : left.settings.nestLimit < right.settings.nestLimit) {l m : Log} (h : rel l m)
    (d : Definition) (name : Token) : lost (l.report (nestingLimit left d name)).diagnostics.toList
  iterate_le : left.settings.iterateLimit ≤ right.settings.iterateLimit
  iterate_lost (hlt : left.settings.iterateLimit < right.settings.iterateLimit) {l m : Log}
    (h : rel l m) (span : Span) : lost (l.report (iterationLimit left span)).diagnostics.toList

namespace Coupling

variable {left right : Environment} (C : Coupling left right) {α β : Type}

/-- The run with this log is given up. -/
def Lost (log : Log) : Prop :=
  C.lost log.diagnostics.toList

/-- The same activation with related logs. -/
inductive Related : Scene → Scene → Prop
  | mk (activation : Activation) {l m : Log} (h : C.rel l m) :
      Related ⟨activation, l⟩ ⟨activation, m⟩

/-- The scene in which a computation ends. -/
def finalScene : EStateM.Result Diagnostic Scene α → Scene
  | .ok _ scene => scene
  | .error _ scene => scene

/-- The same value or the same error in related scenes. -/
inductive Results : EStateM.Result Diagnostic Scene α → EStateM.Result Diagnostic Scene α → Prop
  | lost {first second : EStateM.Result Diagnostic Scene α} (h : C.Lost (finalScene first).log) :
      Results first second
  | ok (value : α) {s r : Scene} (h : C.Related s r) : Results (.ok value s) (.ok value r)
  | error (d : Diagnostic) {s r : Scene} (h : C.Related s r) : Results (.error d s) (.error d r)

/-- The same tokens in related scenes. -/
inductive Emissions : Emission → Emission → Prop
  | lost {first second : Emission} (h : C.Lost first.scene.log) : Emissions first second
  | same (tokens : List Emitted) (broken : Bool) {s r : Scene} (h : C.Related s r) :
      Emissions ⟨tokens, broken, s⟩ ⟨tokens, broken, r⟩

/-- The same tokens with related logs. -/
inductive Expansions : α × Log → α × Log → Prop
  | lost {first second : α × Log} (h : C.Lost first.2) : Expansions first second
  | same (tokens : α) {l m : Log} (h : C.rel l m) : Expansions (tokens, l) (tokens, m)

/-- Two computations that go the same way from related scenes. -/
structure ParallelEval (first second : Eval α) : Prop where
  continues (scene : Scene) : scene.Continues (finalScene (first scene))
  results {s r : Scene} (h : C.Related s r) : C.Results (first s) (second r)

/-- Two runs of directives that go the same way from related scenes. -/
structure ParallelRun (first second : Scene → Emission) : Prop where
  continues (scene : Scene) : scene.Continues (first scene).scene
  emissions {s r : Scene} (h : C.Related s r) : C.Emissions (first s) (second r)

/-- Two scans that go the same way from related logs. -/
structure ParallelScan (first second : Log → List Token × Log) : Prop where
  continues (log : Log) : log.Continues (first log).2
  expansions {l m : Log} (h : C.rel l m) : C.Expansions (first l) (second m)

/-- The expansion of a text as a computation, which does not fail. -/
def expandText (eval : Evaluator) (text : String) (span : Span) : Eval String := fun scene =>
  .ok (eval text span scene).1 (eval text span scene).2

/-- Two evaluators that go the same way on every text. -/
def ParallelTexts (first second : Evaluator) : Prop :=
  ∀ text span, C.ParallelEval (expandText first text span) (expandText second text span)

variable {C}

theorem Lost.continues {before after : Log} (h : C.Lost before) (hlog : before.Continues after) :
    C.Lost after :=
  C.lost_mono hlog.diagnostics h

theorem Related.report {s r : Scene} (h : C.Related s r) (d : Diagnostic) :
    C.Related (s.report d) (r.report d) := by
  cases h with
  | mk activation h => exact .mk activation (C.report h d)

theorem Related.enter {s r : Scene} (h : C.Related s r) (name : String) :
    C.Related (s.enter name) (r.enter name) := by
  cases h with
  | mk activation h => exact .mk activation (C.enter h name)

theorem Related.leave {s r : Scene} (h : C.Related s r) : C.Related s.leave r.leave := by
  cases h with
  | mk activation h => exact .mk activation (C.leave h)

theorem Related.setVariable {s r : Scene} (h : C.Related s r) (name value : String) :
    C.Related (s.setVariable name value) (r.setVariable name value) := by
  cases h with
  | mk activation h => exact .mk (activation.setVariable name value) h

theorem Emissions.after {first second : Emission} (h : C.Emissions first second)
    (tokens : List Emitted) : C.Emissions (first.after tokens) (second.after tokens) := by
  cases h with
  | lost h => exact .lost h
  | same others broken h => exact .same (tokens ++ others) broken h

theorem Emissions.logs {first second : Emission} (h : C.Emissions first second) :
    C.Expansions (first.tokens, first.scene.log) (second.tokens, second.scene.log) := by
  cases h with
  | lost h => exact .lost h
  | same tokens broken h =>
      cases h with
      | mk activation h => exact .same tokens h

theorem Expansions.after {first second : List α × Log} (h : C.Expansions first second)
    (tokens : List α) : C.Expansions (tokens ++ first.1, first.2) (tokens ++ second.1, second.2) := by
  cases h with
  | lost h => exact .lost h
  | same others h => exact .same (tokens ++ others) h

/-! ### Expressions -/

theorem ParallelEval.bind {first second : Eval α} {next after : α → Eval β}
    (h : C.ParallelEval first second) (hnext : ∀ value, C.ParallelEval (next value) (after value)) :
    C.ParallelEval (first >>= next) (second >>= after) := by
  constructor
  · intro scene
    have hfirst := h.continues scene
    change scene.Continues (finalScene (EStateM.bind first next scene))
    unfold EStateM.bind
    cases hresult : first scene with
    | ok value between =>
        rw [hresult] at hfirst
        exact hfirst.trans ((hnext value).continues between)
    | error d between =>
        rw [hresult] at hfirst
        exact hfirst
  · intro s r hscenes
    have hresults := h.results hscenes
    change C.Results (EStateM.bind first next s) (EStateM.bind second after r)
    unfold EStateM.bind
    generalize first s = result, second r = other at hresults
    cases hresults with
    | lost hlost =>
        cases result with
        | ok value between => exact .lost (hlost.continues ((hnext value).continues between).log)
        | error d between => exact .lost hlost
    | ok value hbetween => exact (hnext value).results hbetween
    | error d hbetween => exact .error d hbetween

/-- A value read off the activation. -/
theorem ParallelEval.read (f : Activation → α) :
    C.ParallelEval (fun scene => .ok (f scene.activation) scene)
      (fun scene => .ok (f scene.activation) scene) := by
  refine ⟨fun scene => .refl scene, fun hscenes => ?_⟩
  cases hscenes with
  | mk activation h => exact .ok (f activation) (.mk activation h)

theorem ParallelEval.pure (value : α) : C.ParallelEval (Pure.pure value) (Pure.pure value) :=
  .read fun _ => value

/-- An error that depends on the activation. -/
theorem ParallelEval.throw (f : Activation → Diagnostic) :
    C.ParallelEval (α := α) (fun scene => .error (f scene.activation) scene)
      (fun scene => .error (f scene.activation) scene) := by
  refine ⟨fun scene => .refl scene, fun hscenes => ?_⟩
  cases hscenes with
  | mk activation h => exact .error (f activation) (.mk activation h)

variable {eval other : Evaluator}

theorem parallel_applyBuiltin (heval : C.ParallelTexts eval other) (function : Builtin)
    (arguments : List String) (span : Span) :
    C.ParallelEval (applyBuiltin eval function arguments span)
      (applyBuiltin other function arguments span) := by
  by_cases hfunction : function = .eval
  · subst hfunction
    exact heval _ span
  · unfold applyBuiltin
    simp only [Builtin.apply_of_ne_eval _ hfunction]
    cases function.compute arguments with
    | ok text => exact .pure text
    | error cause => exact .throw fun _ => { error := .call function cause, span := some span }

mutual

theorem parallel_operandText (heval : C.ParallelTexts eval other) (operand : Operand) :
    C.ParallelEval (operandText eval operand) (operandText other operand) := by
  match operand with
  | .token t => exact .read fun activation => activation.tokenText t
  | .parameter index => exact .read fun activation => argumentText activation index
  | .allPositionals => exact .read positionalsText
  | .call function arguments span =>
    exact (parallel_operandTexts heval arguments).bind fun texts =>
      parallel_applyBuiltin heval function texts span

theorem parallel_operandTexts (heval : C.ParallelTexts eval other) (operands : List Operand) :
    C.ParallelEval (operandTexts eval operands) (operandTexts other operands) := by
  match operands with
  | [] => exact .pure []
  | operand :: others =>
    exact (parallel_operandText heval operand).bind fun text =>
      (parallel_operandTexts heval others).bind fun texts => .pure (text :: texts)

end

theorem parallel_callText (heval : C.ParallelTexts eval other) (function : Builtin)
    (arguments : List Operand) (span : Span) :
    C.ParallelEval (callText eval function arguments span)
      (callText other function arguments span) :=
  (parallel_operandTexts heval arguments).bind fun texts =>
    parallel_applyBuiltin heval function texts span

theorem parallel_evaluate (heval : C.ParallelTexts eval other) (expr : Expr) :
    C.ParallelEval (evaluate eval expr) (evaluate other expr) := by
  induction expr with
  | or left right ihleft ihright => exact ihleft.bind fun _ => ihright.bind fun _ => .pure _
  | and left right ihleft ihright => exact ihleft.bind fun _ => ihright.bind fun _ => .pure _
  | not inner ih => exact ih.bind fun _ => .pure _
  | relation relation left right ihleft ihright =>
      exact ihleft.bind fun _ => ihright.bind fun _ => .pure _
  | operand operand => exact (parallel_operandText heval operand).bind fun _ => .pure _

theorem parallel_evaluateNumber (heval : C.ParallelTexts eval other) (expr : Expr) :
    C.ParallelEval (evaluateNumber eval expr) (evaluateNumber other expr) := by
  refine (parallel_evaluate heval expr).bind fun text => ?_
  cases singleNumber? text with
  | some value => exact .pure value
  | none =>
      exact .throw fun activation =>
        { error := .binding activation.definition.name (.notANumber text) }

theorem parallel_loopStep (heval : C.ParallelTexts eval other) (first last : Float)
    (step : Option Expr) :
    C.ParallelEval (loopStep eval first last step) (loopStep other first last step) := by
  cases step with
  | some step => exact parallel_evaluateNumber heval step
  | none => exact .pure _

theorem parallel_nonzeroStep (step : Float) :
    C.ParallelEval (nonzeroStep step) (nonzeroStep step) := by
  unfold nonzeroStep
  cases step == 0.0 with
  | true =>
      exact .throw fun activation => { error := .binding activation.definition.name .zeroStep }
  | false => exact .pure step

theorem parallel_loopBounds (heval : C.ParallelTexts eval other) (first last : Expr)
    (step : Option Expr) :
    C.ParallelEval (loopBounds eval first last step) (loopBounds other first last step) := by
  refine (parallel_evaluateNumber heval first).bind fun first => ?_
  refine (parallel_evaluateNumber heval last).bind fun last => ?_
  refine (parallel_loopStep heval first last step).bind fun step => ?_
  exact (parallel_nonzeroStep step).bind fun step => .pure (first, last, step)

/-! ### Runs of directives -/

theorem ParallelRun.silent : C.ParallelRun Emission.silent Emission.silent :=
  ⟨fun scene => .refl scene, fun h => .same [] false h⟩

theorem ParallelRun.ofTokens (tokens : List Emitted) :
    C.ParallelRun (Emission.ofTokens tokens) (Emission.ofTokens tokens) :=
  ⟨fun scene => .refl scene, fun h => .same tokens false h⟩

theorem ParallelRun.setVariable (name value : String) :
    C.ParallelRun (fun scene => .silent (scene.setVariable name value))
      (fun scene => .silent (scene.setVariable name value)) :=
  ⟨fun scene => .setVariable scene name value, fun h => .same [] false (h.setVariable name value)⟩

/-- Tokens that depend on the activation. -/
theorem ParallelRun.tokens {f g : Scene → List Emitted}
    (hfg : ∀ {s r}, C.Related s r → g r = f s) :
    C.ParallelRun (fun scene => .ofTokens (f scene) scene)
      (fun scene => .ofTokens (g scene) scene) := by
  refine ⟨fun scene => .refl scene, fun {s r} h => ?_⟩
  rw [hfg h]
  exact .same (f s) false h

theorem ParallelRun.fail (d : Diagnostic) (fallback : Span) :
    C.ParallelRun (fun scene => fail scene d fallback) (fun scene => fail scene d fallback) :=
  ⟨fun scene => .report scene d, fun h => .same _ false (h.report d)⟩

theorem ParallelRun.orFail {computation alike : Eval α} {next after : α → Scene → Emission}
    (h : C.ParallelEval computation alike) (hnext : ∀ value, C.ParallelRun (next value) (after value))
    (fallback : Span) :
    C.ParallelRun (orFail computation fallback next) (orFail alike fallback after) := by
  constructor
  · intro scene
    have hcomputation := h.continues scene
    unfold Expansion.orFail
    cases hresult : computation scene with
    | ok value between =>
        rw [hresult] at hcomputation
        exact hcomputation.trans ((hnext value).continues between)
    | error d between =>
        rw [hresult] at hcomputation
        exact hcomputation.trans (.report between d)
  · intro s r hscenes
    have hresults := h.results hscenes
    unfold Expansion.orFail
    generalize computation s = result, alike r = same at hresults
    cases hresults with
    | lost hlost =>
        cases result with
        | ok value between => exact .lost (hlost.continues ((hnext value).continues between).log)
        | error d between => exact .lost (hlost.continues (.report between.log d))
    | ok value hbetween => exact (hnext value).emissions hbetween
    | error d hbetween => exact (ParallelRun.fail d fallback).emissions hbetween

/-- Going on from what the directives gave. -/
theorem ParallelRun.sequel {first second : Scene → Emission} (h : C.ParallelRun first second)
    (next after : Emission → Emission)
    (hnext : ∀ emission : Emission, emission.scene.Continues (next emission).scene)
    (hsame : ∀ tokens broken {s r}, C.Related s r →
      C.Emissions (next ⟨tokens, broken, s⟩) (after ⟨tokens, broken, r⟩)) :
    C.ParallelRun (fun scene => next (first scene)) (fun scene => after (second scene)) := by
  refine ⟨fun scene => (h.continues scene).trans (hnext _), fun {s r} hscenes => ?_⟩
  have hemissions := h.emissions hscenes
  generalize first s = emission, second r = same at hemissions
  cases hemissions with
  | lost hlost => exact .lost (hlost.continues (hnext emission).log)
  | same tokens broken hbetween => exact hsame tokens broken hbetween

theorem ParallelRun.andThen {first second next after : Scene → Emission}
    (h : C.ParallelRun first second) (hnext : C.ParallelRun next after) :
    C.ParallelRun (fun scene => (first scene).andThen next)
      (fun scene => (second scene).andThen after) := by
  refine h.sequel (·.andThen next) (·.andThen after) (fun emission => ?_)
    fun tokens broken _ _ hscenes => ?_
  · unfold Emission.andThen
    split
    · exact .refl _
    · exact hnext.continues _
  · cases broken with
    | true => exact .same tokens true hscenes
    | false => exact (hnext.emissions hscenes).after tokens

theorem ParallelRun.andPasses {once alike others after : Scene → Emission}
    (h : C.ParallelRun once alike) (hothers : C.ParallelRun others after) :
    C.ParallelRun (fun scene => (once scene).andPasses others)
      (fun scene => (alike scene).andPasses after) := by
  refine h.sequel (·.andPasses others) (·.andPasses after) (fun emission => ?_)
    fun tokens broken _ _ hscenes => ?_
  · unfold Emission.andPasses
    split
    · exact .refl _
    · exact hothers.continues _
  · cases broken with
    | true => exact .same tokens false hscenes
    | false => exact (hothers.emissions hscenes).after tokens

theorem ParallelRun.within {first second : Scene → Emission} (h : C.ParallelRun first second)
    (name : String) : C.ParallelRun (within name first) (within name second) := by
  refine ⟨fun scene => (h.continues (scene.enter name)).leave, fun {s r} hscenes => ?_⟩
  have hemissions := h.emissions (hscenes.enter name)
  unfold Expansion.within
  generalize first (s.enter name) = emission, second (r.enter name) = same at hemissions
  cases hemissions with
  | lost hlost => exact .lost hlost
  | same tokens broken hbetween => exact .same tokens broken hbetween.leave

theorem ParallelRun.iteration {body alike : Scene → Emission} (h : C.ParallelRun body alike)
    (variableName value : String) :
    C.ParallelRun (iteration body variableName value) (iteration alike variableName value) where
  continues scene := (Scene.Continues.setVariable scene variableName value).trans (h.continues _)
  emissions hscenes := h.emissions (hscenes.setVariable variableName value)

/-- Stopping a loop: either both runs are at their limit, or the first is given up. -/
theorem parallel_iterationLimit {extra : Nat}
    (hextra : right.settings.iterateLimit = left.settings.iterateLimit + extra) (span : Span)
    {alike : Scene → Emission}
    (halike : extra = 0 →
      alike = fun scene => .silent (scene.report (iterationLimit right span))) :
    C.ParallelRun (fun scene => .silent (scene.report (iterationLimit left span))) alike := by
  refine ⟨fun scene => .report scene _, fun hscenes => ?_⟩
  by_cases hzero : extra = 0
  · have hlimit : iterationLimit right span = iterationLimit left span := by
      unfold iterationLimit
      rw [hextra, hzero, Nat.add_zero]
    rw [halike hzero, hlimit]
    exact .same [] false (hscenes.report _)
  · cases hscenes with
    | mk activation h => exact .lost (C.iterate_lost (by omega) h span)

/-- The second run has as many more iterations left as its limit is higher. -/
theorem parallel_iterateRange {body alike : Scene → Emission} (h : C.ParallelRun body alike)
    {extra : Nat} (hextra : right.settings.iterateLimit = left.settings.iterateLimit + extra)
    (variableName : String) (last step : Float) (span : Span) (remaining : Nat) (index : Float) :
    C.ParallelRun (iterateRange left body variableName last step span remaining index)
      (iterateRange right alike variableName last step span (remaining + extra) index) := by
  induction remaining generalizing index with
  | zero =>
      by_cases hbounds : withinBounds index last step = true
      · rw [iterateRange_limit hbounds]
        refine parallel_iterationLimit hextra span fun hzero => ?_
        rw [hzero, Nat.add_zero, iterateRange_limit hbounds]
      · rw [iterateRange_past hbounds, iterateRange_past hbounds]
        exact .silent
  | succ remaining ih =>
      by_cases hbounds : withinBounds index last step = true
      · rw [Nat.add_right_comm, iterateRange_pass hbounds, iterateRange_pass hbounds]
        exact (h.iteration variableName (Number.text index)).andPasses (ih (index + step))
      · rw [iterateRange_past hbounds, iterateRange_past hbounds]
        exact .silent

theorem parallel_iterateList {body alike : Scene → Emission} (h : C.ParallelRun body alike)
    {extra : Nat} (hextra : right.settings.iterateLimit = left.settings.iterateLimit + extra)
    (variableName : String) (span : Span) (remaining : Nat) (values : List String) :
    C.ParallelRun (iterateList left body variableName span remaining values)
      (iterateList right alike variableName span (remaining + extra) values) := by
  induction values generalizing remaining with
  | nil =>
      rw [iterateList_nil, iterateList_nil]
      exact .silent
  | cons value values ih =>
      cases remaining with
      | zero =>
          refine parallel_iterationLimit hextra span fun hzero => ?_
          subst hzero
          rfl
      | succ remaining =>
          rw [Nat.add_right_comm]
          exact (h.iteration variableName value).andPasses (ih remaining)

theorem parallel_runRange {body alike : Scene → Emission} (h : C.ParallelRun body alike)
    (heval : C.ParallelTexts eval other) (variableName : String) (first last : Expr)
    (step : Option Expr) (span : Span) :
    C.ParallelRun (runRange left eval body variableName first last step span)
      (runRange right other alike variableName first last step span) := by
  obtain ⟨extra, hextra⟩ := Nat.exists_eq_add_of_le C.iterate_le
  refine .orFail (parallel_loopBounds heval first last step) (fun bounds => ?_) span
  simp only [hextra]
  exact parallel_iterateRange h hextra variableName bounds.2.1 bounds.2.2 span _ bounds.1

theorem parallel_runList {body alike : Scene → Emission} (h : C.ParallelRun body alike)
    (heval : C.ParallelTexts eval other) (variableName : String) (list : Expr) (span : Span) :
    C.ParallelRun (runList left eval body variableName list span)
      (runList right other alike variableName list span) := by
  obtain ⟨extra, hextra⟩ := Nat.exists_eq_add_of_le C.iterate_le
  refine .orFail (parallel_evaluate heval list) (fun text => ?_) span
  simp only [hextra]
  exact parallel_iterateList h hextra variableName span _ _

/-! ### Directives -/

theorem textExpandable_eq {s r : Scene} (h : C.Related s r) :
    textExpandable right r = textExpandable left s := by
  cases h with
  | mk activation h => rw [textExpandable, textExpandable, C.expand]

theorem bindingTokens_eq {s r : Scene} (h : C.Related s r) (binding : Binding) :
    bindingTokens right r binding = bindingTokens left s binding := by
  rw [bindingTokens, bindingTokens, textExpandable_eq h]

theorem literalTokens_eq {s r : Scene} (h : C.Related s r) (t : Token) :
    literalTokens right r t = literalTokens left s t := by
  rw [literalTokens, literalTokens, textExpandable_eq h]
  cases h with
  | mk activation h => rfl

theorem parallel_parameter (index : Nat) :
    C.ParallelRun (substituteOne left eval (.parameter index))
      (substituteOne right other (.parameter index)) := by
  refine ⟨fun scene => ?_, fun {s r} hscenes => ?_⟩
  · rw [substituteOne]
    split
    · exact .refl scene
    · exact .refl scene
  · have hbindings : r.activation.bindings[index]? = s.activation.bindings[index]? := by
      cases hscenes with
      | mk activation h => rfl
    rw [substituteOne, substituteOne, hbindings]
    cases s.activation.bindings[index]? with
    | some binding =>
        simp only [bindingTokens_eq hscenes]
        exact .same _ false hscenes
    | none => exact .same [] false hscenes

mutual

/-- One directive, by the form of it. -/
theorem parallel_substituteOne (heval : C.ParallelTexts eval other) (directive : Directive) :
    C.ParallelRun (substituteOne left eval directive) (substituteOne right other directive) := by
  match directive with
  | .literal tokens =>
    refine .tokens fun h => ?_
    exact congrArg tokens.flatMap (funext fun t => literalTokens_eq h t)
  | .parameter index => exact parallel_parameter index
  | .allPositionals =>
    refine .tokens fun h => ?_
    rw [funext (bindingTokens_eq h)]
    cases h with
    | mk activation h => rfl
  | .call function arguments span =>
    exact .orFail (parallel_callText heval function arguments span)
      (fun text => .ofTokens (Emitted.inert (tokenizeAt text span))) span
  | .cond condition thenBranch elseBranch =>
    have hleft := funext (substituteOne_cond left eval condition thenBranch elseBranch)
    have hright := funext (substituteOne_cond right other condition thenBranch elseBranch)
    rw [hleft, hright]
    refine .orFail (parallel_evaluate heval condition) (fun value => ?_) (.point 0)
    cases truth value with
    | true => exact (parallel_substitute heval thenBranch).within "!IF"
    | false =>
        match elseBranch with
        | some branch => exact (parallel_substitute heval branch).within "!IF"
        | none => exact .silent
  | .doRange variableName first last step body span =>
    exact (parallel_runRange (parallel_substitute heval body) heval variableName first last step
      span).within "!DO"
  | .doIn variableName list body span =>
    exact (parallel_runList (parallel_substitute heval body) heval variableName list span).within
      "!DO"
  | .assign variableName value =>
    exact .orFail (parallel_evaluate heval value) (fun text => .setVariable variableName text)
      (.point 0)
  | .setExpand enabled =>
    refine ⟨fun scene => .setExpand scene enabled, fun hscenes => ?_⟩
    cases hscenes with
    | mk activation h => exact .same [] false (.mk { activation with expandEnabled := enabled } h)
  | .breakLoop => exact ⟨fun scene => .refl scene, fun hscenes => .same [] true hscenes⟩
  | .invalid error span => exact .fail { error, span := some span } span

theorem parallel_substitute (heval : C.ParallelTexts eval other) (tree : List Directive) :
    C.ParallelRun (substitute left eval tree) (substitute right other tree) := by
  match tree with
  | [] => exact .silent
  | directive :: others =>
    exact (parallel_substituteOne heval directive).andThen (parallel_substitute heval others)

end

/-! ### Scans -/

theorem callee_eq (C : Coupling left right) (e : Emitted) : callee? right e = callee? left e := by
  rw [callee?, callee?, C.table]

theorem rel_reports {l m : Log} (h : C.rel l m) (ds : List Diagnostic) :
    C.rel (ds.foldl Log.report l) (ds.foldl Log.report m) := by
  induction ds generalizing l m with
  | nil => exact h
  | cons d ds ih => exact ih (C.report h d)

theorem rel_enterCall {l m : Log} (h : C.rel l m) (d : Definition) (bound : BoundCall) :
    C.rel (enterCall l d bound) (enterCall m d bound) :=
  rel_reports (C.enter h d.name) bound.errors

/-- The body of a call, of which only the log goes on. -/
theorem parallel_callBody (heval : C.ParallelTexts eval other) (d : Definition)
    (bindings : List Binding) (depth : Nat) {l m : Log} (h : C.rel l m) :
    C.Expansions (callBody left eval d bindings depth l)
      (callBody right other d bindings depth m) :=
  ((parallel_substitute heval d.body).emissions (.mk _ h)).logs

theorem callBody_continues (heval : C.ParallelTexts eval other) (d : Definition)
    (bindings : List Binding) (depth : Nat) (log : Log) :
    log.Continues (callBody left eval d bindings depth log).2 :=
  ((parallel_substitute heval d.body).continues ⟨{ definition := d, bindings, depth }, log⟩).log

/-- What a call contributes. A call that the first run drops for its depth is dropped by the second,
or the first is given up. -/
theorem parallel_callExpansion (heval : C.ParallelTexts eval other) {depth : Nat}
    (hdeeper : depth + 1 ≤ left.settings.nestLimit → ∀ body,
      C.ParallelScan (expandRecursively left eval (depth + 1) body)
        (expandRecursively right other (depth + 1) body))
    (d : Definition) (name : Token) (bindings : List Binding) :
    C.ParallelScan (callExpansion left eval depth d name bindings)
      (callExpansion right other depth d name bindings) := by
  by_cases hdepth : depth + 1 ≤ left.settings.nestLimit
  · have hright : depth + 1 ≤ right.settings.nestLimit := Nat.le_trans hdepth C.nest_le
    constructor
    · intro log
      rw [callExpansion, if_pos hdepth]
      exact (callBody_continues heval d bindings (depth + 1) log).trans
        ((hdeeper hdepth _).continues _)
    · intro l m hlogs
      have hbody := parallel_callBody heval d bindings (depth + 1) hlogs
      rw [callExpansion, callExpansion, if_pos hdepth, if_pos hright]
      generalize callBody left eval d bindings (depth + 1) l = body,
        callBody right other d bindings (depth + 1) m = same at hbody
      cases hbody with
      | lost hlost => exact .lost (hlost.continues ((hdeeper hdepth _).continues _))
      | same tokens hbetween => exact (hdeeper hdepth tokens).expansions hbetween
  · constructor
    · intro log
      rw [callExpansion, if_neg hdepth]
      exact .report log _
    · intro l m hlogs
      rw [callExpansion, if_neg hdepth]
      rcases Nat.lt_or_eq_of_le C.nest_le with hlt | heq
      · exact .lost (C.nest_lost hlt hlogs d name)
      · have hlimit : nestingLimit right d name = nestingLimit left d name := by
          rw [nestingLimit, nestingLimit, heq]
        rw [callExpansion, if_neg (by omega), hlimit]
        exact .same [] (C.report hlogs _)

theorem leaveCall_continues {log : Log} {d : Definition} {bound : BoundCall}
    {expansion : List Token × Log} (h : (enterCall log d bound).Continues expansion.2) (depth : Nat)
    (name : Token) : log.Continues (leaveCall left depth name expansion) := by
  have hentered : (log.enter d.name).Continues expansion.2 := (Log.Continues.reports _ _).trans h
  exact hentered.leave.trans (.echoExpansion _ _ _)

theorem Expansions.andRest {first second : List Token × Log} (h : C.Expansions first second)
    {rest alike : Log → List Token × Log} (hrest : C.ParallelScan rest alike) (depth : Nat)
    (name : Token) :
    C.Expansions
      (first.1 ++ (rest (leaveCall left depth name first)).1,
        (rest (leaveCall left depth name first)).2)
      (second.1 ++ (alike (leaveCall right depth name second)).1,
        (alike (leaveCall right depth name second)).2) := by
  cases h with
  | lost hlost =>
      have hleave : C.Lost first.2.leave := hlost
      have hleft := hleave.continues (.echoExpansion _ (echoName? left depth name) fun _ => first.1)
      exact .lost (hleft.continues (hrest.continues _))
  | same tokens hlogs =>
      have hleft := C.echo (C.leave hlogs) depth name fun _ => tokens
      exact (hrest.expansions hleft).after tokens

theorem parallel_expandRecursively (heval : C.ParallelTexts eval other) (depth : Nat)
    (tokens : List Emitted) :
    C.ParallelScan (expandRecursively left eval depth tokens)
      (expandRecursively right other depth tokens) := by
  induction depth, tokens using scan_induction left.settings.nestLimit with
  | nil depth =>
      refine ⟨fun log => ?_, fun {l m} hlogs => ?_⟩
      · rw [expandRecursively_nil]
        exact .refl log
      · rw [expandRecursively_nil, expandRecursively_nil]
        exact .same [] hlogs
  | cons depth e following hdeeper hfollowing =>
      cases he : callee? left e with
      | none =>
          have hright : callee? right e = none := (callee_eq C e).trans he
          have hrest := hfollowing following (Nat.le_refl _)
          constructor
          · intro log
            rw [expandRecursively_copy he]
            exact hrest.continues log
          · intro l m hlogs
            rw [expandRecursively_copy he, expandRecursively_copy hright]
            exact (hrest.expansions hlogs).after [e.token]
      | some d =>
          have hright : callee? right e = some d := (callee_eq C e).trans he
          have hcall := parallel_callExpansion heval hdeeper d e.token
            (bindArguments d following).bindings
          have hrest := hfollowing _ (bindArguments_rest_le d following)
          constructor
          · intro log
            rw [expandRecursively_call he]
            exact (leaveCall_continues (hcall.continues _) depth e.token).trans (hrest.continues _)
          · intro l m hlogs
            rw [expandRecursively_call he, expandRecursively_call hright]
            exact (hcall.expansions (rel_enterCall hlogs d _)).andRest hrest depth e.token

theorem parallel_expandWith (heval : C.ParallelTexts eval other) (tokens : List Emitted)
    (depth : Nat) :
    C.ParallelScan (expandWith left eval tokens depth) (expandWith right other tokens depth) := by
  have hleft := funext (expandWith_eq_expandRecursively left eval tokens depth)
  have hright := funext (expandWith_eq_expandRecursively right other tokens depth)
  rw [hleft, hright]
  exact parallel_expandRecursively heval depth tokens

/-! ### Texts of `!EVAL` -/

/-- The end of the expansion of a text: the calls in what its directives gave are expanded. -/
def finishText (env : Environment) (eval : Evaluator) (emission : Emission) :
    EStateM.Result Diagnostic Scene String :=
  let activation := emission.scene.activation
  let scan := expandWith env eval emission.tokens activation.depth emission.scene.log
  .ok (Token.render scan.1) ⟨activation, scan.2.leave⟩

theorem expandText_succ (env : Environment) (levels : Nat) (text : String) (span : Span)
    (scene : Scene) :
    expandText (evaluateText env (levels + 1)) text span scene =
      finishText env (evaluateText env levels)
        (substitute env (evaluateText env levels)
          (Body.compile scene.activation.definition.parameters (tokenizeAt text span))
          (scene.enter "!EVAL")) :=
  rfl

theorem Expansions.text {first second : List Token × Log} (h : C.Expansions first second)
    (activation : Activation) :
    C.Results (.ok (Token.render first.1) ⟨activation, first.2.leave⟩)
      (.ok (Token.render second.1) ⟨activation, second.2.leave⟩) := by
  cases h with
  | lost h => exact .lost h
  | same tokens h => exact .ok (Token.render tokens) (.mk activation (C.leave h))

theorem finishText_continues (heval : C.ParallelTexts eval other) {scene : Scene} {name : String}
    {emission : Emission} (h : (scene.enter name).Continues emission.scene) :
    scene.Continues (finalScene (finishText left eval emission)) := by
  have hscan := (parallel_expandWith heval emission.tokens
    emission.scene.activation.depth).continues emission.scene.log
  exact (h.andLog hscan).leave

theorem parallel_finishText (heval : C.ParallelTexts eval other) {first second : Emission}
    (h : C.Emissions first second) :
    C.Results (finishText left eval first) (finishText right other second) := by
  cases h with
  | lost hlost =>
      have hscan := hlost.continues ((parallel_expandWith heval first.tokens
        first.scene.activation.depth).continues first.scene.log)
      exact .lost hscan
  | same tokens broken hscenes =>
      cases hscenes with
      | mk activation hlogs =>
          have hscan := (parallel_expandWith heval tokens activation.depth).expansions hlogs
          exact hscan.text activation

theorem parallel_evaluateText (C : Coupling left right) (levels : Nat) :
    C.ParallelTexts (evaluateText left levels) (evaluateText right levels) := by
  induction levels with
  | zero =>
      intro text span
      exact ⟨fun scene => .report scene _, fun hscenes => .ok "" (hscenes.report _)⟩
  | succ levels ih =>
      intro text span
      constructor
      · intro scene
        rw [expandText_succ]
        exact finishText_continues ih ((parallel_substitute ih _).continues (scene.enter "!EVAL"))
      · intro s r hscenes
        cases hscenes with
        | mk activation hlogs =>
            rw [expandText_succ, expandText_succ]
            exact parallel_finishText ih
              ((parallel_substitute ih _).emissions (.mk activation (C.enter hlogs "!EVAL")))

/-- From related logs, two expansions of the same tokens go the same way. -/
theorem expandWith_expansions (C : Coupling left right) (levels : Nat) (tokens : List Emitted)
    (depth : Nat) {l m : Log} (h : C.rel l m) :
    C.Expansions (expandWith left (evaluateText left levels) tokens depth l)
      (expandWith right (evaluateText right levels) tokens depth m) :=
  (parallel_expandWith (C.parallel_evaluateText levels) tokens depth).expansions h

end Coupling

end CommandMacros.Expansion

import CommandMacros.Proofs.Binding.Sound
import CommandMacros.Proofs.Expansion.Contract
import CommandMacros.Proofs.Unplaced.Body

/-!
Who reports a diagnostic. Each procedure of the expansion reports few kinds of diagnostics itself,
under the stack as it stands then; everything in a log was reported by a call that was made on the
way. What a stack must look like for a call is a parameter, and so is what holds of the
diagnostics: the contract says that calls are made with stacks that fit, and that only such
diagnostics are added.
-/

namespace CommandMacros

/-- The error of an expression in a call of the macro: of a function, or of a bound of a loop. -/
def MacroError.OfExpression (name : String) : MacroError → Prop
  | .call _ _ => True
  | .binding macroName _ => macroName = name
  | _ => False

/-- The diagnostic as the log would report it now. -/
def Log.reported (log : Log) (d : Diagnostic) : Diagnostic :=
  { d with stack := log.stack.reverse }

/-! ### Additions to a log -/

/-- Between two moments with the same stack, only diagnostics that satisfy the condition were
added. -/
structure Log.Adds (holds : Diagnostic → Prop) (before after : Log) : Prop where
  stack : after.stack = before.stack
  added : ∃ added, after.diagnostics.toList = before.diagnostics.toList ++ added ∧
    ∀ d ∈ added, holds d

namespace Log.Adds

variable {holds : Diagnostic → Prop} {first second third : Log}

theorem refl (log : Log) : log.Adds holds log :=
  ⟨rfl, [], (List.append_nil _).symm, List.forall_mem_nil _⟩

theorem trans (h : first.Adds holds second) (hnext : second.Adds holds third) :
    first.Adds holds third := by
  obtain ⟨added, hadded, hholds⟩ := h.added
  obtain ⟨more, hmore, hmoreHolds⟩ := hnext.added
  refine ⟨hnext.stack.trans h.stack, added ++ more, ?_, ?_⟩
  · rw [hmore, hadded, List.append_assoc]
  · exact List.forall_mem_append.mpr ⟨hholds, hmoreHolds⟩

theorem report {log : Log} {d : Diagnostic} (h : holds (log.reported d)) :
    log.Adds holds (log.report d) :=
  ⟨rfl, [log.reported d], Array.toList_push, List.forall_mem_singleton.mpr h⟩

theorem reports {log : Log} {ds : List Diagnostic} (h : ∀ d ∈ ds, holds (log.reported d)) :
    log.Adds holds (ds.foldl Log.report log) := by
  induction ds generalizing log with
  | nil => exact refl log
  | cons d ds ih =>
      obtain ⟨hd, hds⟩ := List.forall_mem_cons.mp h
      exact (report hd).trans (ih hds)

theorem echoExpansion (log : Log) (name? : Option String) (expansion : Unit → List Token) :
    log.Adds holds (Expansion.echoExpansion log name? expansion) := by
  cases name? <;> exact ⟨rfl, [], (List.append_nil _).symm, List.forall_mem_nil _⟩

theorem leave {name : String} (h : (first.enter name).Adds holds second) :
    first.Adds holds second.leave :=
  ⟨congrArg List.tail h.stack, h.added⟩

/-- The same additions under another stack. -/
theorem withStack (h : first.Adds holds second) {stack other : List String}
    (hstack : other = stack) :
    Log.Adds holds { first with stack } { second with stack := other } :=
  ⟨hstack, h.added⟩

end Log.Adds

/-- A call goes on, with additions to the log that satisfy the condition. -/
structure Scene.Adds (holds : Diagnostic → Prop) (before after : Scene) : Prop where
  log : before.log.Adds holds after.log
  definition : after.activation.definition = before.activation.definition
  depth : after.activation.depth = before.activation.depth

namespace Scene.Adds

variable {holds : Diagnostic → Prop} {first second third : Scene}

theorem refl (scene : Scene) : scene.Adds holds scene :=
  ⟨.refl _, rfl, rfl⟩

theorem trans (h : first.Adds holds second) (hnext : second.Adds holds third) :
    first.Adds holds third :=
  ⟨h.log.trans hnext.log, hnext.definition.trans h.definition, hnext.depth.trans h.depth⟩

theorem report {scene : Scene} {d : Diagnostic} (h : holds (scene.log.reported d)) :
    scene.Adds holds (scene.report d) :=
  ⟨.report h, rfl, rfl⟩

theorem leave {name : String} (h : (first.enter name).Adds holds second) :
    first.Adds holds second.leave :=
  ⟨h.log.leave, h.definition, h.depth⟩

theorem of_setVariable {name value : String}
    (h : (first.setVariable name value).Adds holds second) : first.Adds holds second :=
  ⟨h.log, h.definition, h.depth⟩

end Scene.Adds

namespace Expansion

/-! ### Calls and what they report -/

namespace Call

/-- How many `!EVAL` expansions are in progress when the call is made. -/
def nesting : Call → Nat
  | expandStatement nesting .. | expandCalls nesting .. | scanFrames nesting ..
  | substitute nesting .. | substituteOne nesting .. | iterateRange nesting ..
  | iterateList nesting .. | evaluate nesting .. | operandText nesting ..
  | operandTexts nesting .. | evaluateText nesting .. => nesting

/-- How many of them are in progress when it makes calls itself. -/
def innerNesting : Call → Nat
  | evaluateText nesting .. => nesting + 1
  | c => c.nesting

/-- The log that the call is made with. -/
def log : Call → Log
  | expandStatement _ _ log | expandCalls _ _ _ log => log
  | scanFrames _ machine => machine.log
  | substitute _ _ scene | substituteOne _ _ scene | iterateRange _ _ _ _ _ _ _ _ scene
  | iterateList _ _ _ _ _ _ scene | evaluate _ _ scene | operandText _ _ scene
  | operandTexts _ _ scene | evaluateText _ _ _ scene => scene.log

end Call

/-- What a directive that evaluates expressions has on the stack meanwhile. -/
def frameNames? : Directive → Option (List String)
  | .call .. | .cond .. | .assign .. => some []
  | .doRange .. | .doIn .. => some ["!DO"]
  | _ => none

/-- The call itself reports the diagnostic, while it enters a call of the macro `name` at `depth` or
substitutes the body of one. -/
inductive Call.Reports (env : Environment) : Call → (depth : Nat) → (name : String) →
    Diagnostic → Prop
  | binding {nesting : Nat} {frame : Frame} {outer : List Frame} {output : Array Token} {log : Log}
      {e : Emitted} {tokens : List Emitted} {d : Definition} {problem : Diagnostic}
      (htokens : frame.tokens = e :: tokens) (hcallee : callee? env e = some d)
      (hproblem : problem ∈ (bindArguments d tokens).errors) :
      Reports env (.scanFrames nesting ⟨frame :: outer, output, log⟩) (frame.depth + 1) d.name
        ((log.enter d.name).reported problem)
  | nesting {nesting : Nat} {frame : Frame} {outer : List Frame} {output : Array Token} {log : Log}
      {e : Emitted} {tokens : List Emitted} {d : Definition} (htokens : frame.tokens = e :: tokens)
      (hcallee : callee? env e = some d) (hdepth : env.settings.nestLimit < frame.depth + 1) :
      Reports env (.scanFrames nesting ⟨frame :: outer, output, log⟩) (frame.depth + 1) d.name
        ((log.enter d.name).reported (nestingLimit env d e.token))
  | invalid (nesting : Nat) (error : MacroError) (span : Span) (scene : Scene) :
      Reports env (.substituteOne nesting (.invalid error span) scene) scene.activation.depth
        scene.activation.definition.name (scene.log.reported { error, span := some span })
  | failure {nesting : Nat} {directive : Directive} {scene : Scene} {names : List String}
      {d : Diagnostic} (hnames : frameNames? directive = some names)
      (herror : d.error.OfExpression scene.activation.definition.name) :
      Reports env (.substituteOne nesting directive scene) scene.activation.depth
        scene.activation.definition.name { d with stack := (names ++ scene.log.stack).reverse }
  | rangeLimit {nesting : Nat} {variableName : String} {last step : Float} {body : List Directive}
      {span : Span} {iterations : Nat} {index : Float} {scene : Scene}
      (hlimit : env.settings.iterateLimit ≤ iterations) :
      Reports env
        (.iterateRange nesting variableName last step body span iterations index scene)
        scene.activation.depth scene.activation.definition.name
        (scene.log.reported (iterationLimit env span))
  | listLimit {nesting : Nat} {variableName : String} {body : List Directive} {span : Span}
      {iterations : Nat} {values : List String} {scene : Scene}
      (hlimit : env.settings.iterateLimit ≤ iterations) :
      Reports env (.iterateList nesting variableName body span iterations values scene)
        scene.activation.depth scene.activation.definition.name
        (scene.log.reported (iterationLimit env span))
  | textLimit {nesting : Nat} {text : String} {span : Span} {scene : Scene}
      (hnesting : maxEvalNesting ≤ nesting) :
      Reports env (.evaluateText nesting text span scene) scene.activation.depth
        scene.activation.definition.name
        (scene.log.reported { error := .evalNestingLimit maxEvalNesting, span := some span })

/-! ### Stacks that fit -/

/-- How stacks fit the calls in progress, and the errors that directives may hold. A stack fits a
number of `!EVAL` expansions, a depth and the innermost macro, if there is one. -/
structure StackRule (env : Environment) where
  fits : (nesting depth : Nat) → (innermost : Option String) → (stack : List String) → Prop
  errors : MacroError → Prop
  directive {nesting depth : Nat} {innermost : Option String} {stack : List String} {name : String}
    (hname : name = "!IF" ∨ name = "!DO") (h : fits nesting depth innermost stack) :
    fits nesting depth innermost (name :: stack)
  text {nesting depth : Nat} {innermost : Option String} {stack : List String}
    (hnesting : nesting < maxEvalNesting) (h : fits nesting depth innermost stack) :
    fits (nesting + 1) depth innermost ("!EVAL" :: stack)
  enter {nesting depth : Nat} {innermost : Option String} {stack : List String} {e : Emitted}
    {d : Definition} (hcallee : callee? env e = some d)
    (hdepth : depth + 1 ≤ env.settings.nestLimit) (h : fits nesting depth innermost stack) :
    fits nesting (depth + 1) (some d.name) (d.name :: stack)
  body {e : Emitted} {d : Definition} (hcallee : callee? env e = some d) : HoldOnly errors d.body
  compiled {error : MacroError} (h : error.OfBody) : errors error

namespace StackRule

variable {env : Environment} (rule : StackRule env)

/-- The stack of the scene fits its activation. -/
def SceneFits (nesting : Nat) (scene : Scene) : Prop :=
  rule.fits nesting scene.activation.depth (some scene.activation.definition.name) scene.log.stack

/-- The stack fits each frame once those above it are left. The outermost one leaves no name. -/
def FramesFit (nesting : Nat) : List Frame → List String → Prop
  | [], stack => ∃ depth innermost, rule.fits nesting depth innermost stack
  | frame :: outer, stack =>
    (∃ innermost, rule.fits nesting frame.depth innermost stack) ∧
      (outer ≠ [] → FramesFit nesting outer stack.tail)

/-- The call may be made with its stack, and its directives hold the right errors. -/
def Admits : Call → Prop
  | .expandStatement nesting _ log => ∃ innermost, rule.fits nesting 0 innermost log.stack
  | .expandCalls nesting _ depth log => ∃ innermost, rule.fits nesting depth innermost log.stack
  | .scanFrames nesting machine => rule.FramesFit nesting machine.frames machine.log.stack
  | .substitute nesting tree scene => rule.SceneFits nesting scene ∧ HoldOnly rule.errors tree
  | .substituteOne nesting directive scene =>
    rule.SceneFits nesting scene ∧ ∀ error, directive.Holds error → rule.errors error
  | .iterateRange nesting _ _ _ body _ _ _ scene | .iterateList nesting _ body _ _ _ scene =>
    rule.SceneFits nesting scene ∧ HoldOnly rule.errors body
  | .evaluate nesting _ scene | .operandText nesting _ scene | .operandTexts nesting _ scene
  | .evaluateText nesting _ _ scene => rule.SceneFits nesting scene

end StackRule

/-- The scene that a computation in a scene ends with, and an error of an expression if it fails. -/
def ResultAdds (holds : Diagnostic → Prop) (scene : Scene) {α : Type} :
    EStateM.Result Diagnostic Scene α → Prop
  | .ok _ next => scene.Adds holds next
  | .error d next => scene.Adds holds next ∧ d.error.OfExpression scene.activation.definition.name

/-- The log of the machine once all frames but the outermost are left. -/
def Machine.base (machine : Machine) : Log :=
  { machine.log with stack := machine.log.stack.drop (machine.frames.length - 1) }

/-- Only diagnostics that satisfy the condition are added until the call returns. -/
def Call.Adds (holds : Diagnostic → Prop) : (c : Call) → c.Answer → Prop
  | .expandStatement _ _ log, expansion | .expandCalls _ _ _ log, expansion =>
    log.Adds holds expansion.2
  | .scanFrames _ machine, final => machine.base.Adds holds final.log
  | .substitute _ _ scene, emission | .substituteOne _ _ scene, emission
  | .iterateRange _ _ _ _ _ _ _ _ scene, emission | .iterateList _ _ _ _ _ _ scene, emission =>
    scene.Adds holds emission.scene
  | .evaluate _ _ scene, result | .operandText _ _ scene, result => ResultAdds holds scene result
  | .operandTexts _ _ scene, result => ResultAdds holds scene result
  | .evaluateText _ _ _ scene, answer => scene.Adds holds answer.2

/-- Calls are made with stacks that fit, and add only diagnostics that satisfy the condition. -/
def StackRule.contract {env : Environment} (rule : StackRule env) (holds : Diagnostic → Prop) :
    Routine.Contract Call Call.Answer where
  requires := rule.Admits
  ensures := Call.Adds holds

/-- The contract of calls that are made with this many `!EVAL` expansions in progress. -/
def StackRule.contractAt {env : Environment} (rule : StackRule env) (holds : Diagnostic → Prop)
    (nesting : Nat) : Routine.Contract Call Call.Answer where
  requires c := rule.Admits c ∧ c.nesting = nesting
  ensures := Call.Adds holds

/-! ### Calls made in a scene -/

section Procedures

variable {env : Environment} {rule : StackRule env} {holds : Diagnostic → Prop} {nesting : Nat}
  {α β : Type}

theorem StackRule.SceneFits.of_adds {scene next : Scene} (h : rule.SceneFits nesting scene)
    (hnext : scene.Adds holds next) : rule.SceneFits nesting next := by
  unfold SceneFits
  rw [hnext.depth, hnext.definition, hnext.log.stack]
  exact h

/-- What a routine on a scene adds to its log is what it adds when it goes on with the scene. -/
theorem ResultAdds.of_adds {scene next : Scene} {result : EStateM.Result Diagnostic Scene α}
    (h : ResultAdds holds next result) (hnext : scene.Adds holds next) :
    ResultAdds holds scene result := by
  cases result with
  | ok value final => exact hnext.trans h
  | error d final => exact ⟨hnext.trans h.1, hnext.definition ▸ h.2⟩

variable (rule holds nesting) in
/-- From every scene that fits, the computation adds only such diagnostics, and fails with an error
of an expression if it does. -/
def AddsEval (computation : CallingEval α) : Prop :=
  ∀ scene, rule.SceneFits nesting scene →
    Routine.Meets (rule.contractAt holds nesting) (ResultAdds holds scene) (computation scene)

variable (rule holds nesting) in
/-- From every scene that fits, the routine adds only such diagnostics. -/
def AddsRun (routine : Scene → Calling Emission) : Prop :=
  ∀ scene, rule.SceneFits nesting scene →
    Routine.Meets (rule.contractAt holds nesting) (fun emission => scene.Adds holds emission.scene)
      (routine scene)

theorem adds_call (c : Call) (h : rule.Admits c) (hnesting : c.nesting = nesting) :
    Routine.Meets (rule.contractAt holds nesting) (c.Adds holds) (callProcedure c) := by
  have hcall : (rule.contractAt holds nesting).requires c := ⟨h, hnesting⟩
  exact .ask hcall

/-! ### Expressions -/

namespace AddsEval

theorem pure (value : α) : AddsEval rule holds nesting (Pure.pure value : CallingEval α) :=
  fun scene _ => .pure (.refl scene)

theorem bind {computation : CallingEval α} {next : α → CallingEval β}
    (h : AddsEval rule holds nesting computation)
    (hnext : ∀ value, AddsEval rule holds nesting (next value)) :
    AddsEval rule holds nesting (computation >>= next : CallingEval β) := by
  intro scene hscene
  refine (h scene hscene).bind fun outcome houtcome => ?_
  cases outcome with
  | ok value between =>
      have hbetween : scene.Adds holds between := houtcome
      exact (hnext value between (hscene.of_adds hbetween)).imp fun _ h => h.of_adds hbetween
  | error d between => exact .pure houtcome

theorem ofActivation (value : Activation → α) :
    AddsEval rule holds nesting (.ofActivation value) :=
  fun scene _ => .pure (.refl scene)

theorem fail {error : Activation → Diagnostic}
    (h : ∀ activation, (error activation).error.OfExpression activation.definition.name) :
    AddsEval rule holds nesting (.fail error : CallingEval α) :=
  fun scene _ => .pure ⟨.refl scene, h scene.activation⟩

theorem evaluate (expr : Expr) : AddsEval rule holds nesting (.evaluate nesting expr) :=
  fun scene hscene => adds_call (.evaluate nesting expr scene) hscene rfl

theorem operandText (operand : Operand) :
    AddsEval rule holds nesting (.operandText nesting operand) :=
  fun scene hscene => adds_call (.operandText nesting operand scene) hscene rfl

theorem operandTexts (operands : List Operand) :
    AddsEval rule holds nesting (.operandTexts nesting operands) :=
  fun scene hscene => adds_call (.operandTexts nesting operands scene) hscene rfl

theorem applyBuiltin (function : Builtin) (arguments : List String) (span : Span) :
    AddsEval rule holds nesting (.applyBuiltin nesting function arguments span) := by
  intro scene hscene
  unfold CallingEval.applyBuiltin
  split
  · have hcall : Routine.Meets (rule.contractAt holds nesting)
        (fun answer => scene.Adds holds answer.2)
        (callProcedure (.evaluateText nesting (arguments[0]?.getD "") span scene)) :=
      adds_call _ hscene rfl
    exact hcall.bind fun answer hanswer => .pure hanswer
  · split
    · exact .pure (.refl scene)
    · exact .pure ⟨.refl scene, trivial⟩

theorem callText (function : Builtin) (arguments : List Operand) (span : Span) :
    AddsEval rule holds nesting (.callText nesting function arguments span) :=
  (operandTexts arguments).bind fun texts => applyBuiltin function texts span

theorem evaluateNumber (expr : Expr) :
    AddsEval rule holds nesting (.evaluateNumber nesting expr) := by
  refine (evaluate expr).bind fun text => ?_
  split
  · exact pure _
  · exact fail fun _ => rfl

theorem loopStep (first last : Float) (step : Option Expr) :
    AddsEval rule holds nesting (.loopStep nesting first last step) := by
  cases step with
  | none => exact pure _
  | some expr => exact evaluateNumber expr

theorem loopBounds (first last : Expr) (step : Option Expr) :
    AddsEval rule holds nesting (.loopBounds nesting first last step) := by
  refine (evaluateNumber first).bind fun first => ?_
  refine (evaluateNumber last).bind fun last => ?_
  refine (loopStep first last step).bind fun step => ?_
  split
  · exact fail fun _ => rfl
  · exact pure _

end AddsEval

theorem adds_operandBody (operand : Operand) :
    AddsEval rule holds nesting (operandBody nesting operand) := by
  cases operand with
  | token | parameter | allPositionals =>
      rw [operandBody]
      exact .ofActivation _
  | call function arguments span => exact .callText function arguments span

theorem adds_operandsBody (operands : List Operand) :
    AddsEval rule holds nesting (operandsBody nesting operands) := by
  cases operands with
  | nil => exact .pure _
  | cons operand others =>
      refine (AddsEval.operandText operand).bind fun text => ?_
      exact (AddsEval.operandTexts others).bind fun texts => .pure _

theorem adds_evaluateBody (expr : Expr) :
    AddsEval rule holds nesting (evaluateBody nesting expr) := by
  cases expr with
  | or left right | and left right | relation _ left right =>
      refine (AddsEval.evaluate left).bind fun _ => ?_
      exact (AddsEval.evaluate right).bind fun _ => .pure _
  | not inner => exact (AddsEval.evaluate inner).bind fun _ => .pure _
  | operand operand => exact (AddsEval.operandText operand).bind fun _ => .pure _

/-! ### Directives -/

namespace AddsRun

theorem silent : AddsRun rule holds nesting fun scene => return .silent scene :=
  fun scene _ => .pure (.refl scene)

theorem substitute {tree : List Directive} (htree : HoldOnly rule.errors tree) :
    AddsRun rule holds nesting fun scene => callProcedure (.substitute nesting tree scene) :=
  fun scene hscene => adds_call (.substitute nesting tree scene) ⟨hscene, htree⟩ rfl

/-- What an emission gives goes on with the next routine. -/
theorem sequel {scene : Scene} (hscene : rule.SceneFits nesting scene) {first : Emission}
    (hfirst : scene.Adds holds first.scene) {next : Scene → Calling Emission}
    (hnext : AddsRun rule holds nesting next) (tokens : List Emitted) :
    Routine.Meets (rule.contractAt holds nesting) (fun emission => scene.Adds holds emission.scene)
      (do return (← next first.scene).after tokens) :=
  (hnext first.scene (hscene.of_adds hfirst)).bind fun _ hothers => .pure (hfirst.trans hothers)

theorem callThen {scene : Scene} (hscene : rule.SceneFits nesting scene) {first : Emission}
    (hfirst : scene.Adds holds first.scene) {next : Scene → Calling Emission}
    (hnext : AddsRun rule holds nesting next) :
    Routine.Meets (rule.contractAt holds nesting) (fun emission => scene.Adds holds emission.scene)
      (Expansion.callThen first next) := by
  unfold Expansion.callThen
  split
  · exact .pure hfirst
  · exact sequel hscene hfirst hnext first.tokens

theorem callPasses {scene : Scene} (hscene : rule.SceneFits nesting scene) {once : Emission}
    (honce : scene.Adds holds once.scene) {others : Scene → Calling Emission}
    (hothers : AddsRun rule holds nesting others) :
    Routine.Meets (rule.contractAt holds nesting) (fun emission => scene.Adds holds emission.scene)
      (Expansion.callPasses once others) := by
  unfold Expansion.callPasses
  split
  · exact .pure honce
  · exact sequel hscene honce hothers once.tokens

theorem callOrFail {scene : Scene} (hscene : rule.SceneFits nesting scene)
    {computation : CallingEval α} (h : AddsEval rule holds nesting computation) (fallback : Span)
    {next : α → Scene → Calling Emission} (hnext : ∀ value, AddsRun rule holds nesting (next value))
    (hfail : ∀ d : Diagnostic, d.error.OfExpression scene.activation.definition.name →
      holds (scene.log.reported d)) :
    Routine.Meets (rule.contractAt holds nesting) (fun emission => scene.Adds holds emission.scene)
      (Expansion.callOrFail computation fallback next scene) := by
  refine (h scene hscene).bind fun outcome houtcome => ?_
  cases outcome with
  | ok value between =>
      have hbetween : scene.Adds holds between := houtcome
      exact (hnext value between (hscene.of_adds hbetween)).imp fun _ h => hbetween.trans h
  | error d between =>
      obtain ⟨hbetween, herror⟩ := houtcome
      refine .pure (hbetween.trans (.report ?_))
      rw [Log.reported, hbetween.log.stack]
      exact hfail d herror

theorem callWithin {scene : Scene} (hscene : rule.SceneFits nesting scene) {name : String}
    (hname : name = "!IF" ∨ name = "!DO") {run : Scene → Calling Emission}
    (hrun : rule.SceneFits nesting (scene.enter name) →
      Routine.Meets (rule.contractAt holds nesting)
        (fun emission => (scene.enter name).Adds holds emission.scene) (run (scene.enter name))) :
    Routine.Meets (rule.contractAt holds nesting) (fun emission => scene.Adds holds emission.scene)
      (Expansion.callWithin name run scene) :=
  (hrun (rule.directive hname hscene)).bind fun _ h => .pure h.leave

end AddsRun

/-! ### Procedures -/

variable {called : Call → Prop}
  (hreports : ∀ c, called c → rule.Admits c → ∀ depth name d, c.Reports env depth name d → holds d)

include hreports

theorem adds_rangeBody {variableName : String} {last step : Float} {body : List Directive}
    {span : Span} {iterations : Nat} {index : Float} {scene : Scene}
    (hcalled : called
      (.iterateRange nesting variableName last step body span iterations index scene))
    (hscene : rule.SceneFits nesting scene) (hbody : HoldOnly rule.errors body) :
    Routine.Meets (rule.contractAt holds nesting) (fun emission => scene.Adds holds emission.scene)
      (rangeBody env nesting variableName last step body span iterations index scene) := by
  unfold rangeBody
  split
  · split
    · next hlimit =>
        exact .pure (.report (hreports _ hcalled ⟨hscene, hbody⟩ _ _ _ (.rangeLimit hlimit)))
    · refine (AddsRun.substitute hbody (scene.setVariable variableName (Number.text index))
        hscene).bind fun once honce => ?_
      refine AddsRun.callPasses hscene honce.of_setVariable fun scene hscene => ?_
      exact adds_call (.iterateRange nesting variableName last step body span (iterations + 1)
        (index + step) scene) ⟨hscene, hbody⟩ rfl
  · exact AddsRun.silent scene hscene

theorem adds_listBody {variableName : String} {body : List Directive} {span : Span}
    {iterations : Nat} {values : List String} {scene : Scene}
    (hcalled : called (.iterateList nesting variableName body span iterations values scene))
    (hscene : rule.SceneFits nesting scene) (hbody : HoldOnly rule.errors body) :
    Routine.Meets (rule.contractAt holds nesting) (fun emission => scene.Adds holds emission.scene)
      (listBody env nesting variableName body span iterations values scene) := by
  unfold listBody
  split
  · exact AddsRun.silent scene hscene
  · split
    · next hlimit =>
        exact .pure (.report (hreports _ hcalled ⟨hscene, hbody⟩ _ _ _ (.listLimit hlimit)))
    · next value values _ =>
        refine (AddsRun.substitute hbody (scene.setVariable variableName value) hscene).bind
          fun once honce => ?_
        refine AddsRun.callPasses hscene honce.of_setVariable fun scene hscene => ?_
        exact adds_call (.iterateList nesting variableName body span (iterations + 1) values scene)
          ⟨hscene, hbody⟩ rfl

theorem adds_directiveBody {directive : Directive} {scene : Scene}
    (hcalled : called (.substituteOne nesting directive scene))
    (hscene : rule.SceneFits nesting scene)
    (hdirective : ∀ error, directive.Holds error → rule.errors error) :
    Routine.Meets (rule.contractAt holds nesting) (fun emission => scene.Adds holds emission.scene)
      (directiveBody env nesting directive scene) := by
  have hreport {d : Diagnostic} (h : Call.Reports env (.substituteOne nesting directive scene)
      scene.activation.depth scene.activation.definition.name d) : holds d :=
    hreports _ hcalled ⟨hscene, hdirective⟩ _ _ _ h
  have hfailure {names : List String} (hnames : frameNames? directive = some names)
      {d : Diagnostic} (herror : d.error.OfExpression scene.activation.definition.name) :
      holds { d with stack := (names ++ scene.log.stack).reverse } :=
    hreport (.failure hnames herror)
  cases directive with
  | literal | allPositionals | breakLoop => exact .pure (.refl scene)
  | setExpand => exact .pure ⟨.refl scene.log, rfl, rfl⟩
  | parameter =>
      rw [directiveBody]
      split <;> exact .pure (.refl scene)
  | call function arguments span =>
      refine AddsRun.callOrFail hscene (.callText function arguments span) span (fun text => ?_)
        fun d herror => hfailure (rfl : _ = some []) herror
      exact fun scene _ => .pure (.refl scene)
  | cond condition thenBranch elseBranch =>
      refine AddsRun.callOrFail hscene (.evaluate condition) (.point 0) (fun value => ?_)
        fun d herror => hfailure (rfl : _ = some []) herror
      intro scene hscene
      split
      · next branch hbranch =>
          have hbranch : HoldOnly rule.errors branch := by
            split at hbranch
            · cases hbranch
              exact fun d hd error h => hdirective error (.thenBranch hd h)
            · subst hbranch
              exact fun d hd error h => hdirective error (.elseBranch hd h)
          exact AddsRun.callWithin hscene (.inl rfl) fun h => AddsRun.substitute hbranch _ h
      · exact AddsRun.silent scene hscene
  | doRange variableName first last step body span =>
      have hbody : HoldOnly rule.errors body := fun d hd error h => hdirective error (.doRange hd h)
      refine AddsRun.callWithin hscene (.inr rfl) fun hscene => ?_
      refine AddsRun.callOrFail hscene (.loopBounds first last step) span (fun bounds => ?_)
        fun d herror => hfailure (rfl : _ = some ["!DO"]) herror
      exact fun scene hscene => adds_call
        (.iterateRange nesting variableName bounds.2.1 bounds.2.2 body span 0 bounds.1 scene)
        ⟨hscene, hbody⟩ rfl
  | doIn variableName list body span =>
      have hbody : HoldOnly rule.errors body := fun d hd error h => hdirective error (.doIn hd h)
      refine AddsRun.callWithin hscene (.inr rfl) fun hscene => ?_
      refine AddsRun.callOrFail hscene (.evaluate list) span (fun text => ?_)
        fun d herror => hfailure (rfl : _ = some ["!DO"]) herror
      exact fun scene hscene => adds_call
        (.iterateList nesting variableName body span 0 ((tokenize text).map Token.text) scene)
        ⟨hscene, hbody⟩ rfl
  | assign variableName value =>
      refine AddsRun.callOrFail hscene (.evaluate value) (.point 0) (fun text => ?_)
        fun d herror => hfailure (rfl : _ = some []) herror
      exact fun scene _ => .pure ⟨.refl scene.log, rfl, rfl⟩
  | invalid error span => exact .pure (.report (hreport (.invalid nesting error span scene)))

omit hreports in
theorem adds_substituteBody {tree : List Directive} {scene : Scene}
    (hscene : rule.SceneFits nesting scene) (htree : HoldOnly rule.errors tree) :
    Routine.Meets (rule.contractAt holds nesting) (fun emission => scene.Adds holds emission.scene)
      (substituteBody nesting tree scene) := by
  cases tree with
  | nil => exact AddsRun.silent scene hscene
  | cons directive others =>
      obtain ⟨hfirst, hothers⟩ := List.forall_mem_cons.mp htree
      have hcall : Routine.Meets (rule.contractAt holds nesting)
          (fun emission => scene.Adds holds emission.scene)
          (callProcedure (.substituteOne nesting directive scene)) :=
        adds_call _ ⟨hscene, hfirst⟩ rfl
      refine hcall.bind fun first hfirst => ?_
      exact AddsRun.callThen hscene hfirst (AddsRun.substitute hothers)

theorem adds_textBody {text : String} {span : Span} {scene : Scene}
    (hcalled : called (.evaluateText nesting text span scene))
    (hscene : rule.SceneFits nesting scene) :
    Routine.Meets (rule.contractAt holds (nesting + 1)) (fun answer => scene.Adds holds answer.2)
      (textBody nesting text span scene) := by
  unfold textBody
  split
  · next hnesting =>
      exact .pure (.report (hreports _ hcalled hscene _ _ _ (.textLimit hnesting)))
  · next hnesting =>
      have hentered : rule.SceneFits (nesting + 1) (scene.enter "!EVAL") :=
        rule.text (Nat.lt_of_not_le hnesting) hscene
      have htree : HoldOnly rule.errors
          (Body.compile scene.activation.definition.parameters (tokenizeAt text span)) :=
        fun d hd error h => rule.compiled (Body.compile_holdOnly _ _ d hd error h)
      refine (AddsRun.substitute htree _ hentered).bind fun emission hemission => ?_
      have hcall : Routine.Meets (rule.contractAt holds (nesting + 1))
          (fun expansion => emission.scene.log.Adds holds expansion.2)
          (callProcedure (.expandCalls (nesting + 1) emission.tokens
            emission.scene.activation.depth emission.scene.log)) :=
        adds_call _ ⟨_, hentered.of_adds hemission⟩ rfl
      refine hcall.bind fun expansion hexpansion => .pure ?_
      exact ⟨(hemission.log.trans hexpansion).leave, hemission.definition, hemission.depth⟩

/-- Entering a call adds the problems of its arguments. -/
theorem adds_enterCall {frame : Frame} {outer : List Frame} {output : Array Token} {log : Log}
    {e : Emitted} {tokens : List Emitted} {d : Definition}
    (hcalled : called (.scanFrames nesting ⟨frame :: outer, output, log⟩))
    (h : rule.FramesFit nesting (frame :: outer) log.stack) (htokens : frame.tokens = e :: tokens)
    (hcallee : callee? env e = some d) :
    (log.enter d.name).Adds holds (enterCall log d (bindArguments d tokens)) :=
  .reports fun _ hproblem =>
    hreports _ hcalled h _ _ _ (.binding htokens hcallee hproblem)

omit hreports in
/-- The passes that are left, after additions to the log. -/
theorem adds_scanFrames {machine next : Machine} (hbase : machine.base.Adds holds next.base)
    (hnext : rule.FramesFit nesting next.frames next.log.stack) :
    Routine.Meets (rule.contractAt holds nesting) (fun final => machine.base.Adds holds final.log)
      (callProcedure (.scanFrames nesting next)) := by
  have hcall : Routine.Meets (rule.contractAt holds nesting)
      (fun final => next.base.Adds holds final.log) (callProcedure (.scanFrames nesting next)) :=
    adds_call _ hnext rfl
  exact hcall.imp fun final hfinal => hbase.trans hfinal

omit hreports in
/-- The frame on top is left. -/
theorem adds_leaveFrame {frame caller : Frame} {outer : List Frame} {output : Array Token}
    {log left : Log} (hleft : log.leave.Adds holds left)
    (houter : rule.FramesFit nesting (caller :: outer) log.stack.tail) :
    Routine.Meets (rule.contractAt holds nesting)
      (fun final => (Machine.mk (frame :: caller :: outer) output log).base.Adds holds final.log)
      (callProcedure (.scanFrames nesting ⟨caller :: outer, output, left⟩)) := by
  have hstack : left.stack = log.stack.tail := hleft.stack
  refine adds_scanFrames (hleft.withStack ?_) ?_
  · dsimp only
    rw [hstack]
    exact List.drop_tail
  · dsimp only
    rw [hstack]
    exact houter

theorem adds_framesBody {machine : Machine} (hcalled : called (.scanFrames nesting machine))
    (h : rule.FramesFit nesting machine.frames machine.log.stack) :
    Routine.Meets (rule.contractAt holds nesting) (fun final => machine.base.Adds holds final.log)
      (framesBody env nesting machine) := by
  unfold framesBody
  split
  · exact .pure (.refl _)
  · next frame outer output log =>
      obtain ⟨⟨innermost, hframe⟩, houter⟩ := h
      split
      · cases outer with
        | nil => exact adds_scanFrames (.refl _) ⟨frame.depth, innermost, hframe⟩
        | cons caller outer =>
            have hleft : log.leave.Adds holds (echoExpansion log.leave frame.echo fun _ =>
                (output.extract frame.start output.size).toList) := .echoExpansion _ _ _
            exact adds_leaveFrame hleft (houter (List.cons_ne_nil caller outer))
      · next e tokens htokens =>
          split
          · exact adds_scanFrames (.refl _) ⟨⟨innermost, hframe⟩, houter⟩
          · next d hcallee =>
              have hentered := adds_enterCall hreports hcalled ⟨⟨innermost, hframe⟩, houter⟩ htokens
                hcallee
              dsimp only
              split
              · next hdepth =>
                  have hdropped : (log.enter d.name).Adds holds
                      ((enterCall log d (bindArguments d tokens)).report
                        (nestingLimit env d e.token)) := by
                    refine hentered.trans (.report ?_)
                    rw [Log.reported, hentered.stack]
                    exact hreports _ hcalled ⟨⟨innermost, hframe⟩, houter⟩ _ _ _
                      (.nesting htokens hcallee hdepth)
                  have hleft := hdropped.leave.trans
                    (.echoExpansion _ (echoName? env frame.depth e.token) fun _ => [])
                  refine adds_scanFrames (hleft.withStack ?_) ?_
                  · exact congrArg (List.drop outer.length) hleft.stack
                  · dsimp only
                    rw [hleft.stack]
                    exact ⟨⟨innermost, hframe⟩, houter⟩
              · next hdepth =>
                  have hfits := rule.enter hcallee (Nat.le_of_not_lt hdepth) hframe
                  have hscene : rule.SceneFits nesting
                      ⟨{ definition := d, bindings := (bindArguments d tokens).bindings
                         depth := frame.depth + 1 }, enterCall log d (bindArguments d tokens)⟩ := by
                    rw [StackRule.SceneFits, hentered.stack]
                    exact hfits
                  refine (AddsRun.substitute (rule.body hcallee) _ hscene).bind
                    fun emission hemission => ?_
                  have hbody := hentered.trans hemission.log
                  refine adds_scanFrames (hbody.withStack ?_) ?_
                  · exact congrArg (List.drop (outer.length + 1)) hbody.stack
                  · dsimp only
                    rw [hbody.stack]
                    exact ⟨⟨_, hfits⟩, fun _ => ⟨⟨innermost, hframe⟩, houter⟩⟩

/-- Every procedure meets the contract, and makes its own calls under one number of `!EVAL`
expansions. -/
theorem adds_procedureBody (c : Call) (hcalled : called c) (h : rule.Admits c) :
    Routine.Meets (rule.contractAt holds c.innerNesting) (c.Adds holds) (procedureBody env c) := by
  cases c with
  | expandStatement nesting tokens log =>
      exact adds_call (.expandCalls nesting (Emitted.ofTokens env.settings.expand tokens) 0 log) h
        rfl
  | expandCalls nesting tokens depth log =>
      have hcall : Routine.Meets (rule.contractAt holds nesting)
          (fun final => log.Adds holds final.log)
          (callProcedure (.scanFrames nesting ⟨[⟨tokens, depth, 0, none⟩], #[], log⟩)) :=
        adds_call _ ⟨h, fun hne => absurd rfl hne⟩ rfl
      exact hcall.bind fun final hfinal => .pure hfinal
  | scanFrames nesting machine => exact adds_framesBody hreports hcalled h
  | substitute nesting tree scene => exact adds_substituteBody h.1 h.2
  | substituteOne nesting directive scene => exact adds_directiveBody hreports hcalled h.1 h.2
  | iterateRange nesting variableName last step body span iterations index scene =>
      exact adds_rangeBody hreports hcalled h.1 h.2
  | iterateList nesting variableName body span iterations values scene =>
      exact adds_listBody hreports hcalled h.1 h.2
  | evaluate nesting expr scene => exact adds_evaluateBody expr scene h
  | operandText nesting operand scene => exact adds_operandBody operand scene h
  | operandTexts nesting operands scene => exact adds_operandsBody operands scene h
  | evaluateText nesting text span scene => exact adds_textBody hreports hcalled h

end Procedures

/-! ### Runs -/

section Runs

open Routine (Makes MakesDirectly)

variable {env : Environment} (rule : StackRule env)

/-- Whatever is reported, every procedure makes its calls with stacks that fit. -/
theorem StackRule.meets_at (c : Call) (h : rule.Admits c) :
    Routine.Meets (rule.contractAt (fun _ => True) c.innerNesting) (c.Adds fun _ => True)
      (procedureBody env c) := by
  have hreports : ∀ c, True → rule.Admits c → ∀ depth name d, c.Reports env depth name d → True :=
    fun _ _ _ _ _ _ _ => trivial
  exact adds_procedureBody hreports c trivial h

theorem StackRule.meets (c : Call) (h : (rule.contract fun _ => True).requires c) :
    Routine.Meets (rule.contract fun _ => True) ((rule.contract fun _ => True).ensures c)
      (procedureBody env c) :=
  (rule.meets_at c h).mono (fun _ h => h.1) (fun _ _ h => h)

/-- Every call of a run is made with a stack that fits. -/
theorem StackRule.admits_of_makes {c made : Call} (h : rule.Admits c)
    (hmade : Makes (procedureBody env) made (callProcedure c)) : rule.Admits made := by
  have hcall : (rule.contract fun _ => True).requires c := h
  exact hmade.required rule.meets (.ask hcall)

/-- A procedure makes its own calls under one number of `!EVAL` expansions. -/
theorem StackRule.nesting_of_makesDirectly {c made : Call} (h : rule.Admits c)
    (hmade : MakesDirectly (procedureBody env) made (procedureBody env c)) :
    made.nesting = c.innerNesting :=
  (hmade.required rule.meets (rule.meets_at c h) (fun _ h => h.1) (fun _ _ h => h)).2

/-- All that is reported while a call runs satisfies what holds of every diagnostic that one of the
calls on the way reports itself. -/
theorem StackRule.adds_value {c : Call} (h : rule.Admits c) {holds : Diagnostic → Prop}
    (hreports : ∀ made, Makes (procedureBody env) made (callProcedure c) → rule.Admits made →
      ∀ depth name d, made.Reports env depth name d → holds d) :
    c.Adds holds (c.value env) := by
  have hbody (made : Call) (hmade : Makes (procedureBody env) made (callProcedure c))
      (h : (rule.contract holds).requires made) :
      Routine.Meets (rule.contract holds) ((rule.contract holds).ensures made)
        (procedureBody env made) :=
    (adds_procedureBody hreports made hmade h).mono (fun _ h => h.1) (fun _ _ h => h)
  have hcall : (rule.contract holds).requires c := h
  have hvalue : (rule.contract holds).ensures c (c.value env) :=
    (settles env c).call.satisfies_of_made hbody (fun _ hmade => hmade) (.ask hcall)
  exact hvalue

end Runs

end Expansion

end CommandMacros

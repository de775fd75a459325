import CommandMacros.Expansion.Routine
import CommandMacros.Proofs.Expansion.FrameStack

/-!
Every expansion comes to an end. The procedures of the expansion call each other without a bound of
their own, on bodies that call themselves, on loops whose index never passes the last value and on
trees compiled from computed text; still every call returns, and returns what the library computes.
The order that goes down is lexicographic: the levels of `!EVAL` that are left, then the shape of
the stack of frames, then the directive tree, then the iterations that are left.
-/

namespace CommandMacros.Expansion

namespace Routine

variable {Call : Type} {Answer : Call → Type} {body : (c : Call) → Routine Call Answer (Answer c)}
  {α β : Type}

theorem Returns.bind {routine : Routine Call Answer α} {next : α → Routine Call Answer β}
    {value : α} {result : β} (h : Returns body routine value)
    (hnext : Returns body (next value) result) : Returns body (routine >>= next) result := by
  induction h with
  | done => exact hnext
  | call hcall _ _ ih => exact .call hcall (ih hnext)

theorem Returns.pure (value : α) : Returns body (Pure.pure value) value :=
  .done value

theorem Returns.ask {c : Call} {answer : Answer c} (h : Returns body (body c) answer) :
    Returns body (Routine.ask c) answer :=
  .call h (.done answer)

/-- A routine returns at most one value. -/
theorem Returns.unique {routine : Routine Call Answer α} {first second : α}
    (hfirst : Returns body routine first) (hsecond : Returns body routine second) :
    first = second := by
  induction hfirst with
  | done => cases hsecond; rfl
  | call _ _ ihcall ihnext =>
      cases hsecond with
      | call hcall hnext =>
          cases ihcall hcall
          exact ihnext hnext

end Routine

open Routine (Returns)

/-! ### The answers -/

/-- The evaluator of `!EVAL` texts with this many expansions in progress. -/
def evaluatorWithin (env : Environment) (nesting : Nat) : Evaluator :=
  evaluateText env (maxEvalNesting - nesting)

/-- What the library computes for a call. -/
def Call.value (env : Environment) : (c : Call) → c.Answer
  | .expandStatement nesting tokens log =>
    expandWith env (evaluatorWithin env nesting)
      (Emitted.ofTokens env.settings.expand tokens) 0 log
  | .expandCalls nesting tokens depth log =>
    expandWith env (evaluatorWithin env nesting) tokens depth log
  | .scanFrames nesting machine => machine.run env (evaluatorWithin env nesting)
  | .substitute nesting tree scene => Expansion.substitute env (evaluatorWithin env nesting) tree scene
  | .substituteOne nesting directive scene =>
    Expansion.substituteOne env (evaluatorWithin env nesting) directive scene
  | .iterateRange nesting variableName last step body span iterations index scene =>
    Expansion.iterateRange env (Expansion.substitute env (evaluatorWithin env nesting) body)
      variableName last step span (env.settings.iterateLimit - iterations) index scene
  | .iterateList nesting variableName body span iterations values scene =>
    Expansion.iterateList env (Expansion.substitute env (evaluatorWithin env nesting) body)
      variableName span (env.settings.iterateLimit - iterations) values scene
  | .evaluate nesting expr scene => Expansion.evaluate (evaluatorWithin env nesting) expr scene
  | .operandText nesting operand scene =>
    Expansion.operandText (evaluatorWithin env nesting) operand scene
  | .operandTexts nesting operands scene =>
    Expansion.operandTexts (evaluatorWithin env nesting) operands scene
  | .evaluateText nesting text span scene => evaluatorWithin env nesting text span scene

/-- The call returns, and its answer is what the library computes. -/
def Settles (env : Environment) (c : Call) : Prop :=
  Returns (procedureBody env) (procedureBody env c) (c.value env)

/-- On every scene the routine returns what the function gives. -/
def Computes (env : Environment) {α : Type} (routine : Scene → Calling α) (function : Scene → α) :
    Prop :=
  ∀ scene, Returns (procedureBody env) (routine scene) (function scene)

variable {env : Environment} {nesting : Nat}

theorem Settles.call {c : Call} (h : Settles env c) :
    Returns (procedureBody env) (callProcedure c) (c.value env) :=
  .ask h

/-! ### Expressions -/

namespace Computes

variable {α β : Type}

theorem bind {routine : CallingEval α} {computation : Eval α} {next : α → CallingEval β}
    {after : α → Eval β} (h : Computes env routine computation)
    (hnext : ∀ value, Computes env (next value) (after value)) :
    Computes env (routine >>= next : CallingEval β) (computation >>= after : Eval β) := by
  intro scene
  refine (h scene).bind ?_
  change Returns _ _ (EStateM.bind computation after scene)
  unfold EStateM.bind
  cases computation scene with
  | ok value scene => exact hnext value scene
  | error d scene => exact .pure _

theorem pure (value : α) :
    Computes env (Pure.pure value : CallingEval α) (Pure.pure value : Eval α) :=
  fun _ => .pure _

end Computes

/-- Every `!EVAL` text settles with this many expansions in progress. -/
def TextsSettle (env : Environment) (nesting : Nat) : Prop :=
  ∀ text span scene, Settles env (.evaluateText nesting text span scene)

theorem computes_applyBuiltin (htexts : TextsSettle env nesting) (function : Builtin)
    (arguments : List String) (span : Span) :
    Computes env (CallingEval.applyBuiltin nesting function arguments span)
      (applyBuiltin (evaluatorWithin env nesting) function arguments span) := by
  intro scene
  unfold CallingEval.applyBuiltin
  split
  · exact (htexts _ span scene).call.bind (.pure _)
  · next hfunction =>
      rw [applyBuiltin, Builtin.apply_of_ne_eval _ hfunction]
      cases function.compute arguments with
      | ok text => exact .pure _
      | error cause => exact .pure _

mutual

theorem settles_operandText (htexts : TextsSettle env nesting) (operand : Operand) (scene : Scene) :
    Settles env (.operandText nesting operand scene) := by
  match operand with
  | .token t => exact .pure _
  | .parameter index => exact .pure _
  | .allPositionals => exact .pure _
  | .call function arguments span =>
    exact Computes.bind (fun scene => (settles_operandTexts htexts arguments scene).call)
      (fun texts => computes_applyBuiltin htexts function texts span) scene

theorem settles_operandTexts (htexts : TextsSettle env nesting) (operands : List Operand)
    (scene : Scene) :
    Settles env (.operandTexts nesting operands scene) := by
  match operands with
  | [] => exact .pure _
  | operand :: others =>
    exact Computes.bind (fun scene => (settles_operandText htexts operand scene).call)
      (fun text => Computes.bind (fun scene => (settles_operandTexts htexts others scene).call)
        fun texts => Computes.pure (text :: texts)) scene

end

theorem computes_callText (htexts : TextsSettle env nesting) (function : Builtin)
    (arguments : List Operand) (span : Span) :
    Computes env (CallingEval.callText nesting function arguments span)
      (callText (evaluatorWithin env nesting) function arguments span) :=
  Computes.bind (fun scene => (settles_operandTexts htexts arguments scene).call)
    fun texts => computes_applyBuiltin htexts function texts span

theorem settles_evaluate (htexts : TextsSettle env nesting) (expr : Expr) (scene : Scene) :
    Settles env (.evaluate nesting expr scene) := by
  induction expr generalizing scene with
  | or left right ihleft ihright =>
      exact Computes.bind (fun scene => (ihleft scene).call)
        (fun l => Computes.bind (fun scene => (ihright scene).call) fun r => Computes.pure _) scene
  | and left right ihleft ihright =>
      exact Computes.bind (fun scene => (ihleft scene).call)
        (fun l => Computes.bind (fun scene => (ihright scene).call) fun r => Computes.pure _) scene
  | not inner ih =>
      exact Computes.bind (fun scene => (ih scene).call) (fun value => Computes.pure _) scene
  | relation relation left right ihleft ihright =>
      exact Computes.bind (fun scene => (ihleft scene).call)
        (fun l => Computes.bind (fun scene => (ihright scene).call) fun r => Computes.pure _) scene
  | operand operand =>
      exact Computes.bind (fun scene => (settles_operandText htexts operand scene).call)
        (fun text => Computes.pure _) scene

theorem computes_evaluate (htexts : TextsSettle env nesting) (expr : Expr) :
    Computes env (CallingEval.evaluate nesting expr) (evaluate (evaluatorWithin env nesting) expr) :=
  fun scene => (settles_evaluate htexts expr scene).call

theorem computes_evaluateNumber (htexts : TextsSettle env nesting) (expr : Expr) :
    Computes env (CallingEval.evaluateNumber nesting expr)
      (evaluateNumber (evaluatorWithin env nesting) expr) := by
  refine Computes.bind (computes_evaluate htexts expr) fun text => ?_
  cases singleNumber? text with
  | some value => exact Computes.pure value
  | none => exact fun scene => .pure _

theorem computes_loopStep (htexts : TextsSettle env nesting) (first last : Float)
    (step : Option Expr) :
    Computes env (CallingEval.loopStep nesting first last step)
      (loopStep (evaluatorWithin env nesting) first last step) := by
  cases step with
  | some step => exact computes_evaluateNumber htexts step
  | none => exact Computes.pure _

theorem computes_loopBounds (htexts : TextsSettle env nesting) (first last : Expr)
    (step : Option Expr) :
    Computes env (CallingEval.loopBounds nesting first last step)
      (loopBounds (evaluatorWithin env nesting) first last step) := by
  refine Computes.bind (computes_evaluateNumber htexts first) fun first => ?_
  refine Computes.bind (computes_evaluateNumber htexts last) fun last => ?_
  refine Computes.bind (computes_loopStep htexts first last step) fun step scene => ?_
  change Returns _ _ (EStateM.bind (nonzeroStep step) _ scene)
  unfold EStateM.bind nonzeroStep
  split
  · exact .pure _
  · exact .pure _

/-! ### Loops -/

/-- The directives settle in every scene. -/
def TreeSettles (env : Environment) (nesting : Nat) (tree : List Directive) : Prop :=
  ∀ scene, Settles env (.substitute nesting tree scene)

theorem returns_callThen {routine : Scene → Calling Emission} {next : Scene → Emission}
    (hnext : Computes env routine next) (first : Emission) :
    Returns (procedureBody env) (callThen first routine) (first.andThen next) := by
  unfold callThen Emission.andThen
  split
  · exact .pure _
  · exact (hnext _).bind (.pure _)

theorem returns_callPasses {routine : Scene → Calling Emission} {others : Scene → Emission}
    (hothers : Computes env routine others) (once : Emission) :
    Returns (procedureBody env) (callPasses once routine) (once.andPasses others) := by
  unfold callPasses Emission.andPasses
  split
  · exact .pure _
  · exact (hothers _).bind (.pure _)

/-- A numeric loop ends whatever its index does: the iterations are counted. -/
theorem settles_iterateRange {tree : List Directive} (htree : TreeSettles env nesting tree)
    (variableName : String) (last step : Float) (span : Span) (iterations : Nat) (index : Float)
    (scene : Scene) :
    Settles env
      (.iterateRange nesting variableName last step tree span iterations index scene) := by
  induction hremaining : env.settings.iterateLimit - iterations
    generalizing iterations index scene with
  | zero =>
      simp only [Settles, procedureBody, Call.value, rangeBody, hremaining]
      by_cases hbounds : withinBounds index last step = true
      · rw [if_pos hbounds, if_pos (by omega), iterateRange_limit hbounds]
        exact .pure _
      · rw [if_neg hbounds, iterateRange_past hbounds]
        exact .pure _
  | succ remaining ih =>
      simp only [Settles, procedureBody, Call.value, rangeBody, hremaining]
      by_cases hbounds : withinBounds index last step = true
      · rw [if_pos hbounds, if_neg (by omega), iterateRange_pass hbounds]
        have hothers : Computes env
            (fun scene => callProcedure (.iterateRange nesting variableName last step tree span
              (iterations + 1) (index + step) scene))
            (iterateRange env (substitute env (evaluatorWithin env nesting) tree) variableName last
              step span remaining (index + step)) := by
          intro scene
          have hsettles := ih (iterations + 1) (index + step) scene (by omega)
          have hcall := hsettles.call
          rwa [Call.value, show env.settings.iterateLimit - (iterations + 1) = remaining by omega]
            at hcall
        exact (htree _).call.bind (returns_callPasses hothers _)
      · rw [if_neg hbounds, iterateRange_past hbounds]
        exact .pure _

theorem settles_iterateList {tree : List Directive} (htree : TreeSettles env nesting tree)
    (variableName : String) (span : Span) (iterations : Nat) (values : List String)
    (scene : Scene) :
    Settles env (.iterateList nesting variableName tree span iterations values scene) := by
  induction values generalizing iterations scene with
  | nil =>
      simp only [Settles, procedureBody, Call.value, listBody, iterateList]
      exact .pure _
  | cons value values ih =>
      simp only [Settles, procedureBody, Call.value, listBody]
      cases hremaining : env.settings.iterateLimit - iterations with
      | zero =>
          rw [if_pos (by omega)]
          exact .pure _
      | succ remaining =>
          rw [if_neg (by omega)]
          have hothers : Computes env
              (fun scene => callProcedure (.iterateList nesting variableName tree span
                (iterations + 1) values scene))
              (iterateList env (substitute env (evaluatorWithin env nesting) tree) variableName
                span remaining values) := by
            intro scene
            have hcall := (ih (iterations + 1) scene).call
            rwa [Call.value, show env.settings.iterateLimit - (iterations + 1) = remaining by omega]
              at hcall
          exact (htree _).call.bind (returns_callPasses hothers _)

/-! ### Directives -/

theorem computes_callOrFail {α : Type} {routine : CallingEval α} {computation : Eval α}
    {next : α → Scene → Calling Emission} {after : α → Scene → Emission}
    (h : Computes env routine computation) (hnext : ∀ value, Computes env (next value) (after value))
    (fallback : Span) :
    Computes env (callOrFail routine fallback next) (orFail computation fallback after) := by
  intro scene
  refine (h scene).bind ?_
  unfold orFail
  cases computation scene with
  | ok value scene => exact hnext value scene
  | error d scene => exact .pure _

theorem computes_callWithin {routine : Scene → Calling Emission} {run : Scene → Emission}
    (h : Computes env routine run) (name : String) :
    Computes env (callWithin name routine) (within name run) :=
  fun scene => (h (scene.enter name)).bind (.pure _)

mutual

theorem settles_substituteOne (htexts : TextsSettle env nesting) (directive : Directive)
    (scene : Scene) : Settles env (.substituteOne nesting directive scene) := by
  match directive with
  | .literal tokens => exact .pure _
  | .parameter index =>
    simp only [Settles, procedureBody, Call.value, directiveBody, substituteOne]
    cases scene.activation.bindings[index]? with
    | some binding => exact .pure _
    | none => exact .pure _
  | .allPositionals => exact .pure _
  | .call function arguments span =>
    simp only [Settles, procedureBody, Call.value, directiveBody, substituteOne]
    exact computes_callOrFail (computes_callText htexts function arguments span)
      (fun text scene => .pure _) span scene
  | .cond condition thenBranch elseBranch =>
    rw [Settles, Call.value, substituteOne_cond]
    refine computes_callOrFail (computes_evaluate htexts condition) (fun value scene => ?_) (.point 0)
      scene
    cases truth value with
    | true =>
        exact computes_callWithin (fun scene => (settles_substitute htexts thenBranch scene).call)
          "!IF" scene
    | false =>
        match elseBranch with
        | some branch =>
          exact computes_callWithin (fun scene => (settles_substitute htexts branch scene).call)
            "!IF" scene
        | none => exact .pure _
  | .doRange variableName first last step body span =>
    simp only [Settles, procedureBody, Call.value, directiveBody, substituteOne]
    have hbody : TreeSettles env nesting body := settles_substitute htexts body
    refine computes_callWithin (computes_callOrFail (computes_loopBounds htexts first last step)
      (fun bounds scene => ?_) span) "!DO" scene
    exact (settles_iterateRange hbody variableName bounds.2.1 bounds.2.2 span 0 bounds.1 scene).call
  | .doIn variableName list body span =>
    simp only [Settles, procedureBody, Call.value, directiveBody, substituteOne]
    have hbody : TreeSettles env nesting body := settles_substitute htexts body
    refine computes_callWithin (computes_callOrFail (computes_evaluate htexts list)
      (fun text scene => ?_) span) "!DO" scene
    exact (settles_iterateList hbody variableName span 0 ((tokenize text).map Token.text) scene).call
  | .assign variableName value =>
    simp only [Settles, procedureBody, Call.value, directiveBody, substituteOne]
    exact computes_callOrFail (computes_evaluate htexts value) (fun text scene => .pure _) (.point 0)
      scene
  | .setExpand enabled => exact .pure _
  | .breakLoop => exact .pure _
  | .invalid error span => exact .pure _

theorem settles_substitute (htexts : TextsSettle env nesting) (tree : List Directive)
    (scene : Scene) : Settles env (.substitute nesting tree scene) := by
  match tree with
  | [] => exact .pure _
  | directive :: others =>
    refine (settles_substituteOne htexts directive scene).call.bind ?_
    exact returns_callThen (fun scene => (settles_substitute htexts others scene).call) _

end

/-! ### Frames -/

/-- A pass over the topmost frame goes on with the machine that a step gives. -/
theorem returns_framesBody (htexts : TextsSettle env nesting) (frame : Frame) (outer : List Frame)
    (output : Array Token) (log : Log) {final : Machine}
    (hnext : Returns (procedureBody env)
      (callProcedure (.scanFrames nesting
        (advance env (evaluatorWithin env nesting) frame outer output log))) final) :
    Returns (procedureBody env) (framesBody env nesting ⟨frame :: outer, output, log⟩) final := by
  obtain ⟨tokens, depth, start, echo⟩ := frame
  cases tokens with
  | nil =>
      cases outer with
      | nil => exact hnext
      | cons caller outer => exact hnext
  | cons e tokens =>
      cases he : callee? env e with
      | none =>
          rw [advance_copy he] at hnext
          simpa only [framesBody, he] using hnext
      | some d =>
          by_cases hdepth : depth + 1 ≤ env.settings.nestLimit
          · rw [advance_enter he hdepth] at hnext
            simp only [framesBody, he, if_neg (Nat.not_lt.mpr hdepth)]
            exact (settles_substitute htexts d.body _).call.bind hnext
          · rw [advance_drop he hdepth] at hnext
            simp only [framesBody, he, if_pos (Nat.not_le.mp hdepth)]
            exact hnext

/-- The loop over the frames ends: every pass makes the shape of the stack smaller. -/
theorem settles_scanFrames (htexts : TextsSettle env nesting) (machine : Machine) :
    Settles env (.scanFrames nesting machine) := by
  obtain ⟨frames, output, log⟩ := machine
  induction hshape : shapeOf frames
    using (Shape.smaller_wellFounded env.settings.nestLimit).induction
    generalizing frames output log with
  | _ shape ih =>
      subst hshape
      cases frames with
      | nil =>
          rw [Settles, Call.value, Machine.run_nil]
          exact .pure _
      | cons frame outer =>
          rw [Settles, Call.value, Machine.run_cons]
          refine returns_framesBody htexts frame outer output log ?_
          exact (ih _ (shapeOf_advance env (evaluatorWithin env nesting) frame outer output log)
            _ _ _ rfl).call

theorem settles_expandCalls (htexts : TextsSettle env nesting) (tokens : List Emitted)
    (depth : Nat) (log : Log) : Settles env (.expandCalls nesting tokens depth log) :=
  (settles_scanFrames htexts _).call.bind (.pure _)

/-! ### Texts of `!EVAL` -/

theorem textsSettle_of_nested (hnested : nesting < maxEvalNesting → TextsSettle env (nesting + 1)) :
    TextsSettle env nesting := by
  intro text span scene
  rw [Settles, Call.value, evaluatorWithin]
  by_cases hnesting : nesting < maxEvalNesting
  · obtain ⟨levels, hlevels⟩ : ∃ levels, maxEvalNesting - nesting = levels + 1 :=
      ⟨maxEvalNesting - nesting - 1, by omega⟩
    have heval : evaluateText env levels = evaluatorWithin env (nesting + 1) := by
      rw [evaluatorWithin, show maxEvalNesting - (nesting + 1) = levels by omega]
    rw [hlevels]
    simp only [procedureBody, textBody, if_neg (Nat.not_le.mpr hnesting), evaluateText, heval]
    refine (settles_substitute (hnested hnesting) _ _).call.bind ?_
    exact (settles_expandCalls (hnested hnesting) _ _ _).call.bind (.pure _)
  · rw [show maxEvalNesting - nesting = 0 by omega]
    simp only [procedureBody, textBody, if_pos (Nat.not_lt.mp hnesting)]
    exact .pure _

theorem textsSettle (env : Environment) (nesting : Nat) : TextsSettle env nesting := by
  induction hlevels : maxEvalNesting - nesting generalizing nesting with
  | zero => exact textsSettle_of_nested fun h => by omega
  | succ levels ih => exact textsSettle_of_nested fun _ => ih (nesting + 1) (by omega)

theorem settles (env : Environment) (c : Call) : Settles env c := by
  cases c with
  | expandStatement nesting tokens log =>
      exact (settles_expandCalls (textsSettle env nesting) _ 0 log).call
  | expandCalls nesting tokens depth log =>
      exact settles_expandCalls (textsSettle env nesting) tokens depth log
  | scanFrames nesting machine => exact settles_scanFrames (textsSettle env nesting) machine
  | substitute nesting tree scene => exact settles_substitute (textsSettle env nesting) tree scene
  | substituteOne nesting directive scene =>
      exact settles_substituteOne (textsSettle env nesting) directive scene
  | iterateRange nesting variableName last step body span iterations index scene =>
      exact settles_iterateRange (settles_substitute (textsSettle env nesting) body) variableName
        last step span iterations index scene
  | iterateList nesting variableName body span iterations values scene =>
      exact settles_iterateList (settles_substitute (textsSettle env nesting) body) variableName
        span iterations values scene
  | evaluate nesting expr scene => exact settles_evaluate (textsSettle env nesting) expr scene
  | operandText nesting operand scene =>
      exact settles_operandText (textsSettle env nesting) operand scene
  | operandTexts nesting operands scene =>
      exact settles_operandTexts (textsSettle env nesting) operands scene
  | evaluateText nesting text span scene => exact textsSettle env nesting text span scene

/-- Every procedure of the expansion returns on every input, under every table and all limits, 0
included, and returns exactly what the library computes. -/
theorem expansion_terminates (env : Environment) (c : Call) (answer : c.Answer) :
    Returns (procedureBody env) (callProcedure c) answer ↔ answer = c.value env := by
  constructor
  · intro h
    exact h.unique (settles env c).call
  · intro h
    rw [h]
    exact (settles env c).call

end CommandMacros.Expansion

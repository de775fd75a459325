import CommandMacros.Expansion.Evaluate

/-!
Substituting a macro body. Directives are run in order and give tokens, each flagged with whether a
later pass may take it for a macro call. A directive that fails is reported, leaves an error marker
in its place, and the directives after it are still run.
-/

namespace CommandMacros.Expansion

/-- The tokens given by some directives, whether a `!BREAK` was reached, and the scene
afterwards. -/
structure Emission where
  tokens : List Emitted
  broken : Bool
  scene : Scene

namespace Emission

/-- Nothing but a change of the scene. -/
def silent (scene : Scene) : Emission := ⟨[], false, scene⟩

def ofTokens (tokens : List Emitted) (scene : Scene) : Emission := ⟨tokens, false, scene⟩

/-- Puts tokens in front. -/
def after (emission : Emission) (tokens : List Emitted) : Emission :=
  { emission with tokens := tokens ++ emission.tokens }

/-- Goes on with `next`, unless a `!BREAK` was reached. -/
@[inline] def andThen (first : Emission) (next : Scene → Emission) : Emission :=
  if first.broken then first else (next first.scene).after first.tokens

/-- Goes on with the other passes of a loop. A `!BREAK` that was reached ends the loop and goes no
further. -/
@[inline] def andPasses (once : Emission) (others : Scene → Emission) : Emission :=
  if once.broken then
    { once with broken := false }
  else
    (others once.scene).after once.tokens

end Emission

/-- Reports an error and leaves a marker where it has its place, or else at `fallback`. -/
def fail (scene : Scene) (d : Diagnostic) (fallback : Span) : Emission :=
  .ofTokens (Emitted.inert [.errorMarker d.message (d.span.getD fallback)]) (scene.report d)

/-- Goes on with the value of a computation, or else reports its error and leaves a marker. -/
@[inline] def orFail {α : Type} (computation : Eval α) (fallback : Span)
    (next : α → Scene → Emission) (scene : Scene) : Emission :=
  match computation scene with
  | .ok value scene => next value scene
  | .error d scene => fail scene d fallback

/-- Whether plain text of the body may name macro calls now. -/
def textExpandable (env : Environment) (scene : Scene) : Bool :=
  scene.activation.expandEnabled && env.settings.expand

/-- The tokens of a literal token: those of the value if it names a variable, which are not searched
for calls, or else itself. -/
def literalTokens (env : Environment) (scene : Scene) (t : Token) : List Emitted :=
  match if t.isMacroId then scene.activation.locals.get? t.text else none with
  | some value => Emitted.inert (tokenizeAt value t.span)
  | none => [⟨t, textExpandable env scene⟩]

/-- The tokens bound to a parameter. -/
def bindingTokens (env : Environment) (scene : Scene) (binding : Binding) : List Emitted :=
  Emitted.ofTokens (binding.expandable && textExpandable env scene) binding.tokens

/-- The step of a numeric loop. Without one the loop counts by one towards the last value. -/
def loopStep (eval : Evaluator) (first last : Float) : Option Expr → Eval Float
  | some step => evaluateNumber eval step
  | none => pure (if first ≤ last then 1.0 else -1.0)

/-- Fails on a step with which a loop would not move. -/
def nonzeroStep (step : Float) : Eval Float := fun scene =>
  if step == 0.0 then
    .error { error := .binding scene.activation.definition.name .zeroStep } scene
  else
    .ok step scene

/-- The first value, the last value and the step of a numeric loop. -/
def loopBounds (eval : Evaluator) (first last : Expr) (step : Option Expr) :
    Eval (Float × Float × Float) := do
  let first ← evaluateNumber eval first
  let last ← evaluateNumber eval last
  let step ← loopStep eval first last step
  let step ← nonzeroStep step
  return (first, last, step)

/-- Whether a loop that counts by `step` has not gone past its last value. -/
def withinBounds (index last step : Float) : Bool :=
  (decide (0.0 < step) && decide (index ≤ last)) || (decide (step < 0.0) && decide (last ≤ index))

def iterationLimit (env : Environment) (span : Span) : Diagnostic :=
  { error := .iterationLimit env.settings.iterateLimit, span := some span }

/-- Runs a loop body with one value of the variable. -/
def iteration (body : Scene → Emission) (variableName value : String) (scene : Scene) : Emission :=
  body (scene.setVariable variableName value)

/-- A numeric loop from `index` on, with `remaining` iterations allowed. -/
def iterateRange (env : Environment) (body : Scene → Emission) (variableName : String)
    (last step : Float) (span : Span) : Nat → Float → Scene → Emission
  | remaining, index, scene =>
    if withinBounds index last step then
      match remaining with
      | 0 => .silent (scene.report (iterationLimit env span))
      | remaining + 1 =>
        (iteration body variableName (Number.text index) scene).andPasses
          (iterateRange env body variableName last step span remaining (index + step))
    else
      .silent scene

section NumericLoop

variable {env : Environment} {body : Scene → Emission} {variableName : String}
  {last step index : Float} {span : Span}

theorem iterateRange_past (h : ¬withinBounds index last step = true) (remaining : Nat) :
    iterateRange env body variableName last step span remaining index = Emission.silent := by
  funext scene
  cases remaining with
  | zero => exact if_neg h
  | succ remaining => exact if_neg h

theorem iterateRange_limit (h : withinBounds index last step = true) :
    iterateRange env body variableName last step span 0 index =
      fun scene => .silent (scene.report (iterationLimit env span)) := by
  funext scene
  exact if_pos h

theorem iterateRange_pass (h : withinBounds index last step = true) (remaining : Nat) :
    iterateRange env body variableName last step span (remaining + 1) index =
      fun scene => (iteration body variableName (Number.text index) scene).andPasses
        (iterateRange env body variableName last step span remaining (index + step)) := by
  funext scene
  exact if_pos h

end NumericLoop

/-- A loop over a list of values, with `remaining` iterations allowed. -/
def iterateList (env : Environment) (body : Scene → Emission) (variableName : String)
    (span : Span) : Nat → List String → Scene → Emission
  | _, [], scene => .silent scene
  | 0, _ :: _, scene => .silent (scene.report (iterationLimit env span))
  | remaining + 1, value :: values, scene =>
    (iteration body variableName value scene).andPasses
      (iterateList env body variableName span remaining values)

theorem iterateList_nil (env : Environment) (body : Scene → Emission) (variableName : String)
    (span : Span) (remaining : Nat) :
    iterateList env body variableName span remaining [] = Emission.silent := by
  funext scene
  rw [iterateList]

/-- Runs a numeric loop in a scene that has entered it. -/
def runRange (env : Environment) (eval : Evaluator) (body : Scene → Emission)
    (variableName : String) (first last : Expr) (step : Option Expr) (span : Span)
    (scene : Scene) : Emission :=
  orFail (loopBounds eval first last step) span
    (fun (first, last, step) scene =>
      iterateRange env body variableName last step span env.settings.iterateLimit first scene)
    scene

/-- Runs a loop over the tokens of a list in a scene that has entered it. -/
def runList (env : Environment) (eval : Evaluator) (body : Scene → Emission)
    (variableName : String) (list : Expr) (span : Span) (scene : Scene) : Emission :=
  orFail (evaluate eval list) span
    (fun text scene =>
      iterateList env body variableName span env.settings.iterateLimit
        ((tokenize text).map Token.text) scene)
    scene

/-- Runs something under the name of a directive on the stack. -/
def within (name : String) (run : Scene → Emission) (scene : Scene) : Emission :=
  let emission := run (scene.enter name)
  { emission with scene := emission.scene.leave }

mutual

def substituteOne (env : Environment) (eval : Evaluator) : Directive → Scene → Emission
  | .literal tokens, scene => .ofTokens (tokens.flatMap (literalTokens env scene)) scene
  | .parameter index, scene =>
    match scene.activation.bindings[index]? with
    | some binding => .ofTokens (bindingTokens env scene binding) scene
    | none => .silent scene
  | .allPositionals, scene =>
    .ofTokens (scene.activation.positionals.flatMap (bindingTokens env scene)) scene
  | .call function arguments span, scene =>
    orFail (callText eval function arguments span) span
      (fun text scene => .ofTokens (Emitted.inert (tokenizeAt text span)) scene) scene
  | .cond condition thenBranch elseBranch, scene =>
    orFail (evaluate eval condition) (.point 0)
      (fun value scene =>
        if truth value then
          within "!IF" (substitute env eval thenBranch) scene
        else
          match elseBranch with
          | some branch => within "!IF" (substitute env eval branch) scene
          | none => .silent scene)
      scene
  | .doRange variableName first last step body span, scene =>
    within "!DO"
      (runRange env eval (substitute env eval body) variableName first last step span) scene
  | .doIn variableName list body span, scene =>
    within "!DO" (runList env eval (substitute env eval body) variableName list span) scene
  | .assign variableName value, scene =>
    orFail (evaluate eval value) (.point 0)
      (fun text scene => .silent (scene.setVariable variableName text)) scene
  | .setExpand enabled, scene =>
    .silent { scene with activation := { scene.activation with expandEnabled := enabled } }
  | .breakLoop, scene => ⟨[], true, scene⟩
  | .invalid error span, scene => fail scene { error, span := some span } span

/-- Runs the directives in order, up to a `!BREAK`. -/
def substitute (env : Environment) (eval : Evaluator) : List Directive → Scene → Emission
  | [], scene => .silent scene
  | directive :: others, scene =>
    (substituteOne env eval directive scene).andThen (substitute env eval others)

end

/-- A condition chooses the directives that are run. -/
theorem substituteOne_cond (env : Environment) (eval : Evaluator) (condition : Expr)
    (thenBranch : List Directive) (elseBranch : Option (List Directive)) (scene : Scene) :
    substituteOne env eval (.cond condition thenBranch elseBranch) scene =
      orFail (evaluate eval condition) (.point 0)
        (fun value scene =>
          match if truth value then some thenBranch else elseBranch with
          | some branch => within "!IF" (substitute env eval branch) scene
          | none => .silent scene)
        scene := by
  have hbranch : ∀ value scene,
      (match if truth value then some thenBranch else elseBranch with
        | some branch => within "!IF" (substitute env eval branch) scene
        | none => Emission.silent scene) =
      if truth value then
        within "!IF" (substitute env eval thenBranch) scene
      else
        match elseBranch with
        | some branch => within "!IF" (substitute env eval branch) scene
        | none => .silent scene := by
    intro value scene
    cases truth value with
    | true => rfl
    | false => rfl
  simp only [hbranch]
  cases elseBranch with
  | some branch => rfl
  | none => rfl

end CommandMacros.Expansion

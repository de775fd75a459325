import CommandMacros.Expansion.Expand

/-!
The expansion as procedures that call each other without any bound. A routine is what one procedure
does between its calls; `procedureBody` gives the routine of every procedure, with counters that
count up to their limits and no measure that goes down. `Returns` says that the calls of a routine
come to an end, and with which answer: its derivations are the finite trees of calls.
-/

namespace CommandMacros.Expansion

/-- A computation that is done, or makes a call and goes on with the answer. -/
inductive Routine (Call : Type) (Answer : Call → Type) (α : Type) : Type where
  | done (value : α)
  | call (call : Call) (next : Answer call → Routine Call Answer α)

namespace Routine

variable {Call : Type} {Answer : Call → Type} {α β : Type}

def bind (routine : Routine Call Answer α) (next : α → Routine Call Answer β) :
    Routine Call Answer β :=
  match routine with
  | done value => next value
  | call c resume => call c fun answer => bind (resume answer) next

instance : Monad (Routine Call Answer) where
  pure := done
  bind := bind

/-- The routine that makes one call. -/
def ask (c : Call) : Routine Call Answer (Answer c) :=
  call c done

/-- The calls of the routine all come to an end and give it this value, where `body` is what each
call does. -/
inductive Returns (body : (c : Call) → Routine Call Answer (Answer c)) :
    {α : Type} → Routine Call Answer α → α → Prop
  | done {α : Type} (value : α) : Returns body (.done value) value
  | call {α : Type} {c : Call} {next : Answer c → Routine Call Answer α} {answer : Answer c}
      {value : α} (hcall : Returns body (body c) answer) (hnext : Returns body (next answer) value) :
      Returns body (.call c next) value

end Routine

/-- The procedures of an expansion with their arguments. `nesting` is the number of `!EVAL`
expansions in progress. -/
inductive Call where
  | expandStatement (nesting : Nat) (tokens : List Token) (log : Log)
  | expandCalls (nesting : Nat) (tokens : List Emitted) (depth : Nat) (log : Log)
  /-- The passes of the loop over the frames that are left. -/
  | scanFrames (nesting : Nat) (machine : Machine)
  | substitute (nesting : Nat) (tree : List Directive) (scene : Scene)
  | substituteOne (nesting : Nat) (directive : Directive) (scene : Scene)
  /-- The passes of a numeric loop from `index` on, after `iterations` of them. -/
  | iterateRange (nesting : Nat) (variableName : String) (last step : Float)
      (body : List Directive) (span : Span) (iterations : Nat) (index : Float) (scene : Scene)
  /-- The passes of a loop over the values that are left, after `iterations` of them. -/
  | iterateList (nesting : Nat) (variableName : String) (body : List Directive) (span : Span)
      (iterations : Nat) (values : List String) (scene : Scene)
  | evaluate (nesting : Nat) (expr : Expr) (scene : Scene)
  | operandText (nesting : Nat) (operand : Operand) (scene : Scene)
  | operandTexts (nesting : Nat) (operands : List Operand) (scene : Scene)
  | evaluateText (nesting : Nat) (text : String) (span : Span) (scene : Scene)

/-- What a procedure answers. -/
@[reducible] def Call.Answer : Call → Type
  | expandStatement .. => List Token × Log
  | expandCalls .. => List Token × Log
  | scanFrames .. => Machine
  | substitute .. => Emission
  | substituteOne .. => Emission
  | iterateRange .. => Emission
  | iterateList .. => Emission
  | evaluate .. => EStateM.Result Diagnostic Scene String
  | operandText .. => EStateM.Result Diagnostic Scene String
  | operandTexts .. => EStateM.Result Diagnostic Scene (List String)
  | evaluateText .. => String × Scene

/-- A routine of the expansion. -/
abbrev Calling := Routine Call Call.Answer

def callProcedure (c : Call) : Calling c.Answer :=
  Routine.ask c

/-- A routine on a scene that ends with a value or with an error. -/
def CallingEval (α : Type) : Type :=
  Scene → Calling (EStateM.Result Diagnostic Scene α)

instance : Monad CallingEval where
  pure value := fun scene => pure (.ok value scene)
  bind first next := fun scene => do
    match ← first scene with
    | .ok value scene => next value scene
    | .error d scene => pure (.error d scene)

namespace CallingEval

def fail {α : Type} (error : Activation → Diagnostic) : CallingEval α := fun scene =>
  pure (.error (error scene.activation) scene)

def ofActivation {α : Type} (value : Activation → α) : CallingEval α := fun scene =>
  pure (.ok (value scene.activation) scene)

def evaluate (nesting : Nat) (expr : Expr) : CallingEval String := fun scene =>
  callProcedure (.evaluate nesting expr scene)

def operandText (nesting : Nat) (operand : Operand) : CallingEval String := fun scene =>
  callProcedure (.operandText nesting operand scene)

def operandTexts (nesting : Nat) (operands : List Operand) : CallingEval (List String) :=
  fun scene => callProcedure (.operandTexts nesting operands scene)

def applyBuiltin (nesting : Nat) (function : Builtin) (arguments : List String) (span : Span) :
    CallingEval String := fun scene =>
  match function with
  | .eval => do
    let (text, scene) ←
      callProcedure (.evaluateText nesting (arguments[0]?.getD "") span scene)
    return .ok text scene
  | _ =>
    match function.compute arguments with
    | .ok text => return .ok text scene
    | .error cause => return .error { error := .call function cause, span := some span } scene

def callText (nesting : Nat) (function : Builtin) (arguments : List Operand) (span : Span) :
    CallingEval String := do
  applyBuiltin nesting function (← operandTexts nesting arguments) span

def evaluateNumber (nesting : Nat) (expr : Expr) : CallingEval Float := do
  let text ← evaluate nesting expr
  match singleNumber? text with
  | some value => return value
  | none => fail fun activation => { error := .binding activation.definition.name (.notANumber text) }

def loopStep (nesting : Nat) (first last : Float) : Option Expr → CallingEval Float
  | some step => evaluateNumber nesting step
  | none => pure (if first ≤ last then 1.0 else -1.0)

def loopBounds (nesting : Nat) (first last : Expr) (step : Option Expr) :
    CallingEval (Float × Float × Float) := do
  let first ← evaluateNumber nesting first
  let last ← evaluateNumber nesting last
  let step ← loopStep nesting first last step
  if step == 0.0 then
    fail fun activation => { error := .binding activation.definition.name .zeroStep }
  else
    return (first, last, step)

end CallingEval

/-! ### What each procedure does -/

def operandBody (nesting : Nat) : Operand → CallingEval String
  | .token t => .ofActivation fun activation => activation.tokenText t
  | .parameter index => .ofActivation fun activation => argumentText activation index
  | .allPositionals => .ofActivation positionalsText
  | .call function arguments span => .callText nesting function arguments span

def operandsBody (nesting : Nat) : List Operand → CallingEval (List String)
  | [] => return []
  | operand :: others => do
    let text ← CallingEval.operandText nesting operand
    return text :: (← CallingEval.operandTexts nesting others)

def evaluateBody (nesting : Nat) : Expr → CallingEval String
  | .or left right => do
    let left ← CallingEval.evaluate nesting left
    let right ← CallingEval.evaluate nesting right
    return ofTruth (truth left || truth right)
  | .and left right => do
    let left ← CallingEval.evaluate nesting left
    let right ← CallingEval.evaluate nesting right
    return ofTruth (truth left && truth right)
  | .not inner => do
    let inner ← CallingEval.evaluate nesting inner
    return ofTruth (!truth inner)
  | .relation relation left right => do
    let left ← CallingEval.evaluate nesting left
    let right ← CallingEval.evaluate nesting right
    return ofTruth (relation.holds (compare left right))
  | .operand operand => do
    let text ← CallingEval.operandText nesting operand
    return Quoted.unquote text

/-- Goes on with `next`, unless a `!BREAK` was reached. -/
def callThen (first : Emission) (next : Scene → Calling Emission) : Calling Emission := do
  if first.broken then
    return first
  else
    return (← next first.scene).after first.tokens

/-- Goes on with the other passes of a loop, unless a `!BREAK` was reached. -/
def callPasses (once : Emission) (others : Scene → Calling Emission) : Calling Emission := do
  if once.broken then
    return { once with broken := false }
  else
    return (← others once.scene).after once.tokens

def rangeBody (env : Environment) (nesting : Nat) (variableName : String) (last step : Float)
    (body : List Directive) (span : Span) (iterations : Nat) (index : Float) (scene : Scene) :
    Calling Emission := do
  if withinBounds index last step then
    if iterations ≥ env.settings.iterateLimit then
      return .silent (scene.report (iterationLimit env span))
    else
      let once ← callProcedure
        (.substitute nesting body (scene.setVariable variableName (Number.text index)))
      callPasses once fun scene =>
        callProcedure (.iterateRange nesting variableName last step body span (iterations + 1)
          (index + step) scene)
  else
    return .silent scene

def listBody (env : Environment) (nesting : Nat) (variableName : String) (body : List Directive)
    (span : Span) (iterations : Nat) (values : List String) (scene : Scene) : Calling Emission := do
  match values with
  | [] => return .silent scene
  | value :: values =>
    if iterations ≥ env.settings.iterateLimit then
      return .silent (scene.report (iterationLimit env span))
    else
      let once ← callProcedure (.substitute nesting body (scene.setVariable variableName value))
      callPasses once fun scene =>
        callProcedure (.iterateList nesting variableName body span (iterations + 1) values scene)

/-- Goes on with the value of a computation, or else reports its error and leaves a marker. -/
def callOrFail {α : Type} (computation : CallingEval α) (fallback : Span)
    (next : α → Scene → Calling Emission) (scene : Scene) : Calling Emission := do
  match ← computation scene with
  | .ok value scene => next value scene
  | .error d scene => return fail scene d fallback

def callWithin (name : String) (run : Scene → Calling Emission) (scene : Scene) :
    Calling Emission := do
  let emission ← run (scene.enter name)
  return { emission with scene := emission.scene.leave }

def directiveBody (env : Environment) (nesting : Nat) :
    Directive → Scene → Calling Emission
  | .literal tokens, scene => return .ofTokens (tokens.flatMap (literalTokens env scene)) scene
  | .parameter index, scene =>
    match scene.activation.bindings[index]? with
    | some binding => return .ofTokens (bindingTokens env scene binding) scene
    | none => return .silent scene
  | .allPositionals, scene =>
    return .ofTokens (scene.activation.positionals.flatMap (bindingTokens env scene)) scene
  | .call function arguments span, scene =>
    callOrFail (.callText nesting function arguments span) span
      (fun text scene => return .ofTokens (Emitted.inert (tokenizeAt text span)) scene) scene
  | .cond condition thenBranch elseBranch, scene =>
    callOrFail (.evaluate nesting condition) (.point 0)
      (fun value scene =>
        match if truth value then some thenBranch else elseBranch with
        | some branch =>
          callWithin "!IF" (fun scene => callProcedure (.substitute nesting branch scene)) scene
        | none => return .silent scene)
      scene
  | .doRange variableName first last step body span, scene =>
    callWithin "!DO"
      (callOrFail (.loopBounds nesting first last step) span fun (first, last, step) scene =>
        callProcedure (.iterateRange nesting variableName last step body span 0 first scene)) scene
  | .doIn variableName list body span, scene =>
    callWithin "!DO"
      (callOrFail (.evaluate nesting list) span fun text scene =>
        callProcedure (.iterateList nesting variableName body span 0
          ((tokenize text).map Token.text) scene)) scene
  | .assign variableName value, scene =>
    callOrFail (.evaluate nesting value) (.point 0)
      (fun text scene => return .silent (scene.setVariable variableName text)) scene
  | .setExpand enabled, scene =>
    return .silent { scene with activation := { scene.activation with expandEnabled := enabled } }
  | .breakLoop, scene => return ⟨[], true, scene⟩
  | .invalid error span, scene => return fail scene { error, span := some span } span

def substituteBody (nesting : Nat) : List Directive → Scene → Calling Emission
  | [], scene => return .silent scene
  | directive :: others, scene => do
    let first ← callProcedure (.substituteOne nesting directive scene)
    callThen first fun scene => callProcedure (.substitute nesting others scene)

/-- One pass of the loop over the frames, and the passes after it. -/
def framesBody (env : Environment) (nesting : Nat) : Machine → Calling Machine
  | ⟨[], output, log⟩ => return ⟨[], output, log⟩
  | ⟨frame :: outer, output, log⟩ =>
    match frame.tokens with
    | [] =>
      let left :=
        if outer.isEmpty then
          log
        else
          echoExpansion log.leave frame.echo fun _ =>
            (output.extract frame.start output.size).toList
      callProcedure (.scanFrames nesting ⟨outer, output, left⟩)
    | e :: tokens =>
      match callee? env e with
      | none =>
        callProcedure (.scanFrames nesting ⟨{ frame with tokens } :: outer, output.push e.token, log⟩)
      | some d => do
        let bound := bindArguments d tokens
        let caller := { frame with tokens := bound.rest }
        let depth := frame.depth + 1
        let echo := echoName? env frame.depth e.token
        let entered := enterCall log d bound
        if depth > env.settings.nestLimit then
          let left := (entered.report (nestingLimit env d e.token)).leave
          callProcedure
            (.scanFrames nesting ⟨caller :: outer, output, echoExpansion left echo fun _ => []⟩)
        else
          let activation : Activation := { definition := d, bindings := bound.bindings, depth }
          let emission ← callProcedure (.substitute nesting d.body ⟨activation, entered⟩)
          callProcedure (.scanFrames nesting
            ⟨⟨emission.tokens, depth, output.size, echo⟩ :: caller :: outer, output,
              emission.scene.log⟩)

def textBody (nesting : Nat) (text : String) (span : Span) (scene : Scene) :
    Calling (String × Scene) := do
  if nesting ≥ maxEvalNesting then
    return ("", scene.report { error := .evalNestingLimit maxEvalNesting, span := some span })
  else
    let tree := Body.compile scene.activation.definition.parameters (tokenizeAt text span)
    let emission ← callProcedure (.substitute (nesting + 1) tree (scene.enter "!EVAL"))
    let activation := emission.scene.activation
    let (tokens, log) ←
      callProcedure (.expandCalls (nesting + 1) emission.tokens activation.depth emission.scene.log)
    return (Token.render tokens, ⟨activation, log.leave⟩)

/-- The routine of each procedure. -/
def procedureBody (env : Environment) : (c : Call) → Calling c.Answer
  | .expandStatement nesting tokens log =>
    callProcedure
      (.expandCalls nesting (Emitted.ofTokens env.settings.expand tokens) 0 log)
  | .expandCalls nesting tokens depth log => do
    let final ← callProcedure (.scanFrames nesting ⟨[⟨tokens, depth, 0, none⟩], #[], log⟩)
    return (final.output.toList, final.log)
  | .scanFrames nesting machine => framesBody env nesting machine
  | .substitute nesting tree scene => substituteBody nesting tree scene
  | .substituteOne nesting directive scene => directiveBody env nesting directive scene
  | .iterateRange nesting variableName last step body span iterations index scene =>
    rangeBody env nesting variableName last step body span iterations index scene
  | .iterateList nesting variableName body span iterations values scene =>
    listBody env nesting variableName body span iterations values scene
  | .evaluate nesting expr scene => evaluateBody nesting expr scene
  | .operandText nesting operand scene => operandBody nesting operand scene
  | .operandTexts nesting operands scene => operandsBody nesting operands scene
  | .evaluateText nesting text span scene => textBody nesting text span scene

end CommandMacros.Expansion

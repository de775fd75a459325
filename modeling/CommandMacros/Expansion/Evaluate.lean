import CommandMacros.Builtin.Apply
import CommandMacros.Expansion.Activation

/-!
Evaluating expressions to text. Operands are compared as unquoted text, never as numbers; logical
operators give `1` or `0`, and only `0` is false. Every operand is evaluated, and what an `!EVAL`
reports stays reported when a later operand fails.
-/

namespace CommandMacros.Expansion

/-- A computation on a scene that ends with a value or with an error. -/
abbrev Eval := EStateM Diagnostic Scene

/-- Whether the text counts as true. -/
def truth (text : String) : Bool :=
  text != "0"

def ofTruth (b : Bool) : String :=
  if b then "1" else "0"

/-- The text of an argument, as it was written in the call. -/
def argumentText (activation : Activation) (index : Nat) : String :=
  (activation.bindings[index]?.map fun b => Token.render b.tokens).getD ""

/-- The texts of all positional arguments with spaces between them. -/
def positionalsText (activation : Activation) : String :=
  String.intercalate " " (activation.positionals.map fun b => Token.render b.tokens)

/-- The result of a function on argument texts. -/
def applyBuiltin (eval : Evaluator) (function : Builtin) (arguments : List String) (span : Span) :
    Eval String := fun scene =>
  match function.apply (fun text => eval text span) arguments scene with
  | (.ok text, next) => .ok text next
  | (.error cause, next) => .error { error := .call function cause, span := some span } next

mutual

/-- The text an operand stands for. A parameter gives its argument as written, without expanding
it. -/
def operandText (eval : Evaluator) : Operand → Eval String
  | .token t => do return (← get).activation.tokenText t
  | .parameter index => do return argumentText (← get).activation index
  | .allPositionals => do return positionalsText (← get).activation
  | .call function arguments span => do
    applyBuiltin eval function (← operandTexts eval arguments) span

def operandTexts (eval : Evaluator) : List Operand → Eval (List String)
  | [] => return []
  | operand :: others => do
    let text ← operandText eval operand
    return text :: (← operandTexts eval others)

end

/-- The text of a function call. -/
def callText (eval : Evaluator) (function : Builtin) (arguments : List Operand) (span : Span) :
    Eval String := do
  applyBuiltin eval function (← operandTexts eval arguments) span

/-- The value of an expression. -/
def evaluate (eval : Evaluator) : Expr → Eval String
  | .or left right => do
    let left ← evaluate eval left
    let right ← evaluate eval right
    return ofTruth (truth left || truth right)
  | .and left right => do
    let left ← evaluate eval left
    let right ← evaluate eval right
    return ofTruth (truth left && truth right)
  | .not inner => do
    let inner ← evaluate eval inner
    return ofTruth (!truth inner)
  | .relation relation left right => do
    let left ← evaluate eval left
    let right ← evaluate eval right
    return ofTruth (relation.holds (compare left right))
  | .operand operand => do
    let text ← operandText eval operand
    return Quoted.unquote text

/-- The number that a text is, if it is a single number token. -/
def singleNumber? (text : String) : Option Float :=
  match tokenize text with
  | [t] => t.number?
  | _ => none

/-- The value of an expression that must be a number, as the bounds of a `!DO` must. -/
def evaluateNumber (eval : Evaluator) (expr : Expr) : Eval Float := do
  let text ← evaluate eval expr
  match singleNumber? text with
  | some value => return value
  | none =>
    throw { error := .binding (← get).activation.definition.name (.notANumber text) }

end CommandMacros.Expansion

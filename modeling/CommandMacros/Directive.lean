import CommandMacros.Diagnostic

/-!
Compiled macro bodies: expressions, and the directives that a body is a list of. A directive that
did not compile stays in the body as `invalid` and is reported when the body is expanded.
-/

namespace CommandMacros

/-- The leaves of expressions and the arguments of functions. -/
inductive Operand where
  /-- A literal token, which may also name a macro variable. -/
  | token (token : Token)
  /-- The parameter with this index. -/
  | parameter (index : Nat)
  /-- `!*` -/
  | allPositionals
  | call (function : Builtin) (arguments : List Operand) (span : Span)

inductive Relation where
  | equal
  | notEqual
  | less
  | greater
  | lessEqual
  | greaterEqual
deriving DecidableEq, Repr

namespace Relation

/-- The relation that a word names, without a leading `!`. -/
def ofWord? (word : String) : Option Relation :=
  match Text.asciiUpper word with
  | "EQ" => some equal
  | "NE" => some notEqual
  | "LT" => some less
  | "GT" => some greater
  | "LE" => some lessEqual
  | "GE" => some greaterEqual
  | _ => none

/-- The relation that a token stands for: `=`, `~=`, `<>`, `<`, `>`, `<=`, `>=`, the words `EQ` to
`GE`, and these words after a `!`. -/
def ofToken? (t : Token) : Option Relation :=
  match t.kind with
  | .punct .equals => some equal
  | .punct .notEqual => some notEqual
  | .punct .less => some less
  | .punct .greater => some greater
  | .punct .lessEqual => some lessEqual
  | .punct .greaterEqual => some greaterEqual
  | .identifier => ofWord? (unmarked t.text)
  | _ => none

/-- Whether the relation holds of two things that compare so. -/
def holds : Relation → Ordering → Bool
  | equal, order => order == .eq
  | notEqual, order => order != .eq
  | less, order => order == .lt
  | greater, order => order == .gt
  | lessEqual, order => order != .gt
  | greaterEqual, order => order != .lt

end Relation

/-- A condition or value in `!IF`, `!LET` and `!DO`. -/
inductive Expr where
  | or (left right : Expr)
  | and (left right : Expr)
  | not (inner : Expr)
  | relation (relation : Relation) (left right : Expr)
  | operand (operand : Operand)

inductive Directive where
  /-- Tokens copied to the output, where names of macro variables give the variable's value. -/
  | literal (tokens : List Token)
  /-- The parameter with this index. -/
  | parameter (index : Nat)
  /-- `!*` -/
  | allPositionals
  | call (function : Builtin) (arguments : List Operand) (span : Span)
  | cond (condition : Expr) (thenBranch : List Directive) (elseBranch : Option (List Directive))
  | doRange (variableName : String) (first last : Expr) (step : Option Expr)
      (body : List Directive) (span : Span)
  | doIn (variableName : String) (list : Expr) (body : List Directive) (span : Span)
  | assign (variableName : String) (value : Expr)
  /-- `!ONEXPAND` or `!OFFEXPAND`. -/
  | setExpand (enabled : Bool)
  | breakLoop
  | invalid (error : MacroError) (span : Span)

end CommandMacros

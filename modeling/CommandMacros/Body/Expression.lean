import CommandMacros.Directive
import CommandMacros.Parameter
import CommandMacros.Parsed

/-!
Parsing expressions. From loosest to tightest the operators are `!OR` or `|`, `!AND` or `&`, `!NOT`
or `~`, and the relations, which do not associate; parentheses group. An expression has no end
marker: it goes on for as long as it can.
-/

namespace CommandMacros.Body

/-- What a body is compiled under: the parameters of its macro, and the place after its last
token. -/
structure Scope where
  parameters : List Parameter
  finish : Span

def fault (cause : EvaluationError) (span : Span) : Fault :=
  ⟨.evaluation cause, span⟩

/-- The function of a call that begins with `t`: a function name before `(`, or `!NULL` alone. -/
def callStart? (t : Token) (rest : List Token) : Option Builtin :=
  if nextIs (·.isPunct .leftParen) rest then
    Builtin.ofName? t.text
  else if abbreviates t.text Builtin.null.name then
    some .null
  else
    none

/-- The arguments and the place of a call, if there are as many as the function takes. -/
def checkArity (function : Builtin) (arguments : List Operand) (span : Span) :
    Except Fault (List Operand × Span) :=
  if function.accepts arguments.length then
    .ok (arguments, span)
  else
    .error ⟨.call function (.argumentCount arguments.length), span⟩

mutual

/-- One operand: a literal token, a parameter reference, `!*`, or a function call. -/
def operand (scope : Scope) (t : Token) (rest : List Token) :
    Except Fault (Parsed Operand (rest.length + 1)) :=
  if t.isPunct .bangAsterisk then
    .ok (.leaving .allPositionals rest)
  else if t.isMacroId then
    match Parameters.find? scope.parameters t.text with
    | some index => .ok (.leaving (.parameter index) rest)
    | none =>
      match callStart? t rest with
      | some function =>
        (call scope function t rest).map (·.map fun c => .call function c.1 c.2)
      | none => .ok (.leaving (.token t) rest)
  else
    .ok (.leaving (.token t) rest)
termination_by (rest.length + 1, 1)

/-- The arguments and the place of a function call whose name `t` has been read. -/
def call (scope : Scope) (function : Builtin) (t : Token) (rest : List Token) :
    Except Fault (Parsed (List Operand × Span) (rest.length + 1)) :=
  match rest with
  | [] => (checkArity function [] t.span).map fun c => .leaving c []
  | opening :: inner =>
    if opening.isPunct .leftParen then do
      let listed ← arguments scope function t.span inner
      let c ← checkArity function listed.value.1 (t.span.through listed.value.2)
      return (listed.map fun _ => c).afterOne.afterOne
    else
      (checkArity function [] t.span).map fun c => .leaving c (opening :: inner)
termination_by (rest.length + 1, 0)

/-- The arguments of a call up to and including the closing parenthesis, and its place. -/
def arguments (scope : Scope) (function : Builtin) (name : Span) (tokens : List Token) :
    Except Fault (Parsed (List Operand × Span) tokens.length) :=
  match tokens with
  | [] => .error (fault (.unclosedCall function) name)
  | t :: rest =>
    if t.isPunct .rightParen then
      .ok (.leaving ([], t.span) rest)
    else do
      let first ← operand scope t rest
      match h : first.rest with
      | [] => .error (fault (.unclosedCall function) name)
      | u :: others =>
        if u.isPunct .comma then
          let more ← arguments scope function name others
          return first.afterToken h (more.map fun m => (first.value :: m.1, m.2)).afterOne
        else if u.isPunct .rightParen then
          return first.throughToken h ([first.value], u.span)
        else
          .error (fault (.missingArgumentSeparator function) u.span)
termination_by (tokens.length, 2)
decreasing_by
  · exact Prod.Lex.right _ (by decide)
  · exact Prod.Lex.left _ _ (Parsed.rest_succ_le_of_rest_eq h)

end

def isOr (t : Token) : Bool :=
  t.matchesKeyword "!OR" || t.isPunct .or

def isAnd (t : Token) : Bool :=
  t.matchesKeyword "!AND" || t.isPunct .and

def isNot (t : Token) : Bool :=
  t.matchesKeyword "!NOT" || t.isPunct .not

mutual

/-- The longest expression in front. -/
def expression (scope : Scope) (tokens : List Token) : Except Fault (Parsed Expr tokens.length) :=
  do
    let left ← conjunction scope tokens
    have := left.shorter
    disjunctionTail scope left
termination_by (tokens.length, 4)

/-- Goes on after `left` for as long as an `!OR` follows. -/
def disjunctionTail (scope : Scope) {bound : Nat} (left : Parsed Expr bound) :
    Except Fault (Parsed Expr bound) :=
  match h : left.rest with
  | [] => .ok left
  | t :: rest =>
    if isOr t then do
      let right ← conjunction scope rest
      disjunctionTail scope (left.afterToken h (right.map (.or left.value)).afterOne)
    else
      .ok left
termination_by (left.rest.length, 5)
decreasing_by
  · exact Prod.Lex.left _ _ (Parsed.rest_lt_of_rest_eq h)
  · exact Prod.Lex.left _ _ (Nat.lt_trans right.shorter (Parsed.rest_lt_of_rest_eq h))

def conjunction (scope : Scope) (tokens : List Token) : Except Fault (Parsed Expr tokens.length) :=
  do
    let left ← negation scope tokens
    have := left.shorter
    conjunctionTail scope left
termination_by (tokens.length, 3)

/-- Goes on after `left` for as long as an `!AND` follows. -/
def conjunctionTail (scope : Scope) {bound : Nat} (left : Parsed Expr bound) :
    Except Fault (Parsed Expr bound) :=
  match h : left.rest with
  | [] => .ok left
  | t :: rest =>
    if isAnd t then do
      let right ← negation scope rest
      conjunctionTail scope (left.afterToken h (right.map (.and left.value)).afterOne)
    else
      .ok left
termination_by (left.rest.length, 5)
decreasing_by
  · exact Prod.Lex.left _ _ (Parsed.rest_lt_of_rest_eq h)
  · exact Prod.Lex.left _ _ (Nat.lt_trans right.shorter (Parsed.rest_lt_of_rest_eq h))

def negation (scope : Scope) (tokens : List Token) : Except Fault (Parsed Expr tokens.length) :=
  match tokens with
  | [] => comparison scope []
  | t :: rest =>
    if isNot t then do
      let inner ← negation scope rest
      return (inner.map .not).afterOne
    else
      comparison scope (t :: rest)
termination_by (tokens.length, 2)

/-- At most one relation between two groups or operands. -/
def comparison (scope : Scope) (tokens : List Token) : Except Fault (Parsed Expr tokens.length) :=
  do
    let left ← group scope tokens
    match h : left.rest with
    | [] => return left
    | t :: rest =>
      have := Parsed.rest_lt_of_rest_eq h
      have := left.shorter
      match Relation.ofToken? t with
      | none => return left
      | some relation =>
        let right ← group scope rest
        return left.afterToken h (right.map (.relation relation left.value)).afterOne
termination_by (tokens.length, 1)

/-- A parenthesised expression or an operand. -/
def group (scope : Scope) (tokens : List Token) : Except Fault (Parsed Expr tokens.length) :=
  match tokens with
  | [] => .error (fault .missingOperand scope.finish)
  | t :: rest =>
    if t.isPunct .leftParen then do
      let inner ← expression scope rest
      let closing ← expect scope.finish (·.isPunct .rightParen) (.evaluation .missingRightParen)
        inner.rest
      return (inner.andThen (closing.map fun _ => inner.value)).afterOne
    else if t.isPunct .rightParen || t.isEnd then
      .error (fault .missingOperand t.span)
    else do
      let leaf ← operand scope t rest
      return leaf.map .operand
termination_by (tokens.length, 0)

end

end CommandMacros.Body

import CommandMacros.Proofs.Keyword

/-!
The printed form of bodies. Literal text is printed as it is, a function with parentheses whatever
its arguments, an expression with the parentheses that it needs, and a directive from its keyword to
the one that ends it. What a printed body can hold and still be read back is the legible part of
the language: text that does not look like a directive, operands that do not look like operators,
and expressions that end where the next directive begins.
-/

namespace CommandMacros

/-- How a body refers to a parameter: to a positional one by its number, and else by its name. -/
def Parameters.reference (parameters : List Parameter) (index : Nat) : Token :=
  match parameters[index]?.bind Parameter.keyword? with
  | some name => .word ("!" ++ name) (.point 0)
  | none => .word ("!" ++ (index + 1).repr) (.point 0)

/-! ### Operands -/

mutual

def Operand.print (parameters : List Parameter) : Operand → List Token
  | .token t => [t]
  | .parameter index => [Parameters.reference parameters index]
  | .allPositionals => [.sign .bangAsterisk (.point 0)]
  | .call function arguments span =>
    .word function.name span :: .sign .leftParen (.point 0) ::
      Operand.printArguments parameters span arguments

/-- Arguments with commas between them, and the parenthesis that closes their call. It stands where
the call does, and so gives the call its place. -/
def Operand.printArguments (parameters : List Parameter) (call : Span) :
    List Operand → List Token
  | [] => [.sign .rightParen call]
  | [last] => last.print parameters ++ [.sign .rightParen call]
  | first :: second :: others =>
    first.print parameters ++
      .sign .comma (.point 0) :: Operand.printArguments parameters call (second :: others)

end

/-! ### Expressions -/

/-- The parts of expressions, from the loosest to the tightest. -/
inductive Level where
  | disjunction
  | conjunction
  | negation
  | comparison
  | group
deriving DecidableEq

namespace Level

def rank : Level → Nat
  | disjunction => 0
  | conjunction => 1
  | negation => 2
  | comparison => 3
  | group => 4

/-- Whether an expression of the one level needs parentheses where the other is asked for. -/
def isLooser (level asked : Level) : Bool :=
  Nat.blt level.rank asked.rank

end Level

def Relation.punct : Relation → Punct
  | equal => .equals
  | notEqual => .notEqual
  | less => .less
  | greater => .greater
  | lessEqual => .lessEqual
  | greaterEqual => .greaterEqual

namespace Expr

/-- The tokens, in parentheses if these are needed. -/
def enclose (needed : Bool) (tokens : List Token) : List Token :=
  if needed then
    .sign .leftParen (.point 0) :: (tokens ++ [.sign .rightParen (.point 0)])
  else
    tokens

/-- The expression where one of the given level is asked for. -/
def print (parameters : List Parameter) : Expr → Level → List Token
  | .or left right, level =>
    enclose (Level.disjunction.isLooser level)
      (left.print parameters .disjunction ++
        .sign .or (.point 0) :: right.print parameters .conjunction)
  | .and left right, level =>
    enclose (Level.conjunction.isLooser level)
      (left.print parameters .conjunction ++
        .sign .and (.point 0) :: right.print parameters .negation)
  | .not inner, level =>
    enclose (Level.negation.isLooser level)
      (.sign .not (.point 0) :: inner.print parameters .negation)
  | .relation which left right, level =>
    enclose (Level.comparison.isLooser level)
      (left.print parameters .group ++
        .sign which.punct (.point 0) :: right.print parameters .group)
  | .operand leaf, _ => leaf.print parameters

/-- Whether the printed expression ends in an operand or a parenthesis that a relation could still
follow, and not in the right side of a relation. -/
def endsOpen : Expr → Level → Bool
  | .or _ right, level => Level.disjunction.isLooser level || right.endsOpen .conjunction
  | .and _ right, level => Level.conjunction.isLooser level || right.endsOpen .negation
  | .not inner, level => Level.negation.isLooser level || inner.endsOpen .negation
  | .relation .., level => Level.comparison.isLooser level
  | .operand _, _ => true

/-- All operands of the expression satisfy the condition. -/
def Each (condition : Operand → Prop) : Expr → Prop
  | .or left right | .and left right | .relation _ left right =>
    left.Each condition ∧ right.Each condition
  | .not inner => inner.Each condition
  | .operand leaf => condition leaf

end Expr

/-- Whether the token carries on an expression in front of it: `!OR`, `!AND`, or a relation if the
expression ends open. -/
def Token.carriesOn (isOpen : Bool) (t : Token) : Bool :=
  Body.isOr t || Body.isAnd t || isOpen && (Relation.ofToken? t).isSome

/-- The expression is over when these tokens follow it. -/
def Expr.StopsBefore (e : Expr) (tokens : List Token) : Prop :=
  ∀ t ∈ tokens.head?, t.carriesOn (e.endsOpen .disjunction) = false

/-! ### Directives -/

/-- A keyword of the language. -/
def Token.keyword (text : String) : Token :=
  .word text (.point 0)

/-- `!BY` and the step of a loop, if there is one. -/
def printStep (parameters : List Parameter) : Option Expr → List Token
  | none => []
  | some step => Token.keyword "!BY" :: step.print parameters .disjunction

mutual

def Directive.print (parameters : List Parameter) : Directive → List Token
  | .literal tokens => tokens
  | .parameter index => [Parameters.reference parameters index]
  | .allPositionals => [.sign .bangAsterisk (.point 0)]
  | .call function arguments span => (Operand.call function arguments span).print parameters
  | .cond condition thenBranch elseBranch =>
    Token.keyword "!IF" :: (condition.print parameters .disjunction ++ Token.keyword "!THEN" ::
      (printTree parameters thenBranch ++
        (printElse parameters elseBranch ++ [Token.keyword "!IFEND"])))
  | .doRange variableName first last step body span =>
    .word "!DO" span :: .word variableName (.point 0) :: .sign .equals (.point 0) ::
      (first.print parameters .disjunction ++ Token.keyword "!TO" ::
        (last.print parameters .disjunction ++
          (printStep parameters step ++
            (printTree parameters body ++ [Token.keyword "!DOEND"]))))
  | .doIn variableName list body span =>
    .word "!DO" span :: .word variableName (.point 0) :: Token.keyword "!IN" ::
      (list.print parameters .disjunction ++
        (printTree parameters body ++ [Token.keyword "!DOEND"]))
  | .assign variableName value =>
    Token.keyword "!LET" :: .word variableName (.point 0) :: .sign .equals (.point 0) ::
      value.print parameters .disjunction
  | .setExpand true => [Token.keyword "!ONEXPAND"]
  | .setExpand false => [Token.keyword "!OFFEXPAND"]
  | .breakLoop => [Token.keyword "!BREAK"]
  | .invalid .. => []

def printTree (parameters : List Parameter) : List Directive → List Token
  | [] => []
  | first :: others => first.print parameters ++ printTree parameters others

/-- `!ELSE` and its branch, if there is one. -/
def printElse (parameters : List Parameter) : Option (List Directive) → List Token
  | none => []
  | some branch => Token.keyword "!ELSE" :: printTree parameters branch

end

/-! ### What can be read back -/

/-- The places that do not end before they begin. -/
def Region.forward : Region where
  contains span := span.start ≤ span.stop
  zero := Nat.le_refl 0
  after _ := Nat.le_refl _
  through _ _ := Nat.le_max_left _ _

/-- Whether the token is a function name, which may be shortened. -/
def Token.namesFunction (t : Token) : Bool :=
  t.isIdentifier && (Builtin.ofName? t.text).isSome

/-- A token that can only be an operand where one is expected. -/
structure Token.IsLeaf (parameters : List Parameter) (t : Token) : Prop where
  not_leftParen : t.isPunct .leftParen = false
  not_rightParen : t.isPunct .rightParen = false
  not_comma : t.isPunct .comma = false
  not_end : t.isEnd = false
  not_not : Body.isNot t = false
  not_bangAsterisk : t.isPunct .bangAsterisk = false
  not_parameter : t.isMacroId = true → Parameters.find? parameters t.text = none
  not_function : t.namesFunction = false

/-- The tokens of the operand are leaves, and its functions are callable. -/
inductive Operand.Legible (parameters : List Parameter) (callable : Builtin → Prop) : Operand → Prop
  | token {t : Token} (h : t.IsLeaf parameters) : Legible parameters callable (.token t)
  | parameter (index : Nat) : Legible parameters callable (.parameter index)
  | allPositionals : Legible parameters callable .allPositionals
  | call {function : Builtin} {arguments : List Operand} {span : Span}
      (hfunction : callable function)
      (harguments : ∀ argument ∈ arguments, Legible parameters callable argument) :
      Legible parameters callable (.call function arguments span)

/-- Text that neither ends its block nor holds a function call. -/
structure LegibleText (block : Body.Block) (tokens : List Token) : Prop where
  not_terminator : ∀ t ∈ tokens, block.endsAt t = false
  not_null : ∀ t ∈ tokens, t.abbreviates Builtin.null.name = false
  not_call : ∀ t u, [t, u] <:+: tokens → u.isPunct .leftParen = true → t.namesFunction = false

/-- The value of every `!LET` is over when the next directive begins. -/
def ValuesStop (parameters : List Parameter) : List Directive → Prop
  | [] => True
  | .assign _ value :: others =>
    value.StopsBefore (printTree parameters others) ∧ ValuesStop parameters others
  | _ :: others => ValuesStop parameters others

theorem ValuesStop.tail {parameters : List Parameter} {d : Directive} {others : List Directive}
    (h : ValuesStop parameters (d :: others)) : ValuesStop parameters others := by
  cases d with
  | assign => exact h.2
  | _ => exact h

/-- A directive of a block whose printed form can be told from everything around it. -/
inductive Directive.Legible (parameters : List Parameter) (callable : Builtin → Prop) :
    Body.Block → Directive → Prop
  | literal {block : Body.Block} {tokens : List Token} (h : LegibleText block tokens) :
      Legible parameters callable block (.literal tokens)
  | parameter {block : Body.Block} {index : Nat}
      (h : block.endsAt (Parameters.reference parameters index) = false) :
      Legible parameters callable block (.parameter index)
  | allPositionals {block : Body.Block} : Legible parameters callable block .allPositionals
  | call {block : Body.Block} {function : Builtin} {arguments : List Operand} {span : Span}
      (h : (Operand.call function arguments span).Legible parameters callable) :
      Legible parameters callable block (.call function arguments span)
  | cond {block : Body.Block} {condition : Expr} {thenBranch : List Directive}
      {elseBranch : Option (List Directive)}
      (hcondition : condition.Each (·.Legible parameters callable))
      (hthen : ∀ d ∈ thenBranch, Legible parameters callable (.thenBranch block.inLoop) d)
      (hthenValues : ValuesStop parameters thenBranch)
      (helse : ∀ branch ∈ elseBranch, ∀ d ∈ branch,
        Legible parameters callable (.elseBranch block.inLoop) d)
      (helseValues : ∀ branch ∈ elseBranch, ValuesStop parameters branch) :
      Legible parameters callable block (.cond condition thenBranch elseBranch)
  | doRange {block : Body.Block} {variableName : String} {first last : Expr} {step : Option Expr}
      {body : List Directive} {span : Span}
      (hfirst : first.Each (·.Legible parameters callable))
      (hlast : last.Each (·.Legible parameters callable))
      (hstep : ∀ e ∈ step, e.Each (·.Legible parameters callable))
      (hstops : (step.getD last).StopsBefore (printTree parameters body))
      (hnext : step = none →
        ∀ t ∈ (printTree parameters body).head?, t.matchesKeyword "!BY" = false)
      (hbody : ∀ d ∈ body, Legible parameters callable .loop d)
      (hbodyValues : ValuesStop parameters body) :
      Legible parameters callable block (.doRange variableName first last step body span)
  | doIn {block : Body.Block} {variableName : String} {list : Expr} {body : List Directive}
      {span : Span} (hlist : list.Each (·.Legible parameters callable))
      (hstops : list.StopsBefore (printTree parameters body))
      (hbody : ∀ d ∈ body, Legible parameters callable .loop d)
      (hbodyValues : ValuesStop parameters body) :
      Legible parameters callable block (.doIn variableName list body span)
  | assign {block : Body.Block} {variableName : String} {value : Expr}
      (hvalue : value.Each (·.Legible parameters callable)) :
      Legible parameters callable block (.assign variableName value)
  | setExpand {block : Body.Block} (enabled : Bool) :
      Legible parameters callable block (.setExpand enabled)
  | breakLoop {block : Body.Block} : Legible parameters callable block .breakLoop

/-- A block whose printed form can be read back: it holds no invalid directive, and each directive
is legible where it stands. -/
structure TreeLegible (parameters : List Parameter) (callable : Builtin → Prop)
    (block : Body.Block) (tree : List Directive) : Prop where
  directives : ∀ d ∈ tree, d.Legible parameters callable block
  values : ValuesStop parameters tree

end CommandMacros

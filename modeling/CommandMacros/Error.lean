import CommandMacros.Builtin

/-!
What can go wrong, by the part of the macro language it concerns. Each family lists its causes, and
the wording of all of them is in the `message` functions.
-/

namespace CommandMacros

/-- The clauses of a parameter declaration. -/
inductive Clause where
  | default
  | noExpand
  | tokens
  | charEnd
  | enclose
  | commandEnd
deriving DecidableEq, Repr

def Clause.keyword : Clause → String
  | default => "!DEFAULT"
  | noExpand => "!NOEXPAND"
  | tokens => "!TOKENS"
  | charEnd => "!CHAREND"
  | enclose => "!ENCLOSE"
  | commandEnd => "!CMDEND"

/-- Why a `DEFINE` is rejected. -/
inductive DefinitionError where
  | missingDefine
  | missingName
  | missingParameterList
  | unclosedParameterList
  | missingSeparator
  | positionalAfterKeyword
  | positionalAfterCommandEnd
  | markedName
  | missingParameterName
  | reservedName (word : String)
  | duplicateName (word : String)
  | repeatedDefault
  | unopenedClause (clause : Clause)
  | unclosedClause (clause : Clause)
  | invalidCount
  | missingComma
  | missingDelimiter
  | invalidDelimiter
  | missingCapture
  | repeatedCapture
  | missingEnd
  | trailingSyntax
deriving DecidableEq, Repr

def DefinitionError.message : DefinitionError → String
  | missingDefine => "expecting DEFINE"
  | missingName => "expecting macro name"
  | missingParameterList => "expecting `(` after macro name"
  | unclosedParameterList => "expecting `)` to close the parameter list"
  | missingSeparator => "expecting `/` or `)` after parameter"
  | positionalAfterKeyword => "positional parameters must precede keyword parameters"
  | positionalAfterCommandEnd =>
    "a positional parameter cannot follow a positional !CMDEND parameter"
  | markedName => "keyword macro parameter must be named in definition without \"!\" prefix"
  | missingParameterName => "expecting parameter name or !POSITIONAL"
  | reservedName word => "cannot use macro keyword \"" ++ word ++ "\" as an argument name"
  | duplicateName word => "duplicate keyword parameter \"" ++ word ++ "\""
  | repeatedDefault => "!DEFAULT is allowed only once per argument"
  | unopenedClause clause => "expecting `(` after " ++ clause.keyword
  | unclosedClause clause => "expecting `)` to close " ++ clause.keyword
  | invalidCount => "!TOKENS requires a positive integer"
  | missingComma => "expecting `,` between !ENCLOSE delimiters"
  | missingDelimiter => "expecting a quoted delimiter"
  | invalidDelimiter => "string must contain exactly one token"
  | missingCapture => "expecting !TOKENS, !CHAREND, !ENCLOSE, or !CMDEND"
  | repeatedCapture => "only one of !TOKENS, !CHAREND, !ENCLOSE, or !CMDEND is allowed"
  | missingEnd => "missing !ENDDEFINE"
  | trailingSyntax => "unexpected syntax after !ENDDEFINE"

/-- Why the arguments or the numbers of a call do not fit. `none` as what was found is the end of
the command. -/
inductive BindingError where
  | repeatedArgument (keyword : String)
  | missingEquals (found : Option String) (keyword : String)
  | missingTokens (count : Nat)
  | missingOpening (found : Option String) (opening : String)
  | missingClosing (closing : String)
  | notANumber (text : String)
  | zeroStep
deriving DecidableEq, Repr

def describeFound : Option String → String
  | some text => "`" ++ text ++ "`"
  | none => "end of command"

def BindingError.message : BindingError → String
  | repeatedArgument keyword => "argument " ++ keyword ++ " specified more than once"
  | missingEquals found keyword =>
    "found " ++ describeFound found ++ " while expecting `=` after argument " ++ keyword
  | missingTokens count =>
    "reached end of command expecting " ++ count.repr ++ " more token" ++
      if count = 1 then "" else "s"
  | missingOpening found opening =>
    "found " ++ describeFound found ++ " while expecting `" ++ opening ++ "`"
  | missingClosing closing => "reached end of command expecting `" ++ closing ++ "`"
  | notANumber text => "macro expression must evaluate to a number (not \"" ++ text ++ "\")"
  | zeroStep => "!BY value cannot be zero"

/-- Why a directive or an expression does not compile. -/
inductive EvaluationError where
  | missingOperand
  | missingRightParen
  | unclosedCall (function : Builtin)
  | missingArgumentSeparator (function : Builtin)
  | breakOutsideLoop
  | missingThen
  | missingElseOrIfEnd
  | missingIfEnd
  | missingVariable (directive : String)
  | invalidVariable (name directive : String)
  | missingEqualsOrIn
  | missingTo
  | missingDoEnd
  | missingLetEquals
deriving DecidableEq, Repr

def EvaluationError.message : EvaluationError → String
  | missingOperand => "expecting literal or function invocation in macro expression"
  | missingRightParen => "expecting `)` in macro expression"
  | unclosedCall function => "missing `)` in call to macro function " ++ function.name
  | missingArgumentSeparator function =>
    "`,` or `)` expected in call to macro function " ++ function.name
  | breakOutsideLoop => "!BREAK outside !DO"
  | missingThen => "!THEN expected in macro !IF construct"
  | missingElseOrIfEnd => "!ELSE or !IFEND expected in macro !IF construct"
  | missingIfEnd => "!IFEND expected in macro !IF construct"
  | missingVariable directive => "expected macro variable name following " ++ directive
  | invalidVariable name directive =>
    "cannot use argument name or macro keyword \"" ++ name ++ "\" as " ++ directive ++ " variable"
  | missingEqualsOrIn => "expected `=` or !IN in !DO loop"
  | missingTo => "expected !TO in numerical !DO loop"
  | missingDoEnd => "missing !DOEND"
  | missingLetEquals => "expected `=` following !LET"

/-- Why a function call has no result. -/
inductive CallError where
  | argumentCount (count : Nat)
  | notNonNegative (text : String)
  | secondNotPositive (text : String)
  | thirdNotNonNegative (text : String)
deriving DecidableEq, Repr

/-- The argument counts of a function in words. -/
def Builtin.arityText (function : Builtin) : String :=
  match function.arity with
  | (0, some 0) => "no arguments"
  | (_, none) => "at least one argument"
  | (least, some most) =>
    if least = most then
      "exactly " ++ least.repr ++ " argument" ++ if least = 1 then "" else "s"
    else
      least.repr ++ " or " ++ most.repr ++ " arguments"

def CallError.message (function : Builtin) : CallError → String
  | argumentCount count => "expecting " ++ function.arityText ++ " but got " ++ count.repr
  | notNonNegative text => "argument must be a non-negative integer (not \"" ++ text ++ "\")"
  | secondNotPositive text =>
    "second argument must be a positive integer (not \"" ++ text ++ "\")"
  | thirdNotNonNegative text =>
    "third argument must be a non-negative integer (not \"" ++ text ++ "\")"

/-- The settings that a `SET` command can change. -/
inductive Setting where
  | expand
  | print
  | iterate
  | nest
deriving DecidableEq, Repr

namespace Setting

def all : List Setting := [expand, print, iterate, nest]

def keyword : Setting → String
  | expand => "MEXPAND"
  | print => "MPRINT"
  | iterate => "MITERATE"
  | nest => "MNEST"

end Setting

/-- Why a `SET` subcommand is rejected. -/
inductive SettingError where
  | missingValue
  | notASwitch (text : String)
  | notALimit (text : String)
deriving DecidableEq, Repr

def SettingError.message : SettingError → String
  | missingValue => "missing value"
  | notASwitch text => "expecting ON or OFF, not `" ++ text ++ "`"
  | notALimit text => "expecting a positive integer, not `" ++ text ++ "`"

end CommandMacros

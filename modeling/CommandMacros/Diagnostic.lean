import CommandMacros.Error

/-!
Diagnostics: an error together with the place in the source and the macros and directives that were
being expanded.
-/

namespace CommandMacros

/-- Every failure the macro language can report. -/
inductive MacroError where
  | definition (cause : DefinitionError)
  | binding (name : String) (cause : BindingError)
  | nestingLimit (name : String) (limit : Nat)
  | iterationLimit (limit : Nat)
  | evalNestingLimit (limit : Nat)
  | evaluation (cause : EvaluationError)
  | call (function : Builtin) (cause : CallError)
  | setting (which : Setting) (cause : SettingError)
deriving DecidableEq, Repr

/-- The coarse classes of errors. -/
inductive ErrorKind where
  | definition
  | expansionLimit
  | argumentBinding
  | evaluation
deriving DecidableEq, Repr

inductive Severity where
  | error
  | warning
deriving DecidableEq, Repr

namespace MacroError

def message : MacroError → String
  | definition cause => "DEFINE: " ++ cause.message
  | binding name cause => "macro `" ++ name ++ "`: " ++ cause.message
  | nestingLimit name limit =>
    "maximum nesting level " ++ limit.repr ++ " exceeded expanding `" ++ name ++
      "`; set MNEST to raise it"
  | iterationLimit limit =>
    "!DO loop stopped after " ++ limit.repr ++ " iterations; set MITERATE to raise it"
  | evalNestingLimit limit => "!EVAL nested more than " ++ limit.repr ++ " levels deep"
  | evaluation cause => cause.message
  | call function cause => function.name ++ ": " ++ cause.message function
  | setting which cause => "SET " ++ which.keyword ++ ": " ++ cause.message

def kind : MacroError → ErrorKind
  | definition _ => .definition
  | binding _ _ => .argumentBinding
  | nestingLimit _ _ | iterationLimit _ | evalNestingLimit _ => .expansionLimit
  | evaluation _ | call _ _ | setting _ _ => .evaluation

/-- Reaching a limit is a warning, all else is an error. -/
def severity (error : MacroError) : Severity :=
  match error.kind with
  | .expansionLimit => .warning
  | _ => .error

end MacroError

/-- An error with the place where it happened, if it has one, and the macros and directives being
expanded there, outermost first. -/
structure Diagnostic where
  error : MacroError
  span : Option Span := none
  stack : List String := []
deriving DecidableEq

namespace Diagnostic

def message (d : Diagnostic) : String :=
  d.error.message

def severity (d : Diagnostic) : Severity :=
  d.error.severity

def isWarning (d : Diagnostic) : Bool :=
  d.severity == .warning

/-- The remarks below a printed diagnostic, one per enclosing expansion, innermost first. -/
def notes (d : Diagnostic) : List String :=
  d.stack.reverse.map ("in expansion of " ++ ·)

end Diagnostic

end CommandMacros

import CommandMacros.Diagnostic
import CommandMacros.TestCase.Check

/-!
What a run of the program leaves behind: lines on the two output streams, in the order of writing,
and an exit code.
-/

namespace CommandMacros.CommandLine

inductive Line where
  | output (text : String)
  | report (text : String)
deriving DecidableEq, Repr

structure Outcome where
  lines : List Line := []
  code : Nat := 0
deriving DecidableEq, Repr

namespace Outcome

def textOf (select : Line → Option String) (outcome : Outcome) : String :=
  String.join ((outcome.lines.filterMap select).map (· ++ "\n"))

/-- The text on the standard output. -/
def stdout (outcome : Outcome) : String :=
  outcome.textOf fun
    | .output text => some text
    | .report _ => none

/-- The text on the standard error stream. -/
def stderr (outcome : Outcome) : String :=
  outcome.textOf fun
    | .output _ => none
    | .report text => some text

end Outcome

/-- A diagnostic about a file: the message, the place, and the expansions around it. -/
def diagnosticLines (file source : String) (d : Diagnostic) : List String :=
  let place := fun (span : Span) =>
    "  ┌─ " ++ file ++ ":" ++ (Text.lineAt source span.start).repr ++ ":" ++
      (Text.columnAt source span.start).repr
  [d.severity.name ++ ": " ++ d.message] ++ d.span.toList.map place ++ d.notes.map ("  = " ++ ·)

end CommandMacros.CommandLine

import CommandMacros.Session
import CommandMacros.TestCase.Basic
import CommandMacros.Text.Position

/-!
Checking a test case: its source is expanded, and the errors, then the warnings, then the output are
compared with what is expected. The first difference is the failure.
-/

namespace CommandMacros

def Severity.name : Severity → String
  | error => "error"
  | warning => "warning"

/-- Why a test case fails. -/
inductive TestFailure where
  | unexpectedErrors (messages : List String)
  | wrongCount (what : Severity) (expected : Nat) (messages : List String)
  | wrongMessage (what : Severity) (index : Nat) (contains message : String)
  | wrongLine (what : Severity) (index expected actual : Nat)
  | noLine (what : Severity) (index expected : Nat)
  | wrongOutput (expected actual : List String)
deriving DecidableEq, Repr

namespace TestFailure

/-- The lines, each after `mark`, or a remark that there are none. -/
def listing (mark none : String) (lines : List String) : String :=
  if lines.isEmpty then none else "\n".intercalate (lines.map (mark ++ ·))

/-- The name of a message by its place among those of its severity. -/
def place (what : Severity) (index : Nat) : String :=
  what.name ++ "[" ++ index.repr ++ "]: "

def message : TestFailure → String
  | unexpectedErrors messages => "unexpected error(s):\n" ++ listing "  - " "" messages
  | wrongCount what expected messages =>
    "expected " ++ expected.repr ++ " " ++ what.name ++ "(s), got " ++ messages.length.repr ++
      "\n  actual:\n" ++ listing "    - " "    (none)" messages
  | wrongMessage what index contains message =>
    place what index ++ "expected message containing \"" ++ contains ++ "\", got: " ++ message
  | wrongLine what index expected actual =>
    place what index ++ "expected on line " ++ expected.repr ++ ", but span is on line " ++
      actual.repr
  | noLine what index expected =>
    place what index ++ "expected on line " ++ expected.repr ++ ", but it has no span"
  | wrongOutput expected actual =>
    "output mismatch\n  expected:\n" ++ listing "    " "    (nothing)" expected ++
      "\n  actual:\n" ++ listing "    " "    (nothing)" actual

end TestFailure

namespace TestCase

/-- The lines without the blanks around them, and without empty ones. -/
def normalize (lines : List String) : List String :=
  (lines.map Text.trim).filter (!·.isEmpty)

/-- Compares one diagnostic with what is expected in its place. -/
def checkMessage (what : Severity) (source : String) (index : Nat) (diagnostic : Diagnostic)
    (expected : ExpectedMessage) : Except TestFailure Unit :=
  if !Text.contains diagnostic.message expected.contains then
    .error (.wrongMessage what index expected.contains diagnostic.message)
  else
    match expected.line, diagnostic.span with
    | none, _ => .ok ()
    | some line, none => .error (.noLine what index line)
    | some line, some span =>
      let actual := Text.lineAt source span.start
      if actual = line then .ok () else .error (.wrongLine what index line actual)

/-- Compares the diagnostics of one severity with the expected ones, in order. -/
def checkMessages (what : Severity) (source : String) (actual : List Diagnostic)
    (expected : List ExpectedMessage) : Except TestFailure Unit :=
  if actual.length ≠ expected.length then
    .error (.wrongCount what expected.length (actual.map (·.message)))
  else
    (actual.zip expected).zipIdx.forM fun ((diagnostic, message), index) =>
      checkMessage what source index diagnostic message

def checkErrors (case : TestCase) (actual : List Diagnostic) : Except TestFailure Unit :=
  match case.expectations.errors with
  | some expected => checkMessages .error case.source actual expected
  | none =>
    if actual.isEmpty then .ok () else .error (.unexpectedErrors (actual.map (·.message)))

def checkWarnings (case : TestCase) (actual : List Diagnostic) : Except TestFailure Unit :=
  match case.expectations.warnings with
  | some expected => checkMessages .warning case.source actual expected
  | none => .ok ()

def checkOutput (case : TestCase) (actual : List String) : Except TestFailure Unit :=
  match case.expectations.output with
  | some text =>
    let expected := normalize (Text.lines text)
    let actual := normalize actual
    if expected = actual then .ok () else .error (.wrongOutput expected actual)
  | none => .ok ()

def check (case : TestCase) : Except TestFailure Unit := do
  let (tokens, diagnostics) := expandSource case.source case.expectations.settings
  case.checkErrors (diagnostics.filter (!·.isWarning))
  case.checkWarnings (diagnostics.filter (·.isWarning))
  case.checkOutput (Token.renderCommands tokens)

end TestCase

end CommandMacros

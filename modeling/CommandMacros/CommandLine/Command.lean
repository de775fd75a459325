import CommandMacros.CommandLine.Arguments
import CommandMacros.Number.Integer

/-!
The commands of the program and how they are written. Arguments are taken from left to right: a
request for help is granted as soon as it is reached, and a mistake before it is reported instead.
-/

namespace CommandMacros.CommandLine

/-- Expand a file and print the result. -/
structure ExpandOptions where
  file : String
  /-- A file with the initial settings. -/
  config : Option String := none
  nestLimit : Option Nat := none
  iterateLimit : Option Nat := none
  /-- Echo expansions. -/
  print : Bool := false
  /-- Start with expansion turned off. -/
  noExpand : Bool := false
  /-- List the macros that the file defines. -/
  listMacros : Bool := false
  /-- Do not print the expanded syntax. -/
  quiet : Bool := false
  /-- Stop after this many errors. -/
  maxErrors : Nat := 100
deriving DecidableEq, Repr

/-- Run test files. -/
structure TestOptions where
  path : String
  /-- The requested categories, in order. -/
  categories : List String := []
  listCategories : Bool := false
deriving DecidableEq, Repr

inductive Command where
  | expand (options : ExpandOptions)
  | test (options : TestOptions)
deriving DecidableEq, Repr

/-- Why no command is run. -/
inductive Stop where
  | usage
  | help
  | version
deriving DecidableEq, Repr

/-- The options given so far, and the operands, both in order. -/
structure Draft where
  flags : List String := []
  values : List (String × String) := []
  operands : List String := []

/-- What a command makes of its items: the options it knows, which of them may be repeated, and the
values they accept. -/
structure Form where
  switches : List Switch
  repeatable : List String := []
  accepts : String → String → Bool

/-- Options that every command knows. Output is always plain, so that a request for that changes
nothing. -/
def commonSwitches : List Switch :=
  [{ name := "no-color" }, { name := "help", short := some 'h' }]

/-- Takes one item. Every command has exactly one operand. -/
def Draft.take (form : Form) (draft : Draft) : Item → Except Stop Draft
  | .malformed => .error .usage
  | .flag name =>
    if name = "help" then .error .help
    else if name ∈ draft.flags then .error .usage
    else .ok { draft with flags := draft.flags ++ [name] }
  | .value name text =>
    if !form.accepts name text then .error .usage
    else if (draft.values.lookup name).isSome && !form.repeatable.contains name then .error .usage
    else .ok { draft with values := draft.values ++ [(name, text)] }
  | .operand text =>
    if draft.operands.isEmpty then .ok { draft with operands := [text] } else .error .usage

/-- Reads the arguments of a command: its operand and its options. -/
def readArguments (form : Form) (arguments : List String) : Except Stop (String × Draft) := do
  let draft ← (items form.switches none arguments).foldlM (Draft.take form) {}
  match draft.operands with
  | operand :: _ => return (operand, draft)
  | [] => throw .usage

/-- A positive number, as a limit. -/
def positive? (text : String) : Option Nat :=
  (Number.readUnsigned? text.toList).filter (0 < ·)

def expandForm : Form where
  switches := commonSwitches ++
    [{ name := "config", takesValue := true },
      { name := "mnest", takesValue := true },
      { name := "miterate", takesValue := true },
      { name := "mprint" },
      { name := "no-mexpand" },
      { name := "list-macros" },
      { name := "quiet", short := some 'q' },
      { name := "max-errors", takesValue := true }]
  accepts name text := if name = "config" then !text.isEmpty else (positive? text).isSome

def testForm : Form where
  switches := commonSwitches ++
    [{ name := "category", short := some 'c', takesValue := true },
      { name := "list-categories" }]
  repeatable := ["category"]
  accepts _ _ := true

def readExpand (arguments : List String) : Except Stop ExpandOptions := do
  let (file, draft) ← readArguments expandForm arguments
  let limit? := fun name => (draft.values.lookup name).bind positive?
  return {
    file
    config := draft.values.lookup "config"
    nestLimit := limit? "mnest"
    iterateLimit := limit? "miterate"
    print := draft.flags.contains "mprint"
    noExpand := draft.flags.contains "no-mexpand"
    listMacros := draft.flags.contains "list-macros"
    quiet := draft.flags.contains "quiet"
    maxErrors := (limit? "max-errors").getD 100 }

def readTest (arguments : List String) : Except Stop TestOptions := do
  let (path, draft) ← readArguments testForm arguments
  return {
    path
    categories := (draft.values.filter (·.1 == "category")).map (·.2)
    listCategories := draft.flags.contains "list-categories" }

def commandNames : List String := ["expand", "test", "help"]

/-- A file name may stand for the command that expands it. -/
def insertExpand : List String → List String
  | [] => []
  | argument :: rest =>
    if argument.toList.head? = some '-' then
      argument :: insertExpand rest
    else if argument ∈ commandNames then
      argument :: rest
    else
      "expand" :: argument :: rest

/-- The command called `name`. -/
def readCommand (name : String) (arguments : List String) : Except Stop Command :=
  match name with
  | "expand" => (readExpand arguments).map .expand
  | "test" => (readTest arguments).map .test
  | "help" =>
    match arguments with
    | [] => .error .help
    | [topic] => .error (if topic ∈ commandNames then .help else .usage)
    | _ => .error .usage
  | _ => .error .usage

/-- The options in front of a command. -/
def leadingSwitches : List Switch :=
  commonSwitches ++ [{ name := "version", short := some 'V' }]

/-- Takes one option in front of a command, where `plain` says whether plain output was requested
before. -/
def takeLeading (plain : Bool) : Item → Except Stop Bool
  | .flag "help" => .error .help
  | .flag "version" => .error .version
  | .flag _ => if plain then .error .usage else .ok true
  | _ => .error .usage

def readLeading (plain : Bool) : List String → Except Stop Command
  | [] => .error .usage
  | argument :: rest =>
    if isOption argument then do
      let plain ← (readArgument leadingSwitches argument).items.foldlM takeLeading plain
      readLeading plain rest
    else
      readCommand argument rest

/-- The command that the arguments of the program ask for. -/
def Command.ofArguments (arguments : List String) : Except Stop Command :=
  readLeading false (insertExpand arguments)

end CommandMacros.CommandLine

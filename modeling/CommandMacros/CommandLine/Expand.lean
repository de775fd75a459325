import CommandMacros.CommandLine.Command
import CommandMacros.CommandLine.Output
import CommandMacros.FileTree
import CommandMacros.SettingsRecord

/-!
The command that expands a file. Each expanded command is printed as soon as it is complete,
followed by the diagnostics reported up to then, and too many errors end the run there.
-/

namespace CommandMacros

theorem Session.next_decreases {session rest : Session} {t : Token}
    (h : session.next = (some t, rest)) :
    rest.feed.tokens.length < session.feed.tokens.length ∨
      rest.feed.tokens.length = session.feed.tokens.length ∧
        rest.pending.length < session.pending.length := by
  fun_induction Session.next session with
  | case1 session head tail hpending =>
      cases h
      simp [hpending]
  | case2 => cases h
  | case3 session hpending statement feed hread hlt ih =>
      have hfeed := Session.process_feed { session with feed } statement
      have := ih h
      rw [hfeed] at this
      simp only at this
      omega

namespace CommandLine

/-- The state of a run that prints an expansion. -/
structure Printing where
  /-- The tokens of the command that is not complete yet, the last one first. -/
  command : List Token := []
  errors : Nat := 0
  lines : Array Line := #[]

namespace Printing

/-- Writes the lines echoed by the session. -/
def writeEchoes (printing : Printing) (session : Session) : Printing × Session :=
  let (echoes, session) := session.takeEchoes
  ({ printing with lines := printing.lines ++ echoes.map Line.report }, session)

/-- Prints the tokens of the current command, if there are any. -/
def writeCommand (printing : Printing) (quiet : Bool) : Printing :=
  if printing.command.isEmpty || quiet then
    { printing with command := [] }
  else
    let text := Token.render printing.command.reverse
    { printing with command := [], lines := printing.lines.push (.output text) }

/-- Writes the diagnostics of the session, and counts the errors among them. -/
def writeDiagnostics (printing : Printing) (file source : String) (session : Session) :
    Printing × Session :=
  let (diagnostics, session) := session.takeDiagnostics
  let lines := (diagnostics.flatMap (diagnosticLines file source)).map Line.report
  let errors := (diagnostics.filter (!·.isWarning)).length
  ({ printing with lines := printing.lines ++ lines, errors := printing.errors + errors }, session)

def finish (printing : Printing) : Outcome :=
  ⟨printing.lines.toList, if printing.errors = 0 then 0 else 1⟩

end Printing

/-- What the session at its end leaves to be written. -/
def writeRest (options : ExpandOptions) (source : String) (session : Session)
    (printing : Printing) : Outcome :=
  let (printing, session) := printing.writeEchoes session
  let printing := printing.writeCommand options.quiet
  let (printing, session) := printing.writeDiagnostics options.file source session
  let names := if options.listMacros then session.table.names else []
  { printing with lines := printing.lines ++ names.map Line.output }.finish

/-- Pulls tokens from the session and writes each command at its end. -/
def writeCommands (options : ExpandOptions) (source : String) (session : Session)
    (printing : Printing) : Outcome :=
  match h : session.next with
  | (none, rest) => writeRest options source rest printing
  | (some t, rest) =>
    let echoed := printing.writeEchoes rest
    let printing := { echoed.1 with command := t :: echoed.1.command }
    if t.isEnd then
      let printing := printing.writeCommand options.quiet
      let reported := printing.writeDiagnostics options.file source echoed.2
      let printing := reported.1
      if printing.errors ≥ options.maxErrors then
        let remark := "error: stopping after " ++ printing.errors.repr ++ " errors"
        { printing with lines := printing.lines.push (.report remark) }.finish
      else
        writeCommands options source reported.2 printing
    else
      writeCommands options source echoed.2 printing
termination_by (session.feed.tokens.length, session.pending.length)
decreasing_by
  all_goals
    have hnext := Session.next_decreases h
    simp only [Prod.lex_def]
    exact hnext

/-- The settings of the configuration file, with those given as options in front. -/
def initialSettings (options : ExpandOptions) (base : Settings) : Settings where
  expand := base.expand && !options.noExpand
  print := base.print || options.print
  iterateLimit := options.iterateLimit.getD base.iterateLimit
  nestLimit := options.nestLimit.getD base.nestLimit

/-- Why a file is not expanded. -/
inductive ExpandError where
  | unreadable (path : String) (cause : ReadError)
  | badSettings (path : String)
deriving DecidableEq, Repr

def ExpandError.message : ExpandError → String
  | unreadable path cause => "cannot read '" ++ path ++ "': " ++ cause.message
  | badSettings path => "invalid settings in '" ++ path ++ "': TOML parse error"

/-- Reads the text at a path. -/
def readText (find : String → Except ReadError FileTree) (path : String) :
    Except ExpandError String :=
  match (find path).bind FileTree.read with
  | .ok text => .ok text
  | .error cause => .error (.unreadable path cause)

def loadSettings (find : String → Except ReadError FileTree) (options : ExpandOptions) :
    Except ExpandError Settings := do
  match options.config with
  | none => return initialSettings options {}
  | some path =>
    match Settings.ofDocument? (← readText find path) with
    | some base => return initialSettings options base
    | none => throw (.badSettings path)

/-- Expands a source text. Echoes are written only if they are wanted from the start. -/
def expandText (options : ExpandOptions) (source : String) (settings : Settings) : Outcome :=
  let session := Session.ofSource source settings
  writeCommands options source
    { session with echoSink := if settings.print then .collect else .discard } {}

/-- Runs the command, where `find` gives what stands at a path. -/
def runExpand (find : String → Except ReadError FileTree) (options : ExpandOptions) : Outcome :=
  let inputs : Except ExpandError (String × Settings) := do
    let source ← readText find options.file
    return (source, ← loadSettings find options)
  match inputs with
  | .ok (source, settings) => expandText options source settings
  | .error cause => ⟨[.report ("error: " ++ cause.message)], 1⟩

end CommandLine

end CommandMacros

import CommandMacros.CommandLine.Expand
import CommandMacros.TestCase.Suite

/-!
Running the program: the command is read from the arguments and carried out on the files it names.
-/

namespace CommandMacros.CommandLine

def versionText : String := "mlang 0.1.0"

def usageLines : List String :=
  ["Usage: mlang [--no-color] <COMMAND>",
    "",
    "Commands:",
    "  expand <FILE>  Expand the macros in a syntax file and print the result",
    "  test <PATH>    Run .test.sps test files",
    "  help           Print this message"]

def runTest (find : String → Except ReadError FileTree) (options : TestOptions) : Outcome :=
  let found := find options.path
  if options.listCategories then
    ⟨(TestSuite.listing options.path found).map Line.report, 0⟩
  else
    let report := TestSuite.run options.path found options.categories
    ⟨report.lines.map Line.report, if report.success then 0 else 1⟩

def Stop.outcome : Stop → Outcome
  | usage => ⟨usageLines.map Line.report, 2⟩
  | help => ⟨usageLines.map Line.output, 0⟩
  | version => ⟨[.output versionText], 0⟩

def Command.run (find : String → Except ReadError FileTree) : Command → Outcome
  | expand options => runExpand find options
  | test options => runTest find options

/-- The paths that a command looks at. -/
def Command.paths : Command → List String
  | expand options => options.file :: options.config.toList
  | test options => [options.path]

/-- Runs the program with these arguments, where `find` gives what stands at a path. -/
def run (find : String → Except ReadError FileTree) (arguments : List String) : Outcome :=
  match Command.ofArguments arguments with
  | .ok command => command.run find
  | .error stop => stop.outcome

end CommandMacros.CommandLine

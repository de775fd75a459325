import CommandMacros.FileTree
import CommandMacros.TestCase.Category
import CommandMacros.TestCase.Check

/-!
Running test files: finding them in a directory, running the selected ones, and reporting. A report
is a list of lines.
-/

namespace CommandMacros

/-- A test file with its path and what reading it gave. -/
structure TestFile where
  path : String
  content : Except ReadError String

/-- Why a test file does not pass. -/
inductive TestProblem where
  | unreadable (cause : ReadError)
  | frontmatter (cause : TestCase.FrontmatterError)
  | failed (cause : TestFailure)
deriving DecidableEq, Repr

def TestProblem.message : TestProblem → String
  | unreadable cause => "cannot read file: " ++ cause.message
  | frontmatter cause => "frontmatter error: " ++ cause.message
  | failed cause => cause.message

structure TestResult where
  path : String
  description : Option String := none
  problem : Option TestProblem := none
deriving DecidableEq, Repr

namespace TestResult

/-- The ending of the names of test files. -/
def fileSuffix : String := ".test.sps"

/-- The description, or else the file name, without the ending of test files. -/
def label (result : TestResult) : String :=
  match result.description <|> Path.fileName? result.path with
  | some name =>
    ((Text.stripEnd? fileSuffix.toList name.toList).map String.ofList).getD name
  | none => "?"

def passed (result : TestResult) : Bool :=
  result.problem.isNone

/-- Runs one test file. -/
def ofFile (file : TestFile) : TestResult :=
  match file.content with
  | .error cause => { path := file.path, problem := some (.unreadable cause) }
  | .ok content =>
    match TestCase.ofContent content with
    | .error cause => { path := file.path, problem := some (.frontmatter cause) }
    | .ok case =>
      { path := file.path
        description := case.expectations.description
        problem :=
          match case.check with
          | .ok () => none
          | .error cause => some (.failed cause) }

def line (result : TestResult) : String :=
  (if result.passed then "  PASS  " else "  FAIL  ") ++ result.label

/-- The part of the list of failures about one result. -/
def details (result : TestResult) : List String :=
  ["", "  --- " ++ result.path ++ " ---"] ++
    result.problem.toList.flatMap fun problem => (Text.lines problem.message).map ("  " ++ ·)

end TestResult

namespace TestSuite

/-- The category of a file with this path below the root. -/
def categoryOf (path : List String) : String :=
  let directory := "/".intercalate path.dropLast
  String.ofList (directory.toList.map fun c => if c = '\\' then '/' else c)

def isTestPath (path : List String) : Bool :=
  path.getLast?.any fun name => (Text.stripEnd? TestResult.fileSuffix.toList name.toList).isSome

/-- Whether a path comes before another: by the first part in which they differ, where a path that
is the front of another comes first. -/
def precedes : List String → List String → Bool
  | _, [] => false
  | [], _ :: _ => true
  | a :: as, b :: bs => decide (a < b) || (a == b && precedes as bs)

/-- The test files below a directory by category, the files of each in the order of their paths. -/
def discover (root : String) (tree : FileTree) : Categories TestFile :=
  let tests := tree.files.filter fun (path, _) => isTestPath path
  let sorted := tests.mergeSort fun a b => !precedes b.1 a.1
  sorted.foldl
    (fun categories (path, content) =>
      categories.add (categoryOf path) ⟨Path.join root ("/".intercalate path), content⟩) {}

/-- The report on the results by category. A single file has no headings. -/
def sections (single : Bool) (results : List (String × List TestResult)) : List String :=
  results.flatMap fun (category, items) =>
    (if single then [] else ["", Categories.label category]) ++ items.map TestResult.line

/-- The list of failures, and the count of passed and failed tests. -/
def summary (results : List TestResult) : List String :=
  let passed := (results.filter (·.passed)).length
  let failures := results.filter (!·.passed)
  if failures.isEmpty then
    ["", "test result: ok. " ++ passed.repr ++ " passed, 0 failed"]
  else
    ["", "failures:"] ++ failures.flatMap TestResult.details ++
      ["", "test result: FAILED. " ++ passed.repr ++ " passed, " ++ failures.length.repr ++
        " failed (of " ++ results.length.repr ++ ")"]

/-- A report, and whether every test passed. -/
structure Report where
  lines : List String
  success : Bool
deriving DecidableEq, Repr

def noFiles (root : String) : String :=
  "no " ++ TestResult.fileSuffix ++ " files found in " ++ root

/-- Runs the selected files. -/
def runSelected (single : Bool) (selected : Categories TestFile) : Report :=
  let results := selected.entries.map fun (category, files) =>
    (category, files.map TestResult.ofFile)
  let all := results.flatMap (·.2)
  ⟨sections single results ++ summary all, all.all TestResult.passed⟩

/-- Runs the test file at a path, or the requested categories of the directory there. -/
def run (path : String) (found : Except ReadError FileTree) (requests : List String) : Report :=
  match found with
  | .ok (.file content) => runSelected true (({} : Categories TestFile).add "" ⟨path, content⟩)
  | _ =>
    let categories := discover path (found.toOption.getD (.directory []))
    if categories.entries.isEmpty then
      ⟨[noFiles path], false⟩
    else
      let selection := categories.select requests
      let warnings := selection.idle.map categories.idleWarning
      if selection.selected.entries.isEmpty then
        ⟨warnings ++ ["no matching categories found"], false⟩
      else
        let report := runSelected false selection.selected
        { report with lines := warnings ++ report.lines }

/-- The categories at a path with the number of tests in each. -/
def listing (path : String) (found : Except ReadError FileTree) : List String :=
  match found with
  | .ok (.file _) => ["(single file, no categories)"]
  | _ =>
    let categories := discover path (found.toOption.getD (.directory []))
    if categories.entries.isEmpty then
      [noFiles path]
    else
      "available categories:" :: categories.entries.map fun (name, files) =>
        "  " ++ Categories.label name ++ " (" ++ files.length.repr ++ " tests)"

end TestSuite

end CommandMacros

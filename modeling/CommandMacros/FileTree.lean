import CommandMacros.Text.Search

/-!
Files and directories as values. A path is a text whose parts are separated by slashes, and leads
from the root of a tree to a file or a directory below it.
-/

namespace CommandMacros

namespace Path

/-- The parts between the slashes, with the empty ones. -/
def parts (path : String) : List String :=
  (path.toList.splitOn '/').map String.ofList

/-- Whether a part stays in the directory it is looked up in. -/
def isSelf (part : String) : Bool :=
  part.isEmpty || part == "."

/-- The name of what the path leads to. A path that is empty or ends by going up has none. -/
def fileName? (path : String) : Option String :=
  ((parts path).filter (!isSelf ·)).getLast?.filter (· != "..")

/-- The path of something inside a directory. -/
def join (directory name : String) : String :=
  if directory.toList.getLast? = some '/' then directory ++ name else directory ++ "/" ++ name

end Path

/-- Why a file cannot be read. -/
inductive ReadError where
  | notFound
  | notADirectory
  | isADirectory
  | notText
  /-- Any other reason, in the words of the system. -/
  | other (description : String)
deriving DecidableEq, Repr

def ReadError.message : ReadError → String
  | notFound => "No such file or directory (os error 2)"
  | notADirectory => "Not a directory (os error 20)"
  | isADirectory => "Is a directory (os error 21)"
  | notText => "stream did not contain valid UTF-8"
  | other description => description

inductive FileTree where
  | file (content : Except ReadError String)
  | directory (entries : List (String × FileTree))

namespace FileTree

def read : FileTree → Except ReadError String
  | file content => content
  | directory _ => .error .isADirectory

/-- The entries with the one called `name` replaced, or added at the end. -/
def setEntry (name : String) (node : FileTree) :
    List (String × FileTree) → List (String × FileTree)
  | [] => [(name, node)]
  | (other, old) :: rest =>
    if other = name then (name, node) :: rest else (other, old) :: setEntry name node rest

/-- The entries with a file added at a path, together with the directories on the way. -/
def addFile (content : String) : (path : List String) → List (String × FileTree) →
    List (String × FileTree)
  | [], entries => entries
  | [name], entries => setEntry name (.file (.ok content)) entries
  | name :: path, entries =>
    let inner :=
      match entries.lookup name with
      | some (.directory inner) => inner
      | _ => []
    setEntry name (.directory (addFile content path inner)) entries

/-- The directory that holds the given files, each with its path. -/
def ofFiles (files : List (String × String)) : FileTree :=
  .directory <| files.foldl
    (fun entries (path, content) =>
      addFile content ((Path.parts path).filter (!Path.isSelf ·)) entries) []

/-- Follows the parts of a path, where `above` holds the directories above, the nearest first. -/
def walk (above : List FileTree) (here : FileTree) :
    (parts : List String) → Except ReadError FileTree
  | [] => .ok here
  | part :: rest =>
    match here with
    | .file _ => .error .notADirectory
    | .directory entries =>
      if Path.isSelf part then
        walk above here rest
      else if part = ".." then
        match above with
        | parent :: higher => walk higher parent rest
        | [] => .error .notFound
      else
        match entries.lookup part with
        | some node => walk (here :: above) node rest
        | none => .error .notFound

/-- What a path leads to from the root of the tree. -/
def find (root : FileTree) (path : String) : Except ReadError FileTree :=
  if path.isEmpty || path.toList.head? == some '/' then
    .error .notFound
  else
    walk [] root (Path.parts path)

mutual

/-- The files in a tree, each with the parts of its path. -/
def files : FileTree → List (List String × Except ReadError String)
  | .file content => [([], content)]
  | .directory entries => entryFiles entries

def entryFiles : List (String × FileTree) → List (List String × Except ReadError String)
  | [] => []
  | (name, node) :: rest =>
    (files node).map (fun (path, content) => (name :: path, content)) ++ entryFiles rest

end

end FileTree

end CommandMacros

/-!
Test files sorted into categories, and the selection of categories by name. A category is the
directory of its files, and a request for it also selects the categories below.
-/

namespace CommandMacros

/-- Values under category names, in the order of the names. -/
structure Categories (α : Type) where
  entries : List (String × List α) := []

namespace Categories

variable {α : Type}

def names (categories : Categories α) : List String :=
  categories.entries.map (·.1)

def insert (name : String) (value : α) : List (String × List α) → List (String × List α)
  | [] => [(name, [value])]
  | (other, values) :: rest =>
    if name = other then (other, values ++ [value]) :: rest
    else if name < other then (name, [value]) :: (other, values) :: rest
    else (other, values) :: insert name value rest

/-- The categories with one more value under a name. -/
def add (categories : Categories α) (name : String) (value : α) : Categories α :=
  ⟨insert name value categories.entries⟩

/-- How a category is called in reports. -/
def label (name : String) : String :=
  if name.isEmpty then "(root)" else name

/-- A request without the slashes around it. -/
def trimSlashes (request : String) : String :=
  let isSlash := fun c => c == '/'
  String.ofList (((request.toList.dropWhile isSlash).reverse.dropWhile isSlash).reverse)

/-- Whether a category is the requested one or lies below it. -/
def covers (request name : String) : Bool :=
  name == request || (request.toList ++ ['/']).isPrefixOf name.toList

/-- The names that the requests select besides those already chosen, and the requests that select no
further name. -/
def choose (names : List String) (chosen : List String) :
    (requests : List String) → List String × List String
  | [] => (chosen, [])
  | request :: others =>
    let further := names.filter fun name => covers request name && !chosen.contains name
    let (final, idle) := choose names (chosen ++ further) others
    (final, if further.isEmpty then request :: idle else idle)

/-- The result of a selection. -/
structure Selection (α : Type) where
  selected : Categories α
  /-- The requests that did not add a category. -/
  idle : List String

/-- Selects the requested categories; without a request, all of them. -/
def select (categories : Categories α) (requests : List String) : Selection α :=
  if requests.isEmpty then
    ⟨categories, []⟩
  else
    let (chosen, idle) := choose categories.names [] (requests.map trimSlashes)
    ⟨⟨categories.entries.filter fun (name, _) => chosen.contains name⟩, idle⟩

/-- The remark on a request that added nothing. -/
def idleWarning (categories : Categories α) (request : String) : String :=
  "warning: category '" ++ request ++ "' not found (available: " ++
    ", ".intercalate (categories.names.map label) ++ ")"

end Categories

end CommandMacros

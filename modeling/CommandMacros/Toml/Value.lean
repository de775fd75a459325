/-!
Values of the TOML configuration format, and the tree that a document is built into. Floats, dates
and times are only recognised; no setting has one.
-/

namespace CommandMacros.Toml

inductive Value where
  | text (value : String)
  | integer (value : Int)
  | float
  | dateTime
  | boolean (value : Bool)
  | array (items : List Value)
  | table (entries : List (String × Value))

/-- How a table came to be, which decides what may still be added to it. -/
inductive TableKind where
  /-- By a header that names it. -/
  | explicit
  /-- By a longer header. -/
  | implicit
  /-- By a dotted key. -/
  | dotted
deriving DecidableEq, Repr

/-- Whether a dotted key may pass through a table or, with `isEnd`, add to it. -/
def TableKind.takesDotted (kind : TableKind) (isEnd : Bool) : Bool :=
  match kind with
  | .explicit => false
  | .implicit => !isEnd
  | .dotted => true

/-- A part of a document under construction. -/
inductive Node where
  | value (value : Value)
  | table (kind : TableKind) (entries : List (String × Node))
  /-- An array of tables, the last one first. -/
  | tables (items : List (List (String × Node)))

abbrev Entries := List (String × Node)

mutual

def Node.toValue : Node → Value
  | .value v => v
  | .table _ entries => .table (entriesToValues entries)
  | .tables items => .array (itemsToValues items).reverse

def entriesToValues : Entries → List (String × Value)
  | [] => []
  | (key, node) :: rest => (key, node.toValue) :: entriesToValues rest

def itemsToValues : List Entries → List Value
  | [] => []
  | entries :: rest => .table (entriesToValues entries) :: itemsToValues rest

end

/-- The entries with the one for `key` replaced, or added at the end. -/
def setEntry (key : String) (node : Node) : Entries → Entries
  | [] => [(key, node)]
  | (k, old) :: rest => if k = key then (k, node) :: rest else (k, old) :: setEntry key node rest

/-- Changes the entries of the table at `path`, which a header or a dotted key names. Tables on the
way are made where they are missing; an array of tables stands for its last one, to which a dotted
key adds nothing directly. -/
def changeAt (fromDotted : Bool) (change : Entries → Option Entries) :
    (path : List String) → Entries → Option Entries
  | [], entries => change entries
  | key :: path, entries =>
    match entries.lookup key with
    | none => do
      let inner ← changeAt fromDotted change path []
      return setEntry key (.table (if fromDotted then .dotted else .implicit) inner) entries
    | some (.table kind inner) =>
      if fromDotted && !kind.takesDotted path.isEmpty then
        none
      else do
        let inner ← changeAt fromDotted change path inner
        return setEntry key (.table kind inner) entries
    | some (.tables (last :: others)) =>
      if fromDotted && path.isEmpty then
        none
      else do
        let last ← changeAt fromDotted change path last
        return setEntry key (.tables (last :: others)) entries
    | some _ => none

/-- Adds a value under a key that is not taken. -/
def addValue (key : String) (value : Value) (entries : Entries) : Option Entries :=
  if (entries.lookup key).isSome then none else some (setEntry key (.value value) entries)

/-- Opens the table of a header. Only a table that a longer header has made may exist already. -/
def openTable (key : String) (entries : Entries) : Option Entries :=
  match entries.lookup key with
  | none => some (setEntry key (.table .explicit []) entries)
  | some (.table .implicit inner) => some (setEntry key (.table .explicit inner) entries)
  | some _ => none

/-- Adds a table to the array of tables of a header. -/
def appendTable (key : String) (entries : Entries) : Option Entries :=
  match entries.lookup key with
  | none => some (setEntry key (.tables [[]]) entries)
  | some (.tables items) => some (setEntry key (.tables ([] :: items)) entries)
  | some _ => none

end CommandMacros.Toml

import CommandMacros.Definition.Basic

/-!
The table of the macros defined so far. Names are looked up in any case, and a later definition
replaces an earlier one of the same name. The entries are kept in the order of their upper-case
names.
-/

namespace CommandMacros

structure Table where
  /-- The definitions, each under its upper-case name. -/
  entries : List (String × Definition) := []

namespace Table

/-- The entries with a definition put in its place, and the definition it replaced. -/
def insert (key : String) (d : Definition) :
    List (String × Definition) → List (String × Definition) × Option Definition
  | [] => ([(key, d)], none)
  | (k, e) :: rest =>
    if key = k then
      ((key, d) :: rest, some e)
    else if key < k then
      ((key, d) :: (k, e) :: rest, none)
    else
      let (entries, replaced) := insert key d rest
      ((k, e) :: entries, replaced)

/-- Adds a definition, and gives the one it replaced. -/
def define (table : Table) (d : Definition) : Table × Option Definition :=
  let (entries, replaced) := insert d.key d table.entries
  (⟨entries⟩, replaced)

def lookup (table : Table) (name : String) : Option Definition :=
  table.entries.lookup (Text.upper name)

def contains (table : Table) (name : String) : Bool :=
  (table.lookup name).isSome

/-- The names as written in their definitions, in the order of their upper-case forms. -/
def names (table : Table) : List String :=
  table.entries.map (·.2.name)

end Table

end CommandMacros

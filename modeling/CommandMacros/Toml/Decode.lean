import CommandMacros.Toml.Document

/-!
Reading records out of TOML values. The fields of a record stand in a table under their names, or
in an array in their order.
-/

namespace CommandMacros.Toml.Value

def text? : Value → Option String
  | text value => some value
  | _ => none

def boolean? : Value → Option Bool
  | boolean value => some value
  | _ => none

/-- A whole number that is not negative. -/
def natural? : Value → Option Nat
  | integer value => if 0 ≤ value then some value.toNat else none
  | _ => none

def listOf? {α : Type} (item? : Value → Option α) : Value → Option (List α)
  | array items => items.mapM item?
  | _ => none

/-- Whether fields may be asked for. A date or time counts as a record that has none of them. -/
def isRecord : Value → Bool
  | table _ | array _ | dateTime => true
  | _ => false

/-- The value of the field of a record with this place and name. -/
def field (record : Value) (place : Nat) (name : String) : Option Value :=
  match record with
  | table entries => entries.lookup name
  | array items => items[place]?
  | _ => none

/-- A field that may be missing. -/
def optional {α : Type} (read? : Value → Option α) : Option Value → Option (Option α)
  | none => some none
  | some value => (read? value).map some

/-- A field that has a default. -/
def withDefault {α : Type} (default : α) (read? : Value → Option α) (field : Option Value) :
    Option α :=
  (optional read? field).map (·.getD default)

end CommandMacros.Toml.Value

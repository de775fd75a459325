import CommandMacros.Settings
import CommandMacros.Toml.Decode

/-!
Settings written as a TOML record. A key that is missing has its default and unknown keys are
ignored.
-/

namespace CommandMacros.Settings

open Toml

/-- The settings of a record; nothing when a value is of the wrong kind. -/
def ofRecord? (record : Value) : Option Settings := do
  if !record.isRecord then none
  let defaults : Settings := {}
  let expand ← Value.withDefault defaults.expand Value.boolean? (record.field 0 "mexpand")
  let print ← Value.withDefault defaults.print Value.boolean? (record.field 1 "mprint")
  let iterateLimit ←
    Value.withDefault defaults.iterateLimit Value.natural? (record.field 2 "miterate")
  let nestLimit ← Value.withDefault defaults.nestLimit Value.natural? (record.field 3 "mnest")
  return { expand, print, iterateLimit, nestLimit }

/-- The settings of a whole TOML document. -/
def ofDocument? (document : String) : Option Settings := do
  ofRecord? (.table (← Toml.parse document))

end CommandMacros.Settings

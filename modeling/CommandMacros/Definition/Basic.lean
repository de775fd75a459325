import CommandMacros.Directive
import CommandMacros.Parameter

/-!
Macro definitions.
-/

namespace CommandMacros

/-- A macro: its name as written, the place of its `DEFINE`, its parameters, positional ones first,
and its compiled body. -/
structure Definition where
  name : String
  span : Span
  parameters : List Parameter
  body : List Directive

namespace Definition

/-- The name that definitions are told apart by. -/
def key (d : Definition) : String :=
  Text.upper d.name

def positionalCount (d : Definition) : Nat :=
  Parameters.positionalCount d.parameters

end Definition

end CommandMacros

import CommandMacros.Keyword
import CommandMacros.Number.Integer

/-!
Parameters of a macro. Positional parameters come first and are referred to by number, keyword
parameters by name.
-/

namespace CommandMacros

/-- How a parameter is matched in a call. -/
inductive Role where
  | positional
  /-- Passed as `name = value`. The stored name is in upper case, without a `!` in front of it. -/
  | keyword (name : String)
deriving DecidableEq, Repr

/-- Which tokens of a call become a parameter's value. -/
inductive Capture where
  /-- Exactly this many tokens. -/
  | tokens (count : Nat)
  /-- The tokens up to the delimiter, which is read but not captured. -/
  | charEnd (delimiter : Token)
  /-- An opening token, then the tokens up to the first closing one. -/
  | enclose (opening closing : Token)
  /-- Everything up to the end of the command. -/
  | commandEnd
deriving DecidableEq

structure Parameter where
  role : Role
  capture : Capture
  default : Option (List Token) := none
  /-- The value is never searched for macro calls. -/
  noExpand : Bool := false
deriving DecidableEq

namespace Parameter

def isPositional (p : Parameter) : Bool :=
  p.role == .positional

def keyword? (p : Parameter) : Option String :=
  match p.role with
  | .keyword name => some name
  | .positional => none

def defaultTokens (p : Parameter) : List Token :=
  p.default.getD []

end Parameter

namespace Parameters

def positionalCount (parameters : List Parameter) : Nat :=
  parameters.countP Parameter.isPositional

/-- The index of the keyword parameter called `name`, in any case. -/
def findKeyword? (parameters : List Parameter) (name : String) : Option Nat :=
  parameters.findIdx? fun p => p.keyword?.any (Text.sameIgnoringCase · name)

/-- The index of the parameter that a reference names: `!3` is the third positional one, `!name` a
keyword. -/
def find? (parameters : List Parameter) (reference : String) : Option Nat :=
  match reference.toList with
  | '!' :: name =>
    match Number.readUnsigned? name with
    | some n => if 1 ≤ n ∧ n ≤ positionalCount parameters then some (n - 1) else none
    | none => findKeyword? parameters (String.ofList name)
  | _ => none

end Parameters

end CommandMacros

import CommandMacros.Token.Basic

/-!
Tokens on their way through an expansion. Each is flagged with whether it may name a macro call;
text that has been computed or passed on as it is may not.
-/

namespace CommandMacros

/-- A token of an expansion, and whether it may name a macro call. -/
structure Emitted where
  token : Token
  expandable : Bool
deriving DecidableEq

namespace Emitted

/-- Tokens under one flag. -/
def ofTokens (expandable : Bool) (tokens : List Token) : List Emitted :=
  tokens.map fun token => ⟨token, expandable⟩

/-- Tokens that are never taken for calls. -/
def inert (tokens : List Token) : List Emitted :=
  ofTokens false tokens

end Emitted

end CommandMacros

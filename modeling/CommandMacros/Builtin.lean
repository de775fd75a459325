import CommandMacros.Keyword

/-!
The built-in functions of the macro language: their names and how many arguments they take.
-/

namespace CommandMacros

inductive Builtin where
  | blanks
  | concat
  | eval
  | head
  | index
  | length
  | null
  | quote
  | substr
  | tail
  | unquote
  | upcase
deriving DecidableEq, Repr

namespace Builtin

def all : List Builtin :=
  [blanks, concat, eval, head, index, length, null, quote, substr, tail, unquote, upcase]

def name : Builtin → String
  | blanks => "!BLANKS"
  | concat => "!CONCAT"
  | eval => "!EVAL"
  | head => "!HEAD"
  | index => "!INDEX"
  | length => "!LENGTH"
  | null => "!NULL"
  | quote => "!QUOTE"
  | substr => "!SUBSTR"
  | tail => "!TAIL"
  | unquote => "!UNQUOTE"
  | upcase => "!UPCASE"

/-- The function of a full or shortened name, in any case. The `!` is required. -/
def ofName? (text : String) : Option Builtin :=
  all.find? fun function => abbreviates text function.name

/-- The least and the greatest number of arguments, the latter `none` when there is no bound. -/
def arity : Builtin → Nat × Option Nat
  | null => (0, some 0)
  | concat => (1, none)
  | index => (2, some 2)
  | substr => (2, some 3)
  | _ => (1, some 1)

def accepts (function : Builtin) (count : Nat) : Bool :=
  Nat.ble function.arity.1 count && function.arity.2.all (Nat.ble count ·)

end Builtin

end CommandMacros

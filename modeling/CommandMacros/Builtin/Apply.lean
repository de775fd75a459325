import CommandMacros.Error
import CommandMacros.Number.Integer
import CommandMacros.Text.Search
import CommandMacros.Token.Render

/-!
The built-in functions on arguments already reduced to text. Missing arguments count as empty. Only
`!EVAL` needs more than its arguments: the expansion of its text is passed in.
-/

namespace CommandMacros.Builtin

/-- An integer argument: a sign and digits, with blanks around them, and quoted or not. -/
def integer? (text : String) : Option Int :=
  Number.readSigned? (Text.trimChars (Quoted.unquote text).toList)

/-- The greatest number of blanks that `!BLANKS` gives. There is taken to be memory for as many: the
failure `cannot allocate … blanks`, which depends on the host and not on the argument, has no place
here. -/
def maxBlanks : Int := 0x7fffffff

def blanksOf (text : String) : Except CallError String :=
  match integer? text with
  | some n =>
    if 0 ≤ n ∧ n ≤ maxBlanks then
      .ok (String.ofList (List.replicate n.toNat ' '))
    else
      .error (.notNonNegative text)
  | none => .error (.notNonNegative text)

/-- The first token of a text. -/
def headOf (text : String) : String :=
  ((tokenize (Quoted.unquote text)).head?.map Token.text).getD ""

/-- The tokens of a text after the first. -/
def tailOf (text : String) : String :=
  Token.render (tokenize (Quoted.unquote text)).tail

/-- The place of the first occurrence of `needle`, counting characters from 1, or 0. -/
def indexOf (text needle : String) : Nat :=
  match Text.indexOf? needle.toList text.toList with
  | some n => n + 1
  | none => 0

/-- Where a substring begins, counting from 1. -/
def substringStart (text : String) : Except CallError Nat :=
  match integer? text with
  | some n => if 1 ≤ n then .ok n.toNat else .error (.secondNotPositive text)
  | none => .error (.secondNotPositive text)

/-- The greatest length of a substring, if there is one. -/
def substringCount (text : Option String) : Except CallError (Option Nat) :=
  match text with
  | none => .ok none
  | some text =>
    match integer? text with
    | some n => if 0 ≤ n then .ok (some n.toNat) else .error (.thirdNotNonNegative text)
    | none => .error (.thirdNotNonNegative text)

def substring (text : String) (start : Nat) (count : Option Nat) : String :=
  let left := text.toList.drop (start - 1)
  match count with
  | some count => String.ofList (left.take count)
  | none => String.ofList left

/-- The result of a function other than `!EVAL`, which gives its argument back. -/
def compute (function : Builtin) (arguments : List String) : Except CallError String :=
  let argument (i : Nat) : String := arguments[i]?.getD ""
  match function with
  | .null => .ok ""
  | .blanks => blanksOf (argument 0)
  | .concat => .ok (String.join (arguments.map Quoted.unquote))
  | .eval => .ok (argument 0)
  | .head => .ok (headOf (argument 0))
  | .tail => .ok (tailOf (argument 0))
  | .index => .ok (indexOf (argument 0) (argument 1)).repr
  | .length => .ok (argument 0).length.repr
  | .quote => .ok (Quoted.quote (argument 0))
  | .unquote => .ok (Quoted.unquote (argument 0))
  | .upcase => .ok (Text.upper (Quoted.unquote (argument 0)))
  | .substr => do
    let start ← substringStart (argument 1)
    let count ← substringCount arguments[2]?
    return substring (argument 0) start count

/-- The result of a function, with `eval` as the expansion that `!EVAL` performs on a state. -/
def apply {σ : Type} (eval : String → σ → String × σ) (function : Builtin)
    (arguments : List String) (state : σ) : Except CallError String × σ :=
  match function with
  | .eval =>
    let (text, next) := eval (arguments[0]?.getD "") state
    (.ok text, next)
  | _ => (compute function arguments, state)

theorem apply_of_ne_eval {σ : Type} (eval : String → σ → String × σ) {function : Builtin}
    (h : function ≠ .eval) (arguments : List String) (state : σ) :
    apply eval function arguments state = (compute function arguments, state) := by
  unfold apply
  split
  · exact absurd rfl h
  · rfl

end CommandMacros.Builtin

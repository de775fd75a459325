import CommandMacros.Token.Lexeme

/-!
Scanning text into tokens. The scanner skips blanks and cuts one lexeme after the other off the
text, which gets shorter each time.
-/

namespace CommandMacros.Scan

/-- The number of bytes of the characters in UTF-8. -/
def byteLength : List Char → Nat
  | [] => 0
  | c :: cs => c.utf8Size + byteLength cs

/-- Whether a `-` after such a lexeme is an operator. -/
def Lexeme.isOperand (lexeme : Lexeme) : Bool :=
  match lexeme.kind with
  | .identifier => lexeme.taken.head? != some '!'
  | .number _ | .string _ | .punct .rightParen => true
  | _ => false

/-- The token of a lexeme that begins at byte `position`. -/
def Lexeme.toToken (lexeme : Lexeme) (position : Nat) : Token :=
  ⟨lexeme.kind, String.ofList lexeme.taken, ⟨position, position + byteLength lexeme.taken⟩⟩

/-- The tokens of the characters, the first of which stands at byte `position`. -/
def scan (position : Nat) (afterOperand : Bool) (cs : List Char) : List Token :=
  match cs with
  | [] => []
  | c :: cs =>
    if Text.isBlank c then
      scan (position + c.utf8Size) afterOperand cs
    else
      let next := lexeme afterOperand c cs
      next.toToken position :: scan (position + byteLength next.taken) next.isOperand next.rest
termination_by cs.length
decreasing_by
  · simp
  · exact lexeme_rest_length_lt afterOperand c _

end CommandMacros.Scan

namespace CommandMacros

/-- The tokens of a text. -/
def tokenize (text : String) : List Token :=
  Scan.scan 0 false text.toList

/-- The tokens of a computed text, whose characters have no place in the source: all of them get
the given one. -/
def tokenizeAt (text : String) (span : Span) : List Token :=
  (tokenize text).map fun t => { t with span }

end CommandMacros

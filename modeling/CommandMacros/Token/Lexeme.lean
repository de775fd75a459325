import CommandMacros.Number.Decimal
import CommandMacros.Text.Alphabetic
import CommandMacros.Text.Blank
import CommandMacros.Text.Numeric
import CommandMacros.Token.Basic
import CommandMacros.Token.Quoted

/-!
The lexemes of command syntax: names, numbers, quoted strings, punctuators and the end of a
command. Each function cuts one lexeme off a text, and what it cuts off and what is left always make
up the text again.
-/

namespace CommandMacros.Scan

def isNameStart (c : Char) : Bool :=
  Text.isAlphabetic c || c == '@' || c == '#' || c == '$'

def isNameChar (c : Char) : Bool :=
  Text.isAlphabetic c || Text.isNumeric c || c == '_' || c == '.' || c == '@' || c == '#' ||
    c == '$'

/-- A lexeme: its kind, its characters, and the characters left after it. -/
structure Lexeme where
  kind : TokenKind
  taken : List Char
  rest : List Char

/-- What follows an opening delimiter: the value of the string if it is closed on its line, the
characters read, and those left. -/
def quotedRun (delimiter : Char) : List Char → Option (List Char) × List Char × List Char
  | [] => (none, [], [])
  | [c] =>
    if c = '\n' then (none, [], [c])
    else if c = delimiter then (some [], [c], [])
    else (none, [c], [])
  | c :: d :: rest =>
    if c = '\n' then
      (none, [], c :: d :: rest)
    else if c = delimiter then
      if d = delimiter then
        let (value, taken, left) := quotedRun delimiter rest
        (value.map (delimiter :: ·), c :: d :: taken, left)
      else
        (some [], [c], d :: rest)
    else
      let (value, taken, left) := quotedRun delimiter (d :: rest)
      (value.map (c :: ·), c :: taken, left)

def unterminatedMessage : String := "unterminated string constant"

/-- A string whose opening delimiter is given. -/
def scanQuoted (delimiter : Char) (cs : List Char) : Lexeme :=
  match quotedRun delimiter cs with
  | (some value, taken, rest) => ⟨.string (String.ofList value), delimiter :: taken, rest⟩
  | (none, taken, rest) => ⟨.error unterminatedMessage, delimiter :: taken, rest⟩

/-- The digits in front and what follows them. -/
def digitRun (cs : List Char) : List Char × List Char :=
  (cs.takeWhile Char.isDigit, cs.dropWhile Char.isDigit)

/-- A point with digits after it: the digits, and the characters left. -/
def fractionPart (cs : List Char) : List Char × List Char :=
  match cs with
  | '.' :: rest =>
    if (digitRun rest).1 = [] then ([], cs) else digitRun rest
  | _ => ([], cs)

/-- How the digits after a point are written, with the point. -/
def fractionText (digits : List Char) : List Char :=
  if digits = [] then [] else '.' :: digits

/-- The sign of an exponent, if there is one, and what follows. -/
def exponentSign (cs : List Char) : List Char × List Char :=
  match cs with
  | c :: rest => if c = '+' ∨ c = '-' then ([c], rest) else ([], cs)
  | [] => ([], cs)

/-- An exponent as it is written: mark, sign and digits, and the characters left. It needs at least
one digit. -/
def exponentPart (cs : List Char) : (List Char × List Char × List Char) × List Char :=
  match cs with
  | c :: rest =>
    let (sign, afterSign) := exponentSign rest
    let (digits, left) := digitRun afterSign
    if (c = 'e' ∨ c = 'E') ∧ digits ≠ [] then (([c], sign, digits), left) else (([], [], []), cs)
  | [] => (([], [], []), cs)

/-- A number from its first digit or its point on, after the sign `sign`. -/
def scanNumber (sign : List Char) (cs : List Char) : Lexeme :=
  let (whole, afterWhole) := digitRun cs
  let (fraction, afterFraction) := fractionPart afterWhole
  let ((mark, exponentSign, exponent), rest) := exponentPart afterFraction
  let numeral : Number.Numeral :=
    { negative := sign == ['-']
      whole
      fraction
      exponentNegative := exponentSign == ['-']
      exponent }
  let taken := sign ++ whole ++ fractionText fraction ++ mark ++ exponentSign ++ exponent
  ⟨.number numeral.value, taken, rest⟩

/-- A run of characters without the dots at its end, and these dots. -/
def splitTrailingDots (cs : List Char) : List Char × List Char :=
  ((cs.reverse.dropWhile (· == '.')).reverse, cs.reverse.takeWhile (· == '.'))

/-- An identifier whose first character is given. Dots at its end are left: the last of them may
end the command. -/
def scanName (c : Char) (cs : List Char) : Lexeme :=
  let (name, dots) := splitTrailingDots (cs.takeWhile isNameChar)
  ⟨.identifier, c :: name, dots ++ cs.dropWhile isNameChar⟩

def badCharacterMessage (c : Char) : String :=
  "bad character `" ++ c.toString ++ "` in input"

def scanSingle (c : Char) (cs : List Char) : Lexeme :=
  match Punct.ofChar? c with
  | some p => ⟨.punct p, [c], cs⟩
  | none => ⟨.error (badCharacterMessage c), [c], cs⟩

/-- An operator of two characters if there is one, else a single punctuator. -/
def scanPunct (c : Char) (cs : List Char) : Lexeme :=
  match cs with
  | d :: rest =>
    match Punct.ofPair? c d with
    | some p => ⟨.punct p, [c, d], rest⟩
    | none => scanSingle c cs
  | [] => scanSingle c cs

def startsWith (p : Char → Bool) (cs : List Char) : Bool :=
  cs.head?.any p

/-- A point that begins no number ends the command if a blank or nothing follows. -/
def scanPoint (cs : List Char) : Lexeme :=
  ⟨if cs.isEmpty || startsWith Text.isBlank cs then .endCommand else .punct .dot, ['.'], cs⟩

/-- The lexeme that begins with `c` and goes on into `cs`. After an operand a `-` is an operator,
elsewhere it may be the sign of a number. -/
def lexeme (afterOperand : Bool) (c : Char) (cs : List Char) : Lexeme :=
  if Quoted.isDelimiter c then
    scanQuoted c cs
  else if c.isDigit then
    scanNumber [] (c :: cs)
  else if c = '.' then
    if startsWith Char.isDigit cs then scanNumber [] (c :: cs) else scanPoint cs
  else if c = '-' ∧ afterOperand = false ∧ startsWith Char.isDigit cs = true then
    scanNumber ['-'] cs
  else if c = '!' ∧ startsWith isNameChar cs = true then
    scanName c cs
  else if isNameStart c then
    scanName c cs
  else
    scanPunct c cs

/-! ### Nothing is lost -/

theorem quotedRun_append (delimiter : Char) (cs : List Char) :
    (quotedRun delimiter cs).2.1 ++ (quotedRun delimiter cs).2.2 = cs := by
  fun_induction quotedRun delimiter cs <;> simp_all

theorem digitRun_append (cs : List Char) : (digitRun cs).1 ++ (digitRun cs).2 = cs := by
  simp [digitRun]

theorem fractionPart_append (cs : List Char) :
    fractionText (fractionPart cs).1 ++ (fractionPart cs).2 = cs := by
  unfold fractionPart
  split
  · next rest =>
      have h := digitRun_append rest
      split
      · simp [fractionText]
      · next hne => simp [fractionText, hne, h]
  · simp [fractionText]

theorem exponentSign_append (cs : List Char) : (exponentSign cs).1 ++ (exponentSign cs).2 = cs := by
  unfold exponentSign
  split
  · split <;> simp
  · rfl

theorem exponentPart_append (cs : List Char) :
    (exponentPart cs).1.1 ++ (exponentPart cs).1.2.1 ++ (exponentPart cs).1.2.2 ++
      (exponentPart cs).2 = cs := by
  unfold exponentPart
  split
  · next c rest =>
      have hsign := exponentSign_append rest
      have hdigits := digitRun_append (exponentSign rest).2
      dsimp only
      split
      · simp [hdigits, hsign]
      · simp
  · simp

theorem scanNumber_append (sign cs : List Char) :
    (scanNumber sign cs).taken ++ (scanNumber sign cs).rest = sign ++ cs := by
  have hwhole := digitRun_append cs
  have hfraction := fractionPart_append (digitRun cs).2
  have hexponent := exponentPart_append (fractionPart (digitRun cs).2).2
  simp only [scanNumber]
  simp only [List.append_assoc] at hexponent ⊢
  rw [hexponent, hfraction, hwhole]

theorem splitTrailingDots_append (cs : List Char) :
    (splitTrailingDots cs).1 ++ (splitTrailingDots cs).2 = cs := by
  have hdots : (cs.reverse.takeWhile (· == '.')).reverse = cs.reverse.takeWhile (· == '.') := by
    have hall := List.all_takeWhile (p := (· == '.')) (l := cs.reverse)
    have hrep : cs.reverse.takeWhile (· == '.') =
        List.replicate (cs.reverse.takeWhile (· == '.')).length '.' := by
      rw [List.eq_replicate_iff]
      refine ⟨rfl, fun b hb => ?_⟩
      have := List.all_eq_true.mp hall b hb
      simpa using this
    rw [hrep, List.reverse_replicate]
  simp only [splitTrailingDots]
  rw [← hdots, ← List.reverse_append, List.takeWhile_append_dropWhile, List.reverse_reverse]

theorem scanName_append (c : Char) (cs : List Char) :
    (scanName c cs).taken ++ (scanName c cs).rest = c :: cs := by
  have h := splitTrailingDots_append (cs.takeWhile isNameChar)
  simp only [scanName, List.cons_append, ← List.append_assoc, h, List.takeWhile_append_dropWhile]

theorem scanSingle_append (c : Char) (cs : List Char) :
    (scanSingle c cs).taken ++ (scanSingle c cs).rest = c :: cs := by
  unfold scanSingle
  split <;> simp

theorem scanPunct_append (c : Char) (cs : List Char) :
    (scanPunct c cs).taken ++ (scanPunct c cs).rest = c :: cs := by
  unfold scanPunct
  split
  · split
    · simp
    · exact scanSingle_append _ _
  · exact scanSingle_append _ _

/-- A lexeme and the characters left after it are the characters it was cut from. -/
theorem lexeme_append (afterOperand : Bool) (c : Char) (cs : List Char) :
    (lexeme afterOperand c cs).taken ++ (lexeme afterOperand c cs).rest = c :: cs := by
  unfold lexeme
  split
  · have h := quotedRun_append c cs
    unfold scanQuoted
    split <;> simp_all
  split
  · simpa using scanNumber_append [] (c :: cs)
  split
  · split
    · simpa using scanNumber_append [] (c :: cs)
    · simp_all [scanPoint]
  split
  · next h => simpa [h.1] using scanNumber_append ['-'] cs
  split
  · exact scanName_append c cs
  split
  · exact scanName_append c cs
  · exact scanPunct_append c cs

theorem digitRun_ne_nil {cs : List Char} (h : startsWith Char.isDigit cs = true) :
    (digitRun cs).1 ≠ [] := by
  cases cs with
  | nil => simp [startsWith] at h
  | cons c cs =>
      simp only [startsWith, List.head?_cons, Option.any_some] at h
      simp [digitRun, h]

theorem scanNumber_taken_ne_nil {c : Char} {cs : List Char}
    (h : c.isDigit = true ∨ (c = '.' ∧ startsWith Char.isDigit cs = true)) :
    (scanNumber [] (c :: cs)).taken ≠ [] := by
  rcases h with h | ⟨rfl, h⟩
  · have hrun : (digitRun (c :: cs)).1 ≠ [] := digitRun_ne_nil (by simpa [startsWith] using h)
    simp [scanNumber, hrun]
  · have hrun := digitRun_ne_nil h
    have hwhole : digitRun ('.' :: cs) = ([], '.' :: cs) := by simp [digitRun]
    simp [scanNumber, hwhole, fractionPart, hrun, fractionText]

/-- Every lexeme has at least one character. -/
theorem lexeme_taken_ne_nil (afterOperand : Bool) (c : Char) (cs : List Char) :
    (lexeme afterOperand c cs).taken ≠ [] := by
  unfold lexeme
  split
  · unfold scanQuoted
    split <;> simp
  split
  · next h => exact scanNumber_taken_ne_nil (.inl h)
  split
  · next hpoint =>
      split
      · next h => exact scanNumber_taken_ne_nil (.inr ⟨hpoint, h⟩)
      · simp [scanPoint]
  split
  · simp [scanNumber]
  split
  · simp [scanName]
  split
  · simp [scanName]
  · unfold scanPunct scanSingle
    split
    · split
      · simp
      · split <;> simp
    · split <;> simp

theorem lexeme_rest_length_lt (afterOperand : Bool) (c : Char) (cs : List Char) :
    (lexeme afterOperand c cs).rest.length < (c :: cs).length := by
  have happend := congrArg List.length (lexeme_append afterOperand c cs)
  have htaken := List.length_pos_iff.mpr (lexeme_taken_ne_nil afterOperand c cs)
  rw [List.length_append] at happend
  omega

end CommandMacros.Scan

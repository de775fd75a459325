import CommandMacros.Number.Integer
import CommandMacros.Toml.DateTime
import CommandMacros.Toml.Value

/-!
Reading TOML keys and values without parts from the front of a text. A reader gives what it has read
and the characters left, or nothing when the text is not well formed.
-/

namespace CommandMacros.Toml

def isSpace (c : Char) : Bool :=
  c == ' ' || c == '\t'

def skipSpaces (cs : List Char) : List Char :=
  cs.dropWhile isSpace

/-- Characters allowed in strings and comments. -/
def isPlain (c : Char) : Bool :=
  (Nat.ble 0x20 c.toNat && c.toNat != 0x7f) || c == '\t'

/-- What follows a line break in front. -/
def newline? : List Char → Option (List Char)
  | '\n' :: rest => some rest
  | '\r' :: '\n' :: rest => some rest
  | _ => none

/-- Skips blanks, line breaks and comments. -/
def skipTrivia (inComment : Bool) : List Char → List Char
  | [] => []
  | c :: rest =>
    if c = '\n' then skipTrivia false rest
    else if c = '\r' ∧ rest.head? = some '\n' then skipTrivia false rest
    else if inComment then if isPlain c then skipTrivia true rest else c :: rest
    else if isSpace c then skipTrivia false rest
    else if c = '#' then skipTrivia true rest
    else c :: rest

/-- Whether nothing but blanks and a comment is left on the line. -/
def lineEnds (cs : List Char) : Bool :=
  let left := skipSpaces cs
  left.isEmpty || left.head? == some '#' || (newline? left).isSome

def hexValue? (c : Char) : Option Nat :=
  if c.isDigit then some (c.toNat - '0'.toNat)
  else if 'a' ≤ c ∧ c ≤ 'f' then some (c.toNat - 'a'.toNat + 10)
  else if 'A' ≤ c ∧ c ≤ 'F' then some (c.toNat - 'A'.toNat + 10)
  else none

/-- The character whose number is written with `count` hexadecimal digits. -/
def codePoint? (count : Nat) (cs : List Char) : Option Char := do
  let digits := cs.take count
  if digits.length < count then none
  let n ← digits.foldlM (fun n c => (hexValue? c).map (16 * n + ·)) 0
  if n.isValidChar then some (Char.ofNat n) else none

/-- The character that an escape after `\` stands for, and how many characters the escape has. -/
def escape? : List Char → Option (Char × Nat)
  | 'b' :: _ => some ('\x08', 1)
  | 't' :: _ => some ('\t', 1)
  | 'n' :: _ => some ('\n', 1)
  | 'f' :: _ => some ('\x0c', 1)
  | 'r' :: _ => some ('\r', 1)
  | '\x22' :: _ => some ('\x22', 1)
  | '\\' :: _ => some ('\\', 1)
  | 'u' :: rest => (codePoint? 4 rest).map fun c => (c, 5)
  | 'U' :: rest => (codePoint? 8 rest).map fun c => (c, 9)
  | _ => none

/-- A basic string after its opening quotation mark. -/
def basicString? : List Char → Option (List Char × List Char)
  | [] => none
  | c :: rest =>
    if c = '\x22' then
      some ([], rest)
    else if c = '\\' then do
      let (char, count) ← escape? rest
      let (value, left) ← basicString? (rest.drop count)
      return (char :: value, left)
    else if isPlain c then do
      let (value, left) ← basicString? rest
      return (c :: value, left)
    else
      none
termination_by cs => cs.length
decreasing_by
  all_goals
    simp only [List.length_drop, List.length_cons]
    omega

/-- A literal string after its opening apostrophe. -/
def literalString? : List Char → Option (List Char × List Char)
  | [] => none
  | c :: rest =>
    if c = '\x27' then
      some ([], rest)
    else if isPlain c then do
      let (value, left) ← literalString? rest
      return (c :: value, left)
    else
      none

/-- The end of a string of several lines: three delimiters, before which up to two more belong to
the string. -/
def closing? (delimiter : Char) (cs : List Char) : Option (List Char × List Char) :=
  let run := min (cs.takeWhile (· == delimiter)).length 5
  if 3 ≤ run then
    some (List.replicate (run - 3) delimiter, cs.drop run)
  else
    none

def skipBlankLines : List Char → List Char
  | [] => []
  | c :: rest =>
    if isSpace c || c == '\n' || (c == '\r' && rest.head? == some '\n') then
      skipBlankLines rest
    else
      c :: rest

/-- A backslash at the end of a line drops the line break and the blanks after it. -/
def lineContinuation? (cs : List Char) : Option (List Char) :=
  (newline? (skipSpaces cs)).map skipBlankLines

/-- A basic or literal string of several lines, after its opening delimiters. -/
def multilineString? (delimiter : Char) : (fuel : Nat) → List Char →
    Option (List Char × List Char)
  | 0, _ => none
  | _, [] => none
  | fuel + 1, c :: rest =>
    match closing? delimiter (c :: rest) with
    | some result => some result
    | none => do
      let (piece, after) ←
        if c = '\\' ∧ delimiter = '\x22' then
          match lineContinuation? rest with
          | some after => some ([], after)
          | none => (escape? rest).map fun (char, count) => ([char], rest.drop count)
        else
          match newline? (c :: rest) with
          | some after => some (['\n'], after)
          | none => if isPlain c then some ([c], rest) else none
      let (value, left) ← multilineString? delimiter fuel after
      return (piece ++ value, left)

/-- A string, with its delimiters. -/
def string? (cs : List Char) : Option (String × List Char) := do
  let multiline := fun (delimiter : Char) (rest : List Char) =>
    multilineString? delimiter (rest.length + 1) ((newline? rest).getD rest)
  let (value, left) ←
    match cs with
    | '\x22' :: '\x22' :: '\x22' :: rest => multiline '\x22' rest
    | '\x27' :: '\x27' :: '\x27' :: rest => multiline '\x27' rest
    | '\x22' :: rest => basicString? rest
    | '\x27' :: rest => literalString? rest
    | _ => none
  return (String.ofList value, left)

/-! ### Keys -/

def isBareKeyChar (c : Char) : Bool :=
  c.isAlphanum || c == '_' || c == '-'

/-- A bare or quoted part of a key. Strings of several lines are no keys. -/
def keyPart? (cs : List Char) : Option (String × List Char) :=
  match cs with
  | '\x22' :: rest => (basicString? rest).map fun (value, left) => (String.ofList value, left)
  | '\x27' :: rest => (literalString? rest).map fun (value, left) => (String.ofList value, left)
  | _ =>
    let bare := cs.takeWhile isBareKeyChar
    if bare.isEmpty then none else some (String.ofList bare, cs.dropWhile isBareKeyChar)

/-- How deep a document may go at one place: the greatest number of parts of a key, and of arrays
and inline tables inside one another. -/
def depthLimit : Nat := 79

/-- Up to `room` parts of a key, with dots between them. -/
def keyParts? : (room : Nat) → List Char → Option (List String × List Char)
  | 0, _ => none
  | room + 1, cs => do
    let (part, afterPart) ← keyPart? (skipSpaces cs)
    match skipSpaces afterPart with
    | '.' :: rest =>
      let (others, left) ← keyParts? room rest
      return (part :: others, left)
    | left => return ([part], left)

def key? (cs : List Char) : Option (List String × List Char) :=
  keyParts? depthLimit cs

/-! ### Numbers and words -/

def isWordChar (c : Char) : Bool :=
  c.isAlphanum || c == '_' || c == '+' || c == '-' || c == '.'

/-- Digits with single underscores between them, without these. -/
def digits? (isDigit : Char → Bool) (cs : List Char) : Option (List Char) :=
  let digits := cs.filter (· != '_')
  let spaced := cs.zip cs.tail
  if digits ≠ [] ∧ digits.all isDigit = true ∧ cs.head? ≠ some '_' ∧ cs.getLast? ≠ some '_' ∧
      spaced.all (fun (a, b) => a != '_' || b != '_') = true then
    some digits
  else
    none

/-- Decimal digits without superfluous zeros in front. -/
def decimalDigits? (cs : List Char) : Option (List Char) :=
  (digits? Char.isDigit cs).filter fun digits => digits.head? != some '0' || digits.length == 1

def radixValue? (radix : Nat) (cs : List Char) : Option Nat := do
  let digits ← digits? (fun c => (hexValue? c).any (· < radix)) cs
  digits.foldlM (fun n c => (hexValue? c).map (radix * n + ·)) 0

/-- The sign in front, and the rest. -/
def splitSign (cs : List Char) : Bool × List Char :=
  match cs with
  | '-' :: rest => (true, rest)
  | '+' :: rest => (false, rest)
  | _ => (false, cs)

/-- A whole number in the range of a machine word. -/
def integer? (cs : List Char) : Option Int := do
  let n : Int ←
    match cs with
    | '0' :: 'x' :: rest => (radixValue? 16 rest).map Int.ofNat
    | '0' :: 'o' :: rest => (radixValue? 8 rest).map Int.ofNat
    | '0' :: 'b' :: rest => (radixValue? 2 rest).map Int.ofNat
    | _ =>
      let (negative, rest) := splitSign cs
      (decimalDigits? rest).map fun digits =>
        let n : Int := Number.digitsValue digits
        if negative then -n else n
  if -(Number.wordBound : Int) ≤ n ∧ n < Number.wordBound then some n else none

/-- The digits after a mark in front, or none where nothing follows. -/
def markedDigits? : List Char → Option (List Char)
  | [] => some []
  | _ :: rest => digits? Char.isDigit rest

/-- A number with an optional fraction and an optional exponent. -/
def numeral? (cs : List Char) : Option Number.Numeral := do
  let isMark := fun c => c == 'e' || c == 'E'
  let (negative, rest) := splitSign cs
  let mantissa := rest.takeWhile (!isMark ·)
  let whole ← decimalDigits? (mantissa.takeWhile (· != '.'))
  let fraction ← markedDigits? (mantissa.dropWhile (· != '.'))
  match rest.dropWhile (!isMark ·) with
  | [] => return ⟨negative, whole, fraction, false, []⟩
  | _ :: written =>
    let (exponentNegative, digits) := splitSign written
    return ⟨negative, whole, fraction, exponentNegative, ← digits? Char.isDigit digits⟩

/-- Whether a number is too great for a double. -/
def overflows (numeral : Number.Numeral) : Bool :=
  match Number.decode numeral.value with
  | .infinite negative => !negative
  | _ => false

/-- Whether the characters are a number with a fraction or an exponent, or a special value. -/
def isFloat (cs : List Char) : Bool :=
  let (_, unsigned) := splitSign cs
  unsigned == "inf".toList || unsigned == "nan".toList ||
    (numeral? cs).any fun numeral =>
      !(numeral.fraction.isEmpty && numeral.exponent.isEmpty) && !overflows numeral

/-- The value of a truth value or a number. -/
def word? (cs : List Char) : Option Value :=
  if cs = "true".toList then some (.boolean true)
  else if cs = "false".toList then some (.boolean false)
  else
    match integer? cs with
    | some n => some (.integer n)
    | none => if isFloat cs then some .float else none

/-- A value that has no parts. -/
def scalar? (cs : List Char) : Option (Value × List Char) :=
  match cs with
  | '\x22' :: _ | '\x27' :: _ => (string? cs).map fun (text, left) => (.text text, left)
  | _ =>
    match dateTime? cs with
    | some left => some (.dateTime, left)
    | none => (word? (cs.takeWhile isWordChar)).map fun v => (v, cs.dropWhile isWordChar)

end CommandMacros.Toml

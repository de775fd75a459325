import CommandMacros.Text.Blank

/-!
Quoted strings: text between two apostrophes or two quotation marks, in which the delimiter itself
is written twice.
-/

namespace CommandMacros.Quoted

def apostrophe : Char := '\x27'

def quotationMark : Char := '\x22'

def isDelimiter (c : Char) : Bool :=
  c == apostrophe || c == quotationMark

/-- The value of what follows an opening delimiter, when the closing one is the last character. -/
def closeAtEnd? (delimiter : Char) : List Char → Option (List Char)
  | [] => none
  | [c] => if c = delimiter then some [] else none
  | c :: d :: rest =>
    if c = delimiter then
      if d = delimiter then (closeAtEnd? delimiter rest).map (delimiter :: ·) else none
    else
      (closeAtEnd? delimiter (d :: rest)).map (c :: ·)

/-- The value of characters that are one quoted string with nothing but blanks around it. -/
def unquoteChars? (cs : List Char) : Option (List Char) :=
  match Text.trimChars cs with
  | [] => none
  | c :: rest => if isDelimiter c then closeAtEnd? c rest else none

/-- Whether a quoted string, or blanks before it, can begin with the character. -/
def canOpen (c : Char) : Bool :=
  Text.isBlank c || isDelimiter c

/-- The value of a text that is one quoted string with nothing but blanks around it. The first
character already rules out most other texts. -/
def tryUnquote (text : String) : Option String :=
  if text.front?.any canOpen then
    (unquoteChars? text.toList).map String.ofList
  else
    none

theorem unquoteChars?_of_not_canOpen {cs : List Char} (h : cs.head?.any canOpen = false) :
    unquoteChars? cs = none := by
  cases cs with
  | nil => rfl
  | cons c rest =>
      have hboth : Text.isBlank c = false ∧ isDelimiter c = false := by
        rwa [List.head?_cons, Option.any_some, canOpen, Bool.or_eq_false_iff] at h
      rw [unquoteChars?, Text.trimChars_cons rest hboth.1]
      exact if_neg (Bool.eq_false_iff.mp hboth.2)

/-- The look at the first character changes nothing. -/
theorem tryUnquote_eq (text : String) :
    tryUnquote text = (unquoteChars? text.toList).map String.ofList := by
  rw [tryUnquote, String.front?_eq]
  cases h : text.toList.head?.any canOpen with
  | true => rfl
  | false => rw [unquoteChars?_of_not_canOpen h]; rfl

/-- The value of a quoted string, and any other text as it is. -/
def unquote (text : String) : String :=
  (tryUnquote text).getD text

/-- The characters with every apostrophe written twice. -/
def doubled (cs : List Char) : List Char :=
  cs.flatMap fun c => if c = apostrophe then [apostrophe, apostrophe] else [c]

/-- The text between apostrophes, unless it is a quoted string already. -/
def quote (text : String) : String :=
  if (tryUnquote text).isSome then
    text
  else
    String.ofList (apostrophe :: (doubled text.toList ++ [apostrophe]))

end CommandMacros.Quoted

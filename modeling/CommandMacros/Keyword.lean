import CommandMacros.Token.Scan

/-!
Keywords of the macro language. Directive keywords and function names may be shortened to their
first four characters, counting the `!`; a list of reserved words cannot name a parameter or a
variable.
-/

namespace CommandMacros

/-- Whether the characters begin with others, up to the case of ASCII letters. -/
def beginsWith (cs front : List Char) : Bool :=
  (Text.asciiUpperChars front).isPrefixOf (Text.asciiUpperChars cs)

/-- Whether `text` is `keyword` or a shortened form of it: at least its first four bytes, or all of
a shorter one, in any case. -/
def abbreviates (text keyword : String) : Bool :=
  Nat.ble (min 4 (Scan.byteLength keyword.toList)) (Scan.byteLength text.toList) &&
    beginsWith keyword.toList text.toList

/-- Whether the token is an identifier that spells the keyword or a shortened form of it. -/
def Token.abbreviates (t : Token) (keyword : String) : Bool :=
  t.isIdentifier && CommandMacros.abbreviates t.text keyword

/-- The text without a `!` in front. -/
def unmarked (text : String) : String :=
  match text.toList with
  | '!' :: rest => String.ofList rest
  | _ => text

/-- The words that cannot name a keyword parameter or a variable. -/
def reservedWords : List String :=
  ["BREAK", "CHAREND", "CMDEND", "DEFAULT", "DO", "DOEND", "ELSE", "ENCLOSE", "ENDDEFINE", "IF",
    "IFEND", "IN", "LET", "NOEXPAND", "OFFEXPAND", "ONEXPAND", "POSITIONAL", "THEN", "TOKENS"]

/-- Whether a word is reserved, with or without a leading `!`. -/
def isReserved (word : String) : Bool :=
  reservedWords.any fun reserved => Text.sameIgnoringCase reserved (unmarked word)

end CommandMacros

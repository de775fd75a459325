/-!
Lines and columns of byte offsets. A line ends with its line feed; lines and columns count from 1,
columns in characters.
-/

namespace CommandMacros.Text

/-- The longest front of at most `bytes` bytes. -/
def takeBytes : (bytes : Nat) → List Char → List Char
  | _, [] => []
  | bytes, c :: cs =>
    if c.utf8Size ≤ bytes then c :: takeBytes (bytes - c.utf8Size) cs else []

/-- The line of a byte offset. Offsets past the end are on the last line. -/
def lineAt (source : String) (offset : Nat) : Nat :=
  (takeBytes offset source.toList).count '\n' + 1

/-- The column of a byte offset. -/
def columnAt (source : String) (offset : Nat) : Nat :=
  ((takeBytes offset source.toList).reverse.takeWhile (· != '\n')).length + 1

end CommandMacros.Text

import CommandMacros.Text.Search

/-!
The frontmatter of a test file: a configuration between two delimiters, followed by the syntax under
test. Byte order marks in front of the first delimiter are ignored, and the line breaks after the
delimiters and before the second one belong to neither part.
-/

namespace CommandMacros.TestCase

/-- Why a test file cannot be read as a test case. -/
inductive FrontmatterError where
  | missingOpening
  | missingClosing
  /-- The configuration is not well formed, or a value in it is of the wrong kind. -/
  | badConfiguration
deriving DecidableEq, Repr

def FrontmatterError.message : FrontmatterError → String
  | missingOpening => "missing opening --- frontmatter delimiter"
  | missingClosing => "missing closing --- frontmatter delimiter"
  | badConfiguration => "TOML parse error"

/-- The frontmatter of a file and the text after it. -/
structure Split where
  frontmatter : List Char
  source : List Char
deriving DecidableEq, Repr

namespace Split

def delimiter : List Char := ['-', '-', '-']

def isByteOrderMark (c : Char) : Bool :=
  c == '\ufeff'

/-- The text without one line break in front. -/
def dropLineBreak : List Char → List Char
  | '\r' :: '\n' :: rest => rest
  | '\n' :: rest => rest
  | cs => cs

/-- The text without the carriage returns at its end. -/
def dropReturns (cs : List Char) : List Char :=
  (cs.reverse.dropWhile (· == '\r')).reverse

/-- Splits the text after the opening delimiter at the first closing one. -/
def atClosing (body : List Char) : Except FrontmatterError Split :=
  match Text.stripFront? delimiter body with
  | some rest => .ok ⟨[], dropLineBreak rest⟩
  | none =>
    let closing := '\n' :: delimiter
    match Text.indexOf? closing body with
    | some index =>
      .ok ⟨dropReturns (body.take index), dropLineBreak (body.drop (index + closing.length))⟩
    | none => .error .missingClosing

def ofContent (content : List Char) : Except FrontmatterError Split :=
  match Text.stripFront? delimiter (content.dropWhile isByteOrderMark) with
  | some rest => atClosing (dropLineBreak rest)
  | none => .error .missingOpening

end Split

end CommandMacros.TestCase

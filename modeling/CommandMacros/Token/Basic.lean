import CommandMacros.Number.Double
import CommandMacros.Text.Case
import CommandMacros.Token.Punct

/-!
Tokens of command syntax. A token has a kind, the text it was spelled with, and the place in the
source it came from. Two tokens are the same when kind and value agree: the place is ignored, and
identifiers are compared in upper case.
-/

namespace CommandMacros

/-- A range of bytes of a source text. -/
structure Span where
  start : Nat
  stop : Nat
deriving DecidableEq, Repr, Inhabited

namespace Span

/-- The empty range at one place. -/
def point (n : Nat) : Span := ⟨n, n⟩

/-- The empty range where `span` ends. -/
def after (span : Span) : Span := point span.stop

/-- The range from the start of one span to the end of another. -/
def through (first last : Span) : Span := ⟨first.start, max first.start last.stop⟩

end Span

inductive TokenKind where
  | identifier
  | number (value : Float)
  /-- A quoted string, with its unquoted value. -/
  | string (value : String)
  | punct (punct : Punct)
  /-- The end of a command. -/
  | endCommand
  /-- A place where scanning or expansion failed. -/
  | error (message : String)
deriving DecidableEq

structure Token where
  kind : TokenKind
  text : String
  span : Span
deriving DecidableEq

namespace Token

/-- The text of the marker that stands for a result which could not be produced. -/
def markerText : String := "!ERROR"

def errorMarker (message : String) (span : Span) : Token :=
  ⟨.error message, markerText, span⟩

def isEnd (t : Token) : Bool :=
  t.kind matches .endCommand

def isIdentifier (t : Token) : Bool :=
  t.kind matches .identifier

def isError (t : Token) : Bool :=
  t.kind matches .error _

def isPunct (t : Token) (p : Punct) : Bool :=
  t.kind == .punct p

/-- Whether the text begins with `!`. -/
def isMarked (text : String) : Bool :=
  text.front? == some '!'

/-- Identifiers that begin with `!` and have more than that: the names of the macro language. -/
def isMacroId (t : Token) : Bool :=
  t.isIdentifier && isMarked t.text && Nat.blt 1 t.text.length

/-- Whether the token is an identifier that spells the keyword in any case. -/
def matchesKeyword (t : Token) (keyword : String) : Bool :=
  t.isIdentifier && Text.sameIgnoringCase t.text keyword

def number? (t : Token) : Option Float :=
  match t.kind with
  | .number value => some value
  | _ => none

/-- The value of a number token that is a whole number. -/
def integer? (t : Token) : Option Int :=
  t.number?.bind Number.wholeValue?

def string? (t : Token) : Option String :=
  match t.kind with
  | .string value => some value
  | _ => none

/-- Words are kept apart by a space when they are written next to each other. -/
def isWord (t : Token) : Bool :=
  match t.kind with
  | .identifier | .number _ | .string _ | .error _ => true
  | .punct _ | .endCommand => false

/-- Whether two tokens are the same, wherever they stand. -/
def same (a b : Token) : Bool :=
  match a.kind, b.kind with
  | .identifier, .identifier => Text.upper a.text == Text.upper b.text
  | .number x, .number y => x == y
  | .string s, .string t => s == t
  | .punct p, .punct q => p == q
  | .endCommand, .endCommand => true
  | .error m, .error n => m == n
  | _, _ => false

end Token

end CommandMacros

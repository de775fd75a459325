/-!
Operators and punctuators of command syntax. Word operators such as `EQ` and `AND` are identifiers
and are not listed here.
-/

namespace CommandMacros

inductive Punct where
  | plus
  | dash
  | asterisk
  | slash
  | equals
  | leftParen
  | rightParen
  | leftSquare
  | rightSquare
  | leftCurly
  | rightCurly
  | comma
  | semicolon
  | colon
  | and
  | or
  | not
  | notEqual
  | greaterEqual
  | greater
  | lessEqual
  | less
  | power
  | bang
  /-- `!*`, all positional arguments of the macro being expanded. -/
  | bangAsterisk
  | percent
  | question
  | backtick
  /-- A `.` that does not end a command. -/
  | dot
  | underscore
deriving DecidableEq, Repr

namespace Punct

/-- The canonical spelling. A token keeps its own spelling, so that `<>` stays `<>`. -/
def spelling : Punct → String
  | plus => "+"
  | dash => "-"
  | asterisk => "*"
  | slash => "/"
  | equals => "="
  | leftParen => "("
  | rightParen => ")"
  | leftSquare => "["
  | rightSquare => "]"
  | leftCurly => "\x7b"
  | rightCurly => "\x7d"
  | comma => ","
  | semicolon => ";"
  | colon => ":"
  | and => "&"
  | or => "|"
  | not => "~"
  | notEqual => "~="
  | greaterEqual => ">="
  | greater => ">"
  | lessEqual => "<="
  | less => "<"
  | power => "**"
  | bang => "!"
  | bangAsterisk => "!*"
  | percent => "%"
  | question => "?"
  | backtick => "`"
  | dot => "."
  | underscore => "_"

/-- The punctuators of one character, apart from the point. -/
def ofChar? : Char → Option Punct
  | '+' => some plus
  | '-' => some dash
  | '*' => some asterisk
  | '/' => some slash
  | '=' => some equals
  | '(' => some leftParen
  | ')' => some rightParen
  | '[' => some leftSquare
  | ']' => some rightSquare
  | '\x7b' => some leftCurly
  | '\x7d' => some rightCurly
  | ',' => some comma
  | ';' => some semicolon
  | ':' => some colon
  | '&' => some and
  | '|' => some or
  | '~' => some not
  | '>' => some greater
  | '<' => some less
  | '!' => some bang
  | '%' => some percent
  | '?' => some question
  | '\x60' => some backtick
  | '_' => some underscore
  | _ => none

/-- The operators of two characters. -/
def ofPair? : Char → Char → Option Punct
  | '<', '=' => some lessEqual
  | '>', '=' => some greaterEqual
  | '~', '=' => some notEqual
  | '<', '>' => some notEqual
  | '*', '*' => some power
  | '!', '*' => some bangAsterisk
  | _, _ => none

end Punct

end CommandMacros

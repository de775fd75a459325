import CommandMacros.Definition.Parse

/-!
The grammar of definitions. How a definition is written is a relation between tokens and what they
declare; what is asked of the declared parameters is a condition on them alone.
-/

namespace CommandMacros

/-! ### How parameters are written -/

/-- What a clause says of its parameter. -/
inductive Stipulation where
  | default (value : List Token)
  | noExpand
  | capture (mode : Capture)

namespace Stipulation

def default? : Stipulation → Option (List Token)
  | default value => some value
  | _ => none

def capture? : Stipulation → Option Capture
  | capture mode => some mode
  | _ => none

def isNoExpand : Stipulation → Bool
  | noExpand => true
  | _ => false

end Stipulation

namespace Definition

/-- A string that holds nothing but the delimiter, which stands where the string does. -/
def Quotes (quoted delimiter : Token) : Prop :=
  ∃ value t, quoted.string? = some value ∧ tokenize value = [t] ∧
    delimiter = { t with span := quoted.span }

/-- What follows the keyword of a clause, and what the clause says. -/
inductive Says : Clause → List Token → Stipulation → Prop
  | default {opening closing : Token} {value : List Token}
      (hopening : opening.isPunct .leftParen = true)
      (hclosing : closing.isPunct .rightParen = true) :
      Says .default (opening :: (value ++ [closing])) (.default value)
  | noExpand : Says .noExpand [] .noExpand
  | tokens {opening number closing : Token} {count : Nat}
      (hopening : opening.isPunct .leftParen = true)
      (hnumber : number.integer? = some (count : Int))
      (hclosing : closing.isPunct .rightParen = true) :
      Says .tokens [opening, number, closing] (.capture (.tokens count))
  | charEnd {opening quoted closing delimiter : Token}
      (hopening : opening.isPunct .leftParen = true) (hquoted : Quotes quoted delimiter)
      (hclosing : closing.isPunct .rightParen = true) :
      Says .charEnd [opening, quoted, closing] (.capture (.charEnd delimiter))
  | enclose {opening first comma last closing left right : Token}
      (hopening : opening.isPunct .leftParen = true) (hfirst : Quotes first left)
      (hcomma : comma.isPunct .comma = true) (hlast : Quotes last right)
      (hclosing : closing.isPunct .rightParen = true) :
      Says .enclose [opening, first, comma, last, closing] (.capture (.enclose left right))
  | commandEnd : Says .commandEnd [] (.capture .commandEnd)

/-- Clauses in a row, each with its keyword in front, which may be shortened. -/
inductive WritesClauses : List Token → List Stipulation → Prop
  | nil : WritesClauses [] []
  | cons {which : Clause} {keyword : Token} {following others : List Token}
      {first : Stipulation} {said : List Stipulation}
      (hkeyword : keyword.abbreviates which.keyword = true) (hfirst : Says which following first)
      (hothers : WritesClauses others said) :
      WritesClauses (keyword :: (following ++ others)) (first :: said)

/-- The role of a parameter as it is written: `!POSITIONAL`, or a name that is not reserved and has
no mark, unless this is all of it. -/
inductive WritesRole : Token → Role → Prop
  | positional {t : Token} (h : t.abbreviates "!POSITIONAL" = true) : WritesRole t .positional
  | keyword {t : Token} (hname : t.isIdentifier = true) (hmark : t.isMacroId = false)
      (hreserved : isReserved t.text = false) : WritesRole t (.keyword (Text.upper t.text))

/-- A declaration: the role, perhaps a `=`, and clauses in any order. One of them says what is
captured, at most one gives a default, and `!NOEXPAND` may stand among them. -/
inductive WritesParameter : List Token → Parameter → Prop
  | mk {name : Token} {equals : Option Token} {clauses : List Token} {said : List Stipulation}
      {p : Parameter} (hrole : WritesRole name p.role)
      (hequals : ∀ t ∈ equals, t.isPunct .equals = true) (hclauses : WritesClauses clauses said)
      (hcapture : said.filterMap Stipulation.capture? = [p.capture])
      (hdefault : said.filterMap Stipulation.default? = p.default.toList)
      (hnoExpand : said.any Stipulation.isNoExpand = p.noExpand) :
      WritesParameter (name :: (equals.toList ++ clauses)) p

/-- Declarations with `/` between them. Another `/` may follow the last one. -/
inductive WritesParameters : List Token → List Parameter → Prop
  | nil : WritesParameters [] []
  | last {tokens : List Token} {p : Parameter} (h : WritesParameter tokens p) :
      WritesParameters tokens [p]
  | cons {tokens others : List Token} {p : Parameter} {ps : List Parameter} {slash : Token}
      (h : WritesParameter tokens p) (hslash : slash.isPunct .slash = true)
      (hothers : WritesParameters others ps) :
      WritesParameters (tokens ++ slash :: others) (p :: ps)

end Definition

/-! ### What is asked of parameters -/

/-- What is asked of a capture: it counts at least one token, and its delimiters are no errors. -/
def Capture.Valid : Capture → Prop
  | .tokens count => 1 ≤ count
  | .charEnd delimiter => delimiter.isError = false
  | .enclose opening closing => opening.isError = false ∧ closing.isError = false
  | .commandEnd => True

/-- What is asked of a default: it neither ends the command nor closes a parenthesis. -/
def ValidDefault (value : List Token) : Prop :=
  ∀ t ∈ value, t.isEnd = false ∧ t.isPunct .rightParen = false

/-- What is asked of what a clause says. -/
def Stipulation.Valid : Stipulation → Prop
  | .default value => ValidDefault value
  | .noExpand => True
  | .capture mode => mode.Valid

/-- What is asked of a parameter by itself. -/
structure Parameter.Valid (p : Parameter) : Prop where
  capture : p.capture.Valid
  default : ∀ value ∈ p.default, ValidDefault value

/-- What is asked of a parameter and one that follows it: positional ones come first, only the last
of them may take the rest of the command, and no name is declared twice. -/
structure Parameter.Precedes (p q : Parameter) : Prop where
  positional : q.isPositional = true → p.isPositional = true
  commandEnd : q.isPositional = true → p.capture ≠ .commandEnd
  keyword : ∀ name, p.keyword? = some name → q.keyword? ≠ some name

/-- What is asked of the parameters of a definition. -/
structure Parameters.Valid (parameters : List Parameter) : Prop where
  each : ∀ p ∈ parameters, p.Valid
  ordered : parameters.Pairwise Parameter.Precedes

/-- What can be written of a capture: a count that some number has, and delimiters that are what
their own text is scanned to. -/
def Capture.Writable : Capture → Prop
  | .tokens count => ∃ number : Token, number.integer? = some (count : Int)
  | .charEnd delimiter => Definition.Quotes ⟨.string delimiter.text, "", delimiter.span⟩ delimiter
  | .enclose opening closing =>
    Definition.Quotes ⟨.string opening.text, "", opening.span⟩ opening ∧
      Definition.Quotes ⟨.string closing.text, "", closing.span⟩ closing
  | .commandEnd => True

/-- A role that can be written: a name is in upper case, has no mark and is not reserved. -/
def Role.Writable : Role → Prop
  | .positional => True
  | .keyword name =>
    Text.upper name = name ∧ Token.isMarked name = false ∧ isReserved name = false

/-- What can be written of a parameter. -/
structure Parameter.Writable (p : Parameter) : Prop where
  role : p.role.Writable
  capture : p.capture.Writable

namespace Definition

/-- The tokens are a definition: `DEFINE`, the name, the parameters in parentheses, the body up to
the first `!ENDDEFINE`, and perhaps the end of the command. -/
inductive Writes : List Token → Definition → Prop
  | mk {start name opening closing finish : Token} {stop : Option Token}
      {declared body : List Token} {parameters : List Parameter}
      (hstart : start.matchesKeyword "DEFINE" = true) (hname : name.isIdentifier = true)
      (hopening : opening.isPunct .leftParen = true)
      (hparameters : WritesParameters declared parameters)
      (hclosing : closing.isPunct .rightParen = true)
      (hbody : ∀ t ∈ body, t.matchesKeyword "!ENDDEFINE" = false)
      (hfinish : finish.matchesKeyword "!ENDDEFINE" = true) (hstop : ∀ t ∈ stop, t.isEnd = true) :
      Writes
        (start :: name :: opening :: (declared ++ closing :: (body ++ finish :: stop.toList)))
        { name := name.text
          span := ⟨name.span.start, (stop.getD finish).span.stop⟩
          parameters
          body := Body.compile parameters body }

end Definition

end CommandMacros

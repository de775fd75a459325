import CommandMacros.Body.Compile
import CommandMacros.Definition.Basic

/-!
Parsing a `DEFINE` command: the name, the parameter list in parentheses with `/` between the
declarations, and the body up to `!ENDDEFINE`. Problems in the body do not reject the definition.
-/

namespace CommandMacros.Definition

def fault (cause : DefinitionError) (span : Span) : Fault :=
  ⟨.definition cause, span⟩

def expectPunct (finish : Span) (p : Punct) (cause : DefinitionError) (tokens : List Token) :
    Except Fault (Parsed Token tokens.length) :=
  expect finish (·.isPunct p) (.definition cause) tokens

/-- A delimiter is a quoted string that holds exactly one token. -/
def delimiter (finish : Span) (tokens : List Token) :
    Except Fault (Parsed Token tokens.length) := do
  let quoted ← expect finish (·.string?.isSome) (.definition .missingDelimiter) tokens
  match tokenize (quoted.value.string?.getD "") with
  | [t] =>
    if t.isError then
      .error (fault .invalidDelimiter quoted.value.span)
    else
      return quoted.map fun q => { t with span := q.span }
  | _ => .error (fault .invalidDelimiter quoted.value.span)

/-- The tokens of a default value up to the closing parenthesis. -/
def defaultTokens (keyword : Span) (tokens : List Token) :
    Except Fault (Parsed (List Token) tokens.length) :=
  match tokens with
  | [] => .error (fault (.unclosedClause .default) keyword)
  | t :: rest =>
    if t.isPunct .rightParen then
      .ok (.leaving [] rest)
    else if t.isEnd then
      .error (fault (.unclosedClause .default) keyword)
    else do
      let others ← defaultTokens keyword rest
      return (others.map (t :: ·)).afterOne

/-- What is read between the parentheses of a clause. -/
def inParens {α : Type} (finish : Span) (clause : Clause) (tokens : List Token)
    (content : (inner : List Token) → Except Fault (Parsed α inner.length)) :
    Except Fault (Parsed α tokens.length) := do
  let opening ← expectPunct finish .leftParen (.unopenedClause clause) tokens
  let inner ← content opening.rest
  let closing ← expectPunct finish .rightParen (.unclosedClause clause) inner.rest
  return opening.andThen (inner.andThen (closing.map fun _ => inner.value))

/-- A positive whole number. -/
def count (finish : Span) (tokens : List Token) : Except Fault (Parsed Nat tokens.length) :=
  match tokens with
  | [] => .error (fault .invalidCount finish)
  | t :: rest =>
    match t.integer? with
    | some n =>
      if 1 ≤ n then .ok (.leaving n.toNat rest) else .error (fault .invalidCount t.span)
    | none => .error (fault .invalidCount t.span)

/-- Two delimiters with a comma between them. -/
def delimiterPair (finish : Span) (tokens : List Token) :
    Except Fault (Parsed (Token × Token) tokens.length) := do
  let opening ← delimiter finish tokens
  let comma ← expectPunct finish .comma .missingComma opening.rest
  let closing ← delimiter finish comma.rest
  return opening.andThen (comma.andThen (closing.map fun last => (opening.value, last)))

/-- The clauses of a declaration read so far. -/
structure Clauses where
  default : Option (List Token) := none
  noExpand : Bool := false
  capture : Option Capture := none

/-- The clause that a token begins. -/
def clauseAt? (t : Token) : Option Clause :=
  [Clause.default, .noExpand, .tokens, .charEnd, .enclose, .commandEnd].find? fun clause =>
    t.abbreviates clause.keyword

/-- A capture clause after its keyword. -/
def capture (finish : Span) (clause : Clause) (tokens : List Token) :
    Except Fault (Parsed Capture (tokens.length + 1)) :=
  match clause with
  | .tokens => do
    let n ← inParens finish clause tokens (count finish)
    return (n.map .tokens).afterOne
  | .charEnd => do
    let ending ← inParens finish clause tokens (delimiter finish)
    return (ending.map .charEnd).afterOne
  | .enclose => do
    let pair ← inParens finish clause tokens (delimiterPair finish)
    return (pair.map fun p => .enclose p.1 p.2).afterOne
  | _ => .ok (.leaving .commandEnd tokens)

/-- One clause after its keyword at `keyword`, added to those before it. At most one of them says
what is captured, and at most one gives a default. -/
def clause (finish keyword : Span) (before : Clauses) (which : Clause) (tokens : List Token) :
    Except Fault (Parsed Clauses (tokens.length + 1)) :=
  match which with
  | .noExpand => .ok (.leaving { before with noExpand := true } tokens)
  | .default =>
    if before.default.isSome then
      .error (fault .repeatedDefault keyword)
    else do
      let opening ← expectPunct finish .leftParen (.unopenedClause .default) tokens
      let value ← defaultTokens keyword opening.rest
      let next := value.map fun ts => { before with default := some ts }
      return (opening.andThen next).afterOne
  | _ =>
    if before.capture.isSome then
      .error (fault .repeatedCapture keyword)
    else do
      let captured ← capture finish which tokens
      return captured.map fun c => { before with capture := some c }

/-- All clauses of a declaration. -/
def clauses (finish : Span) (before : Clauses) (tokens : List Token) :
    Except Fault (Parsed Clauses (tokens.length + 1)) :=
  match tokens with
  | [] => .ok (.leaving before [])
  | t :: rest =>
    match clauseAt? t with
    | none => .ok (.leaving before (t :: rest))
    | some which => do
      let read ← clause finish t.span before which rest
      have := read.shorter
      let others ← clauses finish read.value read.rest
      return (read.andMaybe others).afterOne
termination_by tokens.length

/-- Whether a parameter is declared with this name. -/
def declares (previous : List Parameter) (name : String) : Bool :=
  previous.any fun p => p.keyword? == some name

/-- The role of a parameter, given the parameters before it. -/
def role (finish : Span) (previous : List Parameter) (tokens : List Token) :
    Except Fault (Parsed Role tokens.length) :=
  match tokens with
  | [] => .error (fault .missingParameterName finish)
  | t :: rest =>
    if t.abbreviates "!POSITIONAL" then
      if previous.any (!·.isPositional) then
        .error (fault .positionalAfterKeyword t.span)
      else if previous.getLast?.any fun p => p.capture matches .commandEnd then
        .error (fault .positionalAfterCommandEnd t.span)
      else
        .ok (.leaving .positional rest)
    else if t.isMacroId then
      .error (fault .markedName t.span)
    else if !t.isIdentifier then
      .error (fault .missingParameterName t.span)
    else if isReserved t.text then
      .error (fault (.reservedName t.text) t.span)
    else if declares previous (Text.upper t.text) then
      .error (fault (.duplicateName t.text) t.span)
    else
      .ok (.leaving (.keyword (Text.upper t.text)) rest)

/-- The tokens without an `=` in front. -/
def skipEquals : List Token → List Token
  | [] => []
  | t :: rest => if t.isPunct .equals then rest else t :: rest

/-- How many tokens `skipEquals` skips. -/
def countEquals : List Token → Nat
  | [] => 0
  | t :: _ => if t.isPunct .equals then 1 else 0

theorem skipEquals_add_countEquals (tokens : List Token) :
    (skipEquals tokens).length + countEquals tokens = tokens.length := by
  cases tokens with
  | nil => rfl
  | cons t rest =>
      rw [skipEquals, countEquals]
      cases t.isPunct .equals <;> rfl

theorem afterEquals_rest_add_taken {α : Type} {tokens : List Token}
    (parsed : Parsed α ((skipEquals tokens).length + 1)) :
    parsed.rest.length + (parsed.taken + countEquals tokens) = tokens.length + 1 := by
  have := parsed.rest_add_taken
  have := skipEquals_add_countEquals tokens
  omega

/-- The same reading with an `=` in front that is skipped. -/
def afterEquals {α : Type} {tokens : List Token}
    (parsed : Parsed α ((skipEquals tokens).length + 1)) : Parsed α (tokens.length + 1) :=
  ⟨parsed.value, parsed.rest, parsed.taken + countEquals tokens,
    Nat.add_pos_left parsed.taken_pos _, afterEquals_rest_add_taken parsed⟩

/-- One parameter declaration, given the parameters before it. -/
def declaration (finish : Span) (previous : List Parameter) (tokens : List Token) :
    Except Fault (Parsed Parameter tokens.length) := do
  let role ← role finish previous tokens
  let read ← clauses finish {} (skipEquals role.rest)
  match read.value.capture with
  | none => .error (fault .missingCapture (spanAt finish read.rest))
  | some capture =>
    let parameter : Parameter :=
      { role := role.value
        capture
        default := read.value.default
        noExpand := read.value.noExpand }
    return role.andMaybe (afterEquals (read.map fun _ => parameter))

/-- The declarations up to the closing parenthesis, after those already read. -/
def declarations (finish : Span) (previous : List Parameter) (tokens : List Token) :
    Except Fault (Parsed (List Parameter) tokens.length) :=
  match tokens with
  | [] => .error (fault .unclosedParameterList finish)
  | t :: rest =>
    if t.isPunct .rightParen then
      .ok (.leaving previous rest)
    else if t.isEnd then
      .error (fault .unclosedParameterList t.span)
    else do
      let read ← declaration finish previous (t :: rest)
      match h : read.rest with
      | [] => .error (fault .missingSeparator finish)
      | u :: others =>
        if u.isPunct .rightParen then
          return read.throughToken h (previous ++ [read.value])
        else if u.isPunct .slash then
          let all ← declarations finish (previous ++ [read.value]) others
          return read.afterToken h all.afterOne
        else
          .error (fault .missingSeparator u.span)
termination_by tokens.length
decreasing_by exact Parsed.rest_succ_le_of_rest_eq h

/-- The body and what follows its `!ENDDEFINE`. -/
def splitBody? : List Token → Option (List Token × List Token)
  | [] => none
  | t :: rest =>
    if t.matchesKeyword "!ENDDEFINE" then
      some ([], rest)
    else
      (splitBody? rest).map fun split => (t :: split.1, split.2)

/-- After `!ENDDEFINE` there is at most the end of the command. -/
def checkTail (tokens : List Token) : Except Fault Unit :=
  match tokens with
  | [] => .ok ()
  | t :: rest =>
    match if t.isEnd then rest else t :: rest with
    | [] => .ok ()
    | u :: _ => .error (fault .trailingSyntax u.span)

/-- The definition that a complete `DEFINE` command makes. -/
def parse (tokens : List Token) : Except Fault Definition := do
  let finish := finishOf tokens
  let start ← expect finish (·.matchesKeyword "DEFINE") (.definition .missingDefine) tokens
  let name ← expect finish Token.isIdentifier (.definition .missingName) start.rest
  let opening ← expectPunct finish .leftParen .missingParameterList name.rest
  let parameters ← declarations finish [] opening.rest
  match splitBody? parameters.rest with
  | none => .error (fault .missingEnd name.value.span)
  | some (body, tail) =>
    checkTail tail
    return {
      name := name.value.text
      span := ⟨name.value.span.start, finish.stop⟩
      parameters := parameters.value
      body := Body.compile parameters.value body }

end CommandMacros.Definition

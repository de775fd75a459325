import CommandMacros.Body.Expression

/-!
Compiling the tokens of a macro body into directives. Compilation never fails: a directive that
does not parse becomes an invalid one, and compilation goes on right after its keyword.
-/

namespace CommandMacros.Body

/-- The kinds of blocks, which differ in the keywords that end them. A branch may be inside a loop
or not; the body of a loop is. -/
inductive Block where
  | body
  | thenBranch (inLoop : Bool)
  | elseBranch (inLoop : Bool)
  | loop
deriving DecidableEq, Repr

namespace Block

def inLoop : Block → Bool
  | body => false
  | thenBranch inLoop | elseBranch inLoop => inLoop
  | loop => true

def terminators : Block → List String
  | body => []
  | thenBranch _ => ["!ELSE", "!IFEND"]
  | elseBranch _ => ["!IFEND"]
  | loop => ["!DOEND"]

def endsAt (block : Block) (t : Token) : Bool :=
  t.isMacroId && block.terminators.any t.abbreviates

end Block

/-- Puts a literal token in front of a body. Neighbouring literal tokens make up one directive. -/
def consLiteral (t : Token) : List Directive → List Directive
  | .literal tokens :: tree => .literal (t :: tokens) :: tree
  | tree => .literal [t] :: tree

/-- What begins at a token: the token itself as text, or a directive. -/
inductive Step where
  | literal (token : Token)
  | directive (directive : Directive)

def Step.cons : Step → List Directive → List Directive
  | literal t, tree => consLiteral t tree
  | directive d, tree => d :: tree

/-- The name after `!DO` or `!LET`: a macro identifier that is neither reserved nor a parameter. -/
def variableName (scope : Scope) (directive : String) (tokens : List Token) :
    Except Fault (Parsed String tokens.length) := do
  let t ← expect scope.finish Token.isMacroId (.evaluation (.missingVariable directive)) tokens
  if isReserved t.value.text || (Parameters.find? scope.parameters t.value.text).isSome then
    .error (fault (.invalidVariable t.value.text directive) t.value.span)
  else
    return t.map Token.text

/-- `= value` after a `!LET` and its variable. -/
def assignment (scope : Scope) (tokens : List Token) :
    Except Fault (Parsed Directive tokens.length) := do
  let name ← variableName scope "!LET" tokens
  let equals ← expect scope.finish (·.isPunct .equals) (.evaluation .missingLetEquals) name.rest
  let value ← expression scope equals.rest
  return name.andThen (equals.andThen (value.map (.assign name.value)))

/-- What a loop runs over. -/
inductive LoopHead where
  | range (first last : Expr) (step : Option Expr)
  | list (items : Expr)

def LoopHead.toDirective (variableName : String) (body : List Directive) (span : Span) :
    LoopHead → Directive
  | range first last step => .doRange variableName first last step body span
  | list items => .doIn variableName items body span

/-- `!BY step`, if it follows. -/
def loopStep (scope : Scope) (tokens : List Token) :
    Except Fault (Parsed (Option Expr) (tokens.length + 1)) :=
  match tokens with
  | [] => .ok (.leaving none [])
  | t :: rest =>
    if t.matchesKeyword "!BY" then do
      let step ← expression scope rest
      return (step.map some).afterOne.afterOne
    else
      .ok (.leaving none (t :: rest))

/-- `= first !TO last` with an optional step, or `!IN list`. -/
def loopHead (scope : Scope) (tokens : List Token) :
    Except Fault (Parsed LoopHead tokens.length) :=
  match tokens with
  | [] => .error (fault .missingEqualsOrIn scope.finish)
  | t :: rest =>
    if t.matchesKeyword "!IN" then do
      let list ← expression scope rest
      return (list.map .list).afterOne
    else if t.isPunct .equals then do
      let first ← expression scope rest
      let limit ← expect scope.finish (·.matchesKeyword "!TO") (.evaluation .missingTo) first.rest
      let last ← expression scope limit.rest
      let step ← loopStep scope last.rest
      let range := last.andMaybe (step.map (.range first.value last.value))
      return (first.andThen (limit.andThen range)).afterOne
    else
      .error (fault .missingEqualsOrIn t.span)

/-- The condition of an `!IF` up to and including `!THEN`. -/
def conditionHead (scope : Scope) (tokens : List Token) :
    Except Fault (Parsed Expr tokens.length) := do
  let condition ← expression scope tokens
  let thenWord ← expect scope.finish (·.abbreviates "!THEN") (.evaluation .missingThen)
    condition.rest
  return condition.andThen (thenWord.map fun _ => condition.value)

/-- A block from some place on: its directives, and the number of tokens before the keyword that
ends it or the end of the tokens. -/
structure Compiled where
  directives : List Directive
  taken : Nat

/-- The block that a place with no tokens left gives. -/
def Compiled.empty : Compiled := ⟨[], 0⟩

/-- What compiling gives for a block that begins after a number of tokens. -/
abbrev Ahead := Block → Nat → Compiled

/-- What follows an `!IF` at `keyword`, and the number of tokens it takes. -/
def conditional (scope : Scope) (ahead : Ahead) (inLoop : Bool) (keyword : Span)
    (tokens : List Token) : Except Fault (Directive × Nat) := do
  let condition ← conditionHead scope tokens
  let thenBranch := ahead (.thenBranch inLoop) condition.taken
  let thenEnd := condition.taken + thenBranch.taken
  match tokens.drop thenEnd with
  | [] => .error (fault .missingElseOrIfEnd keyword)
  | t :: rest =>
    if t.abbreviates "!ELSE" then
      let elseBranch := ahead (.elseBranch inLoop) (thenEnd + 1)
      match rest.drop elseBranch.taken with
      | [] => .error (fault .missingIfEnd keyword)
      | _ :: _ =>
        return (.cond condition.value thenBranch.directives (some elseBranch.directives),
          thenEnd + 1 + elseBranch.taken + 1)
    else
      return (.cond condition.value thenBranch.directives none, thenEnd + 1)

/-- What follows a `!DO` at `keyword`, and the number of tokens it takes. -/
def loop (scope : Scope) (ahead : Ahead) (keyword : Span) (tokens : List Token) :
    Except Fault (Directive × Nat) := do
  let name ← variableName scope "!DO" tokens
  let head ← loopHead scope name.rest
  let start := name.taken + head.taken
  let body := ahead .loop start
  match tokens.drop (start + body.taken) with
  | [] => .error (fault .missingDoEnd keyword)
  | _ :: _ =>
    return (head.value.toDirective name.value body.directives keyword, start + body.taken + 1)

/-- The directive of a successful parse; after a failed one an invalid directive that stands for its
keyword alone. With it goes the number of tokens after the keyword. -/
def recover (result : Except Fault (Directive × Nat)) : Step × Nat :=
  match result with
  | .ok (directive, taken) => (.directive directive, taken)
  | .error f => (.directive (.invalid f.error f.span), 0)

/-- What begins at `t`, and the number of tokens after `t` that belong to it. -/
def step (scope : Scope) (ahead : Ahead) (inLoop : Bool) (t : Token) (rest : List Token) :
    Step × Nat :=
  if t.isPunct .bangAsterisk then
    (.directive .allPositionals, 0)
  else if !t.isMacroId then
    (.literal t, 0)
  else
    match Parameters.find? scope.parameters t.text with
    | some index => (.directive (.parameter index), 0)
    | none =>
      match Text.asciiUpper t.text with
      | "!IF" => recover (conditional scope ahead inLoop t.span rest)
      | "!DO" => recover (loop scope ahead t.span rest)
      | "!LET" => recover ((assignment scope rest).map fun read => (read.value, read.taken))
      | "!BREAK" =>
        if inLoop then
          (.directive .breakLoop, 0)
        else
          recover (.error (fault .breakOutsideLoop t.span))
      | "!ONEXPAND" => (.directive (.setExpand true), 0)
      | "!OFFEXPAND" => (.directive (.setExpand false), 0)
      | _ =>
        match callStart? t rest with
        | some function =>
          recover ((call scope function t rest).map fun read =>
            (.call function read.value.1 read.value.2, read.taken - 1))
        | none => (.literal t, 0)

/-- A block that begins at `t`: nothing if `t` ends it, and else what begins at `t` and the block
after that. -/
def blockAt (scope : Scope) (ahead : Ahead) (block : Block) (t : Token) (rest : List Token) :
    Compiled :=
  if block.endsAt t then
    .empty
  else
    let (first, taken) := step scope ahead block.inLoop t rest
    let others := ahead block taken
    ⟨first.cons others.directives, 1 + taken + others.taken⟩

/-! ### Looking ahead

A directive that fails is compiled again as text, and with it all that stands inside it. What each
place gives for each kind of block is therefore kept, and found only when it is asked for. -/

/-- What a place gives for branches and the bodies of loops. -/
structure InnerOutlook where
  thenOutside : Thunk Compiled
  thenInside : Thunk Compiled
  elseOutside : Thunk Compiled
  elseInside : Thunk Compiled
  loop : Thunk Compiled

/-- What a place gives for each kind of block. -/
structure Outlook where
  body : Thunk Compiled
  inner : Thunk InnerOutlook

namespace Outlook

def get (outlook : Outlook) : Block → Compiled
  | .body => outlook.body.get
  | .thenBranch false => outlook.inner.get.thenOutside.get
  | .thenBranch true => outlook.inner.get.thenInside.get
  | .elseBranch false => outlook.inner.get.elseOutside.get
  | .elseBranch true => outlook.inner.get.elseInside.get
  | .loop => outlook.inner.get.loop.get

/-- The outlook with the given blocks. -/
def ofBlocks (compiled : Block → Compiled) : Outlook where
  body := Thunk.mk fun _ => compiled .body
  inner := Thunk.mk fun _ =>
    { thenOutside := Thunk.mk fun _ => compiled (.thenBranch false)
      thenInside := Thunk.mk fun _ => compiled (.thenBranch true)
      elseOutside := Thunk.mk fun _ => compiled (.elseBranch false)
      elseInside := Thunk.mk fun _ => compiled (.elseBranch true)
      loop := Thunk.mk fun _ => compiled .loop }

theorem get_ofBlocks (compiled : Block → Compiled) (block : Block) :
    (ofBlocks compiled).get block = compiled block := by
  match block with
  | .body | .thenBranch false | .thenBranch true | .elseBranch false | .elseBranch true | .loop =>
      rfl

/-- What is ahead of a place, given the outlooks from there on. -/
def ahead (outlooks : List Outlook) : Ahead := fun block skipped =>
  match outlooks.drop skipped with
  | [] => .empty
  | outlook :: _ => outlook.get block

end Outlook

/-- The outlook from each token. -/
def outlooks (scope : Scope) : List Token → List Outlook
  | [] => []
  | t :: rest =>
    let later := outlooks scope rest
    .ofBlocks (fun block => blockAt scope (Outlook.ahead later) block t rest) :: later

/-- A block that begins with the first of the tokens. -/
def blockOf (scope : Scope) (block : Block) (tokens : List Token) : Compiled :=
  Outlook.ahead (outlooks scope tokens) block 0

theorem drop_outlooks (scope : Scope) (skipped : Nat) (tokens : List Token) :
    (outlooks scope tokens).drop skipped = outlooks scope (tokens.drop skipped) := by
  induction tokens generalizing skipped with
  | nil => simp [outlooks]
  | cons t rest ih =>
      cases skipped with
      | zero => rfl
      | succ skipped => exact ih skipped

/-- Looking ahead is compiling from there on. -/
theorem ahead_outlooks (scope : Scope) (tokens : List Token) (block : Block) (skipped : Nat) :
    Outlook.ahead (outlooks scope tokens) block skipped =
      blockOf scope block (tokens.drop skipped) := by
  simp only [blockOf, Outlook.ahead, drop_outlooks, List.drop_zero]

/-- A block is what begins at its first token, and the block after that. -/
theorem blockOf_cons (scope : Scope) (block : Block) (t : Token) (rest : List Token) :
    blockOf scope block (t :: rest) =
      blockAt scope (fun inner skipped => blockOf scope inner (rest.drop skipped)) block t rest := by
  have hahead : Outlook.ahead (outlooks scope rest) =
      fun inner skipped => blockOf scope inner (rest.drop skipped) :=
    funext fun inner => funext fun skipped => ahead_outlooks scope rest inner skipped
  rw [← hahead]
  exact Outlook.get_ofBlocks _ block

/-- The directives of a body under the parameters of its macro. -/
def compile (parameters : List Parameter) (tokens : List Token) : List Directive :=
  (blockOf ⟨parameters, finishOf tokens⟩ .body tokens).directives

end CommandMacros.Body

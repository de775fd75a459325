import CommandMacros.Definition.Basic
import CommandMacros.Diagnostic
import CommandMacros.Emitted

/-!
Binding the arguments of a call. Positional parameters are filled in order until the command ends
or a keyword argument begins; then `name = value` pairs are read in any order. The end of the
command is never read. A problem is reported, and the call goes on with what was captured.
-/

namespace CommandMacros

/-- The value bound to a parameter in one call. -/
structure Binding where
  tokens : List Token
  /-- Whether the value is searched for macro calls. -/
  expandable : Bool
deriving DecidableEq

namespace Call

/-- The tokens captured for one parameter, the tokens left, and what went wrong if anything. -/
structure Captured where
  value : List Token
  rest : List Emitted
  error : Option BindingError := none

/-- Puts a token in front of what was captured. -/
def Captured.cons (t : Token) (captured : Captured) : Captured :=
  { captured with value := t :: captured.value }

/-- The first token, unless the command ends there. -/
def peek (tokens : List Emitted) : Option Token :=
  (tokens.head?.map Emitted.token).filter (!·.isEnd)

/-- `count` tokens. -/
def captureTokens : Nat → List Emitted → Captured
  | 0, tokens => ⟨[], tokens, none⟩
  | missing + 1, [] => ⟨[], [], some (.missingTokens (missing + 1))⟩
  | missing + 1, e :: rest =>
    if e.token.isEnd then
      ⟨[], e :: rest, some (.missingTokens (missing + 1))⟩
    else
      (captureTokens missing rest).cons e.token

/-- The tokens up to the delimiter or the end of the command, and whether the delimiter was
found. -/
def captureUntil (delimiter : Token) : List Emitted → Captured × Bool
  | [] => (⟨[], [], none⟩, false)
  | e :: rest =>
    if e.token.isEnd then
      (⟨[], e :: rest, none⟩, false)
    else if e.token.same delimiter then
      (⟨[], rest, none⟩, true)
    else
      let (captured, found) := captureUntil delimiter rest
      (captured.cons e.token, found)

/-- The tokens up to the end of the command. -/
def captureCommand : List Emitted → Captured
  | [] => ⟨[], [], none⟩
  | e :: rest =>
    if e.token.isEnd then ⟨[], e :: rest, none⟩ else (captureCommand rest).cons e.token

def captureEnclosed (opening closing : Token) (tokens : List Emitted) : Captured :=
  match peek tokens with
  | none => ⟨[], tokens, some (.missingOpening none opening.text)⟩
  | some t =>
    if t.same opening then
      let (captured, found) := captureUntil closing tokens.tail
      if found then captured else { captured with error := some (.missingClosing closing.text) }
    else
      ⟨[], tokens, some (.missingOpening (some t.text) opening.text)⟩

def capture (mode : Capture) (tokens : List Emitted) : Captured :=
  match mode with
  | .tokens count => captureTokens count tokens
  | .charEnd delimiter => (captureUntil delimiter tokens).1
  | .enclose opening closing => captureEnclosed opening closing tokens
  | .commandEnd => captureCommand tokens

theorem captureTokens_rest_le (count : Nat) (tokens : List Emitted) :
    (captureTokens count tokens).rest.length ≤ tokens.length := by
  fun_induction captureTokens count tokens <;> simp_all [Captured.cons]
  omega

theorem captureUntil_rest_le (delimiter : Token) (tokens : List Emitted) :
    (captureUntil delimiter tokens).1.rest.length ≤ tokens.length := by
  fun_induction captureUntil delimiter tokens <;> simp_all [Captured.cons]
  omega

theorem captureCommand_rest_le (tokens : List Emitted) :
    (captureCommand tokens).rest.length ≤ tokens.length := by
  fun_induction captureCommand tokens <;> simp_all [Captured.cons]
  omega

theorem captureEnclosed_rest_le (opening closing : Token) (tokens : List Emitted) :
    (captureEnclosed opening closing tokens).rest.length ≤ tokens.length := by
  have h := captureUntil_rest_le closing tokens.tail
  simp only [List.length_tail] at h
  unfold captureEnclosed
  split
  · simp
  · split
    · dsimp only
      split
      · omega
      · exact Nat.le_trans h (Nat.sub_le _ _)
    · simp

/-- Capturing only takes tokens away. -/
theorem capture_rest_le (mode : Capture) (tokens : List Emitted) :
    (capture mode tokens).rest.length ≤ tokens.length := by
  unfold capture
  split
  · exact captureTokens_rest_le _ _
  · exact captureUntil_rest_le _ _
  · exact captureEnclosed_rest_le _ _ _
  · exact captureCommand_rest_le _

/-- Whether the tokens begin with `name =` for a keyword parameter called `name`. -/
def atKeywordArgument (parameters : List Parameter) (tokens : List Emitted) : Bool :=
  match tokens with
  | ⟨name, _⟩ :: ⟨equals, _⟩ :: _ =>
    name.isIdentifier && !name.isMacroId && (Parameters.findKeyword? parameters name.text).isSome &&
      equals.isPunct .equals
  | _ => false

/-- A binding under way: a value for each parameter already bound, the tokens left, the problems so
far, and whether binding has stopped at one of them. -/
structure State where
  values : List (Option (List Token))
  rest : List Emitted
  errors : List Diagnostic := []
  stopped : Bool := false

/-- The macro that is called, and the tokens after its name. -/
structure Target where
  definition : Definition
  tokens : List Emitted

/-- The place of the first token left, or of the last one of all. -/
def Target.place (target : Target) (rest : List Emitted) : Span :=
  match rest with
  | e :: _ => e.token.span
  | [] => (target.tokens.getLast?.map (·.token.span)).getD (.point 0)

namespace State

def report (state : State) (target : Target) (error : BindingError) (span : Span) : State :=
  { state with
    errors := state.errors ++
      [{ error := .binding target.definition.name error, span := some span }] }

/-- Captures the value of the parameter with this index. -/
def captureInto (state : State) (target : Target) (index : Nat) (mode : Capture) : State :=
  let captured := capture mode state.rest
  let next := { state with
    values := state.values.set index (some captured.value)
    rest := captured.rest }
  match captured.error with
  | none => next
  | some error =>
    { next.report target error (target.place captured.rest) with stopped := true }

theorem captureInto_rest_le (state : State) (target : Target) (index : Nat) (mode : Capture) :
    (state.captureInto target index mode).rest.length ≤ state.rest.length := by
  have h := capture_rest_le mode state.rest
  unfold captureInto
  dsimp only
  split
  · exact h
  · exact h

end State

/-- Fills the positional parameters from `index` on. -/
def bindPositionals (target : Target) : Nat → List Parameter → State → State
  | _, [], state => state
  | index, parameter :: others, state =>
    if !parameter.isPositional then
      state
    else if (peek state.rest).isNone ||
        atKeywordArgument target.definition.parameters state.rest then
      state
    else
      let next := state.captureInto target index parameter.capture
      if next.stopped then next else bindPositionals target (index + 1) others next

/-- Whether every keyword parameter has a value. -/
def allKeywordsBound (parameters : List Parameter) (values : List (Option (List Token))) : Bool :=
  (parameters.zip values).all fun (p, value) => p.isPositional || value.isSome

/-- The keyword parameter called `name` and its index. -/
def keywordParameter? (parameters : List Parameter) (name : String) : Option (Nat × Parameter) :=
  (Parameters.findKeyword? parameters name).bind fun index =>
    parameters[index]?.map fun p => (index, p)

/-- The value of the parameter with this index, if it is bound. -/
def State.value? (state : State) (index : Nat) : Option (List Token) :=
  state.values[index]?.join

/-- Reports a keyword argument whose parameter has a value already. -/
def State.noteRepeated (state : State) (target : Target) (index : Nat) (name : Token) : State :=
  if (state.value? index).isSome then
    state.report target (.repeatedArgument name.text) name.span
  else
    state

/-- Captures the value of a keyword argument from the tokens after its `=`. -/
def State.captureArgument (state : State) (target : Target) (index : Nat) (name : Token)
    (argument : List Emitted) (mode : Capture) : State :=
  { state.noteRepeated target index name with rest := argument }.captureInto target index mode

theorem State.captureArgument_rest_le (state : State) (target : Target) (index : Nat) (name : Token)
    (argument : List Emitted) (mode : Capture) :
    (state.captureArgument target index name argument mode).rest.length ≤ argument.length :=
  captureInto_rest_le { state.noteRepeated target index name with rest := argument } target index
    mode

/-- Ends a binding at a keyword without `=`, whose parameter gets no tokens. -/
def State.endWithoutEquals (state : State) (target : Target) (index : Nat) (name : Token)
    (rest : List Emitted) : State :=
  let values := state.values.set index (some ((state.value? index).getD []))
  { state with values, rest }.report target
    (.missingEquals ((peek rest).map Token.text) name.text) (target.place rest)

/-- Reads keyword arguments for as long as one follows and a keyword parameter is left. -/
def bindKeywords (target : Target) (state : State) : State :=
  let parameters := target.definition.parameters
  if allKeywordsBound parameters state.values then
    state
  else
    match h : state.rest with
    | [] => state
    | ⟨name, _⟩ :: afterName =>
      if !name.isIdentifier || name.isMacroId then
        state
      else
        match keywordParameter? parameters name.text with
        | none => state
        | some (index, parameter) =>
          match afterName with
          | [] => (state.noteRepeated target index name).endWithoutEquals target index name []
          | equals :: argument =>
            have : argument.length < state.rest.length := by
              simp only [h, List.length_cons]
              omega
            if equals.token.isPunct .equals then
              let next := state.captureArgument target index name argument parameter.capture
              if next.stopped then next else bindKeywords target next
            else
              (state.noteRepeated target index name).endWithoutEquals target index name
                (equals :: argument)
termination_by state.rest.length
decreasing_by
  exact Nat.lt_of_le_of_lt (State.captureArgument_rest_le _ _ _ _ _ _) (by assumption)

section KeywordArguments

variable {target : Target} {state : State}

theorem bindKeywords_of_allBound
    (hbound : allKeywordsBound target.definition.parameters state.values = true) :
    bindKeywords target state = state := by
  rw [bindKeywords, if_pos hbound]

theorem bindKeywords_of_no_tokens (hrest : state.rest = []) :
    bindKeywords target state = state := by
  rw [bindKeywords]
  split
  · rfl
  · split
    · rfl
    · next hcons =>
        rw [hrest] at hcons
        cases hcons

variable (hbound : ¬allKeywordsBound target.definition.parameters state.values = true)
  {name : Token} {expandable : Bool} {following : List Emitted}
  (hrest : state.rest = ⟨name, expandable⟩ :: following)

include hbound hrest

theorem bindKeywords_of_not_name (hname : (!name.isIdentifier || name.isMacroId) = true) :
    bindKeywords target state = state := by
  rw [bindKeywords, if_neg hbound]
  split
  · rfl
  · next hcons =>
      rw [hrest] at hcons
      cases hcons
      rw [if_pos hname]

variable (hname : ¬(!name.isIdentifier || name.isMacroId) = true)

include hname

theorem bindKeywords_of_no_parameter
    (hkey : keywordParameter? target.definition.parameters name.text = none) :
    bindKeywords target state = state := by
  rw [bindKeywords, if_neg hbound]
  split
  · rfl
  · next hcons =>
      rw [hrest] at hcons
      cases hcons
      rw [if_neg hname, hkey]

variable {index : Nat} {parameter : Parameter}
  (hkey : keywordParameter? target.definition.parameters name.text = some (index, parameter))

include hkey

theorem bindKeywords_of_name_last (hfollowing : following = []) :
    bindKeywords target state =
      (state.noteRepeated target index name).endWithoutEquals target index name [] := by
  subst hfollowing
  rw [bindKeywords, if_neg hbound]
  split
  · next hnil =>
      rw [hrest] at hnil
      cases hnil
  · next hcons =>
      rw [hrest] at hcons
      cases hcons
      rw [if_neg hname, hkey]

variable {equals : Emitted} {argument : List Emitted} (hfollowing : following = equals :: argument)

include hfollowing

theorem bindKeywords_of_not_equals (hequals : ¬equals.token.isPunct .equals = true) :
    bindKeywords target state =
      (state.noteRepeated target index name).endWithoutEquals target index name
        (equals :: argument) := by
  subst hfollowing
  rw [bindKeywords, if_neg hbound]
  split
  · next hnil =>
      rw [hrest] at hnil
      cases hnil
  · next hcons =>
      rw [hrest] at hcons
      cases hcons
      rw [if_neg hname, hkey]
      dsimp only
      rw [if_neg hequals]

theorem bindKeywords_of_equals (hequals : equals.token.isPunct .equals = true) :
    bindKeywords target state =
      let next := state.captureArgument target index name argument parameter.capture
      if next.stopped then next else bindKeywords target next := by
  subst hfollowing
  rw [bindKeywords, if_neg hbound]
  split
  · next hnil =>
      rw [hrest] at hnil
      cases hnil
  · next hcons =>
      rw [hrest] at hcons
      cases hcons
      rw [if_neg hname, hkey]
      dsimp only
      rw [if_pos hequals]

end KeywordArguments

theorem bindPositionals_rest_le (target : Target) (index : Nat) (parameters : List Parameter)
    (state : State) :
    (bindPositionals target index parameters state).rest.length ≤ state.rest.length := by
  fun_induction bindPositionals target index parameters state with
  | case1 | case2 | case3 => exact Nat.le_refl _
  | case4 => exact State.captureInto_rest_le _ _ _ _
  | case5 _ _ _ _ _ _ _ _ ih => exact Nat.le_trans ih (State.captureInto_rest_le _ _ _ _)

theorem bindKeywords_rest_le (target : Target) (state : State) :
    (bindKeywords target state).rest.length ≤ state.rest.length := by
  fun_induction bindKeywords target state with
  | case1 | case2 | case3 | case4 => exact Nat.le_refl _
  | case5 => exact Nat.zero_le _
  | case6 _ _ _ _ _ _ _ _ _ _ _ _ hless =>
      exact Nat.le_of_lt (Nat.lt_of_le_of_lt (State.captureArgument_rest_le _ _ _ _ _ _) hless)
  | case7 _ _ _ _ _ _ _ _ _ _ _ _ hless _ _ _ _ ih =>
      exact Nat.le_of_lt
        (Nat.lt_of_le_of_lt (Nat.le_trans ih (State.captureArgument_rest_le _ _ _ _ _ _)) hless)
  | case8 _ _ _ _ _ _ _ _ _ _ _ _ hless => exact hless

end Call

/-- The outcome of matching a call against a definition: a binding for each parameter, the tokens
that do not belong to the call, and the problems found. -/
structure BoundCall where
  bindings : List Binding
  rest : List Emitted
  errors : List Diagnostic

/-- How many of the tokens after the name belong to the call. -/
def BoundCall.consumed (bound : BoundCall) (tokens : List Emitted) : Nat :=
  tokens.length - bound.rest.length

/-- The value of a parameter, or else its default. -/
def Parameter.bind (p : Parameter) (value : Option (List Token)) : Binding :=
  ⟨value.getD p.defaultTokens, !p.noExpand⟩

/-- Matches the tokens after a macro name against the macro's parameters. -/
def bindArguments (definition : Definition) (tokens : List Emitted) : BoundCall :=
  let parameters := definition.parameters
  let target : Call.Target := ⟨definition, tokens⟩
  let start : Call.State := { values := parameters.map fun _ => none, rest := tokens }
  let positionals := Call.bindPositionals target 0 parameters start
  let state := if positionals.stopped then positionals else Call.bindKeywords target positionals
  { bindings := (parameters.zip state.values).map fun (p, value) => p.bind value
    rest := state.rest
    errors := state.errors }

/-- Binding only takes tokens away. -/
theorem bindArguments_rest_le (definition : Definition) (tokens : List Emitted) :
    (bindArguments definition tokens).rest.length ≤ tokens.length := by
  have hpositionals := Call.bindPositionals_rest_le ⟨definition, tokens⟩ 0 definition.parameters
    { values := definition.parameters.map fun _ => none, rest := tokens }
  simp only [bindArguments]
  split
  · exact hpositionals
  · exact Nat.le_trans (Call.bindKeywords_rest_le _ _) hpositionals

/-- A macro without parameters reads nothing. -/
theorem bindArguments_of_no_parameters {d : Definition} (h : d.parameters = [])
    (tokens : List Emitted) : bindArguments d tokens = ⟨[], tokens, []⟩ := by
  have hkeywords : Call.bindKeywords ⟨d, tokens⟩ { values := [], rest := tokens } =
      { values := [], rest := tokens } := by
    refine Call.bindKeywords_of_allBound ?_
    rw [h]
    rfl
  simp only [bindArguments, h, Call.bindPositionals, List.map_nil, hkeywords]
  rfl

end CommandMacros

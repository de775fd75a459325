import CommandMacros.Binding
import CommandMacros.Proofs.Unplaced.Body

/-!
Binding without places. The arguments of a call are the same up to places wherever its tokens
stand, and so are the tokens left and the problems found.
-/

namespace CommandMacros

def Binding.unplaced (binding : Binding) : Binding :=
  { binding with tokens := binding.tokens.map Token.unplaced }

def BoundCall.unplaced (bound : BoundCall) : BoundCall where
  bindings := bound.bindings.map Binding.unplaced
  rest := bound.rest.map Emitted.unplaced
  errors := bound.errors.map Diagnostic.unplaced

@[simp] theorem Parameter.capture_unplaced (p : Parameter) :
    p.unplaced.capture = p.capture.unplaced := rfl

@[simp] theorem Parameter.isPositional_unplaced (p : Parameter) :
    p.unplaced.isPositional = p.isPositional := rfl

theorem Parameter.bind_unplaced (p : Parameter) (value : Option (List Token)) :
    p.unplaced.bind (value.map (List.map Token.unplaced)) = (p.bind value).unplaced := by
  cases value with
  | some tokens => rfl
  | none =>
      have hdefault : p.unplaced.defaultTokens = p.defaultTokens.map Token.unplaced := by
        rw [defaultTokens, defaultTokens, unplaced]
        cases p.default <;> rfl
      exact congrArg (Binding.mk · _) hdefault

namespace Call

/-! ### Captures -/

def Captured.unplaced (captured : Captured) : Captured where
  value := captured.value.map Token.unplaced
  rest := captured.rest.map Emitted.unplaced
  error := captured.error

theorem peek_unplaced (tokens : List Emitted) :
    peek (tokens.map Emitted.unplaced) = (peek tokens).map Token.unplaced := by
  cases tokens with
  | nil => rfl
  | cons e rest =>
      change (some e.token.unplaced).filter _ = ((some e.token).filter _).map _
      rw [Option.filter_some, Option.filter_some, Token.isEnd_unplaced]
      split <;> rfl

theorem captureTokens_unplaced (count : Nat) (tokens : List Emitted) :
    captureTokens count (tokens.map Emitted.unplaced) = (captureTokens count tokens).unplaced := by
  induction tokens generalizing count with
  | nil => cases count <;> rfl
  | cons e rest ih =>
      cases count with
      | zero => rfl
      | succ missing =>
          rw [List.map_cons, captureTokens, captureTokens, ih]
          change (if e.token.isEnd then _ else _) = _
          split <;> rfl

theorem captureUntil_unplaced (delimiter : Token) (tokens : List Emitted) :
    captureUntil delimiter.unplaced (tokens.map Emitted.unplaced) =
      ((captureUntil delimiter tokens).1.unplaced, (captureUntil delimiter tokens).2) := by
  induction tokens with
  | nil => rfl
  | cons e rest ih =>
      rw [List.map_cons, captureUntil, captureUntil, ih]
      change (if e.token.isEnd then _ else if e.token.same delimiter then _ else _) = _
      split
      · rfl
      split <;> rfl

theorem captureCommand_unplaced (tokens : List Emitted) :
    captureCommand (tokens.map Emitted.unplaced) = (captureCommand tokens).unplaced := by
  induction tokens with
  | nil => rfl
  | cons e rest ih =>
      rw [List.map_cons, captureCommand, captureCommand, ih]
      change (if e.token.isEnd then _ else _) = _
      split <;> rfl

theorem captureEnclosed_unplaced (opening closing : Token) (tokens : List Emitted) :
    captureEnclosed opening.unplaced closing.unplaced (tokens.map Emitted.unplaced) =
      (captureEnclosed opening closing tokens).unplaced := by
  rw [captureEnclosed, captureEnclosed, peek_unplaced, ← List.map_tail, captureUntil_unplaced]
  cases peek tokens with
  | none => rfl
  | some t =>
      change (if t.same opening then _ else _) = _
      dsimp only
      split
      · split <;> rfl
      · rfl

theorem capture_unplaced (mode : Capture) (tokens : List Emitted) :
    capture mode.unplaced (tokens.map Emitted.unplaced) = (capture mode tokens).unplaced := by
  cases mode with
  | tokens count => exact captureTokens_unplaced count tokens
  | charEnd delimiter => exact congrArg Prod.fst (captureUntil_unplaced delimiter tokens)
  | enclose opening closing => exact captureEnclosed_unplaced opening closing tokens
  | commandEnd => exact captureCommand_unplaced tokens

/-! ### Bindings under way -/

def State.unplaced (state : State) : State where
  values := state.values.map (Option.map (List.map Token.unplaced))
  rest := state.rest.map Emitted.unplaced
  errors := state.errors.map Diagnostic.unplaced
  stopped := state.stopped

def Target.unplaced (target : Target) : Target :=
  ⟨target.definition.unplaced, target.tokens.map Emitted.unplaced⟩

theorem Target.place_unplaced (target : Target) (rest : List Emitted) :
    target.unplaced.place (rest.map Emitted.unplaced) = .point 0 := by
  cases rest with
  | cons e rest => rfl
  | nil =>
      change ((target.tokens.map Emitted.unplaced).getLast?.map (·.token.span)).getD _ = _
      rw [List.getLast?_map]
      cases target.tokens.getLast? <;> rfl

namespace State

variable (state : State) (target : Target)

theorem report_unplaced (error : BindingError) (span : Span) :
    state.unplaced.report target.unplaced error (.point 0) =
      (state.report target error span).unplaced := by
  simp only [report, unplaced, List.map_append]
  rfl

/-- The state with a value captured for the parameter with this index. -/
theorem set_unplaced (index : Nat) (value : List Token) (rest : List Emitted) :
    { state.unplaced with
      values := state.unplaced.values.set index (some (value.map Token.unplaced))
      rest := rest.map Emitted.unplaced } =
      State.unplaced { state with values := state.values.set index (some value), rest } := by
  simp only [unplaced, List.map_set]
  rfl

theorem captureInto_unplaced (index : Nat) (mode : Capture) :
    state.unplaced.captureInto target.unplaced index mode.unplaced =
      (state.captureInto target index mode).unplaced := by
  have hcaptured : capture mode.unplaced state.unplaced.rest = (capture mode state.rest).unplaced :=
    capture_unplaced mode state.rest
  let next := { state with
    values := state.values.set index (some (capture mode state.rest).value)
    rest := (capture mode state.rest).rest }
  have hnext :=
    state.set_unplaced index (capture mode state.rest).value (capture mode state.rest).rest
  have herror : (capture mode state.rest).unplaced.error = (capture mode state.rest).error := rfl
  simp only [captureInto, hcaptured, herror]
  cases (capture mode state.rest).error with
  | none => exact hnext
  | some error =>
      have hreport :=
        report_unplaced next target error (target.place (capture mode state.rest).rest)
      rw [← hnext, ← target.place_unplaced (capture mode state.rest).rest] at hreport
      exact congrArg (fun s : State => { s with stopped := true }) hreport

theorem value?_unplaced (index : Nat) :
    state.unplaced.value? index = (state.value? index).map (List.map Token.unplaced) := by
  rw [value?, value?, unplaced, List.getElem?_map]
  cases state.values[index]? with
  | none => rfl
  | some value => rfl

theorem noteRepeated_unplaced (index : Nat) (name : Token) :
    state.unplaced.noteRepeated target.unplaced index name.unplaced =
      (state.noteRepeated target index name).unplaced := by
  rw [noteRepeated, noteRepeated, value?_unplaced, Option.isSome_map]
  split
  · exact report_unplaced state target _ name.span
  · rfl

theorem captureArgument_unplaced (index : Nat) (name : Token) (argument : List Emitted)
    (mode : Capture) :
    state.unplaced.captureArgument target.unplaced index name.unplaced
        (argument.map Emitted.unplaced) mode.unplaced =
      (state.captureArgument target index name argument mode).unplaced := by
  rw [captureArgument, noteRepeated_unplaced]
  exact captureInto_unplaced { state.noteRepeated target index name with rest := argument } target
    index mode

theorem endWithoutEquals_unplaced (index : Nat) (name : Token) (rest : List Emitted) :
    state.unplaced.endWithoutEquals target.unplaced index name.unplaced
        (rest.map Emitted.unplaced) =
      (state.endWithoutEquals target index name rest).unplaced := by
  have hvalue : (state.unplaced.value? index).getD [] =
      ((state.value? index).getD []).map Token.unplaced := by
    rw [value?_unplaced]
    cases state.value? index <;> rfl
  have htext : ((peek rest).map Token.unplaced).map Token.text = (peek rest).map Token.text := by
    cases peek rest <;> rfl
  simp only [endWithoutEquals, hvalue, peek_unplaced, htext, Target.place_unplaced, set_unplaced]
  exact report_unplaced { state with
    values := state.values.set index (some ((state.value? index).getD [])), rest } target
    (.missingEquals ((peek rest).map Token.text) name.text) (target.place rest)

end State

/-! ### All arguments -/

theorem atKeywordArgument_unplaced (parameters : List Parameter) (tokens : List Emitted) :
    atKeywordArgument (parameters.map Parameter.unplaced) (tokens.map Emitted.unplaced) =
      atKeywordArgument parameters tokens := by
  match tokens with
  | [] | [_] => rfl
  | ⟨name, _⟩ :: ⟨equals, _⟩ :: _ =>
    change (name.isIdentifier && !name.isMacroId &&
      (Parameters.findKeyword? (parameters.map Parameter.unplaced) name.text).isSome && _) = _
    rw [Parameters.findKeyword?_unplaced]
    rfl

theorem bindPositionals_unplaced (target : Target) (index : Nat) (parameters : List Parameter)
    (state : State) :
    bindPositionals target.unplaced index (parameters.map Parameter.unplaced) state.unplaced =
      (bindPositionals target index parameters state).unplaced := by
  induction parameters generalizing index state with
  | nil => rfl
  | cons parameter others ih =>
      have hpeek : (peek state.unplaced.rest).isNone = (peek state.rest).isNone := by
        rw [State.unplaced, peek_unplaced, Option.isNone_map]
      have hkeyword : atKeywordArgument target.unplaced.definition.parameters state.unplaced.rest =
          atKeywordArgument target.definition.parameters state.rest :=
        atKeywordArgument_unplaced target.definition.parameters state.rest
      have hnext := state.captureInto_unplaced target index parameter.capture
      rw [List.map_cons, bindPositionals, bindPositionals, Parameter.isPositional_unplaced, hpeek,
        hkeyword, Parameter.capture_unplaced, hnext]
      dsimp only
      rw [ih]
      change (if _ then _ else if _ then _ else
        if (state.captureInto target index parameter.capture).stopped then _ else _) = _
      split
      · rfl
      split
      · rfl
      split
      · rfl
      · rfl

theorem allKeywordsBound_unplaced (parameters : List Parameter)
    (values : List (Option (List Token))) :
    allKeywordsBound (parameters.map Parameter.unplaced)
        (values.map (Option.map (List.map Token.unplaced))) =
      allKeywordsBound parameters values := by
  rw [allKeywordsBound, allKeywordsBound, List.zip_map, List.all_map]
  congr 1
  funext pair
  exact congrArg (_ || ·) Option.isSome_map

theorem keywordParameter?_unplaced (parameters : List Parameter) (name : String) :
    keywordParameter? (parameters.map Parameter.unplaced) name =
      (keywordParameter? parameters name).map fun found => (found.1, found.2.unplaced) := by
  rw [keywordParameter?, keywordParameter?, Parameters.findKeyword?_unplaced]
  cases Parameters.findKeyword? parameters name with
  | none => rfl
  | some index =>
      change ((parameters.map Parameter.unplaced)[index]?).map _ = (parameters[index]?.map _).map _
      rw [List.getElem?_map, Option.map_map, Option.map_map]
      rfl

theorem bindKeywords_unplaced (target : Target) (state : State) :
    bindKeywords target.unplaced state.unplaced = (bindKeywords target state).unplaced := by
  by_cases hbound : allKeywordsBound target.definition.parameters state.values = true
  · rw [bindKeywords_of_allBound hbound, bindKeywords_of_allBound]
    exact (allKeywordsBound_unplaced target.definition.parameters state.values).trans hbound
  have hunplaced : ¬allKeywordsBound target.unplaced.definition.parameters
      state.unplaced.values = true :=
    (allKeywordsBound_unplaced target.definition.parameters state.values) ▸ hbound
  cases hrest : state.rest with
  | nil =>
      have hnil : state.unplaced.rest = [] := congrArg (List.map Emitted.unplaced) hrest
      rw [bindKeywords_of_no_tokens hrest, bindKeywords_of_no_tokens hnil]
  | cons e following =>
      obtain ⟨name, expandable⟩ := e
      have hcons : state.unplaced.rest =
          ⟨name.unplaced, expandable⟩ :: following.map Emitted.unplaced :=
        congrArg (List.map Emitted.unplaced) hrest
      by_cases hname : (!name.isIdentifier || name.isMacroId) = true
      · rw [bindKeywords_of_not_name hbound hrest hname,
          bindKeywords_of_not_name hunplaced hcons hname]
      have hfound : keywordParameter? target.unplaced.definition.parameters name.unplaced.text =
          (keywordParameter? target.definition.parameters name.text).map
            fun found => (found.1, found.2.unplaced) :=
        keywordParameter?_unplaced target.definition.parameters name.text
      cases hkey : keywordParameter? target.definition.parameters name.text with
      | none =>
          rw [hkey] at hfound
          rw [bindKeywords_of_no_parameter hbound hrest hname hkey,
            bindKeywords_of_no_parameter hunplaced hcons hname hfound]
      | some found =>
          obtain ⟨index, parameter⟩ := found
          rw [hkey] at hfound
          have hrepeated := state.noteRepeated_unplaced target index name
          cases following with
          | nil =>
              rw [bindKeywords_of_name_last hbound hrest hname hkey rfl,
                bindKeywords_of_name_last hunplaced hcons hname hfound rfl, hrepeated]
              exact State.endWithoutEquals_unplaced _ target index name []
          | cons equals argument =>
              by_cases hequals : equals.token.isPunct .equals = true
              · have hless : (state.captureArgument target index name argument
                    parameter.capture).rest.length < state.rest.length := by
                  have hargument := state.captureArgument_rest_le target index name argument
                    parameter.capture
                  rw [hrest, List.length_cons, List.length_cons]
                  omega
                have hnext := state.captureArgument_unplaced target index name argument
                  parameter.capture
                rw [bindKeywords_of_equals hbound hrest hname hkey rfl hequals,
                  bindKeywords_of_equals hunplaced hcons hname hfound rfl hequals]
                dsimp only
                rw [Parameter.capture_unplaced, hnext, bindKeywords_unplaced]
                change (if (state.captureArgument target index name argument
                  parameter.capture).stopped then _ else _) = _
                split <;> rfl
              · rw [bindKeywords_of_not_equals hbound hrest hname hkey rfl hequals,
                  bindKeywords_of_not_equals hunplaced hcons hname hfound rfl hequals, hrepeated]
                exact State.endWithoutEquals_unplaced _ target index name (equals :: argument)
termination_by state.rest.length

end Call

/-- Binding arguments looks at no places. -/
theorem bindArguments_unplaced (d : Definition) (tokens : List Emitted) :
    bindArguments d.unplaced (tokens.map Emitted.unplaced) = (bindArguments d tokens).unplaced := by
  let target : Call.Target := ⟨d, tokens⟩
  let start : Call.State := { values := d.parameters.map fun _ => none, rest := tokens }
  have hstart : Call.State.mk (d.unplaced.parameters.map fun _ => none)
      (tokens.map Emitted.unplaced) [] false = start.unplaced := by
    simp only [Definition.unplaced, Call.State.unplaced, start, List.map_map]
    rfl
  let positionals := Call.bindPositionals target 0 d.parameters start
  have hpositionals : Call.bindPositionals target.unplaced 0 d.unplaced.parameters start.unplaced =
      positionals.unplaced :=
    Call.bindPositionals_unplaced target 0 d.parameters start
  let state := if positionals.stopped then positionals else Call.bindKeywords target positionals
  have hstate : (if positionals.unplaced.stopped then positionals.unplaced else
      Call.bindKeywords target.unplaced positionals.unplaced) = state.unplaced := by
    rw [Call.bindKeywords_unplaced]
    exact (apply_ite Call.State.unplaced _ _ _).symm
  have hbindings : ((d.unplaced.parameters.zip state.unplaced.values).map fun pair =>
      pair.1.bind pair.2) = ((d.parameters.zip state.values).map fun pair =>
        pair.1.bind pair.2).map Binding.unplaced := by
    rw [Definition.unplaced, Call.State.unplaced, List.zip_map, List.map_map, List.map_map]
    exact List.map_congr_left fun pair _ => pair.1.bind_unplaced pair.2
  have hbound : bindArguments d.unplaced (tokens.map Emitted.unplaced) =
      ⟨(d.unplaced.parameters.zip state.unplaced.values).map fun pair => pair.1.bind pair.2,
        state.unplaced.rest, state.unplaced.errors⟩ := by
    rw [← hstate, ← hpositionals, ← hstart]
    rfl
  rw [hbound, hbindings]
  rfl

end CommandMacros

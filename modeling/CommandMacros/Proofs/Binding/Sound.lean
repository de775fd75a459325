import CommandMacros.Proofs.Binding.Captured
import CommandMacros.Proofs.Reading

/-!
What a call binds. There is one binding for each parameter, made of tokens of the call or of the
default; so bindings, tokens left and problems all lie in a region that holds the tokens of the call
and the defaults.
-/

namespace CommandMacros

/-- Every token on its way through an expansion lies in the region. -/
def EmittedIn (region : Region) (tokens : List Emitted) : Prop :=
  ∀ e ∈ tokens, e.token.span ∈ region

namespace EmittedIn

variable {region : Region} {e : Emitted} {tokens others : List Emitted}

theorem nil (region : Region) : EmittedIn region [] :=
  List.forall_mem_nil _

theorem head (h : EmittedIn region (e :: tokens)) : e.token.span ∈ region :=
  h e List.mem_cons_self

theorem tail (h : EmittedIn region (e :: tokens)) : EmittedIn region tokens :=
  (List.forall_mem_cons.mp h).2

theorem append (h : EmittedIn region tokens) (hothers : EmittedIn region others) :
    EmittedIn region (tokens ++ others) :=
  List.forall_mem_append.mpr ⟨h, hothers⟩

theorem ofTokens {plain : List Token} (h : Placed region plain) (expandable : Bool) :
    EmittedIn region (Emitted.ofTokens expandable plain) := by
  intro e he
  obtain ⟨t, ht, rfl⟩ := List.mem_map.mp he
  exact h t ht

end EmittedIn

/-- The diagnostic has no place, or has it in the region. -/
def Diagnostic.In (region : Region) (d : Diagnostic) : Prop :=
  ∀ span ∈ d.span, span ∈ region

theorem Diagnostic.In.of_span {region : Region} {d : Diagnostic} {span : Span}
    (h : d.span = some span) (hspan : span ∈ region) : d.In region := by
  intro place hplace
  rw [h] at hplace
  cases hplace
  exact hspan

/-- Every diagnostic that has a place has it in the region. -/
def DiagnosticsIn (region : Region) (diagnostics : List Diagnostic) : Prop :=
  ∀ d ∈ diagnostics, d.In region

theorem DiagnosticsIn.push {region : Region} {diagnostics : Array Diagnostic}
    (h : DiagnosticsIn region diagnostics.toList) {d : Diagnostic} (hd : d.In region) :
    DiagnosticsIn region (diagnostics.push d).toList := by
  rw [Array.toList_push]
  exact List.forall_mem_append.mpr ⟨h, List.forall_mem_singleton.mpr hd⟩

namespace Call

variable {region : Region}

/-- What was captured and what was left lie in the region. -/
structure Captured.In (region : Region) (captured : Captured) : Prop where
  value : Placed region captured.value
  rest : EmittedIn region captured.rest

theorem capture_in (mode : Capture) {tokens : List Emitted} (h : EmittedIn region tokens) :
    (capture mode tokens).In region := by
  have hall := @capture_all (fun t => t.span ∈ region) mode tokens h
  exact ⟨hall.value, hall.rest⟩

theorem Target.place_mem {target : Target} (htarget : EmittedIn region target.tokens)
    {rest : List Emitted} (h : EmittedIn region rest) : target.place rest ∈ region := by
  cases rest with
  | cons e rest => exact h.head
  | nil =>
      rw [Target.place]
      cases hlast : target.tokens.getLast? with
      | none => exact region.zero
      | some e => exact htarget e (List.mem_of_getLast? hlast)

/-- A binding under way has a value, or none yet, for each of `count` parameters; values, tokens
left and problems lie in the region. -/
structure State.In (region : Region) (count : Nat) (state : State) : Prop where
  length : state.values.length = count
  values : ∀ value ∈ state.values, ∀ tokens ∈ value, Placed region tokens
  rest : EmittedIn region state.rest
  errors : DiagnosticsIn region state.errors

namespace State.In

variable {count : Nat} {state : State} {target : Target}

theorem report (h : state.In region count) (target : Target) (error : BindingError) {span : Span}
    (hspan : span ∈ region) : (state.report target error span).In region count where
  length := h.length
  values := h.values
  rest := h.rest
  errors := by
    refine List.forall_mem_append.mpr ⟨h.errors, List.forall_mem_singleton.mpr ?_⟩
    exact .of_span rfl hspan

theorem setValue (h : state.In region count) (index : Nat) {tokens : List Token}
    (htokens : Placed region tokens) {rest : List Emitted} (hrest : EmittedIn region rest) :
    State.In region count
      { state with values := state.values.set index (some tokens), rest := rest } where
  length := by
    rw [List.length_set]
    exact h.length
  values := by
    intro value hvalue others hothers
    rcases List.mem_or_eq_of_mem_set hvalue with hold | rfl
    · exact h.values value hold others hothers
    · cases hothers
      exact htokens
  rest := hrest
  errors := h.errors

variable (htarget : EmittedIn region target.tokens)

include htarget

theorem captureInto (h : state.In region count) (index : Nat) (mode : Capture) :
    (state.captureInto target index mode).In region count := by
  have hcaptured := capture_in mode h.rest
  have hnext := h.setValue index hcaptured.value hcaptured.rest
  unfold State.captureInto
  dsimp only
  split
  · exact hnext
  · next error _ =>
      have hreport := hnext.report target error (target.place_mem htarget hcaptured.rest)
      exact ⟨hreport.length, hreport.values, hreport.rest, hreport.errors⟩

omit htarget in
theorem noteRepeated (h : state.In region count) (target : Target) (index : Nat) {name : Token}
    (hname : name.span ∈ region) : (state.noteRepeated target index name).In region count := by
  unfold State.noteRepeated
  split
  · exact h.report target _ hname
  · exact h

theorem captureArgument (h : state.In region count) (index : Nat) {name : Token}
    (hname : name.span ∈ region) {argument : List Emitted} (hargument : EmittedIn region argument)
    (mode : Capture) : (state.captureArgument target index name argument mode).In region count := by
  have hnoted := h.noteRepeated target index hname
  have hnext : State.In region count
      { state.noteRepeated target index name with rest := argument } :=
    ⟨hnoted.length, hnoted.values, hargument, hnoted.errors⟩
  exact hnext.captureInto htarget index mode

omit htarget in
theorem value?_getD (h : state.In region count) (index : Nat) :
    Placed region ((state.value? index).getD []) := by
  cases hvalue : state.value? index with
  | none => exact .nil region
  | some tokens =>
      rw [State.value?, Option.join_eq_some_iff] at hvalue
      exact h.values _ (List.mem_of_getElem? hvalue) tokens rfl

theorem endWithoutEquals (h : state.In region count) (index : Nat) {name : Token}
    (hname : name.span ∈ region) {rest : List Emitted} (hrest : EmittedIn region rest) :
    ((state.noteRepeated target index name).endWithoutEquals target index name rest).In region
      count := by
  have hnoted := h.noteRepeated target index hname
  have hset := hnoted.setValue index (hnoted.value?_getD index) hrest
  exact hset.report target _ (target.place_mem htarget hrest)

theorem bindPositionals (h : state.In region count) (index : Nat) (parameters : List Parameter) :
    (bindPositionals target index parameters state).In region count := by
  fun_induction Call.bindPositionals target index parameters state with
  | case1 | case2 | case3 => exact h
  | case4 => exact h.captureInto htarget _ _
  | case5 _ _ _ _ _ _ _ _ ih => exact ih (h.captureInto htarget _ _)

theorem bindKeywords (h : state.In region count) : (bindKeywords target state).In region count := by
  fun_induction Call.bindKeywords target state with
  | case1 | case2 | case3 | case4 => exact h
  | case5 state parameters hbound name expandable hname index parameter hkey hrest =>
      have hplaced := h.rest
      rw [hrest] at hplaced
      exact h.endWithoutEquals htarget index hplaced.head hplaced.tail
  | case6 state parameters hbound name expandable hname index parameter hkey equals argument
      hrest =>
      have hplaced := h.rest
      rw [hrest] at hplaced
      exact h.captureArgument htarget index hplaced.head hplaced.tail.tail parameter.capture
  | case7 state parameters hbound name expandable hname index parameter hkey equals argument hrest
      hless hequals next hstopped _ ih =>
      have hplaced := h.rest
      rw [hrest] at hplaced
      exact ih (h.captureArgument htarget index hplaced.head hplaced.tail.tail parameter.capture)
  | case8 state parameters hbound name expandable hname index parameter hkey equals argument
      hrest =>
      have hplaced := h.rest
      rw [hrest] at hplaced
      exact h.endWithoutEquals htarget index hplaced.head hplaced.tail

end State.In

end Call

/-- A call binds every parameter, to tokens in the region. -/
structure BoundCall.In (region : Region) (parameters : List Parameter) (bound : BoundCall) :
    Prop where
  length : bound.bindings.length = parameters.length
  bindings : ∀ binding ∈ bound.bindings, Placed region binding.tokens
  rest : EmittedIn region bound.rest
  errors : DiagnosticsIn region bound.errors

/-- What the binding of all parameters leaves, with the defaults filled in. -/
theorem Call.State.In.bound {region : Region} {parameters : List Parameter} {state : Call.State}
    (h : state.In region parameters.length)
    (hdefaults : ∀ p ∈ parameters, Placed region p.defaultTokens) :
    BoundCall.In region parameters
      { bindings := (parameters.zip state.values).map fun (p, value) => p.bind value
        rest := state.rest
        errors := state.errors } := by
  refine ⟨?_, fun binding hbinding => ?_, h.rest, h.errors⟩
  · rw [List.length_map, List.length_zip, h.length, Nat.min_self]
  · obtain ⟨⟨p, value⟩, hmem, rfl⟩ := List.mem_map.mp hbinding
    obtain ⟨hp, hvalue⟩ := List.of_mem_zip hmem
    cases value with
    | none => exact hdefaults p hp
    | some tokens => exact h.values _ hvalue tokens rfl

theorem bindArguments_in {region : Region} {d : Definition}
    (hdefaults : ∀ p ∈ d.parameters, Placed region p.defaultTokens) {tokens : List Emitted}
    (h : EmittedIn region tokens) : (bindArguments d tokens).In region d.parameters := by
  have hstart : Call.State.In region d.parameters.length
      { values := d.parameters.map fun _ => none, rest := tokens } := by
    refine ⟨List.length_map _, fun value hvalue others hothers => ?_, h, List.forall_mem_nil _⟩
    obtain ⟨_, _, rfl⟩ := List.mem_map.mp hvalue
    cases hothers
  have htarget : EmittedIn region (Call.Target.mk d tokens).tokens := h
  have hpositionals := hstart.bindPositionals htarget 0 d.parameters
  have hkeywords := hpositionals.bindKeywords htarget
  simp only [bindArguments]
  split
  · exact hpositionals.bound hdefaults
  · exact hkeywords.bound hdefaults

/-! ### Problems -/

namespace Call

/-- Every problem so far is one with the arguments of a call of the macro. -/
def State.Blames (state : State) (name : String) : Prop :=
  ∀ e ∈ state.errors, ∃ cause, e.error = .binding name cause

namespace State.Blames

variable {state : State} {target : Target}

theorem report (h : state.Blames target.definition.name) (error : BindingError) (span : Span) :
    (state.report target error span).Blames target.definition.name :=
  List.forall_mem_append.mpr ⟨h, List.forall_mem_singleton.mpr ⟨error, rfl⟩⟩

theorem captureInto (h : state.Blames target.definition.name) (index : Nat) (mode : Capture) :
    (state.captureInto target index mode).Blames target.definition.name := by
  unfold State.captureInto
  dsimp only
  split
  · exact h
  · next error _ =>
      have hnext : State.Blames
          { state with
            values := state.values.set index (some (capture mode state.rest).value)
            rest := (capture mode state.rest).rest } target.definition.name := h
      exact hnext.report error _

theorem noteRepeated (h : state.Blames target.definition.name) (index : Nat) (name : Token) :
    (state.noteRepeated target index name).Blames target.definition.name := by
  unfold State.noteRepeated
  split
  · exact h.report _ _
  · exact h

theorem captureArgument (h : state.Blames target.definition.name) (index : Nat) (name : Token)
    (argument : List Emitted) (mode : Capture) :
    (state.captureArgument target index name argument mode).Blames target.definition.name := by
  have hnext : State.Blames { state.noteRepeated target index name with rest := argument }
      target.definition.name := h.noteRepeated index name
  exact hnext.captureInto index mode

theorem endWithoutEquals (h : state.Blames target.definition.name) (index : Nat) (name : Token)
    (rest : List Emitted) :
    (state.endWithoutEquals target index name rest).Blames target.definition.name := by
  have hnext : State.Blames
      { state with
        values := state.values.set index (some ((state.value? index).getD []))
        rest } target.definition.name := h
  exact hnext.report _ _

theorem bindPositionals (h : state.Blames target.definition.name) (index : Nat)
    (parameters : List Parameter) :
    (bindPositionals target index parameters state).Blames target.definition.name := by
  fun_induction Call.bindPositionals target index parameters state with
  | case1 | case2 | case3 => exact h
  | case4 => exact h.captureInto _ _
  | case5 _ _ _ _ _ _ _ _ ih => exact ih (h.captureInto _ _)

theorem bindKeywords (h : state.Blames target.definition.name) :
    (bindKeywords target state).Blames target.definition.name := by
  fun_induction Call.bindKeywords target state with
  | case1 | case2 | case3 | case4 => exact h
  | case5 | case8 => exact (h.noteRepeated _ _).endWithoutEquals _ _ _
  | case6 => exact h.captureArgument _ _ _ _
  | case7 state _ _ name _ _ index parameter _ _ argument _ _ _ _ _ _ ih =>
      exact ih (h.captureArgument index name argument parameter.capture)

end State.Blames

end Call

/-- A call has no problems but with its arguments. -/
theorem bindArguments_errors {d : Definition} {tokens : List Emitted} {problem : Diagnostic}
    (h : problem ∈ (bindArguments d tokens).errors) :
    ∃ cause, problem.error = .binding d.name cause := by
  have hstart : Call.State.Blames { values := d.parameters.map fun _ => none, rest := tokens }
      (Call.Target.mk d tokens).definition.name := List.forall_mem_nil _
  have hpositionals := hstart.bindPositionals 0 d.parameters
  simp only [bindArguments] at h
  split at h
  · exact hpositionals problem h
  · exact hpositionals.bindKeywords problem h

end CommandMacros

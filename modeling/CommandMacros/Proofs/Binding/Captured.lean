import CommandMacros.Binding

/-!
Where the tokens of arguments come from. What a call binds to its parameters is taken from the
tokens after its name or is a default, so what holds of all of these holds of all that is bound and
of all that is left.
-/

namespace CommandMacros

namespace Call

variable {holds : Token → Prop}

/-- What was captured and what was left satisfies the condition. -/
structure Captured.All (holds : Token → Prop) (captured : Captured) : Prop where
  value : ∀ t ∈ captured.value, holds t
  rest : ∀ e ∈ captured.rest, holds e.token

theorem Captured.All.cons {t : Token} {captured : Captured} (ht : holds t)
    (h : captured.All holds) : (captured.cons t).All holds :=
  ⟨List.forall_mem_cons.mpr ⟨ht, h.value⟩, h.rest⟩

theorem Captured.all_of_rest {tokens : List Emitted} (h : ∀ e ∈ tokens, holds e.token)
    (error : Option BindingError) : Captured.All holds ⟨[], tokens, error⟩ :=
  ⟨List.forall_mem_nil _, h⟩

theorem captureTokens_all (count : Nat) {tokens : List Emitted}
    (h : ∀ e ∈ tokens, holds e.token) : (captureTokens count tokens).All holds := by
  fun_induction captureTokens count tokens with
  | case1 | case2 | case3 => exact Captured.all_of_rest h _
  | case4 missing e rest _ ih =>
      obtain ⟨he, hrest⟩ := List.forall_mem_cons.mp h
      exact (ih hrest).cons he

theorem captureUntil_all (delimiter : Token) {tokens : List Emitted}
    (h : ∀ e ∈ tokens, holds e.token) : (captureUntil delimiter tokens).1.All holds := by
  fun_induction captureUntil delimiter tokens with
  | case1 | case2 => exact Captured.all_of_rest h _
  | case3 => exact Captured.all_of_rest (List.forall_mem_cons.mp h).2 _
  | case4 e rest _ _ captured found hcaptured ih =>
      obtain ⟨he, hrest⟩ := List.forall_mem_cons.mp h
      rw [hcaptured] at ih
      exact (ih hrest).cons he

theorem captureCommand_all {tokens : List Emitted} (h : ∀ e ∈ tokens, holds e.token) :
    (captureCommand tokens).All holds := by
  fun_induction captureCommand tokens with
  | case1 | case2 => exact Captured.all_of_rest h _
  | case3 e rest _ ih =>
      obtain ⟨he, hrest⟩ := List.forall_mem_cons.mp h
      exact (ih hrest).cons he

theorem captureEnclosed_all (opening closing : Token) {tokens : List Emitted}
    (h : ∀ e ∈ tokens, holds e.token) : (captureEnclosed opening closing tokens).All holds := by
  have huntil := @captureUntil_all holds closing tokens.tail
    fun e he => h e (List.mem_of_mem_tail he)
  unfold captureEnclosed
  split
  · exact Captured.all_of_rest h _
  · split
    · dsimp only
      split
      · exact huntil
      · exact ⟨huntil.value, huntil.rest⟩
    · exact Captured.all_of_rest h _

theorem capture_all (mode : Capture) {tokens : List Emitted} (h : ∀ e ∈ tokens, holds e.token) :
    (capture mode tokens).All holds := by
  cases mode with
  | tokens count => exact captureTokens_all count h
  | charEnd delimiter => exact captureUntil_all delimiter h
  | enclose opening closing => exact captureEnclosed_all opening closing h
  | commandEnd => exact captureCommand_all h

/-- All values bound so far and all tokens left satisfy the condition. -/
structure State.All (holds : Token → Prop) (state : State) : Prop where
  values : ∀ value ∈ state.values, ∀ tokens ∈ value, ∀ t ∈ tokens, holds t
  rest : ∀ e ∈ state.rest, holds e.token

namespace State.All

variable {state : State}

/-- The values and the tokens left are all that counts. -/
theorem congr (h : state.All holds) {other : State} (hvalues : other.values = state.values)
    (hrest : other.rest = state.rest) : other.All holds :=
  ⟨hvalues ▸ h.values, hrest ▸ h.rest⟩

theorem setValue (h : state.All holds) (index : Nat) {tokens : List Token}
    (htokens : ∀ t ∈ tokens, holds t) {rest : List Emitted} (hrest : ∀ e ∈ rest, holds e.token) :
    State.All holds
      { state with values := state.values.set index (some tokens), rest := rest } := by
  refine ⟨fun value hvalue others hothers => ?_, hrest⟩
  rcases List.mem_or_eq_of_mem_set hvalue with hold | rfl
  · exact h.values value hold others hothers
  · cases hothers
    exact htokens

theorem captureInto (h : state.All holds) (target : Target) (index : Nat) (mode : Capture) :
    (state.captureInto target index mode).All holds := by
  have hcaptured := capture_all mode h.rest
  have hnext := h.setValue index hcaptured.value hcaptured.rest
  unfold State.captureInto
  dsimp only
  split
  · exact hnext
  · exact hnext.congr rfl rfl

theorem noteRepeated (h : state.All holds) (target : Target) (index : Nat) (name : Token) :
    (state.noteRepeated target index name).All holds := by
  unfold State.noteRepeated
  split
  · exact h.congr rfl rfl
  · exact h

theorem captureArgument (h : state.All holds) (target : Target) (index : Nat) (name : Token)
    {argument : List Emitted} (hargument : ∀ e ∈ argument, holds e.token) (mode : Capture) :
    (state.captureArgument target index name argument mode).All holds := by
  have hnext : State.All holds { state.noteRepeated target index name with rest := argument } :=
    ⟨(h.noteRepeated target index name).values, hargument⟩
  exact hnext.captureInto target index mode

theorem endWithoutEquals (h : state.All holds) (target : Target) (index : Nat) (name : Token)
    {rest : List Emitted} (hrest : ∀ e ∈ rest, holds e.token) :
    (state.endWithoutEquals target index name rest).All holds := by
  have hvalue : ∀ t ∈ (state.value? index).getD [], holds t := by
    cases hvalue : state.value? index with
    | none => exact List.forall_mem_nil _
    | some tokens =>
        rw [State.value?, Option.join_eq_some_iff] at hvalue
        exact h.values _ (List.mem_of_getElem? hvalue) tokens rfl
  exact (h.setValue index hvalue hrest).congr rfl rfl

theorem bindPositionals (h : state.All holds) (target : Target) (index : Nat)
    (parameters : List Parameter) :
    (bindPositionals target index parameters state).All holds := by
  fun_induction Call.bindPositionals target index parameters state with
  | case1 | case2 | case3 => exact h
  | case4 => exact h.captureInto target _ _
  | case5 _ _ _ _ _ _ _ _ ih => exact ih (h.captureInto target _ _)

theorem bindKeywords (h : state.All holds) (target : Target) :
    (bindKeywords target state).All holds := by
  fun_induction Call.bindKeywords target state with
  | case1 | case2 | case3 | case4 => exact h
  | case5 state _ _ name _ _ index =>
      exact (h.noteRepeated target index name).endWithoutEquals target index name
        (List.forall_mem_nil _)
  | case6 state _ _ name _ _ index parameter _ equals argument hrest =>
      have hleft := h.rest
      rw [hrest] at hleft
      exact h.captureArgument target index name (List.forall_mem_cons.mp
        (List.forall_mem_cons.mp hleft).2).2 parameter.capture
  | case7 state _ _ name _ _ index parameter _ equals argument hrest _ _ _ _ _ ih =>
      have hleft := h.rest
      rw [hrest] at hleft
      exact ih (h.captureArgument target index name (List.forall_mem_cons.mp
        (List.forall_mem_cons.mp hleft).2).2 parameter.capture)
  | case8 state _ _ name _ _ index parameter _ equals argument hrest =>
      have hleft := h.rest
      rw [hrest] at hleft
      exact (h.noteRepeated target index name).endWithoutEquals target index name
        (List.forall_mem_cons.mp hleft).2

end State.All

end Call

/-- What holds of the tokens after the name of a call and of the defaults of its macro holds of all
that is bound and of all that is left. -/
theorem bindArguments_all {holds : Token → Prop} {d : Definition}
    (hdefaults : ∀ p ∈ d.parameters, ∀ t ∈ p.defaultTokens, holds t) {tokens : List Emitted}
    (h : ∀ e ∈ tokens, holds e.token) :
    (∀ binding ∈ (bindArguments d tokens).bindings, ∀ t ∈ binding.tokens, holds t) ∧
      ∀ e ∈ (bindArguments d tokens).rest, holds e.token := by
  have hstart : Call.State.All holds
      { values := d.parameters.map fun _ => none, rest := tokens } := by
    refine ⟨fun value hvalue others hothers => ?_, h⟩
    obtain ⟨_, _, rfl⟩ := List.mem_map.mp hvalue
    cases hothers
  have hbound {state : Call.State} (hstate : state.All holds) :
      ∀ binding ∈ (d.parameters.zip state.values).map fun entry => entry.1.bind entry.2,
        ∀ t ∈ binding.tokens, holds t := by
    intro binding hbinding
    obtain ⟨⟨p, value⟩, hmem, rfl⟩ := List.mem_map.mp hbinding
    obtain ⟨hp, hvalue⟩ := List.of_mem_zip hmem
    cases value with
    | none => exact hdefaults p hp
    | some tokens => exact hstate.values _ hvalue tokens rfl
  have hpositionals := hstart.bindPositionals ⟨d, tokens⟩ 0 d.parameters
  have hkeywords := hpositionals.bindKeywords ⟨d, tokens⟩
  simp only [bindArguments]
  split
  · exact ⟨hbound hpositionals, hpositionals.rest⟩
  · exact ⟨hbound hkeywords, hkeywords.rest⟩

end CommandMacros

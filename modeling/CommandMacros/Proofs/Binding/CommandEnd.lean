import CommandMacros.Binding

/-!
Binding stays within its command. What a capture, and then a whole binding, reads are tokens that do
not end a command, so the first end is always left; and with an end among the tokens, the tokens
after it change nothing but what is left. Only the fallback place of an error looks at the last
token of all, and it is used only where no token is left.
-/

namespace CommandMacros

namespace Call

/-- What is left of some tokens after reading some of them, none of which ends the command. -/
def Leaves (tokens rest : List Emitted) : Prop :=
  ∃ taken, tokens = taken ++ rest ∧ ∀ e ∈ taken, e.token.isEnd = false

namespace Leaves

variable {tokens middle rest : List Emitted}

theorem refl (tokens : List Emitted) : Leaves tokens tokens :=
  ⟨[], rfl, by simp⟩

theorem trans (h : Leaves tokens middle) (h' : Leaves middle rest) : Leaves tokens rest := by
  obtain ⟨taken, rfl, htaken⟩ := h
  obtain ⟨more, rfl, hmore⟩ := h'
  refine ⟨taken ++ more, (List.append_assoc _ _ _).symm, ?_⟩
  intro e he
  rcases List.mem_append.mp he with he | he
  · exact htaken e he
  · exact hmore e he

theorem cons {e : Emitted} (he : e.token.isEnd = false) (h : Leaves tokens rest) :
    Leaves (e :: tokens) rest := by
  obtain ⟨taken, rfl, htaken⟩ := h
  refine ⟨e :: taken, rfl, ?_⟩
  intro x hx
  rcases List.mem_cons.mp hx with rfl | hx
  · exact he
  · exact htaken x hx

/-- What is left of a command after reading some of it is a command with the same end. -/
theorem command {e : Emitted} (he : e.token.isEnd = true) (h : Leaves (tokens ++ [e]) rest) :
    ∃ left, rest = left ++ [e] ∧ left.length ≤ tokens.length := by
  obtain ⟨taken, htokens, htaken⟩ := h
  rcases List.append_eq_append_iff.mp htokens with ⟨more, rfl, hmore⟩ | ⟨left, rfl, rfl⟩
  · cases more with
    | nil => exact ⟨[], hmore.symm, Nat.zero_le _⟩
    | cons x more =>
        have hx : e = x := (List.cons.inj hmore).1
        rw [htaken e (by simp [hx])] at he
        cases he
  · refine ⟨left, rfl, ?_⟩
    rw [List.length_append]
    omega

end Leaves

/-- Some token ends the command. -/
def HasEnd (tokens : List Emitted) : Prop :=
  ∃ e ∈ tokens, e.token.isEnd = true

theorem HasEnd.of_leaves {tokens rest : List Emitted} (h : HasEnd tokens)
    (hrest : Leaves tokens rest) : HasEnd rest := by
  obtain ⟨e, he, hend⟩ := h
  obtain ⟨taken, rfl, htaken⟩ := hrest
  rcases List.mem_append.mp he with he | he
  · rw [htaken e he] at hend
    cases hend
  · exact ⟨e, he, hend⟩

theorem HasEnd.tail {e : Emitted} {tokens : List Emitted} (h : HasEnd (e :: tokens))
    (he : e.token.isEnd = false) : HasEnd tokens :=
  h.of_leaves (.cons he (.refl tokens))

theorem HasEnd.command {e : Emitted} (he : e.token.isEnd = true) {tokens : List Emitted} :
    HasEnd (tokens ++ [e]) :=
  ⟨e, List.mem_append_right _ (List.mem_singleton.mpr rfl), he⟩

theorem not_hasEnd_nil : ¬HasEnd [] := by
  rintro ⟨e, he, _⟩
  cases he

/-! ### Captures -/

/-- The same capture with more tokens left. -/
def Captured.extend (captured : Captured) (more : List Emitted) : Captured :=
  { captured with rest := captured.rest ++ more }

theorem captureTokens_leaves (count : Nat) (tokens : List Emitted) :
    Leaves tokens (captureTokens count tokens).rest := by
  fun_induction captureTokens count tokens with
  | case1 tokens => exact .refl _
  | case2 missing => exact .refl _
  | case3 missing e rest hend => exact .refl _
  | case4 missing e rest hend ih => exact .cons (Bool.eq_false_iff.mpr hend) ih

theorem captureTokens_extend (count : Nat) {tokens : List Emitted} (h : HasEnd tokens)
    (more : List Emitted) :
    captureTokens count (tokens ++ more) = (captureTokens count tokens).extend more := by
  fun_induction captureTokens count tokens with
  | case1 tokens => simp only [captureTokens, Captured.extend]
  | case2 missing => exact absurd h not_hasEnd_nil
  | case3 missing e rest hend =>
      simp only [List.cons_append, captureTokens, if_pos hend, Captured.extend]
  | case4 missing e rest hend ih =>
      simp only [List.cons_append, captureTokens, if_neg hend]
      rw [ih (h.tail (Bool.eq_false_iff.mpr hend))]
      rfl

theorem captureUntil_leaves (delimiter : Token) (tokens : List Emitted) :
    Leaves tokens (captureUntil delimiter tokens).1.rest := by
  fun_induction captureUntil delimiter tokens with
  | case1 => exact .refl _
  | case2 e rest hend => exact .refl _
  | case3 e rest hend hsame => exact .cons (Bool.eq_false_iff.mpr hend) (.refl _)
  | case4 e rest hend hsame captured found hcaptured ih =>
      rw [hcaptured] at ih
      exact .cons (Bool.eq_false_iff.mpr hend) ih

theorem captureUntil_extend (delimiter : Token) {tokens : List Emitted} (h : HasEnd tokens)
    (more : List Emitted) :
    captureUntil delimiter (tokens ++ more) =
      ((captureUntil delimiter tokens).1.extend more, (captureUntil delimiter tokens).2) := by
  fun_induction captureUntil delimiter tokens with
  | case1 => exact absurd h not_hasEnd_nil
  | case2 e rest hend => simp only [List.cons_append, captureUntil, if_pos hend, Captured.extend]
  | case3 e rest hend hsame =>
      simp only [List.cons_append, captureUntil, if_neg hend, if_pos hsame, Captured.extend]
  | case4 e rest hend hsame captured found hcaptured ih =>
      simp only [List.cons_append, captureUntil, if_neg hend, if_neg hsame]
      rw [ih (h.tail (Bool.eq_false_iff.mpr hend)), hcaptured]
      rfl

theorem captureCommand_leaves (tokens : List Emitted) :
    Leaves tokens (captureCommand tokens).rest := by
  fun_induction captureCommand tokens with
  | case1 => exact .refl _
  | case2 e rest hend => exact .refl _
  | case3 e rest hend ih => exact .cons (Bool.eq_false_iff.mpr hend) ih

theorem captureCommand_extend {tokens : List Emitted} (h : HasEnd tokens) (more : List Emitted) :
    captureCommand (tokens ++ more) = (captureCommand tokens).extend more := by
  fun_induction captureCommand tokens with
  | case1 => exact absurd h not_hasEnd_nil
  | case2 e rest hend => simp only [List.cons_append, captureCommand, if_pos hend, Captured.extend]
  | case3 e rest hend ih =>
      simp only [List.cons_append, captureCommand, if_neg hend]
      rw [ih (h.tail (Bool.eq_false_iff.mpr hend))]
      rfl

theorem peek_append {tokens : List Emitted} (h : HasEnd tokens) (more : List Emitted) :
    peek (tokens ++ more) = peek tokens := by
  cases tokens with
  | nil => exact absurd h not_hasEnd_nil
  | cons e rest => rfl

theorem leaves_tail_of_peek {tokens : List Emitted} {t : Token} (h : peek tokens = some t) :
    Leaves tokens tokens.tail := by
  cases tokens with
  | nil => exact .refl _
  | cons e rest =>
      simp only [peek, List.head?_cons, Option.map_some, Option.filter_eq_some_iff,
        Option.some.injEq, Bool.not_eq_true'] at h
      obtain ⟨rfl, hend⟩ := h
      exact .cons hend (.refl rest)

theorem captureEnclosed_leaves (opening closing : Token) (tokens : List Emitted) :
    Leaves tokens (captureEnclosed opening closing tokens).rest := by
  unfold captureEnclosed
  split
  · exact .refl _
  · next t ht =>
      split
      · have htail := (leaves_tail_of_peek ht).trans (captureUntil_leaves closing tokens.tail)
        dsimp only
        split
        · exact htail
        · exact htail
      · exact .refl _

theorem captureEnclosed_extend (opening closing : Token) {tokens : List Emitted}
    (h : HasEnd tokens) (more : List Emitted) :
    captureEnclosed opening closing (tokens ++ more) =
      (captureEnclosed opening closing tokens).extend more := by
  unfold captureEnclosed
  rw [peek_append h]
  split
  · rfl
  · next t ht =>
      have htail : (tokens ++ more).tail = tokens.tail ++ more := by
        cases tokens with
        | nil => exact absurd h not_hasEnd_nil
        | cons e rest => rfl
      rw [htail, captureUntil_extend closing (h.of_leaves (leaves_tail_of_peek ht))]
      split
      · dsimp only
        split
        · rfl
        · rfl
      · rfl

theorem capture_leaves (mode : Capture) (tokens : List Emitted) :
    Leaves tokens (capture mode tokens).rest := by
  cases mode with
  | tokens count => exact captureTokens_leaves count tokens
  | charEnd delimiter => exact captureUntil_leaves delimiter tokens
  | enclose opening closing => exact captureEnclosed_leaves opening closing tokens
  | commandEnd => exact captureCommand_leaves tokens

/-- A capture looks at nothing after the end of the command. -/
theorem capture_extend (mode : Capture) {tokens : List Emitted} (h : HasEnd tokens)
    (more : List Emitted) : capture mode (tokens ++ more) = (capture mode tokens).extend more := by
  cases mode with
  | tokens count => exact captureTokens_extend count h more
  | charEnd delimiter =>
      simp only [capture]
      rw [captureUntil_extend delimiter h]
  | enclose opening closing => exact captureEnclosed_extend opening closing h more
  | commandEnd => exact captureCommand_extend h more

/-! ### Bindings under way -/

/-- The same binding with more tokens left. -/
def State.extend (state : State) (more : List Emitted) : State :=
  { state with rest := state.rest ++ more }

@[simp] theorem State.extend_rest (state : State) (more : List Emitted) :
    (state.extend more).rest = state.rest ++ more :=
  rfl

@[simp] theorem State.extend_stopped (state : State) (more : List Emitted) :
    (state.extend more).stopped = state.stopped :=
  rfl

def Target.extend (target : Target) (more : List Emitted) : Target :=
  { target with tokens := target.tokens ++ more }

@[simp] theorem Target.extend_definition (target : Target) (more : List Emitted) :
    (target.extend more).definition = target.definition :=
  rfl

theorem place_extend (target : Target) {rest : List Emitted} (h : HasEnd rest)
    (more : List Emitted) : (target.extend more).place (rest ++ more) = target.place rest := by
  cases rest with
  | nil => exact absurd h not_hasEnd_nil
  | cons e rest => rfl

theorem captureInto_leaves (state : State) (target : Target) (index : Nat) (mode : Capture) :
    Leaves state.rest (state.captureInto target index mode).rest := by
  unfold State.captureInto
  dsimp only
  split
  · exact capture_leaves mode state.rest
  · exact capture_leaves mode state.rest

theorem captureInto_extend (state : State) (h : HasEnd state.rest) (target : Target) (index : Nat)
    (mode : Capture) (more : List Emitted) :
    (state.extend more).captureInto (target.extend more) index mode =
      (state.captureInto target index mode).extend more := by
  have hrest : HasEnd (capture mode state.rest).rest := h.of_leaves (capture_leaves mode state.rest)
  unfold State.captureInto
  simp only [State.extend, capture_extend mode h, Captured.extend]
  cases (capture mode state.rest).error with
  | none => rfl
  | some error =>
      simp only [place_extend target hrest]
      rfl

theorem isIdentifier_eq_false {t : Token} (h : t.isEnd = true) : t.isIdentifier = false := by
  unfold Token.isEnd at h
  unfold Token.isIdentifier
  cases hkind : t.kind <;> simp_all

theorem isEnd_of_isIdentifier {t : Token} (h : t.isIdentifier = true) : t.isEnd = false := by
  cases hend : t.isEnd with
  | false => rfl
  | true =>
      rw [isIdentifier_eq_false hend] at h
      cases h

theorem atKeywordArgument_append (parameters : List Parameter) {tokens : List Emitted}
    (h : HasEnd tokens) (more : List Emitted) :
    atKeywordArgument parameters (tokens ++ more) = atKeywordArgument parameters tokens := by
  match tokens with
  | [] => exact absurd h not_hasEnd_nil
  | [e] =>
    obtain ⟨x, hx, hend⟩ := h
    rw [List.mem_singleton.mp hx] at hend
    cases more with
    | nil => rfl
    | cons y more =>
        simp only [List.singleton_append, atKeywordArgument, isIdentifier_eq_false hend,
          Bool.false_and]
  | e :: e' :: rest => rfl

theorem bindPositionals_leaves (target : Target) (index : Nat) (parameters : List Parameter)
    (state : State) : Leaves state.rest (bindPositionals target index parameters state).rest := by
  fun_induction bindPositionals target index parameters state with
  | case1 | case2 | case3 => exact .refl _
  | case4 => exact captureInto_leaves _ _ _ _
  | case5 _ _ _ _ _ _ _ _ ih => exact (captureInto_leaves _ _ _ _).trans ih

theorem bindPositionals_extend (target : Target) (index : Nat) (parameters : List Parameter)
    (state : State) (h : HasEnd state.rest) (more : List Emitted) :
    bindPositionals (target.extend more) index parameters (state.extend more) =
      (bindPositionals target index parameters state).extend more := by
  induction parameters generalizing index state with
  | nil => rfl
  | cons parameter others ih =>
      simp only [bindPositionals, State.extend_rest, peek_append h, Target.extend_definition,
        atKeywordArgument_append _ h, captureInto_extend state h, State.extend_stopped]
      split
      · rfl
      · split
        · rfl
        · have hnext : HasEnd (state.captureInto target index parameter.capture).rest :=
            h.of_leaves (captureInto_leaves state target index parameter.capture)
          split
          · rfl
          · exact ih (index + 1) _ hnext

theorem noteRepeated_extend (state : State) (target : Target) (index : Nat) (name : Token)
    (more : List Emitted) :
    (state.extend more).noteRepeated (target.extend more) index name =
      (state.noteRepeated target index name).extend more := by
  unfold State.noteRepeated
  rw [show (state.extend more).value? index = state.value? index from rfl]
  split
  · rfl
  · rfl

theorem captureArgument_leaves (state : State) (target : Target) (index : Nat) (name : Token)
    (argument : List Emitted) (mode : Capture) :
    Leaves argument (state.captureArgument target index name argument mode).rest :=
  captureInto_leaves { state.noteRepeated target index name with rest := argument } target index mode

theorem captureArgument_extend (state : State) (target : Target) (index : Nat) (name : Token)
    {argument : List Emitted} (h : HasEnd argument) (mode : Capture) (more : List Emitted) :
    (state.extend more).captureArgument (target.extend more) index name (argument ++ more) mode =
      (state.captureArgument target index name argument mode).extend more := by
  unfold State.captureArgument
  rw [noteRepeated_extend]
  exact captureInto_extend { state.noteRepeated target index name with rest := argument } h target
    index mode more

theorem endWithoutEquals_extend (state : State) (target : Target) (index : Nat) (name : Token)
    {rest : List Emitted} (h : HasEnd rest) (more : List Emitted) :
    (state.extend more).endWithoutEquals (target.extend more) index name (rest ++ more) =
      (state.endWithoutEquals target index name rest).extend more := by
  unfold State.endWithoutEquals
  rw [peek_append h, place_extend target h]
  rfl

theorem isEnd_of_keyword {name : Token} (h : ¬(!name.isIdentifier || name.isMacroId) = true) :
    name.isEnd = false := by
  simp only [Bool.or_eq_true, Bool.not_eq_true', not_or, Bool.not_eq_false] at h
  exact isEnd_of_isIdentifier h.1

theorem isEnd_of_isPunct {t : Token} {p : Punct} (h : t.isPunct p = true) : t.isEnd = false := by
  simp only [Token.isPunct, beq_iff_eq] at h
  simp only [Token.isEnd, h]

theorem bindKeywords_leaves (target : Target) (state : State) :
    Leaves state.rest (bindKeywords target state).rest := by
  fun_induction bindKeywords target state with
  | case1 | case2 | case3 | case4 => exact .refl _
  | case5 state parameters hbound name expandable hname index parameter hkey hrest =>
      rw [hrest]
      exact .cons (isEnd_of_keyword hname) (.refl _)
  | case6 state parameters hbound name expandable hname index parameter hkey equals argument hrest
      hless hequals =>
      rw [hrest]
      exact .cons (isEnd_of_keyword hname)
        (.cons (isEnd_of_isPunct hequals) (captureArgument_leaves _ _ _ _ _ _))
  | case7 state parameters hbound name expandable hname index parameter hkey equals argument hrest
      hless hequals next hstopped _ ih =>
      rw [hrest]
      exact .cons (isEnd_of_keyword hname)
        (.cons (isEnd_of_isPunct hequals) ((captureArgument_leaves _ _ _ _ _ _).trans ih))
  | case8 state parameters hbound name expandable hname index parameter hkey equals argument
      hrest =>
      rw [hrest]
      exact .cons (isEnd_of_keyword hname) (.refl _)

theorem extend_rest_cons {state : State} {e : Emitted} {following : List Emitted}
    (hrest : state.rest = e :: following) (more : List Emitted) :
    (state.extend more).rest = e :: (following ++ more) := by
  rw [State.extend_rest, hrest, List.cons_append]

theorem bindKeywords_extend (target : Target) (state : State) (h : HasEnd state.rest)
    (more : List Emitted) :
    bindKeywords (target.extend more) (state.extend more) =
      (bindKeywords target state).extend more := by
  fun_induction bindKeywords target state with
  | case1 state parameters hbound => exact bindKeywords_of_allBound hbound
  | case2 state parameters hbound hrest =>
      rw [hrest] at h
      exact absurd h not_hasEnd_nil
  | case3 state parameters hbound name expandable following hrest hname =>
      exact bindKeywords_of_not_name hbound (extend_rest_cons hrest more) hname
  | case4 state parameters hbound name expandable following hrest hname hkey =>
      exact bindKeywords_of_no_parameter hbound (extend_rest_cons hrest more) hname hkey
  | case5 state parameters hbound name expandable hname index parameter hkey hrest =>
      rw [hrest] at h
      exact absurd (h.tail (isEnd_of_keyword hname)) not_hasEnd_nil
  | case6 state parameters hbound name expandable hname index parameter hkey equals argument hrest
      hless hequals next hstopped =>
      have hunbound : ¬allKeywordsBound (target.extend more).definition.parameters
          (state.extend more).values = true := hbound
      rw [bindKeywords_of_equals hunbound (extend_rest_cons hrest more) hname hkey
        List.cons_append hequals]
      rw [hrest] at h
      have hargument := (h.tail (isEnd_of_keyword hname)).tail (isEnd_of_isPunct hequals)
      simp only [captureArgument_extend state target index name hargument, State.extend_stopped]
      exact if_pos hstopped
  | case7 state parameters hbound name expandable hname index parameter hkey equals argument hrest
      hless hequals next hstopped _ ih =>
      have hunbound : ¬allKeywordsBound (target.extend more).definition.parameters
          (state.extend more).values = true := hbound
      rw [bindKeywords_of_equals hunbound (extend_rest_cons hrest more) hname hkey
        List.cons_append hequals]
      rw [hrest] at h
      have hargument := (h.tail (isEnd_of_keyword hname)).tail (isEnd_of_isPunct hequals)
      simp only [captureArgument_extend state target index name hargument, State.extend_stopped]
      rw [if_neg hstopped]
      exact ih (hargument.of_leaves (captureArgument_leaves _ _ _ _ _ _))
  | case8 state parameters hbound name expandable hname index parameter hkey equals argument hrest
      hless hequals =>
      have hunbound : ¬allKeywordsBound (target.extend more).definition.parameters
          (state.extend more).values = true := hbound
      rw [bindKeywords_of_not_equals hunbound (extend_rest_cons hrest more) hname hkey
        List.cons_append hequals,
        noteRepeated_extend]
      rw [hrest] at h
      exact endWithoutEquals_extend _ target index name (h.tail (isEnd_of_keyword hname)) more

end Call

/-- The call with more tokens after it. -/
def BoundCall.extend (bound : BoundCall) (more : List Emitted) : BoundCall :=
  { bound with rest := bound.rest ++ more }

@[simp] theorem BoundCall.consumed_extend (bound : BoundCall) (tokens more : List Emitted) :
    (bound.extend more).consumed (tokens ++ more) = bound.consumed tokens := by
  simp only [consumed, extend, List.length_append]
  omega

theorem bindArguments_leaves (d : Definition) (tokens : List Emitted) :
    Call.Leaves tokens (bindArguments d tokens).rest := by
  have hpositionals := Call.bindPositionals_leaves ⟨d, tokens⟩ 0 d.parameters
    { values := d.parameters.map fun _ => none, rest := tokens }
  simp only [bindArguments]
  split
  · exact hpositionals
  · exact hpositionals.trans (Call.bindKeywords_leaves _ _)

/-- The tokens that belong to a call do not end a command. -/
theorem bindArguments_takes (d : Definition) (tokens : List Emitted) :
    ∃ taken, tokens = taken ++ (bindArguments d tokens).rest ∧
      (∀ e ∈ taken, e.token.isEnd = false) ∧
      (bindArguments d tokens).consumed tokens = taken.length := by
  obtain ⟨taken, htokens, htaken⟩ := bindArguments_leaves d tokens
  refine ⟨taken, htokens, htaken, ?_⟩
  have hlength := congrArg List.length htokens
  rw [List.length_append] at hlength
  unfold BoundCall.consumed
  omega

/-- Binding looks at nothing after the end of the command. -/
theorem bindArguments_extend (d : Definition) {tokens : List Emitted} (h : Call.HasEnd tokens)
    (more : List Emitted) :
    bindArguments d (tokens ++ more) = (bindArguments d tokens).extend more := by
  let start : Call.State := { values := d.parameters.map fun _ => none, rest := tokens }
  let positionals := Call.bindPositionals ⟨d, tokens⟩ 0 d.parameters start
  have hpositionals : Call.bindPositionals ⟨d, tokens ++ more⟩ 0 d.parameters
      { values := d.parameters.map fun _ => none, rest := tokens ++ more } =
      positionals.extend more :=
    Call.bindPositionals_extend ⟨d, tokens⟩ 0 d.parameters start h more
  have hend : Call.HasEnd positionals.rest :=
    h.of_leaves (Call.bindPositionals_leaves ⟨d, tokens⟩ 0 d.parameters start)
  have hkeywords : Call.bindKeywords ⟨d, tokens ++ more⟩ (positionals.extend more) =
      (Call.bindKeywords ⟨d, tokens⟩ positionals).extend more :=
    Call.bindKeywords_extend ⟨d, tokens⟩ positionals hend more
  simp only [bindArguments, hpositionals, hkeywords, Call.State.extend_stopped]
  by_cases hstopped : positionals.stopped = true
  · simp only [positionals, start] at hstopped ⊢
    simp only [if_pos hstopped]
    rfl
  · simp only [positionals, start] at hstopped ⊢
    simp only [if_neg hstopped]
    rfl

end CommandMacros

import CommandMacros.Binding
import CommandMacros.Proofs.Body.Reference

/-!
Well-formed calls are decoded. A value is written in a call the way its parameter captures it. A
call is a row of such values: those of the first positional parameters in order, then keyword
arguments, in any order. Binding gives every parameter that is written its value and every other one
its default, reports nothing, and leaves what follows the call.
-/

namespace CommandMacros

namespace Call

/-! ### How a call is written -/

/-- The command ends here, or there is nothing more of it. -/
def AtEnd (tokens : List Emitted) : Prop :=
  ∀ e ∈ tokens.head?, e.token.isEnd = true

/-- How a value is written for a parameter that captures it so. -/
inductive Written : Capture → List Emitted → List Emitted → Prop
  | tokens (value : List Emitted) : Written (.tokens value.length) value value
  | charEnd {delimiter : Token} {value : List Emitted} {ending : Emitted}
      (hdelimiter : delimiter.isEnd = false)
      (hvalue : ∀ e ∈ value, e.token.same delimiter = false)
      (hending : ending.token.same delimiter = true) :
      Written (.charEnd delimiter) value (value ++ [ending])
  | enclose {opening closing : Token} {first last : Emitted} {value : List Emitted}
      (hopening : opening.isEnd = false) (hclosing : closing.isEnd = false)
      (hfirst : first.token.same opening = true)
      (hvalue : ∀ e ∈ value, e.token.same closing = false)
      (hlast : last.token.same closing = true) :
      Written (.enclose opening closing) value (first :: (value ++ [last]))
  | commandEnd {value : List Emitted} (hne : value ≠ []) : Written .commandEnd value value

/-- A value and how it is written before what follows it. It does not end the command, and a value
that takes the rest of the command is the last thing in it. -/
structure WrittenBefore (following : List Emitted) (mode : Capture)
    (value written : List Emitted) : Prop where
  written : Written mode value written
  not_end : ∀ e ∈ value, e.token.isEnd = false
  atEnd : mode = .commandEnd → AtEnd following

/-- Values for the first of the parameters, one after the other, and what follows them. None of them
begins like a keyword argument. -/
inductive WrittenPositionals (parameters : List Parameter) :
    List Parameter → List (List Emitted) → List Emitted → List Emitted → Prop
  | nil {others : List Parameter} {rest : List Emitted} :
      WrittenPositionals parameters others [] rest rest
  | cons {p : Parameter} {others : List Parameter} {values : List (List Emitted)}
      {value written following rest : List Emitted} (hp : p.isPositional = true)
      (hvalue : WrittenBefore following p.capture value written)
      (hname : atKeywordArgument parameters (written ++ following) = false)
      (hothers : WrittenPositionals parameters others values following rest) :
      WrittenPositionals parameters (p :: others) (value :: values) (written ++ following) rest

/-- Keyword arguments, one after the other, each for the parameter with its index, and what follows
them. -/
inductive WrittenKeywords (parameters : List Parameter) :
    List (Nat × List Emitted) → List Emitted → List Emitted → Prop
  | nil {rest : List Emitted} : WrittenKeywords parameters [] rest rest
  | cons {name equals : Emitted} {index : Nat} {p : Parameter}
      {arguments : List (Nat × List Emitted)} {value written following rest : List Emitted}
      (hname : name.token.isIdentifier = true) (hmark : name.token.isMacroId = false)
      (hindex : Parameters.findKeyword? parameters name.token.text = some index)
      (hp : parameters[index]? = some p) (hequals : equals.token.isPunct .equals = true)
      (hvalue : WrittenBefore following p.capture value written)
      (hothers : WrittenKeywords parameters arguments following rest) :
      WrittenKeywords parameters ((index, value) :: arguments)
        (name :: equals :: (written ++ following)) rest

/-- Some keyword parameter is not among the arguments. -/
def LeavesKeyword (parameters : List Parameter) (arguments : List (Nat × List Emitted)) : Prop :=
  ∃ (index : Nat) (p : Parameter), parameters[index]? = some p ∧ p.isPositional = false ∧
    index ∉ arguments.map Prod.fst

/-- The tokens do not begin with the name of a keyword parameter. -/
def BeginsNoArgument (parameters : List Parameter) (tokens : List Emitted) : Prop :=
  ∀ e ∈ tokens.head?, e.token.isIdentifier = true → e.token.isMacroId = false →
    Parameters.findKeyword? parameters e.token.text = none

/-- A well-formed call, and what is left after it. Where positional parameters are left out and no
keyword argument follows, the command ends; else, as long as a keyword parameter is left out, what
follows does not begin like an argument. -/
inductive WrittenCall (parameters : List Parameter) :
    List (List Emitted) → List (Nat × List Emitted) → List Emitted → List Emitted → Prop
  | mk {values : List (List Emitted)} {arguments : List (Nat × List Emitted)}
      {tokens following rest : List Emitted}
      (hpositionals : WrittenPositionals parameters parameters values tokens following)
      (hkeywords : WrittenKeywords parameters arguments following rest)
      (hdistinct : (arguments.map Prod.fst).Nodup)
      (hfewer : values.length < Parameters.positionalCount parameters → arguments = [] →
        AtEnd rest)
      (hrest : ¬(values.length < Parameters.positionalCount parameters ∧ arguments = []) →
        LeavesKeyword parameters arguments → BeginsNoArgument parameters rest) :
      WrittenCall parameters values arguments tokens rest

/-! ### Captures -/

theorem isEnd_of_same {t u : Token} (h : t.same u = true) (hu : u.isEnd = false) :
    t.isEnd = false := by
  rw [Bool.eq_false_iff]
  intro ht
  unfold Token.isEnd at ht hu
  unfold Token.same at h
  split at h <;> simp_all

theorem captureTokens_append {value : List Emitted} (hvalue : ∀ e ∈ value, e.token.isEnd = false)
    (rest : List Emitted) :
    captureTokens value.length (value ++ rest) = ⟨value.map Emitted.token, rest, none⟩ := by
  induction value with
  | nil => rfl
  | cons e value ih =>
      obtain ⟨he, hothers⟩ := List.forall_mem_cons.mp hvalue
      simp [captureTokens, he, ih hothers, Captured.cons]

theorem captureUntil_append {delimiter : Token} {value : List Emitted} {ending : Emitted}
    (hdelimiter : delimiter.isEnd = false) (hvalue : ∀ e ∈ value, e.token.isEnd = false)
    (hother : ∀ e ∈ value, e.token.same delimiter = false)
    (hending : ending.token.same delimiter = true) (rest : List Emitted) :
    captureUntil delimiter (value ++ ending :: rest) =
      (⟨value.map Emitted.token, rest, none⟩, true) := by
  induction value with
  | nil => simp [captureUntil, isEnd_of_same hending hdelimiter, hending]
  | cons e value ih =>
      obtain ⟨he, hothers⟩ := List.forall_mem_cons.mp hvalue
      obtain ⟨hsame, hdifferent⟩ := List.forall_mem_cons.mp hother
      simp [captureUntil, he, hsame, ih hothers hdifferent, Captured.cons]

theorem captureCommand_append {value : List Emitted} (hvalue : ∀ e ∈ value, e.token.isEnd = false)
    {rest : List Emitted} (hrest : AtEnd rest) :
    captureCommand (value ++ rest) = ⟨value.map Emitted.token, rest, none⟩ := by
  induction value with
  | nil =>
      cases rest with
      | nil => rfl
      | cons e rest => simp [captureCommand, hrest e rfl]
  | cons e value ih =>
      obtain ⟨he, hothers⟩ := List.forall_mem_cons.mp hvalue
      simp [captureCommand, he, ih hothers, Captured.cons]

/-- A written value is captured, and no more than that. -/
theorem WrittenBefore.capture_eq {following : List Emitted} {mode : Capture}
    {value written : List Emitted} (h : WrittenBefore following mode value written) :
    capture mode (written ++ following) = ⟨value.map Emitted.token, following, none⟩ := by
  obtain ⟨hwritten, hvalue, hend⟩ := h
  cases hwritten with
  | tokens => exact captureTokens_append hvalue following
  | charEnd hdelimiter hother hending =>
      rw [List.append_assoc, capture]
      exact congrArg Prod.fst (captureUntil_append hdelimiter hvalue hother hending following)
  | @enclose opening closing first last _ hopening hclosing hfirst hother hlast =>
      have hpeek : peek (first :: (value ++ [last]) ++ following) = some first.token := by
        simp [peek, isEnd_of_same hfirst hopening]
      rw [capture, captureEnclosed, hpeek]
      simp only [hfirst, if_true, List.cons_append, List.tail_cons, List.append_assoc]
      rw [List.nil_append, captureUntil_append hclosing hvalue hother hlast]
      rfl
  | commandEnd => exact captureCommand_append hvalue (hend rfl)

/-- A written value has at least one token, and does not begin with the end of the command. -/
theorem WrittenBefore.isNone_peek {following : List Emitted} {mode : Capture}
    {value written : List Emitted} (h : WrittenBefore following mode value written)
    (hmode : mode.Valid) : (peek (written ++ following)).isNone = false := by
  have hpeek {e : Emitted} (he : e.token.isEnd = false) (others : List Emitted) :
      (peek (e :: others)).isNone = false := by
    simp [peek, he]
  obtain ⟨hwritten, hvalue, _⟩ := h
  cases hwritten with
  | tokens =>
      cases value with
      | nil => exact absurd hmode (by simp [Capture.Valid])
      | cons e value => exact hpeek (hvalue e List.mem_cons_self) _
  | charEnd hdelimiter _ hending =>
      cases value with
      | nil => exact hpeek (isEnd_of_same hending hdelimiter) _
      | cons e value => exact hpeek (hvalue e List.mem_cons_self) _
  | enclose hopening _ hfirst => exact hpeek (isEnd_of_same hfirst hopening) _
  | commandEnd hne =>
      cases value with
      | nil => contradiction
      | cons e value => exact hpeek (hvalue e List.mem_cons_self) _

/-! ### Values given so far -/

/-- The values after these arguments are given as well. -/
def assign (values : List (Option (List Token))) (arguments : List (Nat × List Emitted)) :
    List (Option (List Token)) :=
  arguments.foldl (fun given argument =>
    given.set argument.1 (some (argument.2.map Emitted.token))) values

theorem assign_cons (values : List (Option (List Token))) (index : Nat) (value : List Emitted)
    (arguments : List (Nat × List Emitted)) :
    assign values ((index, value) :: arguments) =
      assign (values.set index (some (value.map Emitted.token))) arguments :=
  rfl

theorem length_assign (values : List (Option (List Token)))
    (arguments : List (Nat × List Emitted)) : (assign values arguments).length = values.length := by
  induction arguments generalizing values with
  | nil => rfl
  | cons argument arguments ih =>
      rw [assign_cons, ih, List.length_set]

/-- Arguments change nothing but their own values. -/
theorem getElem?_assign_of_notMem {values : List (Option (List Token))}
    {arguments : List (Nat × List Emitted)} {index : Nat}
    (h : index ∉ arguments.map Prod.fst) : (assign values arguments)[index]? = values[index]? := by
  induction arguments generalizing values with
  | nil => rfl
  | cons argument arguments ih =>
      rw [List.map_cons, List.mem_cons, not_or] at h
      rw [assign_cons, ih h.2, List.getElem?_set_ne (Ne.symm h.1)]

/-- Arguments for different parameters are all kept. -/
theorem getElem?_assign_of_mem {values : List (Option (List Token))}
    {arguments : List (Nat × List Emitted)} (hdistinct : (arguments.map Prod.fst).Nodup)
    {index : Nat} {value : List Emitted} (h : (index, value) ∈ arguments)
    (hindex : index < values.length) :
    (assign values arguments)[index]? = some (some (value.map Emitted.token)) := by
  induction arguments generalizing values with
  | nil => contradiction
  | cons argument arguments ih =>
      obtain ⟨hfirst, hothers⟩ := List.nodup_cons.mp hdistinct
      rcases List.mem_cons.mp h with rfl | hmem
      · rw [assign_cons, getElem?_assign_of_notMem hfirst, List.getElem?_set_self hindex]
      · exact ih hothers hmem (by rwa [List.length_set])

/-- Values by the indices of their parameters, from `index` on. -/
def numbered : Nat → List (List Emitted) → List (Nat × List Emitted)
  | _, [] => []
  | index, value :: values => (index, value) :: numbered (index + 1) values

theorem mem_numbered {index : Nat} {values : List (List Emitted)} {place : Nat}
    {value : List Emitted} :
    (place, value) ∈ numbered index values ↔
      index ≤ place ∧ values[place - index]? = some value := by
  induction values generalizing index with
  | nil => simp [numbered]
  | cons first values ih =>
      rw [numbered, List.mem_cons, ih]
      rcases Nat.lt_trichotomy place index with hlt | rfl | hgt
      · simp only [Prod.mk.injEq]
        omega
      · have hpast : ¬place + 1 ≤ place := by omega
        simp [hpast, eq_comm]
      · obtain ⟨more, rfl⟩ : ∃ more, place = index + (more + 1) := ⟨place - index - 1, by omega⟩
        simp only [Prod.mk.injEq, Nat.add_sub_cancel_left, List.getElem?_cons_succ]
        rw [show index + (more + 1) - (index + 1) = more by omega]
        constructor
        · rintro (⟨h, _⟩ | ⟨_, h⟩)
          · omega
          · exact ⟨by omega, h⟩
        · exact fun h => .inr ⟨by omega, h.2⟩

theorem map_fst_numbered (index : Nat) (values : List (List Emitted)) :
    (numbered index values).map Prod.fst = List.range' index values.length := by
  induction values generalizing index with
  | nil => rfl
  | cons value values ih => rw [numbered, List.map_cons, ih, List.length_cons, List.range'_succ]

/-! ### Positional parameters -/

variable {target : Target} {parameters : List Parameter}

theorem captureInto_written {following : List Emitted} {mode : Capture}
    {value written : List Emitted} (h : WrittenBefore following mode value written) (index : Nat)
    (values : List (Option (List Token))) :
    State.captureInto { values, rest := written ++ following } target index mode =
      { values := values.set index (some (value.map Emitted.token)), rest := following } := by
  rw [State.captureInto]
  dsimp only
  rw [h.capture_eq]

/-- Written values are bound one by one, and binding goes on after them. -/
theorem bindPositionals_written {others : List Parameter} {given : List (List Emitted)}
    {tokens following : List Emitted}
    (h : WrittenPositionals target.definition.parameters others given tokens following)
    (hothers : ∀ p ∈ others, p.capture.Valid) (index : Nat) (values : List (Option (List Token))) :
    bindPositionals target index others { values, rest := tokens } =
      bindPositionals target (index + given.length) (others.drop given.length)
        { values := assign values (numbered index given), rest := following } := by
  induction h generalizing index values with
  | nil => rfl
  | @cons p others given value written following rest hp hvalue hname _ ih =>
      obtain ⟨hmode, hothers⟩ := List.forall_mem_cons.mp hothers
      have hgoes : ((peek (written ++ following)).isNone ||
          atKeywordArgument target.definition.parameters (written ++ following)) = false := by
        rw [hvalue.isNone_peek hmode, hname]
        rfl
      rw [bindPositionals, hp, if_neg (by decide), if_neg (Bool.eq_false_iff.mp hgoes),
        captureInto_written hvalue]
      dsimp only
      rw [if_neg (by decide), ih hothers]
      rw [numbered, assign_cons, List.length_cons, List.drop_succ_cons, Nat.add_right_comm,
        Nat.add_assoc]

/-- The values are for positional parameters. -/
theorem WrittenPositionals.isPositional {others : List Parameter} {given : List (List Emitted)}
    {tokens following : List Emitted}
    (h : WrittenPositionals parameters others given tokens following) {index : Nat}
    (hindex : index < given.length) : ∃ p, others[index]? = some p ∧ p.isPositional = true := by
  induction h generalizing index with
  | nil => contradiction
  | @cons p others _ _ _ _ _ hp _ _ _ ih =>
      cases index with
      | zero => exact ⟨p, rfl, hp⟩
      | succ index => exact ih (Nat.lt_of_succ_lt_succ hindex)

/-- Binding stops at the command's end and at a keyword argument, and with the last positional
parameter. -/
theorem bindPositionals_stop {index : Nat} {others : List Parameter} {state : State}
    (h : ∀ p ∈ others.head?, p.isPositional = true →
      ((peek state.rest).isNone ||
        atKeywordArgument target.definition.parameters state.rest) = true) :
    bindPositionals target index others state = state := by
  cases others with
  | nil => rfl
  | cons p others =>
      rw [bindPositionals]
      by_cases hp : p.isPositional = true
      · rw [hp, if_neg (by decide), if_pos (h p rfl hp)]
      · rw [if_pos (by simpa using hp)]

/-! ### Keyword arguments -/

theorem WrittenKeywords.keyword {arguments : List (Nat × List Emitted)}
    {tokens rest : List Emitted} (h : WrittenKeywords parameters arguments tokens rest)
    {index : Nat} (hindex : index ∈ arguments.map Prod.fst) :
    ∃ p, parameters[index]? = some p ∧ p.isPositional = false := by
  induction h with
  | nil => contradiction
  | @cons _ _ place p _ _ _ _ _ _ _ hplace hp _ _ _ ih =>
      rcases List.mem_cons.mp hindex with rfl | hindex
      · refine ⟨p, hp, ?_⟩
        obtain ⟨hlength, hany, _⟩ := List.findIdx?_eq_some_iff_getElem.mp hplace
        rw [List.getElem?_eq_getElem hlength] at hp
        cases hp
        obtain ⟨name, hkeyword, _⟩ := (Option.any_eq_true _ _).mp hany
        rw [Parameter.isPositional_eq_isNone, hkeyword, Option.isNone_some]
      · exact ih hindex

/-- Keyword parameters are left as long as one of them has no value. -/
theorem not_allKeywordsBound_iff {values : List (Option (List Token))} :
    ¬allKeywordsBound parameters values = true ↔
      ∃ (index : Nat) (p : Parameter), parameters[index]? = some p ∧ p.isPositional = false ∧
        values[index]? = some none := by
  rw [Bool.not_eq_true, allKeywordsBound, List.all_eq_false]
  constructor
  · rintro ⟨⟨p, value⟩, hmem, hfree⟩
    obtain ⟨index, hindex⟩ := List.mem_iff_getElem?.mp hmem
    obtain ⟨hp, hvalue⟩ := List.getElem?_zip_eq_some.mp hindex
    have hboth : p.isPositional = false ∧ value = none := by
      simpa using hfree
    exact ⟨index, p, hp, hboth.1, hboth.2 ▸ hvalue⟩
  · rintro ⟨index, p, hp, hkeyword, hnone⟩
    refine ⟨(p, none), List.mem_of_getElem? (List.getElem?_zip_eq_some.mpr ⟨hp, hnone⟩), ?_⟩
    simp [hkeyword]

/-- A written keyword argument is bound to its parameter if this has no value yet, and binding goes
on after it. -/
theorem bindKeywords_argument {name equals : Emitted} {index : Nat} {p : Parameter}
    {value written following : List Emitted} (hname : name.token.isIdentifier = true)
    (hmark : name.token.isMacroId = false)
    (hindex : Parameters.findKeyword? target.definition.parameters name.token.text = some index)
    (hp : target.definition.parameters[index]? = some p)
    (hequals : equals.token.isPunct .equals = true)
    (hvalue : WrittenBefore following p.capture value written)
    {values : List (Option (List Token))}
    (hbound : ¬allKeywordsBound target.definition.parameters values = true)
    (hfree : values[index]? = some none) :
    bindKeywords target { values, rest := name :: equals :: (written ++ following) } =
      bindKeywords target
        { values := values.set index (some (value.map Emitted.token)), rest := following } := by
  have hkey : keywordParameter? target.definition.parameters name.token.text = some (index, p) := by
    rw [keywordParameter?, hindex, Option.bind_some, hp]
    rfl
  have hplain : ¬(!name.token.isIdentifier || name.token.isMacroId) = true := by
    rw [hname, hmark]
    decide
  rw [bindKeywords_of_equals hbound rfl hplain hkey rfl hequals, State.captureArgument,
    State.noteRepeated, State.value?]
  dsimp only
  rw [hfree, Option.join_some, Option.isSome_none, if_neg Bool.false_ne_true,
    captureInto_written hvalue]
  rfl

/-- Written keyword arguments are bound one by one, and binding goes on after them. -/
theorem bindKeywords_written {arguments : List (Nat × List Emitted)} {tokens rest : List Emitted}
    (h : WrittenKeywords target.definition.parameters arguments tokens rest)
    (hdistinct : (arguments.map Prod.fst).Nodup) {values : List (Option (List Token))}
    (hfree : ∀ index ∈ arguments.map Prod.fst, values[index]? = some none) :
    bindKeywords target { values, rest := tokens } =
      bindKeywords target { values := assign values arguments, rest } := by
  induction h generalizing values with
  | nil => rfl
  | @cons name equals index p arguments value written following rest hname hmark hindex hp hequals
      hvalue hothers ih =>
      obtain ⟨hfirst, hdistinct⟩ := List.nodup_cons.mp hdistinct
      obtain ⟨hnone, hothersFree⟩ := List.forall_mem_cons.mp hfree
      have hkeyword : p.isPositional = false := by
        obtain ⟨q, hq, hpositional⟩ :=
          (WrittenKeywords.cons hname hmark hindex hp hequals hvalue hothers).keyword
            (List.mem_cons_self (a := index))
        rw [hp] at hq
        cases hq
        exact hpositional
      have hbound : ¬allKeywordsBound target.definition.parameters values = true :=
        not_allKeywordsBound_iff.mpr ⟨index, p, hp, hkeyword, hnone⟩
      rw [bindKeywords_argument hname hmark hindex hp hequals hvalue hbound hnone, assign_cons]
      apply ih hdistinct
      intro other hother
      have hne : index ≠ other := by
        rintro rfl
        exact hfirst hother
      rw [List.getElem?_set_ne hne]
      exact hothersFree other hother

/-- Keyword arguments end where none begins, and with the last keyword parameter. -/
theorem bindKeywords_stop {values : List (Option (List Token))} {rest : List Emitted}
    (h : ¬allKeywordsBound target.definition.parameters values = true →
      BeginsNoArgument target.definition.parameters rest) :
    bindKeywords target { values, rest } = { values, rest } := by
  by_cases hbound : allKeywordsBound target.definition.parameters values = true
  · exact bindKeywords_of_allBound hbound
  · cases rest with
    | nil => exact bindKeywords_of_no_tokens rfl
    | cons e rest =>
        by_cases hname : (!e.token.isIdentifier || e.token.isMacroId) = true
        · exact bindKeywords_of_not_name hbound rfl hname
        · have hplain : e.token.isIdentifier = true ∧ e.token.isMacroId = false := by
            simpa using hname
          have hnone := h hbound e rfl hplain.1 hplain.2
          refine bindKeywords_of_no_parameter hbound rfl hname ?_
          rw [keywordParameter?, hnone, Option.bind_none]

/-! ### Calls -/

/-- The arguments of a call are for different parameters: the positional ones come first. -/
theorem nodup_arguments {given : List (List Emitted)} {arguments : List (Nat × List Emitted)}
    {tokens following rest : List Emitted}
    (hpositionals : WrittenPositionals parameters parameters given tokens following)
    (hkeywords : WrittenKeywords parameters arguments following rest)
    (hdistinct : (arguments.map Prod.fst).Nodup) :
    ((numbered 0 given ++ arguments).map Prod.fst).Nodup := by
  rw [List.map_append, map_fst_numbered, List.nodup_append]
  refine ⟨List.nodup_range', hdistinct, ?_⟩
  rintro index hindex _ hargument rfl
  have hlt : index < given.length := by
    simpa using List.mem_range'_1.mp hindex
  obtain ⟨p, hp, hpositional⟩ := hpositionals.isPositional hlt
  obtain ⟨q, hq, hkeyword⟩ := hkeywords.keyword hargument
  rw [hp] at hq
  cases hq
  rw [hpositional] at hkeyword
  contradiction

theorem WrittenPositionals.suffix {others : List Parameter} {given : List (List Emitted)}
    {tokens following : List Emitted}
    (h : WrittenPositionals parameters others given tokens following) : following <:+ tokens := by
  induction h with
  | nil => exact List.suffix_rfl
  | cons _ _ _ _ ih => exact ih.trans (List.suffix_append ..)

theorem WrittenKeywords.suffix {arguments : List (Nat × List Emitted)} {tokens rest : List Emitted}
    (h : WrittenKeywords parameters arguments tokens rest) : rest <:+ tokens := by
  induction h with
  | nil => exact List.suffix_rfl
  | cons _ _ _ _ _ _ _ ih =>
      refine .trans ?_ ((List.suffix_cons ..).trans (List.suffix_cons ..))
      exact ih.trans (List.suffix_append ..)

theorem WrittenKeywords.atKeywordArgument {argument : Nat × List Emitted}
    {arguments : List (Nat × List Emitted)} {tokens rest : List Emitted}
    (h : WrittenKeywords parameters (argument :: arguments) tokens rest) :
    atKeywordArgument parameters tokens = true := by
  cases h with
  | cons hname hmark hindex _ hequals =>
      simp [Call.atKeywordArgument, hname, hmark, hindex, hequals]

theorem isNone_peek_of_atEnd {tokens : List Emitted} (h : AtEnd tokens) :
    (peek tokens).isNone = true := by
  cases tokens with
  | nil => rfl
  | cons e tokens => simp [peek, h e rfl]

theorem BeginsNoArgument.of_atEnd {tokens : List Emitted} (h : AtEnd tokens) :
    BeginsNoArgument parameters tokens := by
  intro e he hname
  have hend := h e he
  rw [Token.isEnd_of_isIdentifier hname] at hend
  contradiction

/-- The values of the parameters of a call with these arguments. -/
def writtenValues (parameters : List Parameter) (arguments : List (Nat × List Emitted)) :
    List (Option (List Token)) :=
  assign (parameters.map fun _ => none) arguments

theorem writtenValues_append (arguments more : List (Nat × List Emitted)) :
    writtenValues parameters (arguments ++ more) =
      assign (writtenValues parameters arguments) more :=
  List.foldl_append

theorem writtenValues_of_mem {arguments : List (Nat × List Emitted)}
    (hdistinct : (arguments.map Prod.fst).Nodup) {index : Nat} {value : List Emitted}
    (h : (index, value) ∈ arguments) {p : Parameter} (hp : parameters[index]? = some p) :
    (writtenValues parameters arguments)[index]? = some (some (value.map Emitted.token)) := by
  apply getElem?_assign_of_mem hdistinct h
  rw [List.length_map]
  exact (List.getElem?_eq_some_iff.mp hp).1

theorem writtenValues_of_notMem {arguments : List (Nat × List Emitted)} {index : Nat}
    (h : index ∉ arguments.map Prod.fst) {p : Parameter} (hp : parameters[index]? = some p) :
    (writtenValues parameters arguments)[index]? = some none := by
  rw [writtenValues, getElem?_assign_of_notMem h, List.getElem?_map, hp]
  rfl

section Call

variable {d : Definition} {given : List (List Emitted)} {arguments : List (Nat × List Emitted)}
  {tokens following rest : List Emitted}
  (hpositionals : WrittenPositionals d.parameters d.parameters given tokens following)
  (hkeywords : WrittenKeywords d.parameters arguments following rest)
  (hfewer : given.length < Parameters.positionalCount d.parameters → arguments = [] → AtEnd rest)

include hpositionals hkeywords hfewer

theorem bindPositionals_call (hvalid : Parameters.Valid d.parameters) :
    bindPositionals ⟨d, tokens⟩ 0 d.parameters
        { values := d.parameters.map fun _ => none, rest := tokens } =
      { values := writtenValues d.parameters (numbered 0 given), rest := following } := by
  rw [bindPositionals_written hpositionals fun p hp => (hvalid.each p hp).capture]
  apply bindPositionals_stop
  intro p hp hpositional
  rw [List.head?_drop] at hp
  obtain ⟨hlength, rfl⟩ := List.getElem?_eq_some_iff.mp hp
  have hcount := Parameters.lt_positionalCount hvalid.ordered hlength hpositional
  cases arguments with
  | nil =>
      cases hkeywords
      rw [isNone_peek_of_atEnd (hfewer hcount rfl), Bool.true_or]
  | cons argument arguments => rw [hkeywords.atKeywordArgument, Bool.or_true]

theorem bindKeywords_call (hdistinct : (arguments.map Prod.fst).Nodup)
    (hrest : ¬(given.length < Parameters.positionalCount d.parameters ∧ arguments = []) →
      LeavesKeyword d.parameters arguments → BeginsNoArgument d.parameters rest) :
    bindKeywords ⟨d, tokens⟩
        { values := writtenValues d.parameters (numbered 0 given), rest := following } =
      { values := writtenValues d.parameters (numbered 0 given ++ arguments), rest } := by
  have hall := nodup_arguments hpositionals hkeywords hdistinct
  have hfree : ∀ index ∈ arguments.map Prod.fst,
      (writtenValues d.parameters (numbered 0 given))[index]? = some none := by
    intro index hindex
    obtain ⟨p, hp, _⟩ := hkeywords.keyword hindex
    refine writtenValues_of_notMem (fun hmem => ?_) hp
    rw [List.map_append, List.nodup_append] at hall
    exact hall.2.2 index hmem index hindex rfl
  rw [bindKeywords_written hkeywords hdistinct hfree, ← writtenValues_append]
  apply bindKeywords_stop
  intro hunbound
  by_cases hshort : given.length < Parameters.positionalCount d.parameters ∧ arguments = []
  · exact .of_atEnd (hfewer hshort.1 hshort.2)
  · -- A keyword parameter without a value is not among the arguments.
    obtain ⟨index, p, hp, hkeyword, hnone⟩ := not_allKeywordsBound_iff.mp hunbound
    refine hrest hshort ⟨index, p, hp, hkeyword, fun hmem => ?_⟩
    obtain ⟨⟨_, value⟩, hargument, rfl⟩ := List.mem_map.mp hmem
    rw [writtenValues_of_mem hall (List.mem_append_right _ hargument) hp] at hnone
    cases Option.some.inj hnone

end Call

/-- All that is written in a call is bound, and no more. -/
theorem WrittenCall.bindArguments_eq {d : Definition} (hvalid : Parameters.Valid d.parameters)
    {given : List (List Emitted)} {arguments : List (Nat × List Emitted)}
    {tokens rest : List Emitted} (h : WrittenCall d.parameters given arguments tokens rest) :
    bindArguments d tokens =
      { bindings := (d.parameters.zip (writtenValues d.parameters
          (numbered 0 given ++ arguments))).map fun entry => entry.1.bind entry.2
        rest
        errors := [] } := by
  obtain ⟨hpositionals, hkeywords, hdistinct, hfewer, hrest⟩ := h
  rw [bindArguments]
  dsimp only
  rw [bindPositionals_call hpositionals hkeywords hfewer hvalid]
  dsimp only
  rw [if_neg Bool.false_ne_true,
    bindKeywords_call hpositionals hkeywords hfewer hdistinct hrest]

end Call

/-- Each parameter is bound to the value given for it, or else to its default, and nothing is
reported. -/
structure BoundCall.Decodes (parameters : List Parameter) (given : List (List Emitted))
    (arguments : List (Nat × List Emitted)) (bound : BoundCall) : Prop where
  length : bound.bindings.length = parameters.length
  positional : ∀ (index : Nat) (p : Parameter) (value : List Emitted),
    parameters[index]? = some p → given[index]? = some value →
      bound.bindings[index]? = some ⟨value.map Emitted.token, !p.noExpand⟩
  keyword : ∀ (index : Nat) (p : Parameter) (value : List Emitted),
    parameters[index]? = some p → (index, value) ∈ arguments →
      bound.bindings[index]? = some ⟨value.map Emitted.token, !p.noExpand⟩
  default : ∀ (index : Nat) (p : Parameter),
    parameters[index]? = some p → given.length ≤ index → index ∉ arguments.map Prod.fst →
      bound.bindings[index]? = some ⟨p.defaultTokens, !p.noExpand⟩
  errors : bound.errors = []

theorem Call.WrittenCall.decodes {d : Definition} (hvalid : Parameters.Valid d.parameters)
    {given : List (List Emitted)} {arguments : List (Nat × List Emitted)}
    {tokens rest : List Emitted} (h : WrittenCall d.parameters given arguments tokens rest) :
    (bindArguments d tokens).Decodes d.parameters given arguments := by
  have hall : ((numbered 0 given ++ arguments).map Prod.fst).Nodup := by
    obtain ⟨hpositionals, hkeywords, hdistinct, _, _⟩ := h
    exact nodup_arguments hpositionals hkeywords hdistinct
  rw [h.bindArguments_eq hvalid]
  have hbinding {index : Nat} {p : Parameter} {value : Option (List Token)}
      (hp : d.parameters[index]? = some p)
      (hvalue : (writtenValues d.parameters (numbered 0 given ++ arguments))[index]? =
        some value) :
      ((d.parameters.zip (writtenValues d.parameters (numbered 0 given ++ arguments))).map
        fun entry => entry.1.bind entry.2)[index]? = some (p.bind value) := by
    rw [List.getElem?_map, List.getElem?_zip_eq_some (z := (p, value)) |>.mpr ⟨hp, hvalue⟩]
    rfl
  refine ⟨?_, fun index p value hp hvalue => ?_, fun index p value hp hvalue => ?_,
    fun index p hp hgiven hargument => ?_, rfl⟩
  · rw [List.length_map, List.length_zip, writtenValues, length_assign, List.length_map,
      Nat.min_self]
  · have hmem : (index, value) ∈ numbered 0 given := mem_numbered.mpr ⟨Nat.zero_le _, hvalue⟩
    exact hbinding hp (writtenValues_of_mem hall (List.mem_append_left _ hmem) hp)
  · exact hbinding hp (writtenValues_of_mem hall (List.mem_append_right _ hvalue) hp)
  · refine hbinding hp (writtenValues_of_notMem (fun hmem => ?_) hp)
    rw [List.map_append, map_fst_numbered, List.mem_append, List.mem_range'_1] at hmem
    rcases hmem with hmem | hmem
    · omega
    · exact hargument hmem

/-- Binding decodes every well-formed call to a macro: each parameter gets the value written for it,
in whatever order the keyword arguments stand, and every other parameter its default; what is read
is the call and nothing of what follows it; and no problem is reported. -/
theorem wellFormed_call_decoded {source : List Token} {d : Definition}
    (hparse : Definition.parse source = .ok d) {given : List (List Emitted)}
    {arguments : List (Nat × List Emitted)} {tokens rest : List Emitted}
    (h : Call.WrittenCall d.parameters given arguments tokens rest) :
    (bindArguments d tokens).Decodes d.parameters given arguments ∧
      (bindArguments d tokens).rest = rest ∧
      ∃ taken, tokens = taken ++ rest ∧
        (bindArguments d tokens).consumed tokens = taken.length := by
  have hvalid := (Definition.parse_eq_ok_iff.mp hparse).2
  have hrest : (bindArguments d tokens).rest = rest := by
    rw [h.bindArguments_eq hvalid]
  refine ⟨h.decodes hvalid, hrest, ?_⟩
  obtain ⟨hpositionals, hkeywords, _, _, _⟩ := h
  obtain ⟨taken, rfl⟩ := hkeywords.suffix.trans hpositionals.suffix
  refine ⟨taken, rfl, ?_⟩
  rw [BoundCall.consumed, hrest, List.length_append, Nat.add_sub_cancel]

/-- A definition whose parameters are delimited in three ways. -/
def fourSource : List Token :=
  tokenize ("DEFINE m (!POSITIONAL !ENCLOSE('(',')') / a !CHAREND('/') / " ++
    "b !DEFAULT(x) !CMDEND / c !CHAREND(';')) !ENDDEFINE.")

def fourParameters : List Parameter :=
  [{ role := .positional
     capture := .enclose (.sign .leftParen ⟨31, 34⟩) (.sign .rightParen ⟨35, 38⟩) },
    { role := .keyword "A", capture := .charEnd (.sign .slash ⟨53, 56⟩) },
    { role := .keyword "B", capture := .commandEnd, default := some [.word "x" ⟨71, 72⟩] },
    { role := .keyword "C", capture := .charEnd (.sign .semicolon ⟨95, 98⟩) }]

/-- A word of a call, without a place. It may name a macro. -/
def emittedWord (text : String) : Emitted :=
  ⟨.word text (.point 0), true⟩

def emittedSign (p : Punct) : Emitted :=
  ⟨.sign p (.point 0), true⟩

/-- `name = value` in a call. -/
def emittedArgument (name : String) (value : List Emitted) : List Emitted :=
  emittedWord name :: emittedSign .equals :: value

/-- `( a = x ) c = b = y ; a = / d`: keyword arguments against the order of their declarations, the
first with another argument inside, the second empty, and the rest of the command after them. -/
def outOfOrderCall : List Emitted :=
  emittedSign .leftParen :: (emittedArgument "a" [emittedWord "x"] ++ [emittedSign .rightParen]) ++
    emittedArgument "c" (emittedArgument "b" [emittedWord "y"] ++ [emittedSign .semicolon] ++
      emittedArgument "a" ([] ++ [emittedSign .slash] ++ [emittedWord "d"]))

theorem writtenCall_outOfOrder :
    Call.WrittenCall fourParameters [emittedArgument "a" [emittedWord "x"]]
      [(3, emittedArgument "b" [emittedWord "y"]), (1, [])] outOfOrderCall [emittedWord "d"] := by
  refine .mk (.cons rfl ⟨.enclose rfl rfl rfl ?_ rfl, ?_, nofun⟩ rfl .nil)
    (.cons rfl rfl ?_ rfl rfl ⟨.charEnd rfl ?_ rfl, ?_, nofun⟩
      (.cons rfl rfl ?_ rfl rfl ⟨.charEnd rfl nofun rfl, nofun, nofun⟩ .nil)) ?_ nofun ?_
  · decide
  · decide
  · decide
  · decide
  · decide
  · decide
  · decide
  · rintro _ _ e ⟨⟩ _ _
    decide

theorem arguments_out_of_order_decoded :
    ∃ d, Definition.parse fourSource = .ok d ∧ d.parameters = fourParameters ∧
      (bindArguments d outOfOrderCall).bindings[0]? =
        some ⟨(emittedArgument "a" [emittedWord "x"]).map Emitted.token, true⟩ ∧
      (bindArguments d outOfOrderCall).bindings[1]? = some ⟨[], true⟩ ∧
      (bindArguments d outOfOrderCall).bindings[2]? = some ⟨[.word "x" ⟨71, 72⟩], true⟩ ∧
      (bindArguments d outOfOrderCall).bindings[3]? =
        some ⟨(emittedArgument "b" [emittedWord "y"]).map Emitted.token, true⟩ ∧
      (bindArguments d outOfOrderCall).rest = [emittedWord "d"] ∧
      (bindArguments d outOfOrderCall).errors = [] := by
  have hparameters : (Definition.parse fourSource).toOption.map Definition.parameters =
      some fourParameters := by
    decide +kernel
  obtain ⟨d, hparse, hfour⟩ := Definition.exists_of_map hparameters
  have hwritten := writtenCall_outOfOrder
  rw [← hfour] at hwritten
  obtain ⟨hdecodes, hrest, _⟩ := wellFormed_call_decoded hparse hwritten
  rw [hfour] at hdecodes
  exact ⟨d, hparse, hfour, hdecodes.positional 0 _ _ rfl rfl,
    hdecodes.keyword 1 _ [] rfl (.tail _ (.head _)),
    hdecodes.default 2 _ rfl (by decide) (by decide),
    hdecodes.keyword 3 _ _ rfl (.head _), hrest, hdecodes.errors⟩

end CommandMacros

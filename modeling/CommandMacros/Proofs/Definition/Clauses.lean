import CommandMacros.Proofs.Definition.Grammar
import CommandMacros.Proofs.Keyword
import CommandMacros.Proofs.Recognition

/-!
The clauses of a declaration are recognised. For each reader, what it gives and leaves is said
exactly, in the terms of the grammar.
-/

namespace CommandMacros.Definition

variable {finish : Span} {tokens rest : List Token}

theorem gives_expectPunct {p : Punct} {cause : DefinitionError} {t : Token} :
    Gives (expectPunct finish p cause tokens) t rest ↔ tokens = t :: rest ∧ t.isPunct p = true :=
  gives_expect

theorem gives_delimiter {d : Token} :
    Gives (delimiter finish tokens) d rest ↔
      ∃ quoted, tokens = quoted :: rest ∧ Quotes quoted d ∧ d.isError = false := by
  refine (gives_bind (fun quoted left => left = rest ∧
    ∃ t, tokenize (quoted.string?.getD "") = [t] ∧ t.isError = false ∧
      d = { t with span := quoted.span }) (fun _ _ => gives_expect) fun quoted _ => ?_).trans ?_
  · split
    · next t htokenize =>
        rw [htokenize]
        split
        · next herror =>
            refine iff_of_false not_gives_error ?_
            rintro ⟨_, _, ⟨⟩, hsound, _⟩
            exact absurd herror (Bool.eq_false_iff.mp hsound)
        · next hsound =>
            rw [gives_pure]
            constructor
            · rintro ⟨rfl, rfl⟩
              exact ⟨rfl, t, rfl, Bool.eq_false_iff.mpr hsound, rfl⟩
            · rintro ⟨rfl, _, ⟨⟩, _, rfl⟩
              exact ⟨rfl, rfl⟩
    · next hsingle =>
        refine iff_of_false not_gives_error ?_
        rintro ⟨_, t, htokenize, _⟩
        exact hsingle t htokenize
  · constructor
    · rintro ⟨quoted, left, ⟨rfl, hstring⟩, rfl, t, htokenize, herror, rfl⟩
      obtain ⟨value, hvalue⟩ := Option.isSome_iff_exists.mp hstring
      rw [hvalue, Option.getD_some] at htokenize
      exact ⟨quoted, rfl, ⟨value, t, hvalue, htokenize, rfl⟩, herror⟩
    · rintro ⟨quoted, rfl, ⟨value, t, hvalue, htokenize, rfl⟩, herror⟩
      refine ⟨quoted, rest, ⟨rfl, by rw [hvalue]; rfl⟩, rfl, t, ?_, herror, rfl⟩
      rw [hvalue, Option.getD_some, htokenize]

theorem gives_defaultTokens {keyword : Span} {value : List Token} :
    Gives (defaultTokens keyword tokens) value rest ↔
      ∃ closing, tokens = value ++ closing :: rest ∧ closing.isPunct .rightParen = true ∧
        ValidDefault value := by
  induction tokens generalizing value rest with
  | nil => simp [defaultTokens]
  | cons t tokens ih =>
      rw [defaultTokens]
      split
      · next hclosing =>
          rw [gives_ok]
          constructor
          · rintro ⟨rfl, rfl⟩
            exact ⟨t, rfl, hclosing, nofun⟩
          · rintro ⟨closing, htokens, _, hvalue⟩
            obtain ⟨rfl, hcons⟩ | ⟨others, rfl, _⟩ := List.cons_eq_append_iff.mp htokens
            · obtain ⟨_, rfl⟩ := List.cons.inj hcons
              exact ⟨rfl, rfl⟩
            · rw [(List.forall_mem_cons.mp hvalue).1.2] at hclosing
              contradiction
      split
      · next hopen hend =>
          refine iff_of_false not_gives_error ?_
          rintro ⟨closing, htokens, hclosing, hvalue⟩
          obtain ⟨rfl, hcons⟩ | ⟨others, rfl, _⟩ := List.cons_eq_append_iff.mp htokens
          · obtain ⟨rfl, rfl⟩ := List.cons.inj hcons
            exact hopen hclosing
          · rw [(List.forall_mem_cons.mp hvalue).1.1] at hend
            contradiction
      · next hopen hend =>
          have ht := And.intro (Bool.eq_false_iff.mpr hend) (Bool.eq_false_iff.mpr hopen)
          refine (gives_bind (fun others left => t :: others = value ∧ left = rest)
            (fun _ _ => ih) fun others _ => gives_pure).trans ?_
          constructor
          · rintro ⟨others, left, ⟨closing, rfl, hclosing, hothers⟩, rfl, rfl⟩
            exact ⟨closing, rfl, hclosing, List.forall_mem_cons.mpr ⟨ht, hothers⟩⟩
          · rintro ⟨closing, htokens, hclosing, hvalue⟩
            obtain ⟨rfl, hcons⟩ | ⟨others, rfl, rfl⟩ := List.cons_eq_append_iff.mp htokens
            · obtain ⟨rfl, rfl⟩ := List.cons.inj hcons
              exact absurd hclosing hopen
            · exact ⟨others, rest, ⟨closing, rfl, hclosing, (List.forall_mem_cons.mp hvalue).2⟩,
                rfl, rfl⟩

theorem gives_count {n : Nat} :
    Gives (count finish tokens) n rest ↔
      ∃ number, tokens = number :: rest ∧ number.integer? = some (n : Int) ∧ 1 ≤ n := by
  cases tokens with
  | nil => simp [count]
  | cons t tokens =>
      rw [count]
      split
      · next m hinteger =>
          split
          · next hpos =>
              rw [gives_ok]
              constructor
              · rintro ⟨rfl, rfl⟩
                refine ⟨t, rfl, ?_, ?_⟩
                · rw [hinteger, Parsed.leaving, Int.toNat_of_nonneg (by omega)]
                · change 1 ≤ m.toNat
                  omega
              · rintro ⟨number, hcons, hnumber, _⟩
                obtain ⟨rfl, rfl⟩ := List.cons.inj hcons
                obtain rfl := Option.some.inj (hinteger.symm.trans hnumber)
                exact ⟨rfl, rfl⟩
          · next hpos =>
              refine iff_of_false not_gives_error ?_
              rintro ⟨number, hcons, hnumber, hle⟩
              obtain ⟨rfl, rfl⟩ := List.cons.inj hcons
              obtain rfl := Option.some.inj (hinteger.symm.trans hnumber)
              omega
      · next hinteger =>
          refine iff_of_false not_gives_error ?_
          rintro ⟨number, hcons, hnumber, _⟩
          obtain ⟨rfl, rfl⟩ := List.cons.inj hcons
          rw [hinteger] at hnumber
          contradiction

theorem gives_delimiterPair {pair : Token × Token} :
    Gives (delimiterPair finish tokens) pair rest ↔
      ∃ first comma last, tokens = first :: comma :: last :: rest ∧ Quotes first pair.1 ∧
        comma.isPunct .comma = true ∧ Quotes last pair.2 ∧ pair.1.isError = false ∧
        pair.2.isError = false := by
  refine (gives_bind (fun opening left => ∃ comma afterComma,
    (left = comma :: afterComma ∧ comma.isPunct .comma = true) ∧
      ∃ closing afterClosing, (∃ quoted, afterComma = quoted :: afterClosing ∧
        Quotes quoted closing ∧ closing.isError = false) ∧
        (opening, closing) = pair ∧ afterClosing = rest)
    (fun _ _ => gives_delimiter) fun opening _ => ?_).trans ?_
  · refine gives_bind (fun comma afterComma => ∃ closing afterClosing,
      (∃ quoted, afterComma = quoted :: afterClosing ∧ Quotes quoted closing ∧
        closing.isError = false) ∧ (opening.value, closing) = pair ∧ afterClosing = rest)
      (fun _ _ => gives_expectPunct) fun comma _ => ?_
    exact gives_bind (fun closing afterClosing =>
      (opening.value, closing) = pair ∧ afterClosing = rest)
      (fun _ _ => gives_delimiter) fun closing _ => gives_pure
  · constructor
    · rintro ⟨opening, _, ⟨first, rfl, hfirst, hopening⟩, comma, _, ⟨rfl, hcomma⟩, closing, _,
        ⟨last, rfl, hlast, hclosing⟩, rfl, rfl⟩
      exact ⟨first, comma, last, rfl, hfirst, hcomma, hlast, hopening, hclosing⟩
    · rintro ⟨first, comma, last, rfl, hfirst, hcomma, hlast, hopening, hclosing⟩
      exact ⟨pair.1, _, ⟨first, rfl, hfirst, hopening⟩, comma, _, ⟨rfl, hcomma⟩, pair.2, _,
        ⟨last, rfl, hlast, hclosing⟩, rfl, rfl⟩

theorem gives_inParens {α : Type} {which : Clause}
    {content : (inner : List Token) → Except Fault (Parsed α inner.length)} {value : α}
    {spells : α → List Token → List Token → Prop}
    (hcontent : ∀ inner value left, Gives (content inner) value left ↔ spells value inner left) :
    Gives (inParens finish which tokens content) value rest ↔
      ∃ opening inner closing, tokens = opening :: inner ∧ opening.isPunct .leftParen = true ∧
        spells value inner (closing :: rest) ∧ closing.isPunct .rightParen = true := by
  refine (gives_bind (fun _ inner => ∃ content left, spells content inner left ∧
    ∃ closing afterClosing, (left = closing :: afterClosing ∧
      closing.isPunct .rightParen = true) ∧ content = value ∧ afterClosing = rest)
    (fun _ _ => gives_expectPunct) fun opening _ => ?_).trans ?_
  · refine gives_bind (fun content left => ∃ closing afterClosing,
      (left = closing :: afterClosing ∧ closing.isPunct .rightParen = true) ∧
        content = value ∧ afterClosing = rest) (hcontent _) fun inner _ => ?_
    exact gives_bind (fun _ afterClosing => inner.value = value ∧ afterClosing = rest)
      (fun _ _ => gives_expectPunct) fun closing _ => gives_pure
  · constructor
    · rintro ⟨opening, inner, ⟨rfl, hopening⟩, _, _, hinner, closing, _, ⟨rfl, hclosing⟩, rfl, rfl⟩
      exact ⟨opening, inner, closing, rfl, hopening, hinner, hclosing⟩
    · rintro ⟨opening, inner, closing, rfl, hopening, hinner, hclosing⟩
      exact ⟨opening, inner, ⟨rfl, hopening⟩, _, _, hinner, closing, _, ⟨rfl, hclosing⟩, rfl, rfl⟩

theorem gives_capture {which : Clause} (hdefault : which ≠ .default) (hnoExpand : which ≠ .noExpand)
    {mode : Capture} :
    Gives (capture finish which tokens) mode rest ↔
      ∃ used, tokens = used ++ rest ∧ Says which used (.capture mode) ∧ mode.Valid := by
  cases which with
  | default => contradiction
  | noExpand => contradiction
  | tokens =>
      refine (gives_bind (fun n left => Capture.tokens n = mode ∧ left = rest)
        (fun _ _ => gives_inParens fun _ _ _ => gives_count) fun _ _ => gives_pure).trans ?_
      constructor
      · rintro ⟨n, left, ⟨opening, _, closing, rfl, hopening, ⟨number, rfl, hnumber, hpos⟩,
          hclosing⟩, rfl, rfl⟩
        exact ⟨_, rfl, .tokens hopening hnumber hclosing, hpos⟩
      · rintro ⟨_, rfl, hsays, hpos⟩
        cases hsays with
        | tokens hopening hnumber hclosing =>
            exact ⟨_, _, ⟨_, _, _, rfl, hopening, ⟨_, rfl, hnumber, hpos⟩, hclosing⟩, rfl, rfl⟩
  | charEnd =>
      refine (gives_bind (fun d left => Capture.charEnd d = mode ∧ left = rest)
        (fun _ _ => gives_inParens fun _ _ _ => gives_delimiter) fun _ _ => gives_pure).trans ?_
      constructor
      · rintro ⟨d, left, ⟨opening, _, closing, rfl, hopening, ⟨quoted, rfl, hquoted, herror⟩,
          hclosing⟩, rfl, rfl⟩
        exact ⟨_, rfl, .charEnd hopening hquoted hclosing, herror⟩
      · rintro ⟨_, rfl, hsays, herror⟩
        cases hsays with
        | charEnd hopening hquoted hclosing =>
            exact ⟨_, _, ⟨_, _, _, rfl, hopening, ⟨_, rfl, hquoted, herror⟩, hclosing⟩, rfl, rfl⟩
  | enclose =>
      refine (gives_bind (fun pair left => Capture.enclose pair.1 pair.2 = mode ∧ left = rest)
        (fun _ _ => gives_inParens fun _ _ _ => gives_delimiterPair) fun _ _ => gives_pure).trans ?_
      constructor
      · rintro ⟨pair, left, ⟨opening, _, closing, rfl, hopening,
          ⟨first, comma, last, rfl, hfirst, hcomma, hlast, herrors⟩, hclosing⟩, rfl, rfl⟩
        exact ⟨_, rfl, .enclose hopening hfirst hcomma hlast hclosing, herrors⟩
      · rintro ⟨_, rfl, hsays, herrors⟩
        cases hsays with
        | enclose hopening hfirst hcomma hlast hclosing =>
            exact ⟨(_, _), _, ⟨_, _, _, rfl, hopening,
              ⟨_, _, _, rfl, hfirst, hcomma, hlast, herrors⟩, hclosing⟩, rfl, rfl⟩
  | commandEnd =>
      refine gives_ok.trans ?_
      constructor
      · rintro ⟨rfl, rfl⟩
        exact ⟨[], rfl, .commandEnd, trivial⟩
      · rintro ⟨_, rfl, ⟨⟩, _⟩
        exact ⟨rfl, rfl⟩

/-- The clauses read before and others together say as much as the clauses read after them. -/
structure Adds (before : Clauses) (said : List Stipulation) (after : Clauses) : Prop where
  default : before.default.toList ++ said.filterMap Stipulation.default? = after.default.toList
  noExpand : (before.noExpand || said.any Stipulation.isNoExpand) = after.noExpand
  capture : before.capture.toList ++ said.filterMap Stipulation.capture? = after.capture.toList

theorem toList_injective {α : Type} {before after : Option α} (h : before.toList = after.toList) :
    before = after := by
  cases before <;> cases after <;> simp_all

theorem adds_nil {before after : Clauses} : Adds before [] after ↔ before = after := by
  constructor
  · rintro ⟨hdefault, hnoExpand, hcapture⟩
    simp only [List.filterMap_nil, List.append_nil, List.any_nil, Bool.or_false] at *
    cases before
    cases after
    rw [Clauses.mk.injEq]
    exact ⟨toList_injective hdefault, hnoExpand, toList_injective hcapture⟩
  · rintro rfl
    exact ⟨List.append_nil _, Bool.or_false _, List.append_nil _⟩

/-- What is there at most once was not there before. -/
theorem toList_append_cons {α : Type} {before after : Option α} {x : α} {xs : List α} :
    before.toList ++ x :: xs = after.toList ↔
      before = none ∧ (some x).toList ++ xs = after.toList := by
  cases before <;> cases after <;> simp

theorem adds_cons_default {before after : Clauses} {value : List Token}
    {others : List Stipulation} :
    Adds before (.default value :: others) after ↔
      before.default = none ∧ Adds { before with default := some value } others after := by
  constructor
  · rintro ⟨hdefault, hnoExpand, hcapture⟩
    obtain ⟨hnone, hdefault⟩ := toList_append_cons.mp hdefault
    exact ⟨hnone, hdefault, hnoExpand, hcapture⟩
  · rintro ⟨hnone, hdefault, hnoExpand, hcapture⟩
    exact ⟨toList_append_cons.mpr ⟨hnone, hdefault⟩, hnoExpand, hcapture⟩

theorem adds_cons_capture {before after : Clauses} {mode : Capture} {others : List Stipulation} :
    Adds before (.capture mode :: others) after ↔
      before.capture = none ∧ Adds { before with capture := some mode } others after := by
  constructor
  · rintro ⟨hdefault, hnoExpand, hcapture⟩
    obtain ⟨hnone, hcapture⟩ := toList_append_cons.mp hcapture
    exact ⟨hnone, hdefault, hnoExpand, hcapture⟩
  · rintro ⟨hnone, hdefault, hnoExpand, hcapture⟩
    exact ⟨hdefault, hnoExpand, toList_append_cons.mpr ⟨hnone, hcapture⟩⟩

theorem adds_cons_noExpand {before after : Clauses} {others : List Stipulation} :
    Adds before (.noExpand :: others) after ↔
      Adds { before with noExpand := true } others after := by
  constructor
  · rintro ⟨hdefault, hnoExpand, hcapture⟩
    exact ⟨hdefault, (Bool.true_or _).trans ((Bool.or_true _).symm.trans hnoExpand), hcapture⟩
  · rintro ⟨hdefault, hnoExpand, hcapture⟩
    exact ⟨hdefault, (Bool.or_true _).trans ((Bool.true_or _).symm.trans hnoExpand), hcapture⟩

theorem adds_cons {before after : Clauses} {first : Stipulation} {others : List Stipulation} :
    Adds before (first :: others) after ↔
      ∃ between, Adds before [first] between ∧ Adds between others after := by
  cases first with
  | default value => simp [adds_cons_default, adds_nil, and_assoc]
  | noExpand => simp [adds_cons_noExpand, adds_nil]
  | capture mode => simp [adds_cons_capture, adds_nil, and_assoc]

theorem gives_clause_default {keyword : Span} {before after : Clauses} :
    Gives (clause finish keyword before .default tokens) after rest ↔
      ∃ used value, tokens = used ++ rest ∧ Says .default used (.default value) ∧
        ValidDefault value ∧ Adds before [.default value] after := by
  rw [clause]
  split
  · next hbefore =>
      refine iff_of_false not_gives_error ?_
      rintro ⟨_, _, _, _, _, hadds⟩
      rw [(adds_cons_default.mp hadds).1] at hbefore
      contradiction
  · next hbefore =>
      have hnone : before.default = none := Option.not_isSome_iff_eq_none.mp hbefore
      refine (gives_bind (fun _ inner => ∃ value left,
        (∃ closing, inner = value ++ closing :: left ∧ closing.isPunct .rightParen = true ∧
          ValidDefault value) ∧ { before with default := some value } = after ∧ left = rest)
        (fun _ _ => gives_expectPunct) fun opening _ => ?_).trans ?_
      · exact gives_bind
          (fun value left => { before with default := some value } = after ∧ left = rest)
          (fun _ _ => gives_defaultTokens) fun _ _ => gives_pure
      · constructor
        · rintro ⟨opening, _, ⟨rfl, hopening⟩, value, _, ⟨closing, rfl, hclosing, hvalid⟩, rfl, rfl⟩
          refine ⟨opening :: (value ++ [closing]), value, ?_, .default hopening hclosing, hvalid,
            adds_cons_default.mpr ⟨hnone, adds_nil.mpr rfl⟩⟩
          rw [List.cons_append, List.append_assoc, List.singleton_append]
        · rintro ⟨_, value, rfl, hsays, hvalid, hadds⟩
          cases hsays with
          | @default opening closing _ hopening hclosing =>
              refine ⟨opening, value ++ closing :: rest, ⟨?_, hopening⟩, value, rest,
                ⟨closing, rfl, hclosing, hvalid⟩, adds_nil.mp (adds_cons_default.mp hadds).2, rfl⟩
              rw [List.cons_append, List.append_assoc, List.singleton_append]

theorem gives_clause_capture {keyword : Span} {before after : Clauses} {which : Clause}
    (hdefault : which ≠ .default) (hnoExpand : which ≠ .noExpand) :
    Gives (clause finish keyword before which tokens) after rest ↔
      ∃ used mode, tokens = used ++ rest ∧ Says which used (.capture mode) ∧ mode.Valid ∧
        Adds before [.capture mode] after := by
  rw [clause]
  split
  · next hbefore =>
      refine iff_of_false not_gives_error ?_
      rintro ⟨_, _, _, _, _, hadds⟩
      rw [(adds_cons_capture.mp hadds).1] at hbefore
      contradiction
  · next hbefore =>
      have hnone : before.capture = none := Option.not_isSome_iff_eq_none.mp hbefore
      refine (gives_bind
        (fun mode left => { before with capture := some mode } = after ∧ left = rest)
        (fun _ _ => gives_capture hdefault hnoExpand) fun _ _ => gives_pure).trans ?_
      constructor
      · rintro ⟨mode, _, ⟨used, rfl, hsays, hvalid⟩, rfl, rfl⟩
        exact ⟨used, mode, rfl, hsays, hvalid, adds_cons_capture.mpr ⟨hnone, adds_nil.mpr rfl⟩⟩
      · rintro ⟨used, mode, rfl, hsays, hvalid, hadds⟩
        exact ⟨mode, rest, ⟨used, rfl, hsays, hvalid⟩,
          adds_nil.mp (adds_cons_capture.mp hadds).2, rfl⟩
  · exact hnoExpand
  · exact hdefault

theorem gives_clause {keyword : Span} {before after : Clauses} {which : Clause} :
    Gives (clause finish keyword before which tokens) after rest ↔
      ∃ used said, tokens = used ++ rest ∧ Says which used said ∧ said.Valid ∧
        Adds before [said] after := by
  by_cases hnoExpand : which = .noExpand
  · subst hnoExpand
    refine gives_ok.trans ?_
    constructor
    · rintro ⟨rfl, rfl⟩
      exact ⟨[], .noExpand, rfl, .noExpand, trivial, adds_cons_noExpand.mpr (adds_nil.mpr rfl)⟩
    · rintro ⟨_, _, rfl, ⟨⟩, _, hadds⟩
      exact ⟨adds_nil.mp (adds_cons_noExpand.mp hadds), rfl⟩
  by_cases hdefault : which = .default
  · subst hdefault
    refine gives_clause_default.trans ?_
    constructor
    · rintro ⟨used, value, h⟩
      exact ⟨used, .default value, h⟩
    · rintro ⟨used, said, htokens, hsays, h⟩
      cases hsays with
      | default hopening hclosing => exact ⟨_, _, htokens, .default hopening hclosing, h⟩
  · refine (gives_clause_capture hdefault hnoExpand).trans ?_
    constructor
    · rintro ⟨used, mode, h⟩
      exact ⟨used, .capture mode, h⟩
    · rintro ⟨used, said, htokens, hsays, h⟩
      obtain ⟨mode, rfl⟩ : ∃ mode, said = .capture mode := by
        cases hsays with
        | default => contradiction
        | noExpand => contradiction
        | _ => exact ⟨_, rfl⟩
      exact ⟨used, mode, htokens, hsays, h⟩

theorem isLongKeyword_keyword (which : Clause) : IsLongKeyword which.keyword := by
  cases which <;> decide

theorem take_keyword_ne {which other : Clause} (h : which ≠ other) :
    which.keyword.toList.take 4 ≠ other.keyword.toList.take 4 := by
  cases which <;> cases other <;> first | contradiction | decide

theorem clauseAt?_eq_some_iff {t : Token} {which : Clause} :
    clauseAt? t = some which ↔ t.abbreviates which.keyword = true := by
  constructor
  · intro h
    have hwhich := List.find?_some h
    exact hwhich
  · intro h
    have hsome : (clauseAt? t).isSome = true :=
      List.find?_isSome.mpr ⟨which, by cases which <;> decide, h⟩
    obtain ⟨found, hfound⟩ := Option.isSome_iff_exists.mp hsome
    have hother := List.find?_some hfound
    by_cases heq : found = which
    · rw [hfound, heq]
    · have hfalse := (isLongKeyword_keyword found).unique (isLongKeyword_keyword which)
        (take_keyword_ne heq) (Bool.and_eq_true_iff.mp hother).2
      rw [Token.abbreviates, hfalse, Bool.and_false] at h
      contradiction

/-- No clause begins here. -/
def NoClause (tokens : List Token) : Prop :=
  ∀ t ∈ tokens.head?, clauseAt? t = none

theorem noClause_cons {t : Token} (h : t.isIdentifier = false) : NoClause (t :: rest) := by
  rintro _ ⟨⟩
  rw [Option.eq_none_iff_forall_ne_some]
  intro which hwhich
  rw [clauseAt?_eq_some_iff, Token.abbreviates, h] at hwhich
  contradiction

/-- Where no clause begins, none is written. -/
theorem writes_of_noClause {before after : Clauses} {tokens : List Token} (h : NoClause tokens) :
    (∃ used said, tokens = used ++ rest ∧ WritesClauses used said ∧ (∀ s ∈ said, s.Valid) ∧
        Adds before said after ∧ NoClause rest) ↔ before = after ∧ tokens = rest := by
  constructor
  · rintro ⟨_, _, rfl, hclauses, _, hadds, _⟩
    cases hclauses with
    | nil => exact ⟨adds_nil.mp hadds, rfl⟩
    | cons hkeyword =>
        have hnone := h _ rfl
        rw [clauseAt?_eq_some_iff.mpr hkeyword] at hnone
        contradiction
  · rintro ⟨rfl, rfl⟩
    exact ⟨[], [], rfl, .nil, List.forall_mem_nil _, adds_nil.mpr rfl, h⟩

theorem gives_clauses {before after : Clauses} {tokens : List Token} :
    Gives (clauses finish before tokens) after rest ↔
      ∃ used said, tokens = used ++ rest ∧ WritesClauses used said ∧ (∀ s ∈ said, s.Valid) ∧
        Adds before said after ∧ NoClause rest := by
  cases tokens with
  | nil =>
      rw [clauses, writes_of_noClause (by rintro _ ⟨⟩), gives_ok]
      rfl
  | cons t tokens =>
      rw [clauses]
      split
      · next hnone =>
          have hnoClause : NoClause (t :: tokens) := by
            rintro _ ⟨⟩
            exact hnone
          rw [writes_of_noClause hnoClause, gives_ok]
          rfl
      · next which hwhich =>
          refine (gives_bind (fun between left => ∃ used said, left = used ++ rest ∧
            WritesClauses used said ∧ (∀ s ∈ said, s.Valid) ∧ Adds between said after ∧
            NoClause rest) (fun _ _ => gives_clause) fun read _ => ?_).trans ?_
          · have := read.shorter
            refine Iff.trans (gives_bind_pure ?_) gives_clauses
            exact fun _ => ⟨rfl, rfl⟩
          · constructor
            · rintro ⟨between, _, ⟨following, first, rfl, hfirst, hvalid, hadds⟩, used, said, rfl,
                hclauses, hothers, haddsOthers, hnoClause⟩
              refine ⟨t :: (following ++ used), first :: said, ?_,
                .cons (clauseAt?_eq_some_iff.mp hwhich) hfirst hclauses,
                List.forall_mem_cons.mpr ⟨hvalid, hothers⟩,
                adds_cons.mpr ⟨between, hadds, haddsOthers⟩, hnoClause⟩
              rw [List.cons_append, List.append_assoc]
            · rintro ⟨_, _, htokens, hclauses, hvalid, hadds, hnoClause⟩
              cases hclauses with
              | nil =>
                  have hrest : t :: tokens = rest := htokens
                  rw [hnoClause t (by rw [← hrest]; rfl)] at hwhich
                  contradiction
              | cons hkeyword hfirst hothers =>
                  obtain ⟨rfl, rfl⟩ := List.cons.inj htokens
                  rw [clauseAt?_eq_some_iff.mpr hkeyword] at hwhich
                  obtain rfl := Option.some.inj hwhich
                  obtain ⟨between, haddsFirst, haddsOthers⟩ := adds_cons.mp hadds
                  obtain ⟨hvalidFirst, hvalidOthers⟩ := List.forall_mem_cons.mp hvalid
                  exact ⟨between, _, ⟨_, _, List.append_assoc .., hfirst, hvalidFirst, haddsFirst⟩,
                    _, _, rfl, hothers, hvalidOthers, haddsOthers, hnoClause⟩
termination_by tokens.length

end CommandMacros.Definition

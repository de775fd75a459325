import CommandMacros.Proofs.Definition.Clauses
import CommandMacros.Proofs.Token.RoundTrip

/-!
Definitions are accepted exactly if they are written by the grammar and their parameters are valid.
The parameters are checked one by one, against the last of those before and against their names;
among parameters in order this is as good as a check against all of them.
-/

namespace CommandMacros

namespace Definition

/-! ### Declarations -/

section Declarations

variable {finish : Span} {previous : List Parameter} {tokens rest : List Token}

/-- A parameter in this role may follow the others, as far as the last of them and their names
tell. -/
def Admits (previous : List Parameter) : Role → Prop
  | .positional => (∀ p ∈ previous, p.isPositional = true) ∧
      ∀ p ∈ previous.getLast?, p.capture ≠ .commandEnd
  | .keyword name => ∀ p ∈ previous, p.keyword? ≠ some name

/-- Among parameters in order, it is enough to look at the last one. -/
theorem admits_iff (hprevious : previous.Pairwise Parameter.Precedes) {p : Parameter} :
    Admits previous p.role ↔ ∀ q ∈ previous, q.Precedes p := by
  cases hrole : p.role with
  | positional =>
      have hpositional : p.isPositional = true := by rw [Parameter.isPositional, hrole]; rfl
      have hkeyword : p.keyword? = none := by rw [Parameter.keyword?, hrole]
      constructor
      · rintro ⟨hall, hlast⟩ q hq
        refine ⟨fun _ => hall q hq, fun _ => ?_, fun name _ => by rw [hkeyword]; nofun⟩
        obtain rfl | ⟨front, last, rfl⟩ := List.eq_nil_or_concat previous
        · contradiction
        rw [List.concat_eq_append] at hprevious hq hall hlast
        obtain hfront | hq := List.mem_append.mp hq
        · -- What comes before a positional parameter cannot take the rest of the command.
          have hprecedes := (List.pairwise_append.mp hprevious).2.2 q hfront last List.mem_cons_self
          exact hprecedes.commandEnd (hall last (List.mem_append_right front List.mem_cons_self))
        · obtain rfl := List.mem_singleton.mp hq
          exact hlast q List.getLast?_concat
      · intro h
        exact ⟨fun q hq => (h q hq).positional hpositional,
          fun q hq => (h q (List.mem_of_getLast? hq)).commandEnd hpositional⟩
  | keyword name =>
      have hpositional : ¬p.isPositional = true := by rw [Parameter.isPositional, hrole]; nofun
      have hkeyword : p.keyword? = some name := by rw [Parameter.keyword?, hrole]
      constructor
      · intro h q hq
        refine ⟨fun hp => absurd hp hpositional, fun hp => absurd hp hpositional, ?_⟩
        intro other hother
        rw [hkeyword]
        rintro ⟨⟩
        exact h q hq hother
      · intro h q hq hname
        exact (h q hq).keyword name hname hkeyword

theorem isLongKeyword_positional : IsLongKeyword "!POSITIONAL" := by
  decide

theorem WritesRole.isIdentifier {t : Token} {r : Role} (h : WritesRole t r) :
    t.isIdentifier = true := by
  cases h with
  | positional h => exact Token.isIdentifier_of_abbreviates h
  | keyword hname _ _ => exact hname

theorem any_keyword_iff :
    (previous.any (!·.isPositional)) = true ↔ ¬∀ p ∈ previous, p.isPositional = true := by
  simp

theorem any_commandEnd_iff {last : Option Parameter} :
    (last.any fun p => p.capture matches .commandEnd) = true ↔
      ¬∀ p ∈ last, p.capture ≠ .commandEnd := by
  cases last with
  | none => simp
  | some p =>
      rw [Option.any_some]
      cases hcapture : p.capture <;> simp [hcapture]

theorem gives_role_positional {t : Token} (ht : t.abbreviates "!POSITIONAL" = true) {r : Role} :
    Gives (role finish previous (t :: tokens)) r rest ↔
      tokens = rest ∧ r = .positional ∧ Admits previous .positional := by
  rw [role, if_pos ht]
  split
  · next hkeyword =>
      refine iff_of_false not_gives_error ?_
      rintro ⟨_, _, hall, _⟩
      exact any_keyword_iff.mp hkeyword hall
  split
  · next hlast =>
      refine iff_of_false not_gives_error ?_
      rintro ⟨_, _, _, hend⟩
      exact any_commandEnd_iff.mp hlast hend
  · next hkeyword hlast =>
      have hall := Classical.not_not.mp (mt any_keyword_iff.mpr hkeyword)
      have hend := Classical.not_not.mp (mt any_commandEnd_iff.mpr hlast)
      rw [gives_ok]
      constructor
      · rintro ⟨rfl, rfl⟩
        exact ⟨rfl, rfl, hall, hend⟩
      · rintro ⟨rfl, rfl, _⟩
        exact ⟨rfl, rfl⟩

theorem declares_iff {name : String} :
    declares previous name = true ↔ ∃ p ∈ previous, p.keyword? = some name := by
  simp only [declares, List.any_eq_true, beq_iff_eq]

theorem admits_keyword_iff {name : String} :
    Admits previous (.keyword name) ↔ ¬declares previous name = true := by
  rw [declares_iff]
  constructor
  · rintro h ⟨p, hp, hname⟩
    exact h p hp hname
  · exact fun h p hp hname => h ⟨p, hp, hname⟩

theorem gives_role_keyword {t : Token} (ht : ¬t.abbreviates "!POSITIONAL" = true) {r : Role} :
    Gives (role finish previous (t :: tokens)) r rest ↔
      tokens = rest ∧ t.isMacroId = false ∧ t.isIdentifier = true ∧ isReserved t.text = false ∧
        r = .keyword (Text.upper t.text) ∧ Admits previous (.keyword (Text.upper t.text)) := by
  rw [role, if_neg ht, admits_keyword_iff]
  split
  · next hmark => simp [hmark]
  split
  · next hmark hname =>
      refine iff_of_false not_gives_error ?_
      rintro ⟨_, _, hidentifier, _⟩
      rw [hidentifier] at hname
      contradiction
  split
  · next hreserved => simp [hreserved]
  split
  · next hdeclares => simp [hdeclares]
  · next hmark hname hreserved hdeclares =>
      have hidentifier : t.isIdentifier = true := by simpa using hname
      rw [gives_ok]
      constructor
      · rintro ⟨rfl, rfl⟩
        exact ⟨rfl, Bool.eq_false_iff.mpr hmark, hidentifier, Bool.eq_false_iff.mpr hreserved, rfl,
          hdeclares⟩
      · rintro ⟨rfl, _, _, _, rfl, _⟩
        exact ⟨rfl, rfl⟩

theorem gives_role {r : Role} :
    Gives (role finish previous tokens) r rest ↔
      ∃ t, tokens = t :: rest ∧ WritesRole t r ∧ Admits previous r := by
  cases tokens with
  | nil => simp [role]
  | cons t tokens =>
      by_cases hpositional : t.abbreviates "!POSITIONAL" = true
      · refine (gives_role_positional hpositional).trans ?_
        constructor
        · rintro ⟨rfl, rfl, hadmits⟩
          exact ⟨t, rfl, .positional hpositional, hadmits⟩
        · rintro ⟨_, ⟨⟩, hrole, hadmits⟩
          cases hrole with
          | positional => exact ⟨rfl, rfl, hadmits⟩
          | keyword _ hmark _ =>
              rw [isLongKeyword_positional.isMacroId hpositional] at hmark
              contradiction
      · refine (gives_role_keyword hpositional).trans ?_
        constructor
        · rintro ⟨rfl, hmark, hname, hreserved, rfl, hadmits⟩
          exact ⟨t, rfl, .keyword hname hmark hreserved, hadmits⟩
        · rintro ⟨_, ⟨⟩, hrole, hadmits⟩
          cases hrole with
          | positional h => contradiction
          | keyword hname hmark hreserved => exact ⟨rfl, hmark, hname, hreserved, rfl, hadmits⟩

theorem WritesParameter.head {used : List Token} {p : Parameter} (h : WritesParameter used p) :
    ∃ t others, used = t :: others ∧ t.isIdentifier = true := by
  cases h with
  | mk hrole => exact ⟨_, _, rfl, hrole.isIdentifier⟩

theorem WritesParameters.head {declared : List Token} {parameters : List Parameter}
    (h : WritesParameters declared parameters) :
    declared = [] ∧ parameters = [] ∨
      ∃ t others, declared = t :: others ∧ t.isIdentifier = true := by
  cases h with
  | nil => exact .inl ⟨rfl, rfl⟩
  | last h => exact .inr h.head
  | cons h _ _ =>
      obtain ⟨t, others, rfl, ht⟩ := h.head
      exact .inr ⟨t, _, rfl, ht⟩

/-- Clauses that say what is captured do not begin with a `=`. -/
theorem WritesClauses.head_ne_equals {used : List Token} {said : List Stipulation}
    (h : WritesClauses used said) {mode : Capture}
    (hcapture : said.filterMap Stipulation.capture? = [mode]) :
    ∀ t ∈ (used ++ rest).head?, t.isPunct .equals = false := by
  cases h with
  | nil => contradiction
  | cons hkeyword =>
      rintro _ ⟨⟩
      exact Token.isPunct_of_isIdentifier (Token.isIdentifier_of_abbreviates hkeyword) _

/-- The clauses of a parameter are valid if what they say of it is. -/
theorem valid_iff {said : List Stipulation} {p : Parameter}
    (hcapture : said.filterMap Stipulation.capture? = [p.capture])
    (hdefault : said.filterMap Stipulation.default? = p.default.toList) :
    (∀ s ∈ said, s.Valid) ↔ p.Valid := by
  have hmem (mode : Capture) : .capture mode ∈ said ↔ mode = p.capture := by
    rw [← List.mem_singleton, ← hcapture, List.mem_filterMap]
    constructor
    · exact fun h => ⟨.capture mode, h, rfl⟩
    · rintro ⟨said, h, heq⟩
      cases said with
      | capture => cases heq; exact h
      | _ => contradiction
  have hmemDefault (value : List Token) : .default value ∈ said ↔ value ∈ p.default := by
    rw [Option.mem_def, ← Option.mem_toList, ← hdefault, List.mem_filterMap]
    constructor
    · exact fun h => ⟨.default value, h, rfl⟩
    · rintro ⟨said, h, heq⟩
      cases said with
      | default => cases heq; exact h
      | _ => contradiction
  constructor
  · intro h
    exact ⟨h _ ((hmem _).mpr rfl), fun value hvalue => h _ ((hmemDefault value).mpr hvalue)⟩
  · rintro ⟨hmode, hvalue⟩ s hs
    cases s with
    | default value => exact hvalue value ((hmemDefault value).mp hs)
    | noExpand => trivial
    | capture mode =>
        obtain rfl := (hmem mode).mp hs
        exact hmode

theorem skipEquals_eq_iff {others : List Token}
    (h : ∀ t ∈ others.head?, t.isPunct .equals = false) :
    skipEquals tokens = others ↔
      ∃ equals : Option Token, tokens = equals.toList ++ others ∧
        ∀ t ∈ equals, t.isPunct .equals = true := by
  constructor
  · rintro rfl
    cases tokens with
    | nil => exact ⟨none, rfl, nofun⟩
    | cons t rest =>
        rw [skipEquals]
        split
        · next ht => exact ⟨some t, rfl, by rintro _ ⟨⟩; exact ht⟩
        · exact ⟨none, rfl, nofun⟩
  · rintro ⟨_ | t, rfl, hequals⟩
    · cases tokens with
      | nil => rfl
      | cons t rest => rw [skipEquals, h t rfl]; rfl
    · rw [Option.toList_some, List.singleton_append, skipEquals, if_pos (hequals t rfl)]

/-- The parameter is made of this role and these clauses. -/
def Makes (r : Role) (read : Clauses) (p : Parameter) : Prop :=
  p.role = r ∧ read.capture = some p.capture ∧ read.default = p.default ∧ read.noExpand = p.noExpand

theorem gives_declaration {p : Parameter} :
    Gives (declaration finish previous tokens) p rest ↔
      ∃ used, tokens = used ++ rest ∧ WritesParameter used p ∧ p.Valid ∧ Admits previous p.role ∧
        NoClause rest := by
  refine (gives_bind (fun r left => ∃ read others, (∃ used said, skipEquals left = used ++ others ∧
    WritesClauses used said ∧ (∀ s ∈ said, s.Valid) ∧ Adds {} said read ∧ NoClause others) ∧
      Makes r read p ∧ others = rest) (fun _ _ => gives_role) fun r _ => ?_).trans ?_
  · refine gives_bind (fun read others => Makes r.value read p ∧ others = rest)
      (fun _ _ => gives_clauses) fun read _ => ?_
    split
    · next hcapture =>
        refine iff_of_false not_gives_error ?_
        rintro ⟨⟨_, h, _⟩, _⟩
        rw [hcapture] at h
        contradiction
    · next mode hcapture =>
        rw [gives_pure]
        constructor
        · rintro ⟨rfl, rfl⟩
          exact ⟨⟨rfl, hcapture, rfl, rfl⟩, rfl⟩
        · rintro ⟨⟨hrole, hmode, hdefault, hnoExpand⟩, rfl⟩
          obtain rfl := Option.some.inj (hcapture.symm.trans hmode)
          refine ⟨?_, rfl⟩
          change Parameter.mk _ _ _ _ = p
          rw [← hrole, hdefault, hnoExpand]
  · constructor
    · rintro ⟨r, left, ⟨name, rfl, hrole, hadmits⟩, read, others, ⟨used, said, hskip, hclauses,
        hvalid, hadds, hnoClause⟩, ⟨rfl, hmode, hvalue, hflag⟩, rfl⟩
      have hcapture : said.filterMap Stipulation.capture? = [p.capture] :=
        hadds.capture.trans (by rw [hmode]; rfl)
      have hdefault : said.filterMap Stipulation.default? = p.default.toList :=
        hadds.default.trans (by rw [hvalue])
      obtain ⟨equals, rfl, hequals⟩ :=
        (skipEquals_eq_iff (hclauses.head_ne_equals hcapture)).mp hskip
      refine ⟨name :: (equals.toList ++ used), ?_, .mk hrole hequals hclauses hcapture hdefault
        (hadds.noExpand.trans hflag), (valid_iff hcapture hdefault).mp hvalid, hadmits, hnoClause⟩
      rw [List.cons_append, List.append_assoc]
    · rintro ⟨_, rfl, hparameter, hvalid, hadmits, hnoClause⟩
      cases hparameter with
      | @mk name equals clauses said _ hrole hequals hclauses hcapture hdefault hnoExpand =>
          refine ⟨p.role, equals.toList ++ (clauses ++ rest), ⟨name, ?_, hrole, hadmits⟩,
            { default := p.default, noExpand := p.noExpand, capture := some p.capture }, rest,
            ⟨clauses, said, ?_, hclauses, (valid_iff hcapture hdefault).mpr hvalid,
              ⟨hdefault, hnoExpand, hcapture⟩, hnoClause⟩, ⟨rfl, rfl, rfl, rfl⟩, rfl⟩
          · rw [List.cons_append, List.append_assoc]
          · exact (skipEquals_eq_iff (hclauses.head_ne_equals hcapture)).mpr ⟨equals, rfl, hequals⟩

theorem pairwise_concat_iff (hprevious : previous.Pairwise Parameter.Precedes) {p : Parameter} :
    (previous ++ [p]).Pairwise Parameter.Precedes ↔ Admits previous p.role := by
  rw [List.pairwise_append, admits_iff hprevious]
  simp [hprevious]

/-- Declarations up to the closing parenthesis make these parameters, together with those before. -/
def Completes (previous : List Parameter) (tokens : List Token) (all : List Parameter)
    (rest : List Token) : Prop :=
  ∃ declared closing parameters, tokens = declared ++ closing :: rest ∧
    closing.isPunct .rightParen = true ∧ WritesParameters declared parameters ∧
    all = previous ++ parameters ∧ (∀ p ∈ parameters, p.Valid) ∧ all.Pairwise Parameter.Precedes

variable {t : Token} {all : List Parameter}

theorem completes_closing (hprevious : previous.Pairwise Parameter.Precedes)
    (ht : t.isPunct .rightParen = true) :
    Completes previous (t :: tokens) all rest ↔ previous = all ∧ tokens = rest := by
  constructor
  · rintro ⟨_, closing, _, htokens, _, hparameters, rfl, _, _⟩
    obtain ⟨rfl, rfl⟩ | ⟨u, others, rfl, hu⟩ := hparameters.head
    · exact ⟨(List.append_nil _).symm, (List.cons.inj htokens).2⟩
    · obtain ⟨rfl, _⟩ := List.cons.inj htokens
      rw [Token.isPunct_of_isIdentifier hu] at ht
      contradiction
  · rintro ⟨rfl, rfl⟩
    exact ⟨[], t, [], rfl, ht, .nil, (List.append_nil _).symm, List.forall_mem_nil _, hprevious⟩

theorem not_completes_end (ht : t.isEnd = true) : ¬Completes previous (t :: tokens) all rest := by
  rintro ⟨_, closing, _, htokens, hclosing, hparameters, _⟩
  obtain ⟨rfl, rfl⟩ | ⟨u, others, rfl, hu⟩ := hparameters.head
  · obtain ⟨rfl, _⟩ := List.cons.inj htokens
    rw [Token.isEnd, eq_of_beq hclosing] at ht
    contradiction
  · obtain ⟨rfl, _⟩ := List.cons.inj htokens
    rw [Token.isEnd_of_isIdentifier hu] at ht
    contradiction

/-- The declarations go on after one of them: they are closed, or others follow. -/
def GoesOn (previous : List Parameter) (tokens : List Token) (all : List Parameter)
    (rest : List Token) : Prop :=
  ∃ t others, tokens = t :: others ∧
    (t.isPunct .rightParen = true ∧ previous = all ∧ others = rest ∨
      t.isPunct .slash = true ∧ Completes previous others all rest)

theorem goesOn_closing (ht : t.isPunct .rightParen = true) :
    GoesOn previous (t :: tokens) all rest ↔ previous = all ∧ tokens = rest := by
  constructor
  · rintro ⟨_, _, ⟨⟩, h | ⟨hslash, _⟩⟩
    · exact h.2
    · rw [Token.isPunct, eq_of_beq ht] at hslash
      contradiction
  · exact fun h => ⟨t, tokens, rfl, .inl ⟨ht, h⟩⟩

theorem goesOn_slash (ht : t.isPunct .slash = true) :
    GoesOn previous (t :: tokens) all rest ↔ Completes previous tokens all rest := by
  constructor
  · rintro ⟨_, _, ⟨⟩, ⟨hclosing, _⟩ | h⟩
    · rw [Token.isPunct, eq_of_beq ht] at hclosing
      contradiction
    · exact h.2
  · exact fun h => ⟨t, tokens, rfl, .inr ⟨ht, h⟩⟩

theorem not_goesOn (hclosing : ¬t.isPunct .rightParen = true) (hslash : ¬t.isPunct .slash = true) :
    ¬GoesOn previous (t :: tokens) all rest := by
  rintro ⟨_, _, ⟨⟩, ⟨h, _⟩ | ⟨h, _⟩⟩ <;> contradiction

theorem completes_declaration (hprevious : previous.Pairwise Parameter.Precedes)
    (ht : ¬t.isPunct .rightParen = true) :
    Completes previous (t :: tokens) all rest ↔
      ∃ p left, (∃ used, t :: tokens = used ++ left ∧ WritesParameter used p ∧ p.Valid ∧
        Admits previous p.role ∧ NoClause left) ∧ GoesOn (previous ++ [p]) left all rest := by
  constructor
  · rintro ⟨_, closing, _, htokens, hclosing, hparameters, rfl, hvalid, hordered⟩
    have hnoClause {u : Token} {p : Punct} {others : List Token} (hu : u.isPunct p = true) :
        NoClause (u :: others) := noClause_cons (Token.isIdentifier_of_isPunct hu)
    cases hparameters with
    | nil =>
        obtain ⟨rfl, _⟩ := List.cons.inj htokens
        contradiction
    | last hp =>
        have hadmits := (pairwise_concat_iff hprevious).mp hordered
        exact ⟨_, _, ⟨_, htokens, hp, hvalid _ List.mem_cons_self, hadmits, hnoClause hclosing⟩,
          closing, rest, rfl, .inl ⟨hclosing, rfl, rfl⟩⟩
    | cons hp hslash hothers =>
        rw [List.append_cons] at hordered ⊢
        rw [List.append_assoc, List.cons_append] at htokens
        have hadmits := (pairwise_concat_iff hprevious).mp (List.pairwise_append.mp hordered).1
        obtain ⟨hpValid, hothersValid⟩ := List.forall_mem_cons.mp hvalid
        exact ⟨_, _, ⟨_, htokens, hp, hpValid, hadmits, hnoClause hslash⟩, _, _, rfl,
          .inr ⟨hslash, _, closing, _, rfl, hclosing, hothers, rfl, hothersValid, hordered⟩⟩
  · rintro ⟨p, _, ⟨used, htokens, hp, hpValid, hadmits, _⟩, u, others, rfl, hend | hmore⟩
    · obtain ⟨hu, rfl, rfl⟩ := hend
      exact ⟨used, u, [p], htokens, hu, .last hp, rfl,
        fun q hq => by rwa [List.mem_singleton.mp hq], (pairwise_concat_iff hprevious).mpr hadmits⟩
    · obtain ⟨hu, declared, closing, parameters, rfl, hclosing, hothers, rfl, hvalid, hordered⟩ :=
        hmore
      refine ⟨used ++ u :: declared, closing, p :: parameters, ?_, hclosing, .cons hp hu hothers,
        (List.append_cons ..).symm, List.forall_mem_cons.mpr ⟨hpValid, hvalid⟩, hordered⟩
      rw [htokens, List.append_assoc, List.cons_append]

theorem gives_declarations {previous : List Parameter} {tokens : List Token}
    (hprevious : previous.Pairwise Parameter.Precedes) :
    Gives (declarations finish previous tokens) all rest ↔ Completes previous tokens all rest := by
  cases tokens with
  | nil => simp [declarations, Completes]
  | cons t tokens =>
      rw [declarations]
      split
      · next hclosing => exact gives_ok.trans (completes_closing hprevious hclosing).symm
      split
      · next hend => exact iff_of_false not_gives_error (not_completes_end hend)
      · next hopen hend =>
          refine (gives_bind (fun p left => GoesOn (previous ++ [p]) left all rest)
            (fun _ _ => gives_declaration) fun read hread => ?_).trans
            (completes_declaration hprevious hopen).symm
          obtain ⟨_, _, _, _, hadmits, _⟩ := hread
          have hordered := (pairwise_concat_iff hprevious).mpr hadmits
          split
          · next hrest =>
              refine iff_of_false not_gives_error ?_
              rintro ⟨_, _, h, _⟩
              rw [hrest] at h
              contradiction
          · next u others hrest =>
              refine Iff.trans ?_ (Iff.of_eq (congrArg (GoesOn _ · all rest) hrest.symm))
              split
              · next hclosing => exact gives_pure.trans (goesOn_closing hclosing).symm
              split
              · next hslash =>
                  refine Iff.trans (gives_bind_pure ?_)
                    ((gives_declarations hordered).trans (goesOn_slash hslash).symm)
                  exact fun _ => ⟨rfl, rfl⟩
              · next hclosing hslash =>
                  exact iff_of_false not_gives_error (not_goesOn hclosing hslash)
termination_by tokens.length
decreasing_by exact Parsed.rest_succ_le_of_rest_eq ‹_›

end Declarations

/-! ### Definitions -/

theorem splitBody?_eq_some_iff {tokens body tail : List Token} :
    splitBody? tokens = some (body, tail) ↔
      ∃ finish, tokens = body ++ finish :: tail ∧ finish.matchesKeyword "!ENDDEFINE" = true ∧
        ∀ t ∈ body, t.matchesKeyword "!ENDDEFINE" = false := by
  induction tokens generalizing body with
  | nil => simp [splitBody?]
  | cons t tokens ih =>
      rw [splitBody?]
      split
      · next hfinish =>
          constructor
          · rintro ⟨⟩
            exact ⟨t, rfl, hfinish, List.forall_mem_nil _⟩
          · rintro ⟨finish, htokens, _, hbody⟩
            obtain ⟨rfl, hcons⟩ | ⟨others, rfl, _⟩ := List.cons_eq_append_iff.mp htokens
            · obtain ⟨_, rfl⟩ := List.cons.inj hcons
              rfl
            · rw [(List.forall_mem_cons.mp hbody).1] at hfinish
              contradiction
      · next hother =>
          rw [Option.map_eq_some_iff]
          constructor
          · rintro ⟨⟨front, _⟩, hsplit, ⟨⟩⟩
            obtain ⟨finish, rfl, hfinish, hfront⟩ := ih.mp hsplit
            exact ⟨finish, rfl, hfinish,
              List.forall_mem_cons.mpr ⟨Bool.eq_false_iff.mpr hother, hfront⟩⟩
          · rintro ⟨finish, htokens, hfinish, hbody⟩
            obtain ⟨rfl, hcons⟩ | ⟨others, rfl, rfl⟩ := List.cons_eq_append_iff.mp htokens
            · obtain ⟨rfl, _⟩ := List.cons.inj hcons
              exact absurd hfinish hother
            · exact ⟨(others, tail),
                ih.mpr ⟨finish, rfl, hfinish, (List.forall_mem_cons.mp hbody).2⟩, rfl⟩

theorem checkTail_eq_ok_iff {tail : List Token} :
    checkTail tail = .ok () ↔
      ∃ stop : Option Token, tail = stop.toList ∧ ∀ t ∈ stop, t.isEnd = true := by
  cases tail with
  | nil => exact iff_of_true rfl ⟨none, rfl, by rintro _ ⟨⟩⟩
  | cons t rest =>
      rw [checkTail]
      by_cases hend : t.isEnd = true
      · rw [if_pos hend]
        cases rest with
        | nil => exact iff_of_true rfl ⟨some t, rfl, by rintro _ ⟨⟩; exact hend⟩
        | cons u others =>
            refine iff_of_false (by rintro ⟨⟩) ?_
            rintro ⟨_ | _, ⟨⟩, _⟩
      · rw [if_neg hend]
        refine iff_of_false (by rintro ⟨⟩) ?_
        rintro ⟨_ | _, ⟨⟩, h⟩
        exact hend (h t rfl)

theorem finishOf_writes {start name opening closing finish : Token} {stop : Option Token}
    {declared body : List Token} :
    finishOf
        (start :: name :: opening :: (declared ++ closing :: (body ++ finish :: stop.toList))) =
      (stop.getD finish).span.after := by
  have hlast : (finish :: stop.toList).getLast? = some (stop.getD finish) := by
    cases stop <;> rfl
  rw [finishOf]
  simp only [List.getLast?_cons, List.getLast?_append, hlast, Option.some_or, Option.getD_some]

/-- What is left after the parameter list is a body and its end, and makes this definition. -/
def Closes (finish : Span) (name : Token) (parameters : List Parameter) (tokens : List Token)
    (d : Definition) : Prop :=
  ∃ body tail, splitBody? tokens = some (body, tail) ∧ checkTail tail = .ok () ∧
    { name := name.text
      span := ⟨name.span.start, finish.stop⟩
      parameters
      body := Body.compile parameters body } = d

theorem parse_eq_ok_iff_closes {tokens : List Token} {d : Definition} :
    parse tokens = .ok d ↔ ∃ start name opening inner parameters left,
      tokens = start :: name :: opening :: inner ∧ start.matchesKeyword "DEFINE" = true ∧
        name.isIdentifier = true ∧ opening.isPunct .leftParen = true ∧
        Completes [] inner parameters left ∧ Closes (finishOf tokens) name parameters left d := by
  refine (bind_eq_ok_iff (fun _ afterStart => ∃ name afterName,
    (afterStart = name :: afterName ∧ name.isIdentifier = true) ∧ ∃ opening inner,
      (afterName = opening :: inner ∧ opening.isPunct .leftParen = true) ∧
      ∃ parameters left, Completes [] inner parameters left ∧
        Closes (finishOf tokens) name parameters left d)
    (fun _ _ => gives_expect) fun start _ => ?_).trans ?_
  · refine bind_eq_ok_iff (fun name afterName => ∃ opening inner,
      (afterName = opening :: inner ∧ opening.isPunct .leftParen = true) ∧
      ∃ parameters left, Completes [] inner parameters left ∧
        Closes (finishOf tokens) name parameters left d) (fun _ _ => gives_expect) fun name _ => ?_
    refine bind_eq_ok_iff (fun _ inner => ∃ parameters left, Completes [] inner parameters left ∧
      Closes (finishOf tokens) name.value parameters left d) (fun _ _ => gives_expectPunct)
      fun opening _ => ?_
    refine bind_eq_ok_iff (fun parameters left =>
      Closes (finishOf tokens) name.value parameters left d)
      (fun _ _ => gives_declarations .nil) fun parameters _ => ?_
    split
    · next hnone =>
        refine iff_of_false nofun ?_
        rintro ⟨_, _, hsplit, _⟩
        rw [hnone] at hsplit
        contradiction
    · next body tail hsplit =>
        constructor
        · intro h
          cases hcheck : checkTail tail with
          | error fault =>
              rw [hcheck] at h
              contradiction
          | ok =>
              rw [hcheck] at h
              exact ⟨body, tail, hsplit, hcheck, Except.ok.inj h⟩
        · rintro ⟨_, _, hsplit', hcheck, rfl⟩
          obtain ⟨rfl, rfl⟩ := Prod.mk.inj (Option.some.inj (hsplit.symm.trans hsplit'))
          rw [hcheck]
          rfl
  · constructor
    · rintro ⟨start, _, ⟨rfl, hstart⟩, name, _, ⟨rfl, hname⟩, opening, inner, ⟨rfl, hopening⟩,
        parameters, left, hcompletes, hcloses⟩
      exact ⟨start, name, opening, inner, parameters, left, rfl, hstart, hname, hopening,
        hcompletes, hcloses⟩
    · rintro ⟨start, name, opening, inner, parameters, left, rfl, hstart, hname, hopening,
        hcompletes, hcloses⟩
      exact ⟨start, _, ⟨rfl, hstart⟩, name, _, ⟨rfl, hname⟩, opening, inner, ⟨rfl, hopening⟩,
        parameters, left, hcompletes, hcloses⟩

/-- A definition is made exactly of tokens that write one with valid parameters. -/
theorem parse_eq_ok_iff {tokens : List Token} {d : Definition} :
    parse tokens = .ok d ↔ Writes tokens d ∧ Parameters.Valid d.parameters := by
  rw [parse_eq_ok_iff_closes]
  constructor
  · rintro ⟨start, name, opening, _, _, _, rfl, hstart, hname, hopening,
      ⟨declared, closing, parameters, rfl, hclosing, hparameters, rfl, hvalid, hordered⟩, body,
      tail, hsplit, hcheck, rfl⟩
    obtain ⟨finish, rfl, hfinish, hbody⟩ := splitBody?_eq_some_iff.mp hsplit
    obtain ⟨stop, rfl, hstop⟩ := checkTail_eq_ok_iff.mp hcheck
    refine ⟨?_, hvalid, hordered⟩
    have hwrites := Writes.mk hstart hname hopening hparameters hclosing hbody hfinish hstop
    rw [finishOf_writes]
    exact hwrites
  · rintro ⟨hwrites, hvalid, hordered⟩
    cases hwrites with
    | mk hstart hname hopening hparameters hclosing hbody hfinish hstop =>
        refine ⟨_, _, _, _, _, _, rfl, hstart, hname, hopening,
          ⟨_, _, _, rfl, hclosing, hparameters, rfl, hvalid, hordered⟩, _, _,
          splitBody?_eq_some_iff.mpr ⟨_, rfl, hfinish, hbody⟩,
          checkTail_eq_ok_iff.mpr ⟨_, rfl, hstop⟩, ?_⟩
        rw [finishOf_writes]
        rfl

/-- A name, declared parameters and a body make a definition in the usual spelling of the rest. -/
theorem writes_definition {name : Token} {declared body : List Token} {parameters : List Parameter}
    (hname : name.isIdentifier = true) (hdeclared : WritesParameters declared parameters)
    (hbody : ∀ t ∈ body, t.matchesKeyword "!ENDDEFINE" = false) :
    Writes
      (.word "DEFINE" (.point 0) :: name :: .sign .leftParen (.point 0) ::
        (declared ++ .sign .rightParen (.point 0) :: (body ++ [.word "!ENDDEFINE" (.point 0)])))
      { name := name.text
        span := ⟨name.span.start, 0⟩
        parameters
        body := Body.compile parameters body } :=
  @Writes.mk _ name _ _ _ none declared body parameters (by decide) hname
    (Token.isPunct_sign .leftParen (.point 0)) hdeclared
    (Token.isPunct_sign .rightParen (.point 0)) hbody (by decide) nofun

/-- A definition is accepted if something is known of what it gives. -/
theorem exists_of_map {α : Type} {tokens : List Token} {f : Definition → α} {x : α}
    (h : (parse tokens).toOption.map f = some x) : ∃ d, parse tokens = .ok d ∧ f d = x := by
  cases hparse : parse tokens with
  | error f =>
      rw [hparse] at h
      contradiction
  | ok d =>
      rw [hparse] at h
      exact ⟨d, rfl, Option.some.inj h⟩

/-! ### Names of keyword parameters -/

section Names

/-- The neighbours are the name of a keyword parameter and what follows it in its declaration. -/
structure Names (t u : Token) (name : String) : Prop where
  isIdentifier : t.isIdentifier = true
  isMacroId : t.isMacroId = false
  isReserved : isReserved t.text = false
  name_eq : name = Text.upper t.text
  next : u.isIdentifier = true ∨ u.isPunct .equals = true

theorem WritesParameter.names {used : List Token} {p : Parameter} (h : WritesParameter used p)
    {name : String} (hp : p.role = .keyword name) : ∃ t u, [t, u] <:+: used ∧ Names t u name := by
  cases h with
  | @mk t equals clauses said _ hrole hequals hclauses hcapture =>
      rw [hp] at hrole
      cases hrole with
      | keyword hname hmark hreserved =>
          cases equals with
          | some u =>
              exact ⟨t, u, ⟨[], clauses, rfl⟩, hname, hmark, hreserved, rfl, .inr (hequals u rfl)⟩
          | none =>
              cases hclauses with
              | nil => contradiction
              | @cons _ u following others _ _ hkeyword =>
                  exact ⟨t, u, ⟨[], following ++ others, rfl⟩, hname, hmark, hreserved, rfl,
                    .inl (Token.isIdentifier_of_abbreviates hkeyword)⟩

theorem WritesParameters.names {declared : List Token} {parameters : List Parameter}
    (h : WritesParameters declared parameters) {p : Parameter} (hp : p ∈ parameters)
    {name : String} (hname : p.role = .keyword name) :
    ∃ t u, [t, u] <:+: declared ∧ Names t u name := by
  induction h with
  | nil => contradiction
  | last h =>
      obtain rfl := List.mem_singleton.mp hp
      exact h.names hname
  | @cons tokens others _ _ slash h _ _ ih =>
      obtain rfl | hp := List.mem_cons.mp hp
      · obtain ⟨t, u, hpart, hnames⟩ := h.names hname
        exact ⟨t, u, hpart.trans (List.prefix_append ..).isInfix, hnames⟩
      · obtain ⟨t, u, hpart, hnames⟩ := ih hp
        refine ⟨t, u, hpart.trans ?_, hnames⟩
        exact ((List.suffix_cons ..).trans (List.suffix_append ..)).isInfix

theorem Writes.names {tokens : List Token} {d : Definition} (h : Writes tokens d) {p : Parameter}
    (hp : p ∈ d.parameters) {name : String} (hname : p.role = .keyword name) :
    ∃ t u, [t, u] <:+: tokens ∧ Names t u name := by
  cases h with
  | mk _ _ _ hparameters =>
      obtain ⟨t, u, hpart, hnames⟩ := hparameters.names hp hname
      exact ⟨t, u, hpart.trans ⟨[_, _, _], _, rfl⟩, hnames⟩

end Names

end Definition

end CommandMacros

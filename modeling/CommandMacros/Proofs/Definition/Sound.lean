import CommandMacros.Definition.Parse
import CommandMacros.Proofs.Body.Compile
import CommandMacros.Table

/-!
Definitions are sound. Whatever the tokens of a `DEFINE` are, the definition made of them has a
well-formed body, and its place, its defaults and the parts of its body lie where its tokens do; or
it is rejected at such a place.
-/

namespace CommandMacros

/-- A definition that lies in the region and whose body is well formed. -/
structure Definition.Sound (region : Region) (d : Definition) : Prop where
  span_mem : d.span ∈ region
  defaults : ∀ p ∈ d.parameters, Placed region p.defaultTokens
  body : TreeWellFormed ⟨d.parameters, region⟩ false d.body

/-- Every macro of the table is sound. -/
def Table.Sound (region : Region) (table : Table) : Prop :=
  ∀ entry ∈ table.entries, entry.2.Sound region

/-- No token begins after the last one ends. -/
def WithinFinish (tokens : List Token) : Prop :=
  ∀ t ∈ tokens, t.span.start ≤ (finishOf tokens).stop

namespace Definition

variable {region : Region} {finish : Span} (hfinish : finish ∈ region) {tokens : List Token}

/-! ### Clauses -/

section Clauses

theorem reads_defaultTokens {keyword : Span} (hkeyword : keyword ∈ region)
    (h : Placed region tokens) : Reads region (Placed region) (defaultTokens keyword tokens) := by
  induction tokens with
  | nil => exact hkeyword
  | cons t rest ih =>
      rw [defaultTokens]
      split
      · exact ⟨.nil region, h.tail⟩
      split
      · exact hkeyword
      · refine (ih h.tail).bind ?_
        rintro others ⟨hothers, hrest⟩
        exact ⟨hothers.cons h.head, hrest⟩

include hfinish

theorem reads_expectPunct (p : Punct) (cause : DefinitionError) (h : Placed region tokens) :
    Reads region (fun _ => True) (expectPunct finish p cause tokens) :=
  (reads_expect hfinish _ _ h).mono fun _ hparsed => ⟨trivial, hparsed.2⟩

theorem reads_delimiter (h : Placed region tokens) :
    Reads region (fun _ => True) (delimiter finish tokens) := by
  refine (reads_expect hfinish _ _ h).bind ?_
  rintro quoted ⟨⟨_, hquoted⟩, hrest⟩
  split
  · split
    · exact hquoted
    · exact ⟨trivial, hrest⟩
  · exact hquoted

theorem reads_inParens {α : Type} {condition : α → Prop} (clause : Clause)
    {content : (inner : List Token) → Except Fault (Parsed α inner.length)}
    (hcontent : ∀ inner, Placed region inner → Reads region condition (content inner))
    (h : Placed region tokens) :
    Reads region condition (inParens finish clause tokens content) := by
  refine (reads_expectPunct hfinish _ _ h).bind fun opening hopening => ?_
  refine (hcontent opening.rest hopening.2).bind fun inner hinner => ?_
  refine (reads_expectPunct hfinish _ _ hinner.2).bind fun closing hclosing => ?_
  exact ⟨hinner.1, hclosing.2⟩

theorem reads_count (h : Placed region tokens) :
    Reads region (fun _ => True) (count finish tokens) := by
  cases tokens with
  | nil => exact hfinish
  | cons t rest =>
      rw [count]
      split
      · split
        · exact ⟨trivial, h.tail⟩
        · exact h.head
      · exact h.head

theorem reads_delimiterPair (h : Placed region tokens) :
    Reads region (fun _ => True) (delimiterPair finish tokens) := by
  refine (reads_delimiter hfinish h).bind fun opening hopening => ?_
  refine (reads_expectPunct hfinish _ _ hopening.2).bind fun comma hcomma => ?_
  refine (reads_delimiter hfinish hcomma.2).bind fun closing hclosing => ?_
  exact ⟨trivial, hclosing.2⟩

theorem reads_capture (clause : Clause) (h : Placed region tokens) :
    Reads region (fun _ => True) (capture finish clause tokens) := by
  unfold capture
  split
  · exact (reads_inParens hfinish _ (fun _ => reads_count hfinish) h).bind fun _ hn => hn
  · exact (reads_inParens hfinish _ (fun _ => reads_delimiter hfinish) h).bind fun _ hlast => hlast
  · exact (reads_inParens hfinish _ (fun _ => reads_delimiterPair hfinish) h).bind
      fun _ hpair => hpair
  · exact ⟨trivial, h⟩

/-- The default, if there is one, lies in the region. -/
def Clauses.In (region : Region) (clauses : Clauses) : Prop :=
  ∀ tokens ∈ clauses.default, Placed region tokens

omit hfinish in
theorem Clauses.In.getD {clauses : Clauses} (h : clauses.In region) :
    Placed region (clauses.default.getD []) := by
  cases hdefault : clauses.default with
  | none => exact .nil region
  | some tokens => exact h tokens hdefault

theorem reads_clause {keyword : Span} (hkeyword : keyword ∈ region) {before : Clauses}
    (hbefore : before.In region) (which : Clause) (h : Placed region tokens) :
    Reads region (Clauses.In region) (clause finish keyword before which tokens) := by
  unfold clause
  split
  · exact ⟨hbefore, h⟩
  · split
    · exact hkeyword
    · refine (reads_expectPunct hfinish _ _ h).bind fun opening hopening => ?_
      refine (reads_defaultTokens hkeyword hopening.2).bind fun value hvalue => ?_
      refine ⟨?_, hvalue.2⟩
      rintro others ⟨⟩
      exact hvalue.1
  · split
    · exact hkeyword
    · exact (reads_capture hfinish which h).bind fun captured hcaptured => ⟨hbefore, hcaptured.2⟩

theorem reads_clauses {before : Clauses} (hbefore : before.In region) {tokens : List Token}
    (h : Placed region tokens) :
    Reads region (Clauses.In region) (clauses finish before tokens) := by
  cases tokens with
  | nil =>
      rw [clauses]
      exact ⟨hbefore, h⟩
  | cons t rest =>
      rw [clauses]
      split
      · exact ⟨hbefore, h⟩
      · next which _ =>
          refine (reads_clause hfinish h.head hbefore which h.tail).bind fun read hread => ?_
          have := read.shorter
          exact (reads_clauses hread.1 hread.2).bind fun _ hothers => hothers
termination_by tokens.length

end Clauses

/-! ### Declarations -/

theorem placed_skipEquals (h : Placed region tokens) : Placed region (skipEquals tokens) := by
  cases tokens with
  | nil => exact h
  | cons t rest =>
      rw [skipEquals]
      split
      · exact h.tail
      · exact h

include hfinish

theorem reads_role (previous : List Parameter) (h : Placed region tokens) :
    Reads region (fun _ => True) (role finish previous tokens) := by
  cases tokens with
  | nil => exact hfinish
  | cons t rest =>
      rw [role]
      split
      · split
        · exact h.head
        split
        · exact h.head
        · exact ⟨trivial, h.tail⟩
      split
      · exact h.head
      split
      · exact h.head
      split
      · exact h.head
      split
      · exact h.head
      · exact ⟨trivial, h.tail⟩

theorem reads_declaration (previous : List Parameter) (h : Placed region tokens) :
    Reads region (fun p => Placed region p.defaultTokens) (declaration finish previous tokens) := by
  refine (reads_role hfinish previous h).bind fun role hrole => ?_
  have hnone : Clauses.In region {} := fun _ hdefault => nomatch hdefault
  refine (reads_clauses hfinish hnone (placed_skipEquals hrole.2)).bind fun read hread => ?_
  split
  · exact spanAt_mem hfinish hread.2
  · exact ⟨hread.1.getD, hread.2⟩

theorem reads_declarations {previous : List Parameter}
    (hprevious : ∀ p ∈ previous, Placed region p.defaultTokens) {tokens : List Token}
    (h : Placed region tokens) :
    Reads region (fun parameters => ∀ p ∈ parameters, Placed region p.defaultTokens)
      (declarations finish previous tokens) := by
  cases tokens with
  | nil =>
      rw [declarations]
      exact hfinish
  | cons t rest =>
      rw [declarations]
      split
      · exact ⟨hprevious, h.tail⟩
      split
      · exact h.head
      refine (reads_declaration hfinish previous h).bind ?_
      rintro read ⟨hread, hrest⟩
      have hlonger := List.forall_mem_append.mpr ⟨hprevious, List.forall_mem_singleton.mpr hread⟩
      split
      · exact hfinish
      · next u others hu =>
          rw [hu] at hrest
          have hshorter := Parsed.rest_succ_le_of_rest_eq hu
          split
          · exact ⟨hlonger, hrest.tail⟩
          split
          · exact (reads_declarations hlonger hrest.tail).bind fun _ hall => hall
          · exact hrest.head
termination_by tokens.length

/-! ### The whole command -/

omit hfinish

theorem splitBody?_subset {tokens body tail : List Token}
    (h : splitBody? tokens = some (body, tail)) : body ⊆ tokens ∧ tail ⊆ tokens := by
  induction tokens generalizing body with
  | nil => cases h
  | cons t rest ih =>
      rw [splitBody?] at h
      split at h
      · cases h
        exact ⟨List.nil_subset _, List.subset_cons_self _ _⟩
      · obtain ⟨⟨inner, after⟩, hsplit, heq⟩ := Option.map_eq_some_iff.mp h
        cases heq
        obtain ⟨hbody, htail⟩ := ih hsplit
        exact ⟨List.cons_subset_cons t hbody, List.subset_cons_of_subset t htail⟩

theorem yields_checkTail (h : Placed region tokens) :
    Yields region (fun _ => True) (checkTail tokens) := by
  unfold checkTail
  split
  · trivial
  · next t rest =>
      split
      · trivial
      · next u others hu =>
          split at hu
          · rw [hu] at h
            exact h.tail.head
          · cases hu
            exact h.head

/-- Parsing a `DEFINE` gives a sound definition or fails at a place in the region. -/
theorem yields_parse (h : Placed region tokens) (hends : WithinFinish tokens) :
    Yields region (Definition.Sound region) (parse tokens) := by
  have hfinish := h.finishOf_mem
  refine (yields_expect hfinish _ _ h).bind fun start hstart => ?_
  have hafter := h.of_subset hstart.2.2
  refine (yields_expect hfinish _ _ hafter).bind fun name hname => ?_
  have hnamed := hafter.of_subset hname.2.2
  have hmem : name.value ∈ tokens := hstart.2.2 hname.2.1
  refine (reads_expectPunct hfinish _ _ hnamed).bind fun opening hopening => ?_
  refine (reads_declarations hfinish (List.forall_mem_nil _) hopening.2).bind
    fun parameters hparameters => ?_
  split
  · exact h _ hmem
  · next body tail hsplit =>
      obtain ⟨hbody, htail⟩ := splitBody?_subset hsplit
      refine (yields_checkTail (hparameters.2.of_subset htail)).bind fun _ _ => ?_
      refine ⟨?_, hparameters.1, ?_⟩
      · -- The end of the command is not before its name, so `through` gives the whole range.
        have hthrough := region.through (h _ hmem) hfinish
        rwa [Span.through, Nat.max_eq_right (hends _ hmem)] at hthrough
      · exact Body.compile_wellFormed parameters.value (hparameters.2.of_subset hbody)

end Definition

namespace Table

theorem mem_insert {key : String} {d : Definition} {entries : List (String × Definition)}
    {entry : String × Definition} (h : entry ∈ (insert key d entries).1) :
    entry = (key, d) ∨ entry ∈ entries := by
  induction entries with
  | nil => exact .inl (List.mem_singleton.mp h)
  | cons first rest ih =>
      rw [insert] at h
      split at h
      · exact (List.mem_cons.mp h).imp_right (List.mem_cons_of_mem _)
      split at h
      · exact List.mem_cons.mp h
      · rcases List.mem_cons.mp h with rfl | h
        · exact .inr List.mem_cons_self
        · exact (ih h).imp_right (List.mem_cons_of_mem _)

theorem mem_define {table : Table} {d : Definition} {entry : String × Definition}
    (h : entry ∈ (table.define d).1.entries) : entry = (d.key, d) ∨ entry ∈ table.entries :=
  mem_insert h

namespace Sound

variable {region : Region} {table : Table} {d : Definition}

theorem lookup (h : table.Sound region) {name : String} (hd : table.lookup name = some d) :
    d.Sound region := by
  obtain ⟨before, after, hentries, _⟩ := List.lookup_eq_some_iff.mp hd
  refine h (Text.upper name, d) ?_
  rw [hentries]
  exact List.mem_append_right _ List.mem_cons_self

theorem define (h : table.Sound region) (hd : d.Sound region) :
    (table.define d).1.Sound region := by
  intro entry hentry
  rcases mem_define hentry with rfl | hentry
  · exact hd
  · exact h entry hentry

end Sound

end Table

end CommandMacros

import CommandMacros.Proofs.Definition.Sound
import CommandMacros.Proofs.Session.Statements
import CommandMacros.Proofs.Unplaced.Definition

/-!
The table over whole runs. The accepted definitions of a run are put into the table one after the
other, and nothing else changes it; under each upper-case name it holds the last one. The entries
stay in the strict order of their keys, so the names are listed in one way only, whatever the order
the definitions came in.
-/

namespace CommandMacros

namespace Table

/-! ### Looking up -/

theorem lookup_first (key : String) (d : Definition) (rest : List (String × Definition))
    (query : String) :
    List.lookup query ((key, d) :: rest) = if query = key then some d else rest.lookup query := by
  rw [List.lookup_cons]
  split
  · next h => rw [if_pos (beq_iff_eq.mp h)]
  · next h => rw [if_neg (beq_eq_false_iff_ne.mp h)]

theorem lookup_insert (key : String) (d : Definition) (entries : List (String × Definition))
    (query : String) :
    (insert key d entries).1.lookup query =
      if query = key then some d else entries.lookup query := by
  induction entries with
  | nil => exact lookup_first key d [] query
  | cons entry rest ih =>
      obtain ⟨k, e⟩ := entry
      rw [insert]
      split
      · next hkey =>
          rw [lookup_first, lookup_first, hkey]
          split <;> rfl
      split
      · exact lookup_first key d ((k, e) :: rest) query
      · next hkey _ =>
          rw [lookup_first, lookup_first, ih]
          by_cases hquery : query = k
          · rw [if_pos hquery, if_pos hquery, if_neg fun h => hkey (h.symm.trans hquery)]
          · rw [if_neg hquery, if_neg hquery]

theorem lookup_define (table : Table) (d : Definition) (name : String) :
    (table.define d).1.lookup name =
      if Text.upper name = d.key then some d else table.lookup name :=
  lookup_insert d.key d table.entries (Text.upper name)

/-- Adds definitions one after the other. -/
def defineAll (table : Table) (definitions : List Definition) : Table :=
  definitions.foldl (fun table d => (table.define d).1) table

/-- The last definition of a name is the one that is found. -/
theorem lookup_defineAll (table : Table) (definitions : List Definition) (name : String) :
    (table.defineAll definitions).lookup name =
      (definitions.filter (Text.upper name = ·.key)).getLast?.or (table.lookup name) := by
  induction definitions generalizing table with
  | nil => rfl
  | cons d later ih =>
      rw [defineAll, List.foldl_cons, ← defineAll, ih, lookup_define, List.filter_cons]
      by_cases hkey : Text.upper name = d.key
      · rw [if_pos hkey, if_pos (decide_eq_true hkey), List.getLast?_cons]
        cases (later.filter (Text.upper name = ·.key)).getLast? <;> rfl
      · rw [if_neg hkey, if_neg (mt of_decide_eq_true hkey)]

/-! ### Listing -/

/-- Every entry stands under the key of its definition, and the keys increase. -/
structure Ordered (table : Table) : Prop where
  keyed : ∀ entry ∈ table.entries, entry.1 = entry.2.key
  increasing : table.entries.Pairwise (·.1 < ·.1)

theorem Ordered.empty : Ordered {} :=
  ⟨fun _ h => absurd h List.not_mem_nil, .nil⟩

theorem increasing_insert {key : String} (d : Definition) {entries : List (String × Definition)}
    (h : entries.Pairwise (·.1 < ·.1)) : (insert key d entries).1.Pairwise (·.1 < ·.1) := by
  induction entries with
  | nil => exact List.pairwise_singleton _ _
  | cons entry rest ih =>
      obtain ⟨k, e⟩ := entry
      obtain ⟨hfirst, hrest⟩ := List.pairwise_cons.mp h
      rw [insert]
      split
      · next hkey =>
          subst hkey
          exact List.pairwise_cons.mpr ⟨hfirst, hrest⟩
      · next hkey =>
          split
          · next hless =>
              refine List.pairwise_cons.mpr ⟨fun entry hentry => ?_, h⟩
              rcases List.mem_cons.mp hentry with rfl | hentry
              · exact hless
              · exact String.lt_trans hless (hfirst entry hentry)
          · next hless =>
              have hgreater : k < key := Std.lt_of_le_of_ne (String.not_lt.mp hless) (Ne.symm hkey)
              refine List.pairwise_cons.mpr ⟨fun entry hentry => ?_, ih hrest⟩
              rcases mem_insert hentry with rfl | hentry
              · exact hgreater
              · exact hfirst entry hentry

theorem Ordered.define {table : Table} (h : table.Ordered) (d : Definition) :
    (table.define d).1.Ordered where
  keyed entry hentry := by
    rcases mem_define hentry with rfl | hentry
    · rfl
    · exact h.keyed entry hentry
  increasing := increasing_insert d h.increasing

theorem Ordered.defineAll {table : Table} (h : table.Ordered) (definitions : List Definition) :
    (table.defineAll definitions).Ordered := by
  induction definitions generalizing table with
  | nil => exact h
  | cons d later ih => exact ih (h.define d)

/-- The upper-case forms of the names increase. -/
theorem Ordered.names_increasing {table : Table} (h : table.Ordered) :
    table.names.Pairwise (Text.upper · < Text.upper ·) := by
  rw [names, List.pairwise_map]
  refine h.increasing.imp_of_mem fun {first second} hfirst hsecond hless => ?_
  rw [h.keyed first hfirst, h.keyed second hsecond] at hless
  exact hless

theorem Ordered.lookup_eq_some_iff {table : Table} (h : table.Ordered) {name : String}
    {d : Definition} :
    table.lookup name = some d ↔ (Text.upper name, d) ∈ table.entries := by
  rw [lookup, List.lookup_eq_some_iff]
  constructor
  · rintro ⟨before, after, hentries, _⟩
    rw [hentries]
    exact List.mem_append_right _ List.mem_cons_self
  · intro hmem
    obtain ⟨before, after, hentries⟩ := List.append_of_mem hmem
    refine ⟨before, after, hentries, fun entry hentry => ?_⟩
    have hincreasing := h.increasing
    rw [hentries, List.pairwise_append] at hincreasing
    have hless := hincreasing.2.2 entry hentry _ List.mem_cons_self
    refine bne_iff_ne.mpr fun hkey => ?_
    rw [← hkey] at hless
    exact String.lt_irrefl _ hless

/-- The names listed are those of the definitions found, as they spell them. -/
theorem Ordered.mem_names {table : Table} (h : table.Ordered) {spelling : String} :
    spelling ∈ table.names ↔ ∃ name d, table.lookup name = some d ∧ d.name = spelling := by
  rw [names, List.mem_map]
  constructor
  · rintro ⟨⟨key, d⟩, hmem, rfl⟩
    refine ⟨d.name, d, h.lookup_eq_some_iff.mpr ?_, rfl⟩
    have hkey : key = Text.upper d.name := h.keyed (key, d) hmem
    exact hkey ▸ hmem
  · rintro ⟨name, d, hfound, rfl⟩
    exact ⟨(Text.upper name, d), h.lookup_eq_some_iff.mp hfound, rfl⟩

/-- Names in the strict order of their upper-case forms stand in one order only. -/
theorem listing_unique {listing other : List String}
    (h : listing.Pairwise (Text.upper · < Text.upper ·))
    (hother : other.Pairwise (Text.upper · < Text.upper ·))
    (hmem : ∀ name, name ∈ listing ↔ name ∈ other) : listing = other := by
  have hnodup {names : List String} (h : names.Pairwise (Text.upper · < Text.upper ·)) :
      names.Nodup := by
    refine h.imp fun {first second} hless hequal => ?_
    rw [hequal] at hless
    exact String.lt_irrefl _ hless
  have hperm : listing.Perm other :=
    (List.perm_ext_iff_of_nodup (hnodup h) (hnodup hother)).mpr hmem
  refine hperm.eq_of_pairwise (fun first second _ _ hless hgreater => ?_) h hother
  exact absurd hgreater (String.lt_asymm hless)

end Table

/-! ### Runs -/

/-- The definition that a statement adds: it starts with `DEFINE` and is accepted. -/
def Statement.definition? (statement : List Token) : Option Definition :=
  if statement.head?.any isDefine then
    (Definition.parse statement).toOption
  else
    none

namespace Session

theorem process_rejected (session : Session) {statement : List Token} {fault : Fault}
    (hdefine : statement.head?.any Statement.isDefine = true)
    (h : Definition.parse statement = .error fault) :
    session.process statement =
      { session with diagnostics := session.diagnostics.push fault.toDiagnostic } := by
  rw [process, if_pos hdefine, define, h]

theorem expand_table (session : Session) (statement : List Token) :
    (session.expand statement).table = session.table := by
  simp only [expand, echo]
  split <;> rfl

/-- A statement adds its definition to the table, if it makes one. -/
theorem process_table (session : Session) (statement : List Token) :
    (session.process statement).table =
      session.table.defineAll (Statement.definition? statement).toList := by
  unfold process Statement.definition?
  split
  · unfold define
    cases Definition.parse statement <;> rfl
  · exact session.expand_table statement

theorem processAll_table (session : Session) (statements : List (List Token)) :
    (session.processAll statements).table =
      session.table.defineAll (statements.filterMap Statement.definition?) := by
  induction statements generalizing session with
  | nil => rfl
  | cons statement others ih =>
      have hsplit : (statement :: others).filterMap Statement.definition? =
          (Statement.definition? statement).toList ++
            others.filterMap Statement.definition? := by
        rw [List.filterMap_cons]
        cases Statement.definition? statement <;> rfl
      rw [processAll, List.foldl_cons, ← processAll, ih, process_table, hsplit, Table.defineAll,
        Table.defineAll, Table.defineAll, List.foldl_append]

end Session

/-- However definitions, calls and settings alternate in a run from an empty table: a name finds the
last accepted definition whose name has the same upper case; a rejected `DEFINE` reports one problem
of a definition and changes nothing else; no other statement changes the table; and the names listed
are those of the definitions found, each as it is spelled there, in the strict order of their upper
cases. A list of names with these two properties is this one, so neither the order of the
definitions nor that of their storage shows. -/
theorem table_holds_last_accepted (session : Session) (statements : List (List Token)) :
    let table := ({ session with table := {} }.processAll statements).table
    let accepted := statements.filterMap Statement.definition?
    (∀ name, table.lookup name =
        (accepted.filter fun d => Text.upper name = Text.upper d.name).getLast?) ∧
      (∀ name, table.contains name =
        accepted.any fun d => Text.upper name = Text.upper d.name) ∧
      (∀ spelling, spelling ∈ table.names ↔
        ∃ name d, table.lookup name = some d ∧ d.name = spelling) ∧
      table.names.Pairwise (Text.upper · < Text.upper ·) ∧
      (∀ listing : List String, listing.Pairwise (Text.upper · < Text.upper ·) →
        (∀ spelling, spelling ∈ listing ↔
          ∃ name d, table.lookup name = some d ∧ d.name = spelling) →
        listing = table.names) ∧
      (∀ (before : Session) (statement : List Token) (fault : Fault),
        statement.head?.any Statement.isDefine = true →
        Definition.parse statement = .error fault →
        fault.toDiagnostic.error.kind = .definition ∧
          before.process statement =
            { before with diagnostics := before.diagnostics.push fault.toDiagnostic }) ∧
      ∀ (before : Session) (statement : List Token),
        statement.head?.any Statement.isDefine = false →
        (before.process statement).table = before.table := by
  intro table accepted
  have htable : table = Table.defineAll {} accepted := Session.processAll_table _ statements
  have hordered : table.Ordered := htable ▸ Table.Ordered.empty.defineAll accepted
  have hlookup (name : String) : table.lookup name =
      (accepted.filter fun d => Text.upper name = Text.upper d.name).getLast? := by
    rw [htable, Table.lookup_defineAll]
    exact Option.or_none
  refine ⟨hlookup, fun name => ?_, fun _ => hordered.mem_names, hordered.names_increasing,
    fun listing hlisting hmem => ?_, fun before statement fault hdefine hfault => ?_,
    fun before statement hother => ?_⟩
  · rw [Table.contains, hlookup, List.getLast?_filter, List.isSome_find?, List.any_reverse]
  · exact Table.listing_unique hlisting hordered.names_increasing fun spelling =>
      (hmem spelling).trans hordered.mem_names.symm
  · obtain ⟨cause, hcause⟩ := Definition.cause_of_parse hfault
    refine ⟨?_, before.process_rejected hdefine hfault⟩
    rw [Fault.toDiagnostic, hcause]
    rfl
  · rw [Session.process_table, Statement.definition?, hother]
    rfl

/-- Two names of one upper case, and a `DEFINE` without a name. -/
theorem sharp_redefined :
    let identifier (text : String) : Token := ⟨.identifier, text, .point 0⟩
    let define (name : String) : List Token :=
      [identifier "DEFINE", identifier name, ⟨.punct .leftParen, "(", .point 0⟩,
        ⟨.punct .rightParen, ")", .point 0⟩, identifier "!ENDDEFINE"]
    let statements := [define "!ß", define "!ss", [identifier "DEFINE"]]
    let table := (Session.processAll {} statements).table
    (table.lookup "!Ss").map Definition.name = some "!ss" ∧ table.contains "!s" = false ∧
      table.names = ["!ss"] ∧
      Session.process {} [identifier "DEFINE"] =
        { diagnostics := #[{ error := .definition .missingName, span := some (.point 0) }] } := by
  intro identifier define statements table
  have hdefine : Statement.isDefine ⟨.identifier, "DEFINE", .point 0⟩ = true := by rfl
  have hfault : Definition.parse [⟨.identifier, "DEFINE", .point 0⟩] =
      .error ⟨.definition .missingName, .point 0⟩ := by rfl
  obtain ⟨hlookup, hcontains, _, _, _, hrejected, _⟩ := table_holds_last_accepted {} statements
  refine ⟨?_, ?_, ?_, (hrejected {} [identifier "DEFINE"] _ hdefine hfault).2⟩
  · rw [hlookup]
    decide +kernel
  · rw [hcontains]
    decide +kernel
  · decide +kernel

end CommandMacros

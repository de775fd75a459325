import CommandMacros.Proofs.Expansion.Sound
import CommandMacros.Proofs.Session.Reached
import CommandMacros.Proofs.Token.Lossless

/-!
Places stay within the source. The tokens of a source lie within it, one after the other; what a
session defines, expands and reports is made of them, statement by statement. So each token, each
diagnostic and each macro of a run has a place between two boundaries of the characters of the
source.
-/

namespace CommandMacros

variable {region : Region}

/-! ### Settings -/

namespace Settings

theorem applyAssignments_in (settings : Settings) {tokens : List Token} (h : Placed region tokens) :
    DiagnosticsIn region (settings.applyAssignments tokens).2 := by
  fun_induction applyAssignments settings tokens with
  | case1 settings name equals setting =>
      exact List.forall_mem_singleton.mpr (.of_span rfl h.head)
  | case2 settings name equals setting _ _ value others changed _ ih => exact ih h.tail.tail.tail
  | case3 settings name equals setting _ _ value others cause _ final diagnostics hothers ih =>
      rw [hothers] at ih
      have hvalue : (invalid setting cause value).In region := .of_span rfl h.tail.tail.head
      exact List.forall_mem_cons.mpr ⟨hvalue, ih h.tail.tail.tail⟩
  | case4 settings name equals rest _ ih => exact ih h.tail
  | case5 => exact List.forall_mem_nil _

theorem applyCommand_in (settings : Settings) {command : List Token} (h : Placed region command) :
    DiagnosticsIn region (settings.applyCommand command).2 := by
  unfold applyCommand
  split
  · exact settings.applyAssignments_in (h.of_subset (List.tail_sublist command).subset)
  · exact List.forall_mem_nil _

theorem applyCommands_in (settings : Settings) {commands : List (List Token)}
    (h : ∀ command ∈ commands, Placed region command) :
    DiagnosticsIn region (settings.applyCommands commands).2 := by
  induction commands generalizing settings with
  | nil => exact List.forall_mem_nil _
  | cons command others ih =>
      obtain ⟨hcommand, hothers⟩ := List.forall_mem_cons.mp h
      have htaken : Placed region (command.takeWhile (!·.isEnd)) :=
        hcommand.of_subset (List.takeWhile_sublist _).subset
      exact List.forall_mem_append.mpr ⟨settings.applyCommand_in htaken, ih _ hothers⟩

end Settings

theorem placed_of_mem_commands {tokens command : List Token} (h : Placed region tokens)
    (hcommand : command ∈ Token.commands tokens) : Placed region command := by
  intro t ht
  refine h t ?_
  rw [← Token.flatten_commands tokens]
  exact List.mem_flatten_of_mem hcommand ht

/-! ### Tokens in order -/

/-- The tokens stand one after the other. -/
structure InOrder (tokens : List Token) : Prop where
  ordered : ∀ t ∈ tokens, t.span.start ≤ t.span.stop
  apart : tokens.Pairwise fun t u => t.span.stop ≤ u.span.start

namespace InOrder

variable {tokens others : List Token}

theorem sublist (h : InOrder tokens) (hsublist : others.Sublist tokens) : InOrder others :=
  ⟨fun t ht => h.ordered t (hsublist.subset ht), h.apart.sublist hsublist⟩

theorem withinFinish (h : InOrder tokens) : WithinFinish tokens := by
  intro t ht
  unfold finishOf
  split
  · next last hlast =>
      obtain ⟨front, rfl⟩ := List.getLast?_eq_some_iff.mp hlast
      change t.span.start ≤ last.span.stop
      rcases List.mem_append.mp ht with hfront | hlast
      · have hapart := (List.pairwise_append.mp h.apart).2.2 t hfront last List.mem_cons_self
        have ht := h.ordered t ht
        have hlast := h.ordered last (List.mem_append_right front List.mem_cons_self)
        omega
      · cases List.mem_singleton.mp hlast
        exact h.ordered t ht
  · next hnone =>
      rw [List.getLast?_eq_none_iff.mp hnone] at ht
      cases ht

theorem tokenize (source : String) : InOrder (tokenize source) :=
  ⟨fun _ ht => (within_of_mem_tokenize ht).ordered, (spells_tokenize source).pairwise⟩

end InOrder

/-! ### Statements -/

namespace Session

/-- All that the session reads, defines and gives lies in the region. -/
structure In (region : Region) (session : Session) : Prop where
  feed : Placed region session.feed.tokens
  inOrder : InOrder session.feed.tokens
  table : session.table.Sound region
  pending : Placed region session.pending
  diagnostics : DiagnosticsIn region session.diagnostics.toList

theorem dropRepeatedEnds_sublist (afterEnd : Bool) (tokens : List Token) :
    (dropRepeatedEnds afterEnd tokens).1.Sublist tokens := by
  fun_induction dropRepeatedEnds afterEnd tokens with
  | case1 => exact .slnil
  | case2 afterEnd t rest _ ih => exact ih.cons t
  | case3 afterEnd t rest _ kept ended hkept ih =>
      rw [hkept] at ih
      exact ih.cons_cons t

namespace In

variable {session : Session} {statement : List Token}

theorem define (h : session.In region) (hstatement : Placed region statement)
    (horder : InOrder statement) : (session.define statement).In region := by
  have hparse := Definition.yields_parse hstatement horder.withinFinish
  unfold Session.define
  split
  · next d hd =>
      rw [hd] at hparse
      exact ⟨h.feed, h.inOrder, h.table.define hparse, h.pending, h.diagnostics⟩
  · next f hf =>
      rw [hf] at hparse
      exact ⟨h.feed, h.inOrder, h.table, h.pending, h.diagnostics.push (.of_span rfl hparse)⟩

theorem echo (h : session.In region) (lines : Array String) : (session.echo lines).In region := by
  unfold Session.echo
  split
  · exact ⟨h.feed, h.inOrder, h.table, h.pending, h.diagnostics⟩
  · exact h

theorem expand (h : session.In region) (hstatement : Placed region statement) :
    (session.expand statement).In region := by
  have hrequires : (Expansion.soundness region).requires (.expandStatement 0 statement {}) :=
    ⟨hstatement, List.forall_mem_nil _⟩
  have htable : session.environment.table.Sound region := h.table
  have hexpansion : Expansion.ExpansionIn region
      (Expansion.expandStatement session.environment statement {}) :=
    Expansion.value_ensures htable hrequires
  have hkept := dropRepeatedEnds_sublist session.afterEnd
    (Expansion.expandStatement session.environment statement {}).1
  have hproblems := session.settings.applyCommands_in fun _ =>
    placed_of_mem_commands hexpansion.tokens
  have hecho := h.echo (Expansion.expandStatement session.environment statement {}).2.echoes
  refine ⟨hecho.feed, hecho.inOrder, hecho.table,
    h.pending.append (hexpansion.tokens.of_subset hkept.subset), ?_⟩
  simp only [Session.expand, Array.toList_appendList, Array.toList_append]
  exact List.forall_mem_append.mpr
    ⟨List.forall_mem_append.mpr ⟨h.diagnostics, hexpansion.log⟩, hproblems⟩

theorem process (h : session.In region) (hstatement : Placed region statement)
    (horder : InOrder statement) : (session.process statement).In region := by
  unfold Session.process
  split
  · exact h.define hstatement horder
  · exact h.expand hstatement

/-- One statement keeps a session in its region. -/
theorem step (h : session.In region) {feed : Feed}
    (hread : session.feed.readStatement = some (statement, feed)) :
    ({ session with feed, pending := [] }.process statement).In region := by
  have htokens := Feed.readStatement_append hread
  have hstatement : statement.Sublist session.feed.tokens := by
    rw [← htokens]
    exact List.sublist_append_left _ _
  have hfeed : feed.tokens.Sublist session.feed.tokens := by
    rw [← htokens]
    exact List.sublist_append_right _ _
  have hnext : Session.In region { session with feed, pending := [] } :=
    ⟨h.feed.of_subset hfeed.subset, h.inOrder.sublist hfeed, h.table, .nil region, h.diagnostics⟩
  exact hnext.process (h.feed.of_subset hstatement.subset) (h.inOrder.sublist hstatement)

theorem of_reaches {start : Session} (hstart : start.In region) (h : Reaches start session) :
    session.In region :=
  h.invariant (In region) (fun hin hread => hin.step hread) hstart

end In

theorem ofSource_in (source : String) (settings : Settings) :
    (ofSource source settings).In (.within source) where
  feed _ ht := within_of_mem_tokenize ht
  inOrder := .tokenize source
  table := List.forall_mem_nil _
  pending := .nil _
  diagnostics := List.forall_mem_nil _

end Session

/-- Every token and every diagnostic of an expansion, and every macro defined on the way, has a
place between two boundaries of the characters of its source. The source can be cut at the start of
a place, and the line feeds before it give its line. -/
theorem places_within_source (source : String) (settings : Settings) :
    let expansion := expandSource source settings
    (∀ t ∈ expansion.1, t.span.Within source) ∧
    (∀ d ∈ expansion.2, ∀ span ∈ d.span, span.Within source) ∧
    (∀ session, (Session.ofSource source settings).Reaches session →
      ∀ entry ∈ session.table.entries, entry.2.span.Within source) ∧
    ∀ span : Span, span.Within source → span.start ≤ span.stop ∧ span.stop ≤ source.utf8ByteSize ∧
      ∃ front back, source.toList = front ++ back ∧ span.start = Scan.byteLength front ∧
        Text.lineAt source span.start = front.count '\n' + 1 := by
  intro expansion
  have hreached : ∀ {session}, (Session.ofSource source settings).Reaches session →
      session.In (.within source) :=
    fun h => (Session.ofSource_in source settings).of_reaches h
  obtain ⟨⟨last, hlast, hfinal⟩, htokens⟩ := (Session.ofSource source settings).drain_reaches
  refine ⟨fun t ht => ?_, fun d hd => ?_, fun session hsession entry hentry => ?_,
    fun span hspan => ?_⟩
  · obtain ⟨session, hsession, ht⟩ := htokens t ht
    exact (hreached hsession).pending t ht
  · change d ∈ (Session.ofSource source settings).drain.2.diagnostics.toList at hd
    rw [hfinal] at hd
    exact (hreached hlast).diagnostics d hd
  · exact ((hreached hsession).table entry hentry).span_mem
  · obtain ⟨front, back, hsource, hstart⟩ := isBoundary_iff.mp hspan.start_isBoundary
    refine ⟨hspan.ordered, hspan.stop_le, front, back, hsource, hstart, ?_⟩
    rw [hstart]
    exact lineAt_eq hsource

/-- A definition without a parameter list, on the second line, is reported right after its name,
which has a letter of two bytes. -/
theorem unfinished_definition_within :
    let source := "\nDEFINE é"
    let problem : Diagnostic :=
      { error := .definition .missingParameterList, span := some ⟨10, 10⟩ }
    problem ∈ (expandSource source {}).2 ∧ Span.Within source ⟨10, 10⟩ ∧
      ∃ front, 10 = Scan.byteLength front ∧ Text.lineAt source 10 = front.count '\n' + 1 := by
  intro source problem
  have htokens : tokenize source =
      [⟨.identifier, "DEFINE", ⟨1, 7⟩⟩, ⟨.identifier, "é", ⟨8, 10⟩⟩] := by
    decide +kernel
  have hmem : problem ∈ (expandSource source {}).2 := by
    have hread : (Session.ofSource source {}).feed.readStatement = some (tokenize source, {}) := by
      rw [Session.ofSource, htokens]
      rfl
    rw [expandSource, Session.drain_of_some hread, Session.drain_of_none, htokens]
    · exact List.mem_cons_self
    · rw [Session.process_feed]
      rfl
  obtain ⟨_, hproblems, _, hlines⟩ := places_within_source source {}
  have hwithin := hproblems problem hmem ⟨10, 10⟩ rfl
  obtain ⟨_, _, front, _, _, hstart, hline⟩ := hlines ⟨10, 10⟩ hwithin
  exact ⟨hmem, hwithin, front, hstart, hline⟩

end CommandMacros

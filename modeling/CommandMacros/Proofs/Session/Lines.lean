import CommandMacros.Proofs.Definition.Accepted
import CommandMacros.Proofs.Expansion.Inert
import CommandMacros.Proofs.Expansion.Invariant
import CommandMacros.Proofs.Session.Places
import CommandMacros.Proofs.Token.Commands

/-!
Tokens on one line. No token that is scanned has a line feed in its text, and no marker of an error
has one. A definition is made of tokens of its statement, and an expansion of tokens of the
statement, of definitions, and of tokens scanned from the texts that are computed on the way. So
every token that a session gives is on one line, and every command is written on one line.
-/

namespace CommandMacros

/-- There is no line feed in the text of the token. -/
def Token.OnOneLine (t : Token) : Prop :=
  '\n' ∉ t.text.toList

theorem onOneLine_of_mem_tokenize {text : String} {t : Token} (h : t ∈ tokenize text) :
    t.OnOneLine :=
  (spells_tokenize text).newline_notMem h

/-! ### Definitions -/

namespace Definition

variable {tokens : List Token}

theorem Says.subset {which : Clause} {value : List Token}
    (h : Says which tokens (.default value)) : value ⊆ tokens := by
  cases h with
  | default => exact fun _ ht => List.mem_cons_of_mem _ (List.mem_append_left _ ht)

theorem WritesClauses.subset {said : List Stipulation} (h : WritesClauses tokens said)
    {value : List Token} (hvalue : .default value ∈ said) : value ⊆ tokens := by
  induction h with
  | nil => cases hvalue
  | cons _ hfirst _ ih =>
      intro t ht
      refine List.mem_cons_of_mem _ (List.mem_append.mpr ?_)
      cases hvalue with
      | head => exact .inl (hfirst.subset ht)
      | tail _ hvalue => exact .inr (ih hvalue ht)

/-- The default of a parameter stands in its declaration. -/
theorem WritesParameter.subset {p : Parameter} (h : WritesParameter tokens p) :
    p.defaultTokens ⊆ tokens := by
  cases h with
  | @mk name equals clauses said _ _ _ hclauses _ hdefault _ =>
      cases hvalue : p.default with
      | none =>
          rw [Parameter.defaultTokens, hvalue]
          exact List.nil_subset _
      | some value =>
          have hmem : value ∈ said.filterMap Stipulation.default? := by
            rw [hdefault, hvalue]
            exact List.mem_singleton_self value
          obtain ⟨first, hfirst, hsays⟩ := List.mem_filterMap.mp hmem
          cases first <;> cases hsays
          rw [Parameter.defaultTokens, hvalue]
          exact fun t ht => List.mem_cons_of_mem _
            (List.mem_append_right _ (hclauses.subset hfirst ht))

theorem WritesParameters.subset {parameters : List Parameter}
    (h : WritesParameters tokens parameters) {p : Parameter} (hp : p ∈ parameters) :
    p.defaultTokens ⊆ tokens := by
  induction h with
  | nil => cases hp
  | last h =>
      cases List.mem_singleton.mp hp
      exact h.subset
  | cons h _ _ ih =>
      intro t ht
      refine List.mem_append.mpr ?_
      cases hp with
      | head => exact .inl (h.subset ht)
      | tail _ hp => exact .inr (List.mem_cons_of_mem _ (ih hp ht))

/-- The defaults and the body of the definition are made of tokens on one line. -/
structure OnOneLine (d : Definition) : Prop where
  defaults : ∀ p ∈ d.parameters, ∀ t ∈ p.defaultTokens, t.OnOneLine
  body : SpellOnly Token.OnOneLine d.body

theorem Writes.onOneLine {d : Definition} (h : Writes tokens d)
    (htokens : ∀ t ∈ tokens, t.OnOneLine) : d.OnOneLine := by
  cases h with
  | @mk start name opening closing finish stop declared body parameters _ _ _ hparameters =>
      constructor
      · intro p hp t ht
        refine htokens t ?_
        simp [hparameters.subset hp ht]
      · refine Body.spells_compile _ fun t ht => htokens t ?_
        simp [ht]

end Definition

/-- Every macro of the table is made of tokens on one line. -/
def Table.OnOneLine (table : Table) : Prop :=
  ∀ entry ∈ table.entries, entry.2.OnOneLine

theorem Table.OnOneLine.callee {env : Environment} (h : env.table.OnOneLine) {e : Emitted}
    {d : Definition} (hd : Expansion.callee? env e = some d) : d.OnOneLine := by
  obtain ⟨name, hentry⟩ := Expansion.mem_entries_of_callee hd
  exact h (name, d) hentry

/-! ### Expansions -/

namespace Expansion

/-- Tokens on one line, whatever is logged. -/
def onOneLine {env : Environment} (h : env.table.OnOneLine) : Invariant env where
  token := Token.OnOneLine
  log _ := True
  floor := 0
  scanned text span t ht := by
    obtain ⟨u, hu, rfl⟩ := List.mem_map.mp ht
    have hline : u.OnOneLine := onOneLine_of_mem_tokenize hu
    exact hline
  marker message span := by
    have hline : '\n' ∉ Token.markerText.toList := by decide
    exact hline
  enter _ _ := trivial
  leave _ := trivial
  report _ _ := trivial
  echo _ _ _ _ _ := trivial
  body hd := (h.callee hd).body
  defaults hd := (h.callee hd).defaults

theorem expandStatement_onOneLine {env : Environment} (h : env.table.OnOneLine)
    {statement : List Token} (hstatement : ∀ t ∈ statement, t.OnOneLine) (log : Log) :
    ∀ t ∈ (expandStatement env statement log).1, t.OnOneLine := by
  have heval := (onOneLine h).keeps_evaluateText maxEvalNesting
  have htokens := @Invariant.emitted_ofTokens env (onOneLine h) statement hstatement
    env.settings.expand
  exact (Invariant.keeps_expandWith heval htokens (Nat.zero_le 0) log trivial).tokens

end Expansion

/-! ### Sessions -/

namespace Session

/-- All that the session reads, defines and gives is made of tokens on one line. -/
structure OnOneLine (session : Session) : Prop where
  feed : ∀ t ∈ session.feed.tokens, t.OnOneLine
  table : session.table.OnOneLine
  pending : ∀ t ∈ session.pending, t.OnOneLine

namespace OnOneLine

variable {session : Session} {statement : List Token}

theorem define (h : session.OnOneLine) (hstatement : ∀ t ∈ statement, t.OnOneLine) :
    (session.define statement).OnOneLine := by
  unfold Session.define
  split
  · next d hd =>
      have hd : d.OnOneLine := (Definition.parse_eq_ok_iff.mp hd).1.onOneLine hstatement
      refine ⟨h.feed, fun entry hentry => ?_, h.pending⟩
      rcases Table.mem_define hentry with rfl | hentry
      · exact hd
      · exact h.table entry hentry
  · exact ⟨h.feed, h.table, h.pending⟩

theorem echo (h : session.OnOneLine) (lines : Array String) : (session.echo lines).OnOneLine := by
  unfold Session.echo
  split
  · exact ⟨h.feed, h.table, h.pending⟩
  · exact h

theorem expand (h : session.OnOneLine) (hstatement : ∀ t ∈ statement, t.OnOneLine) :
    (session.expand statement).OnOneLine := by
  have htable : session.environment.table.OnOneLine := h.table
  have houtput := Expansion.expandStatement_onOneLine htable hstatement {}
  have hkept := dropRepeatedEnds_sublist session.afterEnd
    (Expansion.expandStatement session.environment statement {}).1
  have hecho := h.echo (Expansion.expandStatement session.environment statement {}).2.echoes
  exact ⟨hecho.feed, hecho.table,
    List.forall_mem_append.mpr ⟨h.pending, fun t ht => houtput t (hkept.subset ht)⟩⟩

/-- One statement gives tokens on one line again. -/
theorem step (h : session.OnOneLine) {feed : Feed}
    (hread : session.feed.readStatement = some (statement, feed)) :
    ({ session with feed, pending := [] }.process statement).OnOneLine := by
  have htokens := h.feed
  rw [← Feed.readStatement_append hread] at htokens
  obtain ⟨hstatement, hfeed⟩ := List.forall_mem_append.mp htokens
  have hnext : OnOneLine { session with feed, pending := [] } :=
    ⟨hfeed, h.table, List.forall_mem_nil _⟩
  unfold Session.process
  split
  · exact hnext.define hstatement
  · exact hnext.expand hstatement

theorem ofSource (source : String) (settings : Settings) :
    (Session.ofSource source settings).OnOneLine where
  feed _ ht := onOneLine_of_mem_tokenize ht
  table := List.forall_mem_nil _
  pending := List.forall_mem_nil _

end OnOneLine

end Session

/-- However it was computed, a token of an expansion has no line feed. -/
theorem onOneLine_of_mem_expandSource {source : String} {settings : Settings} {t : Token}
    (h : t ∈ (expandSource source settings).1) : t.OnOneLine := by
  obtain ⟨session, hsession, ht⟩ := (Session.ofSource source settings).drain_reaches.2 t h
  have hholds := hsession.invariant Session.OnOneLine (fun hline hread => hline.step hread)
    (.ofSource source settings)
  exact hholds.pending t ht

/-! ### Commands -/

namespace Token

theorem newline_notMem_render {tokens : List Token} (h : ∀ t ∈ tokens, t.OnOneLine) :
    '\n' ∉ (render tokens).toList := by
  induction tokens with
  | nil => decide
  | cons t rest ih =>
      obtain ⟨ht, hrest⟩ := List.forall_mem_cons.mp h
      cases rest with
      | nil =>
          rw [render_singleton]
          exact ht
      | cons u rest =>
          have hspace : '\n' ∉ (if needsSpace t u then " " else "").toList := by
            split <;> decide
          rw [render_cons_cons, String.toList_append, String.toList_append, List.mem_append,
            List.mem_append, not_or, not_or]
          exact ⟨ht, hspace, ih hrest⟩

/-- A command of tokens on one line is written on one line. -/
theorem newline_notMem_renderCommands {tokens : List Token} (h : ∀ t ∈ tokens, t.OnOneLine) :
    ∀ command ∈ renderCommands tokens, '\n' ∉ command.toList := by
  intro text htext
  obtain ⟨command, hcommand, rfl⟩ := List.mem_map.mp htext
  refine newline_notMem_render fun t ht => h t ?_
  rw [← flatten_commands tokens]
  exact List.mem_flatten_of_mem hcommand ht

end Token

end CommandMacros

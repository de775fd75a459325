import CommandMacros.Proofs.Binding.CommandEnd
import CommandMacros.Proofs.Session.Reached

/-!
The stream of a session. The statements of a feed make it up again, each of them up to the one
place where it ends. What is pulled from a session, token by token, is what those of its statements
expand to that are no definitions, without the ends of commands that hold nothing.
-/

namespace CommandMacros

/-! ### Statements -/

namespace Statement

/-- The tokens taken fail the test, but for the last one if there was a token to stop at. -/
theorem splitThrough_taken (test : Token → Bool) (tokens : List Token) :
    ∃ front : List Token, ∃ last : Option Token,
      (splitThrough test tokens).1 = front ++ last.toList ∧ (∀ t ∈ front, test t = false) ∧
        (∀ t ∈ last, test t = true) ∧ (last = none → (splitThrough test tokens).2 = []) := by
  induction tokens with
  | nil =>
      refine ⟨[], none, rfl, List.forall_mem_nil _, ?_, fun _ => rfl⟩
      rintro t ⟨⟩
  | cons t rest ih =>
      rw [splitThrough]
      split
      · next htest =>
          refine ⟨[], some t, rfl, List.forall_mem_nil _, ?_, fun h => nomatch h⟩
          rintro u ⟨⟩
          exact htest
      · next htest =>
          obtain ⟨front, last, htaken, hfront, hlast, hleft⟩ := ih
          refine ⟨t :: front, last, congrArg (t :: ·) htaken, ?_, hlast, hleft⟩
          exact List.forall_mem_cons.mpr ⟨Bool.eq_false_iff.mpr htest, hfront⟩

theorem splitEnd_taken (tokens : List Token) :
    ∃ stop : Option Token, (splitEnd tokens).1 = stop.toList ∧ (∀ t ∈ stop, t.isEnd = true) ∧
      (tokens = [] → stop = none) := by
  cases tokens with
  | nil =>
      refine ⟨none, rfl, ?_, fun _ => rfl⟩
      rintro t ⟨⟩
  | cons t rest =>
      rw [splitEnd]
      split
      · next hend =>
          refine ⟨some t, rfl, ?_, fun h => absurd h (List.cons_ne_nil t rest)⟩
          rintro u ⟨⟩
          exact hend
      · refine ⟨none, rfl, ?_, fun _ => rfl⟩
        rintro u ⟨⟩

theorem isEnd_of_isDefine {t : Token} (h : isDefine t = true) : t.isEnd = false :=
  Call.isEnd_of_isIdentifier (Bool.and_eq_true_iff.mp h).1

theorem not_endDefine_of_isDefine {t : Token} (h : isDefine t = true) :
    t.matchesKeyword "!ENDDEFINE" = false := by
  rw [Bool.eq_false_iff]
  intro hend
  have hdefine := Text.sameIgnoringCase_iff.mp (Bool.and_eq_true_iff.mp h).2
  have hend := Text.sameIgnoringCase_iff.mp (Bool.and_eq_true_iff.mp hend).2
  exact absurd (hdefine.symm.trans hend) (by decide)

theorem head?_cut (first : Token) (tokens : List Token) :
    (cut first tokens).1.head? = some first := by
  unfold cut
  split
  · rfl
  · split <;> rfl

/-- A statement that is no definition has no end of a command but its last token. -/
theorem cut_command {first : Token} (h : isDefine first = false) (tokens : List Token) :
    ∃ front : List Token, ∃ last : Option Token, (cut first tokens).1 = front ++ last.toList ∧
      (∀ t ∈ front, t.isEnd = false) ∧ ∀ t ∈ last, t.isEnd = true := by
  unfold cut
  split
  · next hend =>
      refine ⟨[], some first, rfl, List.forall_mem_nil _, ?_⟩
      rintro t ⟨⟩
      exact hend
  · next hend =>
      rw [if_neg (Bool.eq_false_iff.mp h)]
      obtain ⟨front, last, htaken, hfront, hlast, _⟩ := splitThrough_taken Token.isEnd tokens
      refine ⟨first :: front, last, congrArg (first :: ·) htaken, ?_, hlast⟩
      exact List.forall_mem_cons.mpr ⟨Bool.eq_false_iff.mpr hend, hfront⟩

/-- A definition goes up to its first `!ENDDEFINE`, and at most an end of a command follows. -/
theorem cut_define {first : Token} (h : isDefine first = true) (tokens : List Token) :
    ∃ front : List Token, ∃ finish stop : Option Token,
      (cut first tokens).1 = front ++ finish.toList ++ stop.toList ∧
      (∀ t ∈ front, t.matchesKeyword "!ENDDEFINE" = false) ∧
      (∀ t ∈ finish, t.matchesKeyword "!ENDDEFINE" = true) ∧ (∀ t ∈ stop, t.isEnd = true) ∧
      (finish = none → stop = none) := by
  obtain ⟨front, finish, htaken, hfront, hfinish, hleft⟩ :=
    splitThrough_taken (·.matchesKeyword "!ENDDEFINE") tokens
  obtain ⟨stop, hstop, hend, hnone⟩ :=
    splitEnd_taken (splitThrough (·.matchesKeyword "!ENDDEFINE") tokens).2
  refine ⟨first :: front, finish, stop, ?_, ?_, hfinish, hend, fun h => hnone (hleft h)⟩
  · rw [cut, if_neg (Bool.eq_false_iff.mp (isEnd_of_isDefine h)), if_pos h]
    dsimp only
    rw [htaken, hstop]
    rfl
  · exact List.forall_mem_cons.mpr ⟨not_endDefine_of_isDefine h, hfront⟩

end Statement

namespace Feed

/-- A statement that is read is cut off the tokens at its first one. -/
theorem readStatement_cut {feed next : Feed} {statement : List Token}
    (h : feed.readStatement = some (statement, next)) :
    ∃ first rest, statement = (Statement.cut first rest).1 ∧ statement.head? = some first := by
  unfold readStatement at h
  split at h
  · cases h
  · next first rest _ =>
      have hhead := Statement.head?_cut first rest
      dsimp only at h
      split at h
      · cases h
        exact ⟨first, rest, rfl, hhead⟩
      · split at h <;> cases h <;> exact ⟨first, rest, rfl, hhead⟩

/-- The statements that are read one after the other. -/
def statements (feed : Feed) : List (List Token) :=
  match h : feed.readStatement with
  | none => []
  | some (statement, next) =>
    have := readStatement_length_lt h
    statement :: next.statements
termination_by feed.tokens.length

theorem statements_of_none {feed : Feed} (h : feed.readStatement = none) :
    feed.statements = [] := by
  unfold statements
  split
  · rfl
  · next hread => cases h.symm.trans hread

theorem statements_of_some {feed next : Feed} {statement : List Token}
    (h : feed.readStatement = some (statement, next)) :
    feed.statements = statement :: next.statements := by
  rw [statements]
  split
  · next hread => cases h.symm.trans hread
  · next hread =>
      cases h.symm.trans hread
      rfl

/-- There is a statement to read for as long as there are tokens. -/
theorem tokens_of_none {feed : Feed} (h : feed.readStatement = none) : feed.tokens = [] := by
  unfold readStatement at h
  split at h
  · next htokens => exact htokens
  · dsimp only at h
    split at h
    · cases h
    · split at h <;> cases h

theorem flatten_statements (feed : Feed) : feed.statements.flatten = feed.tokens := by
  fun_induction statements feed with
  | case1 feed hread => exact (tokens_of_none hread).symm
  | case2 feed statement next hread _ ih =>
      rw [List.flatten_cons, ih]
      exact readStatement_append hread

theorem cut_of_mem_statements {feed : Feed} {statement : List Token}
    (h : statement ∈ feed.statements) :
    ∃ first rest, statement = (Statement.cut first rest).1 ∧ statement.head? = some first := by
  fun_induction statements feed with
  | case1 => cases h
  | case2 feed first next hread _ ih =>
      rcases List.mem_cons.mp h with rfl | h
      · exact readStatement_cut hread
      · exact ih h

end Feed

/-! ### Ends of commands -/

namespace Session

/-- A token, unless it ends a command and the token before it, if there is one, does too. -/
def unlessRepeated (before : Option Token) (t : Token) : Option Token :=
  if t.isEnd && before.all Token.isEnd then none else some t

/-- The tokens without those ends of commands that come first or directly after another. -/
def withoutEmptyCommands (tokens : List Token) : List Token :=
  (List.zipWith unlessRepeated (none :: tokens.map some) tokens).filterMap id

theorem dropRepeatedEnds_eq_filterMap (before : Option Token) (tokens : List Token) :
    (dropRepeatedEnds (before.all Token.isEnd) tokens).1 =
      (List.zipWith unlessRepeated (before :: tokens.map some) tokens).filterMap id := by
  induction tokens generalizing before with
  | nil => rfl
  | cons t rest ih =>
      have hrest := ih (some t)
      rw [Option.all_some] at hrest
      rw [dropRepeatedEnds, List.map_cons, List.zipWith_cons_cons, unlessRepeated]
      split
      · next h =>
          have hend : t.isEnd = before.all Token.isEnd := by
            rw [(Bool.and_eq_true_iff.mp h).1, (Bool.and_eq_true_iff.mp h).2]
          rw [List.filterMap_cons_none rfl, ← hend]
          exact hrest
      · rw [List.filterMap_cons_some (f := id) rfl]
        exact congrArg (t :: ·) hrest

theorem dropRepeatedEnds_append (afterEnd : Bool) (tokens others : List Token) :
    dropRepeatedEnds afterEnd (tokens ++ others) =
      let (kept, ended) := dropRepeatedEnds afterEnd tokens
      let (more, final) := dropRepeatedEnds ended others
      (kept ++ more, final) := by
  fun_induction dropRepeatedEnds afterEnd tokens with
  | case1 => rfl
  | case2 afterEnd t rest h ih => rw [List.cons_append, dropRepeatedEnds, if_pos h, ih]
  | case3 afterEnd t rest h kept ended hkept ih =>
      rw [List.cons_append, dropRepeatedEnds, if_neg h, ih, hkept]
      rfl

/-- The first token that is kept after an end is no end. -/
theorem isEnd_of_head_dropRepeatedEnds {tokens : List Token} {t : Token}
    (h : (dropRepeatedEnds true tokens).1.head? = some t) : t.isEnd = false := by
  induction tokens with
  | nil => cases h
  | cons u rest ih =>
      rw [dropRepeatedEnds] at h
      split at h
      · exact ih h
      · next hkept =>
          cases h
          simpa using hkept

/-- No two ends that are kept stand next to each other. -/
theorem not_ends_of_infix_dropRepeatedEnds {afterEnd : Bool} {tokens : List Token} {t u : Token}
    (h : [t, u] <:+: (dropRepeatedEnds afterEnd tokens).1) :
    ¬(t.isEnd = true ∧ u.isEnd = true) := by
  induction tokens generalizing afterEnd with
  | nil => exact absurd (List.eq_nil_of_infix_nil h) (List.cons_ne_nil t [u])
  | cons first rest ih =>
      rw [dropRepeatedEnds] at h
      split at h
      · exact ih h
      rintro ⟨ht, hu⟩
      rcases List.infix_cons_iff.mp h with hfront | hrest
      · -- The two come first, so that what is kept after an end begins with one.
        obtain ⟨rfl, others, hothers⟩ := List.cons_prefix_cons.mp hfront
        rw [ht] at hothers
        have hhead : (dropRepeatedEnds true rest).1.head? = some u := by
          rw [← hothers]
          rfl
        rw [isEnd_of_head_dropRepeatedEnds hhead] at hu
        cases hu
      · exact ih hrest ⟨ht, hu⟩

/-! ### Pulling -/

/-- The tokens that are pulled one after the other until there are none, and the session left. -/
inductive Pulls : Session → List Token → Session → Prop
  | done {session rest : Session} (h : session.next = (none, rest)) : Pulls session [] rest
  | pull {session rest final : Session} {t : Token} {tokens : List Token}
      (h : session.next = (some t, rest)) (hrest : Pulls rest tokens final) :
      Pulls session (t :: tokens) final

theorem Pulls.unique {session final last : Session} {tokens others : List Token}
    (h : session.Pulls tokens final) (hothers : session.Pulls others last) :
    tokens = others ∧ final = last := by
  induction h generalizing others with
  | done hnext =>
      cases hothers with
      | done hlast =>
          cases hnext.symm.trans hlast
          exact ⟨rfl, rfl⟩
      | pull hlast => cases hnext.symm.trans hlast
  | pull hnext _ ih =>
      cases hothers with
      | done hlast => cases hnext.symm.trans hlast
      | pull hlast hrest =>
          cases hnext.symm.trans hlast
          obtain ⟨rfl, hfinal⟩ := ih hrest
          exact ⟨rfl, hfinal⟩

/-- Sessions from which the same is pulled next are pulled from alike. -/
theorem Pulls.of_next {session other final : Session} {tokens : List Token}
    (hnext : session.next = other.next) (h : other.Pulls tokens final) :
    session.Pulls tokens final := by
  cases h with
  | done h => exact .done (hnext.trans h)
  | pull h hrest => exact .pull (hnext.trans h) hrest

/-- The tokens held ready are pulled first. -/
theorem Pulls.pending {session final : Session} {following : List Token}
    (h : { session with pending := [] }.Pulls following final) :
    session.Pulls (session.pending ++ following) final := by
  obtain ⟨feed, table, settings, pending, diagnostics, echoSink, echoes, afterEnd⟩ := session
  induction pending with
  | nil => exact h
  | cons t rest ih =>
      refine .pull (t := t) ?_ (ih h)
      rw [next]

/-- Pulling token by token gives what a run gives. -/
theorem pulls_drain (session : Session) : session.Pulls session.drain.1 session.drain.2 := by
  fun_induction drain session with
  | case1 session hread =>
      have hdone : { session with pending := [] }.Pulls [] { session with pending := [] } := by
        refine .done ?_
        rw [next]
        dsimp only
        split
        · rfl
        · next h => cases hread.symm.trans h
      simpa using hdone.pending
  | case2 session statement feed hread _ following final hdrain ih =>
      rw [hdrain] at ih
      refine Pulls.pending (ih.of_next ?_)
      rw [next]
      dsimp only
      split
      · next h => cases hread.symm.trans h
      · next h =>
          cases hread.symm.trans h
          rfl

/-! ### Expansions -/

/-- What a statement gives: nothing if it is a definition, and else its expansion. -/
def output (session : Session) (statement : List Token) : List Token :=
  if statement.head?.any Statement.isDefine then
    []
  else
    (Expansion.expandStatement session.environment statement {}).1

/-- What the statements give, each with the macros and the settings that those before it leave. -/
def outputs (session : Session) : List (List Token) → List (List Token)
  | [] => []
  | statement :: others => session.output statement :: (session.process statement).outputs others

/-- A statement adds what it gives to the tokens held ready, without repeated ends. -/
theorem process_pending (session : Session) (statement : List Token) :
    let kept := dropRepeatedEnds session.afterEnd (session.output statement)
    (session.process statement).pending = session.pending ++ kept.1 ∧
      (session.process statement).afterEnd = kept.2 := by
  unfold process output
  split
  · have hdefine : (session.define statement).pending = session.pending ∧
        (session.define statement).afterEnd = session.afterEnd := by
      unfold define
      split <;> exact ⟨rfl, rfl⟩
    dsimp only [dropRepeatedEnds]
    rw [List.append_nil]
    exact hdefine
  · exact ⟨rfl, rfl⟩

theorem expand_environment (session : Session) (statement : List Token) :
    let expansion := (Expansion.expandStatement session.environment statement {}).1
    (session.expand statement).environment =
      ⟨session.table, (session.settings.applyCommands (Token.commands expansion)).1⟩ := by
  simp only [expand, echo]
  split <;> rfl

/-- What a statement makes of the macros and the settings depends on nothing else. -/
theorem process_environment {session other : Session}
    (h : other.environment = session.environment) (statement : List Token) :
    (other.process statement).environment = (session.process statement).environment := by
  obtain ⟨htable, hsettings⟩ := Environment.mk.inj h
  unfold process
  split
  · unfold define
    split
    · rw [environment, htable, hsettings, environment]
    · exact h
  · rw [expand_environment, expand_environment, h, htable, hsettings]

theorem outputs_congr {session other : Session} (h : other.environment = session.environment)
    (statements : List (List Token)) : other.outputs statements = session.outputs statements := by
  induction statements generalizing session other with
  | nil => rfl
  | cons statement others ih =>
      rw [outputs, outputs, ih (process_environment h statement), output, h, output]

/-- A run gives the tokens held ready, and then what the statements of the feed give, without
repeated ends. -/
theorem drain_eq_outputs (session : Session) :
    session.drain.1 = session.pending ++
      (dropRepeatedEnds session.afterEnd (session.outputs session.feed.statements).flatten).1 := by
  fun_induction drain session with
  | case1 session hread =>
      rw [Feed.statements_of_none hread]
      exact (List.append_nil _).symm
  | case2 session statement feed hread _ following final hdrain ih =>
      let read : Session := { session with feed, pending := [] }
      obtain ⟨hpending, hafter⟩ := read.process_pending statement
      have henvironment : (read.process statement).environment =
          (session.process statement).environment :=
        @process_environment session read rfl statement
      rw [hdrain, process_feed, hpending, hafter, outputs_congr henvironment] at ih
      have hfollowing : following =
          (dropRepeatedEnds session.afterEnd
            (session.outputs (statement :: feed.statements)).flatten).1 := by
        rw [outputs, List.flatten_cons, dropRepeatedEnds_append]
        exact ih
      rw [hfollowing, Feed.statements_of_some hread]

end Session

/-- The statements read from a feed make up its tokens, and each ends at one place. What is pulled
from a session that has given nothing yet is what its statements give, without the ends of commands
that come first or directly after another; so it neither begins with an end nor holds two of them
next to each other. -/
theorem stream_of_statements (start : Session) :
    let session := { start with pending := [], afterEnd := true }
    let statements := session.feed.statements
    statements.flatten = session.feed.tokens ∧
    (∀ statement ∈ statements, statement.head?.any Statement.isDefine = false →
      ∃ front : List Token, ∃ last : Option Token, statement = front ++ last.toList ∧
        (∀ t ∈ front, t.isEnd = false) ∧ ∀ t ∈ last, t.isEnd = true) ∧
    (∀ statement ∈ statements, statement.head?.any Statement.isDefine = true →
      ∃ front : List Token, ∃ finish stop : Option Token,
        statement = front ++ finish.toList ++ stop.toList ∧
        (∀ t ∈ front, t.matchesKeyword "!ENDDEFINE" = false) ∧
        (∀ t ∈ finish, t.matchesKeyword "!ENDDEFINE" = true) ∧ (∀ t ∈ stop, t.isEnd = true) ∧
        (finish = none → stop = none)) ∧
    ∃ stream, (∃ final, session.Pulls stream final) ∧
      (∀ other last, session.Pulls other last → other = stream) ∧
      stream = Session.withoutEmptyCommands (session.outputs statements).flatten ∧
      (∀ t ∈ stream.head?, t.isEnd = false) ∧
      ∀ t u, [t, u] <:+: stream → ¬(t.isEnd = true ∧ u.isEnd = true) := by
  intro session statements
  have hpulls := session.pulls_drain
  have hdrain : session.drain.1 =
      (Session.dropRepeatedEnds true (session.outputs statements).flatten).1 :=
    session.drain_eq_outputs
  refine ⟨session.feed.flatten_statements, fun statement hstatement hfirst => ?_,
    fun statement hstatement hfirst => ?_, session.drain.1, ⟨_, hpulls⟩,
    fun other last h => (h.unique hpulls).1, ?_, fun t ht => ?_, fun t u htu => ?_⟩
  · obtain ⟨first, rest, hcut, hhead⟩ := Feed.cut_of_mem_statements hstatement
    rw [hhead, Option.any_some] at hfirst
    rw [hcut]
    exact Statement.cut_command hfirst rest
  · obtain ⟨first, rest, hcut, hhead⟩ := Feed.cut_of_mem_statements hstatement
    rw [hhead, Option.any_some] at hfirst
    rw [hcut]
    exact Statement.cut_define hfirst rest
  · rw [hdrain]
    exact Session.dropRepeatedEnds_eq_filterMap none (session.outputs statements).flatten
  · rw [hdrain] at ht
    exact Session.isEnd_of_head_dropRepeatedEnds ht
  · rw [hdrain] at htu
    exact Session.not_ends_of_infix_dropRepeatedEnds htu

end CommandMacros

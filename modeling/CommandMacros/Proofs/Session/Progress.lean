import CommandMacros.CommandLine.Expand
import CommandMacros.Proofs.Session.Echo

/-!
The progress of a run. Statements are processed as a whole before the first of their tokens is
pulled, so each token comes with the number of errors that have been reported when its statement has
been processed. The same tokens with the same numbers are pulled one after the other.
-/

namespace CommandMacros.Session

/-- How many errors have been reported. Warnings do not count. -/
def errorCount (session : Session) : Nat :=
  (session.diagnostics.toList.filter (!·.isWarning)).length

theorem errorCount_eq_zero_iff {session : Session} :
    session.errorCount = 0 ↔ session.diagnostics.toList.any (!·.isWarning) = false := by
  rw [errorCount, List.length_eq_zero_iff, List.filter_eq_nil_iff, List.any_eq_false]

/-- The tokens that the statements give, each with the number of errors reported up to and including
its statement. -/
def progress (session : Session) : List (List Token) → List (Token × Nat)
  | [] => []
  | statement :: others =>
    let next := session.process statement
    let kept := (dropRepeatedEnds session.afterEnd (session.output statement)).1
    kept.map (·, next.errorCount) ++ next.progress others

/-- More errors were reported before. -/
def addErrors (count : Nat) (given : Token × Nat) : Token × Nat :=
  (given.1, count + given.2)

theorem addErrors_zero : addErrors 0 = id := by
  funext given
  rw [addErrors, Nat.zero_add]
  rfl

theorem map_addErrors_map_addErrors (first second : Nat) (given : List (Token × Nat)) :
    (given.map (addErrors second)).map (addErrors first) =
      given.map (addErrors (first + second)) := by
  rw [List.map_map]
  refine List.map_congr_left fun entry _ => ?_
  rw [Function.comp_apply, addErrors, addErrors, addErrors, Nat.add_assoc]

theorem errorCount_after (session earlier : Session) :
    (session.after earlier).errorCount = earlier.errorCount + session.errorCount := by
  simp only [errorCount, after, Array.toList_append, List.filter_append, List.length_append]

theorem progress_after (session earlier : Session) (statements : List (List Token)) :
    (session.after earlier).progress statements =
      (session.progress statements).map (addErrors earlier.errorCount) := by
  induction statements generalizing session with
  | nil => rfl
  | cons statement others ih =>
      rw [progress, progress, process_after, ih, errorCount_after, List.map_append, List.map_map]
      rfl

theorem progress_withFeed (session : Session) (feed : Feed) (statements : List (List Token)) :
    { session with feed }.progress statements = session.progress statements := by
  induction statements generalizing session with
  | nil => rfl
  | cons statement others ih =>
      rw [progress, progress, process_withFeed, ih]
      rfl

/-! ### Pulling -/

/-- The tokens still to be pulled, each with the number of errors reported when it is. -/
def ahead (session : Session) : List (Token × Nat) :=
  session.pending.map (·, session.errorCount) ++ session.progress session.feed.statements

theorem ahead_after {earlier : Session} (h : earlier.pending = []) (session : Session) :
    (session.after earlier).ahead = session.ahead.map (addErrors earlier.errorCount) := by
  have hpending : (session.after earlier).pending = session.pending := by
    rw [after, h, List.nil_append]
  rw [ahead, ahead, hpending, errorCount_after, progress_after, List.map_append, List.map_map]
  rfl

/-- What is held ready is looked at by no statement. -/
theorem progress_withPending (session : Session) (pending : List Token)
    (statements : List (List Token)) :
    { session with pending }.progress statements = session.progress statements := by
  have hcleared (pending : List Token) : { session with pending }.progress statements =
      { session with pending := [] }.progress statements := by
    have hafter : { session with pending } =
        { session with pending := [] }.after { pending } := by
      simp only [after, List.append_nil, Array.empty_append]
    have hcount : Session.errorCount { pending } = 0 := rfl
    rw [hafter, progress_after, hcount, addErrors_zero, List.map_id]
  exact (hcleared pending).trans (hcleared session.pending).symm

theorem ahead_cons {session : Session} {t : Token} {rest : List Token}
    (h : session.pending = t :: rest) :
    session.ahead = (t, session.errorCount) :: { session with pending := rest }.ahead := by
  rw [ahead, h, ← session.progress_withPending rest]
  rfl

/-- A statement that is processed moves its tokens to those held ready. -/
theorem ahead_process {session : Session} (hpending : session.pending = [])
    {statement : List Token} {feed : Feed}
    (hread : session.feed.readStatement = some (statement, feed)) :
    ({ session with feed }.process statement).ahead = session.ahead := by
  have hkept := (session.process_pending statement).1
  rw [hpending, List.nil_append] at hkept
  rw [process_withFeed, ahead, ahead, progress_withFeed, hpending, Feed.statements_of_some hread,
    progress]
  dsimp only
  rw [hkept]
  rfl

/-- The next token is the first of those ahead. When it is pulled, the errors counted with it have
been reported. -/
theorem ahead_of_next {session rest : Session} {t : Token}
    (h : session.next = (some t, rest)) : session.ahead = (t, rest.errorCount) :: rest.ahead := by
  fun_induction Session.next session with
  | case1 session head tail hpending =>
      cases h
      exact ahead_cons hpending
  | case2 => cases h
  | case3 session hpending statement feed hread _ ih =>
      rw [← ahead_process hpending hread]
      exact ih h

theorem ahead_of_done {session rest : Session} (h : session.next = (none, rest)) :
    session.ahead = [] := by
  fun_induction Session.next session with
  | case1 => cases h
  | case2 session hpending hread =>
      rw [ahead, hpending, Feed.statements_of_none hread]
      rfl
  | case3 session hpending statement feed hread _ ih =>
      rw [← ahead_process hpending hread]
      exact ih h

/-- A statement in which nothing is called or set gives its tokens and no error. -/
theorem progress_of_copied {session : Session} {statement : List Token}
    (hfirst : statement.head?.any Statement.isDefine = false)
    (hcopied : Expansion.expandStatement session.environment statement {} = (statement, {}))
    (hunset : session.settings.applyCommands (Token.commands statement) = (session.settings, []))
    (others : List (List Token)) :
    let kept := dropRepeatedEnds session.afterEnd statement
    session.progress (statement :: others) =
      kept.1.map (·, session.errorCount) ++
        { session with afterEnd := kept.2 }.progress others := by
  intro kept
  have hexpand : statement.head?.any Statement.isDefine ≠ true := Bool.eq_false_iff.mp hfirst
  have hprocess : session.process statement =
      { session with pending := session.pending ++ kept.1, afterEnd := kept.2 } := by
    have hecho : session.echo #[] = session := by
      unfold echo
      split
      · rw [Array.append_empty]
      · rfl
    rw [process, if_neg hexpand, expand, hcopied]
    dsimp only
    rw [hunset, hecho]
    simp [kept]
  rw [progress, output, if_neg hexpand, hcopied, hprocess]
  exact congrArg (_ ++ ·) ({ session with afterEnd := kept.2 }.progress_withPending _ others)

/-! ### The end of a run -/

theorem drain_of_next {session rest : Session} {t : Token} (h : session.next = (some t, rest)) :
    session.drain = (t :: rest.drain.1, rest.drain.2) := by
  obtain ⟨htokens, hfinal⟩ := session.pulls_drain.unique (.pull h rest.pulls_drain)
  exact Prod.ext htokens hfinal

theorem drain_of_done {session rest : Session} (h : session.next = (none, rest)) :
    session.drain = ([], rest) := by
  obtain ⟨htokens, hfinal⟩ := session.pulls_drain.unique (.done h)
  exact Prod.ext htokens hfinal

theorem drain_after {earlier : Session} (h : earlier.pending = []) (session : Session) :
    (session.after earlier).drain = (session.drain.1, session.drain.2.after earlier) := by
  have hrun := processAll_after { session with feed := {} } earlier session.feed.statements
  rw [drain_eq_processAll, drain_eq_processAll session]
  have hstart : { session.after earlier with feed := {} } =
      { session with feed := {} }.after earlier := rfl
  have hstatements : (session.after earlier).feed.statements = session.feed.statements := rfl
  rw [hstart, hstatements, hrun]
  simp only [after, h, List.nil_append]

/-! ### Taking what was reported and echoed -/

theorem after_takeDiagnostics (session : Session) :
    session.takeDiagnostics.2.after { diagnostics := session.diagnostics } = session := by
  simp only [takeDiagnostics, after, List.nil_append, Array.append_empty, Array.empty_append]

theorem after_takeEchoes (session : Session) :
    session.takeEchoes.2.after { echoes := session.echoes } = session := by
  simp only [takeEchoes, after, List.nil_append, Array.append_empty, Array.empty_append]

/-- The errors that are taken are counted with all tokens still to be pulled. -/
theorem ahead_takeDiagnostics (session : Session) :
    session.takeDiagnostics.2.ahead.map (addErrors session.errorCount) = session.ahead := by
  have hahead := @ahead_after { diagnostics := session.diagnostics } rfl
    session.takeDiagnostics.2
  rw [after_takeDiagnostics] at hahead
  exact hahead.symm

theorem ahead_takeEchoes (session : Session) : session.takeEchoes.2.ahead = session.ahead := by
  have hahead := @ahead_after { echoes := session.echoes } rfl session.takeEchoes.2
  have hcount : Session.errorCount { echoes := session.echoes } = 0 := rfl
  rw [after_takeEchoes, hcount, addErrors_zero, List.map_id] at hahead
  exact hahead.symm

/-- A run after the diagnostics are taken ends with the same macros, and without their errors. -/
theorem final_takeDiagnostics (session : Session) :
    session.takeDiagnostics.2.drain.2.table = session.drain.2.table ∧
      session.errorCount + session.takeDiagnostics.2.drain.2.errorCount =
        session.drain.2.errorCount := by
  have hdrain := @drain_after { diagnostics := session.diagnostics } rfl session.takeDiagnostics.2
  rw [after_takeDiagnostics] at hdrain
  rw [hdrain, errorCount_after]
  exact ⟨rfl, rfl⟩

theorem final_takeEchoes (session : Session) :
    session.takeEchoes.2.drain.2.table = session.drain.2.table ∧
      session.takeEchoes.2.drain.2.errorCount = session.drain.2.errorCount := by
  have hdrain := @drain_after { echoes := session.echoes } rfl session.takeEchoes.2
  have hcount : Session.errorCount { echoes := session.echoes } = 0 := rfl
  rw [after_takeEchoes] at hdrain
  rw [hdrain, errorCount_after, hcount, Nat.zero_add]
  exact ⟨rfl, rfl⟩

theorem Pulls.map_fst_ahead {session final : Session} {tokens : List Token}
    (h : session.Pulls tokens final) : session.ahead.map Prod.fst = tokens := by
  induction h with
  | done hnext => rw [ahead_of_done hnext, List.map_nil]
  | pull hnext _ ih => rw [ahead_of_next hnext, List.map_cons, ih]

theorem errorCount_le_drain (session : Session) :
    session.errorCount ≤ session.drain.2.errorCount :=
  Nat.le.intro session.final_takeDiagnostics.2

/-- The errors counted with a token are among those of the whole run. -/
theorem Pulls.errors_le {session final : Session} {tokens : List Token}
    (h : session.Pulls tokens final) {given : Token × Nat} (hgiven : given ∈ session.ahead) :
    given.2 ≤ final.errorCount := by
  induction h with
  | done hnext =>
      rw [ahead_of_done hnext] at hgiven
      cases hgiven
  | @pull session rest final t tokens hnext hrest ih =>
      rw [ahead_of_next hnext] at hgiven
      cases hgiven with
      | head =>
          have hfinal : rest.drain.2 = final := (rest.pulls_drain.unique hrest).2
          rw [← hfinal]
          exact rest.errorCount_le_drain
      | tail _ hmem => exact ih hmem

/-! ### Echoing -/

/-- The errors counted with the tokens do not depend on echoing. -/
theorem progress_silenced (session : Session) (statements : List (List Token)) :
    session.silenced.progress statements = session.progress statements := by
  induction statements generalizing session with
  | nil => rfl
  | cons statement others ih =>
      have hnext := session.process_silenced statement
      have hcount : (session.silenced.process statement).errorCount =
          (session.process statement).errorCount := by
        have hsame := congrArg errorCount hnext
        exact hsame
      have hkept := congrArg Session.pending hnext
      have hothers : (session.silenced.process statement).progress others =
          (session.process statement).progress others := by
        rw [← ih (session.silenced.process statement), hnext, ih]
      have hgiven := (session.silenced.process_pending statement).1.symm.trans
        (hkept.trans (session.process_pending statement).1)
      rw [progress, progress, hothers, hcount, List.append_cancel_left hgiven]

end CommandMacros.Session

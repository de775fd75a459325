import CommandMacros.Session

/-!
The sessions on the way through a source. A session processes one statement after another; all that
a run gives was held ready by one of the sessions on the way, and what is left at its end is the
last of them. What every statement preserves therefore holds of all that a run gives.
-/

namespace CommandMacros

/-- A statement and the tokens left are the tokens it was read from. -/
theorem Feed.readStatement_append {feed next : Feed} {statement : List Token}
    (h : feed.readStatement = some (statement, next)) :
    statement ++ next.tokens = feed.tokens := by
  unfold readStatement at h
  split at h
  · cases h
  · next first rest htokens =>
      rw [htokens, ← Statement.cut_append first rest]
      dsimp only at h
      split at h
      · next hleft =>
          cases h
          rw [hleft]
          rfl
      · next t queue hleft =>
          rw [hleft]
          split at h <;> cases h <;> rfl

namespace Session

/-- The session is on the way from another one, statement by statement. -/
inductive Reaches (start : Session) : Session → Prop
  | here : Reaches start start
  | after {session : Session} {statement : List Token} {feed : Feed} (h : Reaches start session)
      (hread : session.feed.readStatement = some (statement, feed)) :
      Reaches start ({ session with feed, pending := [] }.process statement)

theorem Reaches.trans {first second third : Session} (h : Reaches first second)
    (hnext : Reaches second third) : Reaches first third := by
  induction hnext with
  | here => exact h
  | after _ hread ih => exact ih.after hread

/-- What holds at the start and is preserved by every statement holds of every session on the
way. -/
theorem Reaches.invariant (holds : Session → Prop)
    (hstep : ∀ {session : Session} {statement : List Token} {feed : Feed}, holds session →
      session.feed.readStatement = some (statement, feed) →
        holds ({ session with feed, pending := [] }.process statement))
    {start session : Session} (hstart : holds start) (h : Reaches start session) :
    holds session := by
  induction h with
  | here => exact hstart
  | after _ hread ih => exact hstep ih hread

theorem drain_of_none {session : Session} (h : session.feed.readStatement = none) :
    session.drain = (session.pending, { session with pending := [] }) := by
  unfold drain
  split
  · rfl
  · next hread => cases h.symm.trans hread

theorem drain_of_some {session : Session} {statement : List Token} {feed : Feed}
    (h : session.feed.readStatement = some (statement, feed)) :
    session.drain =
      let next := ({ session with feed, pending := [] }.process statement).drain
      (session.pending ++ next.1, next.2) := by
  rw [drain]
  split
  · next hread => cases h.symm.trans hread
  · next hread =>
      cases h.symm.trans hread
      rfl

/-- A run ends with a session on the way, and gives only tokens that such sessions held ready. -/
theorem drain_reaches (session : Session) :
    (∃ last, Reaches session last ∧ session.drain.2 = { last with pending := [] }) ∧
      ∀ t ∈ session.drain.1, ∃ reached, Reaches session reached ∧ t ∈ reached.pending := by
  fun_induction drain session with
  | case1 session hread => exact ⟨⟨session, .here, rfl⟩, fun t ht => ⟨session, .here, ht⟩⟩
  | case2 session statement feed hread _ following final hdrain ih =>
      have hnext : Reaches session ({ session with feed, pending := [] }.process statement) :=
        Reaches.here.after hread
      rw [hdrain] at ih
      obtain ⟨⟨last, hlast, hfinal⟩, hfollowing⟩ := ih
      refine ⟨⟨last, hnext.trans hlast, hfinal⟩, fun t ht => ?_⟩
      rcases List.mem_append.mp ht with ht | ht
      · exact ⟨session, .here, ht⟩
      · obtain ⟨reached, hreached, ht⟩ := hfollowing t ht
        exact ⟨reached, hnext.trans hreached, ht⟩

end Session

end CommandMacros

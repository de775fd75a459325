import CommandMacros.Proofs.Session.Stream

/-!
Statements in a row. How tokens are cut into statements depends on nothing but the tokens, and where
the last statement is complete, what follows is cut as if it stood alone. A run is the statements
processed one after the other; what an earlier part of it gave, reported and echoed stays in front.
-/

namespace CommandMacros

/-! ### Cutting -/

namespace Statement

/-- The statement is the same whatever follows it: it ends with an end of a command, and a
definition holds its `!ENDDEFINE`. -/
def IsComplete (statement : List Token) : Prop :=
  (∃ t ∈ statement.getLast?, t.isEnd = true) ∧
    (statement.head?.any isDefine = true → ∃ t ∈ statement, t.matchesKeyword "!ENDDEFINE" = true)

theorem splitThrough_found {test : Token → Bool} {tokens : List Token}
    (h : ∃ t ∈ tokens, test t = true) (more : List Token) :
    splitThrough test (tokens ++ more) =
      ((splitThrough test tokens).1, (splitThrough test tokens).2 ++ more) := by
  induction tokens with
  | nil =>
      obtain ⟨t, ht, _⟩ := h
      cases ht
  | cons t rest ih =>
      rw [List.cons_append, splitThrough, splitThrough]
      split
      · rfl
      · next htest =>
          obtain ⟨u, hu, hfound⟩ := h
          rcases List.mem_cons.mp hu with rfl | hu
          · exact absurd hfound htest
          · rw [ih ⟨u, hu, hfound⟩]

theorem mem_of_mem_splitThrough {test : Token → Bool} {tokens : List Token} {t : Token}
    (h : t ∈ (splitThrough test tokens).1) : t ∈ tokens := by
  rw [← splitThrough_append test tokens]
  exact List.mem_append_left _ h

/-- Where tokens are left, there was a token to stop at. -/
theorem found_of_left {test : Token → Bool} {tokens : List Token}
    (h : (splitThrough test tokens).2 ≠ []) : ∃ t ∈ tokens, test t = true := by
  obtain ⟨front, last, htaken, _, hlast, hleft⟩ := splitThrough_taken test tokens
  cases last with
  | none => exact absurd (hleft rfl) h
  | some t =>
      have ht : t ∈ (splitThrough test tokens).1 := by
        rw [htaken]
        exact List.mem_append_right _ (List.mem_singleton_self t)
      exact ⟨t, mem_of_mem_splitThrough ht, hlast t rfl⟩

theorem splitEnd_found {tokens : List Token} (h : tokens ≠ []) (more : List Token) :
    splitEnd (tokens ++ more) = ((splitEnd tokens).1, (splitEnd tokens).2 ++ more) := by
  cases tokens with
  | nil => exact absurd rfl h
  | cons t rest =>
      rw [List.cons_append, splitEnd, splitEnd]
      split <;> rfl

/-- A definition that is complete stops at its `!ENDDEFINE`, and there is a token after that. -/
theorem define_found {first : Token} (hdefine : isDefine first = true) {tokens : List Token}
    (h : (cut first tokens).2 ≠ [] ∨ IsComplete (cut first tokens).1) :
    (∃ t ∈ tokens, t.matchesKeyword "!ENDDEFINE" = true) ∧
      (splitThrough (·.matchesKeyword "!ENDDEFINE") tokens).2 ≠ [] := by
  rw [cut, if_neg (Bool.eq_false_iff.mp (isEnd_of_isDefine hdefine)), if_pos hdefine] at h
  dsimp only at h
  have hafter : (splitThrough (·.matchesKeyword "!ENDDEFINE") tokens).2 ≠ [] := by
    intro hafter
    rw [hafter] at h
    rcases h with h | ⟨⟨t, ht, hend⟩, hfinish⟩
    · exact h rfl
    obtain ⟨front, finish, htaken, hfront, hkeyword, _⟩ :=
      splitThrough_taken (·.matchesKeyword "!ENDDEFINE") tokens
    rw [htaken] at ht hfinish
    cases finish with
    | none =>
        obtain ⟨u, hu, hmatch⟩ := hfinish hdefine
        simp only [splitEnd, Option.toList_none, List.append_nil, List.mem_cons] at hu
        rcases hu with rfl | hu
        · rw [not_endDefine_of_isDefine hdefine] at hmatch
          cases hmatch
        · rw [hfront u hu] at hmatch
          cases hmatch
    | some u =>
        -- The `!ENDDEFINE` itself would be the last token.
        simp only [splitEnd, Option.toList_some, List.append_nil, ← List.cons_append,
          List.getLast?_concat, Option.mem_some] at ht
        subst ht
        rw [Call.isEnd_of_isIdentifier (Bool.and_eq_true_iff.mp (hkeyword u rfl)).1] at hend
        cases hend
  exact ⟨found_of_left hafter, hafter⟩

/-- What follows a complete statement, or one that did not take all the tokens, does not change
it. -/
theorem cut_found {first : Token} {tokens : List Token}
    (h : (cut first tokens).2 ≠ [] ∨ IsComplete (cut first tokens).1) (more : List Token) :
    cut first (tokens ++ more) = ((cut first tokens).1, (cut first tokens).2 ++ more) := by
  cases hdefine : isDefine first with
  | true =>
      obtain ⟨hbody, hafter⟩ := define_found hdefine h
      have hend := Bool.eq_false_iff.mp (isEnd_of_isDefine hdefine)
      rw [cut, cut, if_neg hend, if_neg hend, if_pos hdefine, if_pos hdefine,
        splitThrough_found hbody]
      dsimp only
      rw [splitEnd_found hafter]
  | false =>
      by_cases hend : first.isEnd = true
      · rw [cut, cut, if_pos hend, if_pos hend]
      · have hnot := Bool.eq_false_iff.mp hdefine
        rw [cut, if_neg hend, if_neg hnot] at h
        have hfound : ∃ t ∈ tokens, t.isEnd = true := by
          rcases h with h | ⟨⟨t, ht, htend⟩, _⟩
          · exact found_of_left h
          · rcases List.mem_cons.mp (List.mem_of_getLast? ht) with rfl | ht
            · exact absurd htend hend
            · exact ⟨t, mem_of_mem_splitThrough ht, htend⟩
        rw [cut, cut, if_neg hend, if_neg hend, if_neg hnot, if_neg hnot,
          splitThrough_found hfound]

/-- A statement that is no definition and leaves tokens ends with the end of its command. -/
theorem cut_ends {first : Token} (h : isDefine first = false) {tokens : List Token}
    (hleft : (cut first tokens).2 ≠ []) :
    ∃ front e, e.isEnd = true ∧ (cut first tokens).1 = front ++ [e] := by
  unfold cut at hleft ⊢
  split
  · next hend => exact ⟨[], first, hend, rfl⟩
  · next hend =>
      rw [if_neg hend, if_neg (Bool.eq_false_iff.mp h)] at hleft
      rw [if_neg (Bool.eq_false_iff.mp h)]
      obtain ⟨front, last, htaken, _, hlast, hnone⟩ := splitThrough_taken Token.isEnd tokens
      cases last with
      | none => exact absurd (hnone rfl) hleft
      | some e => exact ⟨first :: front, e, hlast e rfl, congrArg (first :: ·) htaken⟩

end Statement

namespace Feed

theorem tokens_of_readStatement {feed next : Feed} {statement : List Token}
    (h : feed.readStatement = some (statement, next)) :
    ∃ first rest, feed.tokens = first :: rest ∧
      Statement.cut first rest = (statement, next.tokens) := by
  unfold readStatement at h
  split at h
  · cases h
  · next first rest htokens =>
      refine ⟨first, rest, htokens, ?_⟩
      generalize Statement.cut first rest = parts at h
      obtain ⟨taken, left⟩ := parts
      cases left with
      | nil =>
          cases h
          rfl
      | cons t queue =>
          dsimp only at h
          split at h <;> cases h <;> rfl

theorem eq_empty {feed : Feed} (h : feed.tokens = []) : feed = {} := by
  obtain ⟨lookahead, queue⟩ := feed
  cases lookahead with
  | none => exact congrArg (Feed.mk none) h
  | some t => cases h

theorem statements_of_tokens_nil {feed : Feed} (h : feed.tokens = []) : feed.statements = [] := by
  apply statements_of_none
  rw [readStatement, h]

theorem statements_of_tokens_cons {feed : Feed} {first : Token} {rest : List Token}
    (h : feed.tokens = first :: rest) :
    ∃ next : Feed, next.tokens = (Statement.cut first rest).2 ∧
      feed.statements = (Statement.cut first rest).1 :: next.statements := by
  cases hread : feed.readStatement with
  | none => cases (tokens_of_none hread).symm.trans h
  | some read =>
      obtain ⟨first, rest, htokens, hcut⟩ := tokens_of_readStatement hread
      cases htokens.symm.trans h
      rw [hcut]
      exact ⟨read.2, rfl, statements_of_some hread⟩

/-- Only the tokens of a feed decide about its statements. -/
theorem statements_congr {feed other : Feed} (h : other.tokens = feed.tokens) :
    other.statements = feed.statements := by
  fun_induction statements feed generalizing other with
  | case1 feed hread => exact statements_of_tokens_nil (h.trans (tokens_of_none hread))
  | case2 feed statement next hread _ ih =>
      obtain ⟨first, rest, htokens, hcut⟩ := tokens_of_readStatement hread
      obtain ⟨following, hleft, hstatements⟩ := statements_of_tokens_cons (h.trans htokens)
      rw [hcut] at hleft hstatements
      rw [hstatements, ih hleft]

/-- Tokens that follow a complete statement are cut as if they stood alone. -/
theorem statements_append {feed longer more : Feed}
    (h : ∀ last ∈ feed.statements.getLast?, Statement.IsComplete last)
    (hlonger : longer.tokens = feed.tokens ++ more.tokens) :
    longer.statements = feed.statements ++ more.statements := by
  fun_induction statements feed generalizing longer with
  | case1 feed hread =>
      rw [tokens_of_none hread] at hlonger
      exact statements_congr hlonger
  | case2 feed statement next hread _ ih =>
      obtain ⟨first, rest, htokens, hcut⟩ := tokens_of_readStatement hread
      rw [List.getLast?_cons] at h
      have hcomplete : (Statement.cut first rest).2 ≠ [] ∨
          Statement.IsComplete (Statement.cut first rest).1 := by
        rw [hcut]
        cases hleft : next.tokens with
        | nil =>
            rw [statements_of_tokens_nil hleft] at h
            exact .inr (h statement rfl)
        | cons t left => exact .inl (List.cons_ne_nil t left)
      rw [htokens, List.cons_append] at hlonger
      obtain ⟨following, hleft, hstatements⟩ := statements_of_tokens_cons hlonger
      rw [Statement.cut_found hcomplete, hcut] at hleft hstatements
      have hrest : following.statements = next.statements ++ more.statements := by
        refine ih (fun last hlast => h last ?_) hleft
        rw [hlast]
        rfl
      rw [hstatements, hrest, List.cons_append]

end Feed

/-! ### Processing -/

namespace Session

/-- Processes statements one after the other. -/
def processAll (session : Session) (statements : List (List Token)) : Session :=
  statements.foldl process session

/-- The session after an earlier one: what that one gave, reported and echoed stands in front. -/
def after (session earlier : Session) : Session :=
  { session with
    pending := earlier.pending ++ session.pending
    diagnostics := earlier.diagnostics ++ session.diagnostics
    echoes := earlier.echoes ++ session.echoes }

/-- A statement looks at nothing that was given, reported or echoed before it. -/
theorem process_after (session earlier : Session) (statement : List Token) :
    (session.after earlier).process statement = (session.process statement).after earlier := by
  unfold process
  split
  · unfold define
    split
    · rfl
    · rw [after, after, Array.push_append]
  · obtain ⟨feed, table, settings, pending, diagnostics, sink, echoes, afterEnd⟩ := session
    have hproblems (first second : Array Diagnostic) (problems : List Diagnostic) :
        first ++ second ++ problems = first ++ (second ++ problems) := by
      apply Array.toList_inj.mp
      simp only [Array.toList_appendList, Array.toList_append, List.append_assoc]
    cases sink <;>
      simp only [expand, after, environment, echo, List.append_assoc, Array.append_assoc,
        hproblems]

theorem processAll_after (session earlier : Session) (statements : List (List Token)) :
    (session.after earlier).processAll statements =
      (session.processAll statements).after earlier := by
  induction statements generalizing session with
  | nil => rfl
  | cons statement others ih =>
      rw [processAll, List.foldl_cons, process_after]
      exact ih (session.process statement)

/-- A statement looks at no token that has not been read. -/
theorem process_withFeed (session : Session) (feed : Feed) (statement : List Token) :
    { session with feed }.process statement = { session.process statement with feed } := by
  unfold process
  split
  · unfold define
    split <;> rfl
  · obtain ⟨_, table, settings, pending, diagnostics, sink, echoes, afterEnd⟩ := session
    cases sink <;> rfl

/-- A run processes all statements of the feed, and gives what is held ready then. -/
theorem drain_eq_processAll (session : Session) :
    session.drain =
      let final := { session with feed := {} }.processAll session.feed.statements
      (final.pending, { final with pending := [] }) := by
  fun_induction drain session with
  | case1 session hread =>
      rw [Feed.statements_of_none hread, processAll, List.foldl_nil,
        ← Feed.eq_empty (Feed.tokens_of_none hread)]
  | case2 session statement feed hread _ following final hdrain ih =>
      let start : Session := { session with feed := {}, pending := [] }
      have hstart : { session with feed := {} } = start.after { pending := session.pending } := by
        simp only [start, after, List.append_nil, Array.empty_append]
      rw [hdrain, process_feed, ← process_withFeed] at ih
      rw [Feed.statements_of_some hread, hstart, processAll_after]
      cases ih
      simp only [after, Array.empty_append]
      rfl

end Session

end CommandMacros

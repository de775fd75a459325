import CommandMacros.Proofs.Session.Statements
import CommandMacros.Proofs.Token.Seam
import CommandMacros.Proofs.Unplaced.Session

/-!
Sources in a row. A source whose last statement is complete may be followed by another on the next
line: together they give, up to places, what the first gives and then what the second gives after
it, with the macros and the settings that the first leaves.
-/

namespace CommandMacros

/-! ### Statements without places -/

namespace Statement

theorem splitThrough_unplaced {test : Token → Bool}
    (htest : ∀ t : Token, test t.unplaced = test t) (tokens : List Token) :
    splitThrough test (tokens.map Token.unplaced) =
      ((splitThrough test tokens).1.map Token.unplaced,
        (splitThrough test tokens).2.map Token.unplaced) := by
  induction tokens with
  | nil => rfl
  | cons t rest ih =>
      rw [List.map_cons, splitThrough, splitThrough, htest, ih]
      split <;> rfl

theorem splitEnd_unplaced (tokens : List Token) :
    splitEnd (tokens.map Token.unplaced) =
      ((splitEnd tokens).1.map Token.unplaced, (splitEnd tokens).2.map Token.unplaced) := by
  cases tokens with
  | nil => rfl
  | cons t rest =>
      rw [List.map_cons, splitEnd, splitEnd, Token.isEnd_unplaced]
      split <;> rfl

theorem cut_unplaced (first : Token) (tokens : List Token) :
    cut first.unplaced (tokens.map Token.unplaced) =
      ((cut first tokens).1.map Token.unplaced, (cut first tokens).2.map Token.unplaced) := by
  have hdefine : isDefine first.unplaced = isDefine first := rfl
  rw [cut, cut, Token.isEnd_unplaced, hdefine, splitThrough_unplaced fun t => rfl,
    splitThrough_unplaced Token.isEnd_unplaced]
  dsimp only
  rw [splitEnd_unplaced, ← List.map_append]
  split
  · rfl
  split <;> rfl

end Statement

/-- Cutting tokens into statements looks at no places. -/
theorem Feed.statements_unplaced {feed other : Feed}
    (h : other.tokens = feed.tokens.map Token.unplaced) :
    other.statements = feed.statements.map (List.map Token.unplaced) := by
  fun_induction statements feed generalizing other with
  | case1 feed hread =>
      rw [tokens_of_none hread] at h
      exact statements_of_tokens_nil h
  | case2 feed statement next hread _ ih =>
      obtain ⟨first, rest, htokens, hcut⟩ := tokens_of_readStatement hread
      rw [htokens, List.map_cons] at h
      obtain ⟨following, hleft, hstatements⟩ := statements_of_tokens_cons h
      rw [Statement.cut_unplaced, hcut] at hleft hstatements
      rw [hstatements, ih hleft, List.map_cons]

/-- The last token of a feed is the last one of its last statement. -/
theorem Feed.getLast?_of_complete {feed : Feed}
    (h : ∀ last ∈ feed.statements.getLast?, Statement.IsComplete last) :
    ∀ t ∈ feed.tokens.getLast?, t.isEnd = true := by
  rw [← flatten_statements]
  intro t ht
  rcases List.eq_nil_or_concat feed.statements with hnone | ⟨front, last, hstatements⟩
  · rw [hnone] at ht
    cases ht
  · rw [List.concat_eq_append] at hstatements
    rw [hstatements, List.getLast?_concat] at h
    obtain ⟨⟨u, hu, hend⟩, _⟩ := h last rfl
    rw [hstatements, List.flatten_concat, List.getLast?_append, hu] at ht
    cases ht
    exact hend

/-! ### Runs -/

namespace Session

theorem processAll_unplaced (session : Session) (statements : List (List Token)) :
    session.unplaced.processAll (statements.map (List.map Token.unplaced)) =
      (session.processAll statements).unplaced := by
  induction statements generalizing session with
  | nil => rfl
  | cons statement others ih =>
      rw [List.map_cons, processAll, List.foldl_cons, process_unplaced]
      exact ih (session.process statement)

/-- A session about to read a source text with the macros and the settings that another one left. -/
def resume (session : Session) (source : String) : Session :=
  { feed := { queue := tokenize source }
    table := session.table
    settings := session.settings
    afterEnd := session.afterEnd }

/-- A session that has nothing to read goes on as one that has given nothing yet. -/
theorem after_resume {session : Session} (hfeed : session.feed = {})
    (hsink : session.echoSink = .collect) (source : String) :
    { session.resume source with feed := {} }.after session = session := by
  obtain ⟨feed, table, settings, pending, diagnostics, sink, echoes, afterEnd⟩ := session
  dsimp only at hfeed hsink
  subst hfeed hsink
  simp only [resume, after, List.append_nil, Array.append_empty]

/-- A statement changes neither the feed nor where echoes go. -/
theorem processAll_feed (session : Session) (statements : List (List Token)) :
    (session.processAll statements).feed = session.feed ∧
      (session.processAll statements).echoSink = session.echoSink := by
  induction statements generalizing session with
  | nil => exact ⟨rfl, rfl⟩
  | cons statement others ih =>
      have hsink : (session.process statement).echoSink = session.echoSink := by
        unfold process
        split
        · unfold define
          split <;> rfl
        · simp only [expand, echo]
          split <;> rfl
      obtain ⟨hfeed, hecho⟩ := ih (session.process statement)
      exact ⟨hfeed.trans (process_feed session statement), hecho.trans hsink⟩

end Session

/-- Statements that are alike up to places leave alike what they are processed from. -/
theorem Session.processAll_of_unplaced (session : Session) {tokens others : List Token}
    (h : tokens.map Token.unplaced = others.map Token.unplaced) :
    (session.processAll (Feed.statements { queue := tokens })).unplaced =
      (session.processAll (Feed.statements { queue := others })).unplaced := by
  have hstatements (queue : List Token) :
      Feed.statements { queue := queue.map Token.unplaced } =
        (Feed.statements { queue }).map (List.map Token.unplaced) :=
    Feed.statements_unplaced rfl
  rw [← processAll_unplaced, ← processAll_unplaced, ← hstatements, ← hstatements, h]

/-- A source with a complete last statement, and another one after a line end. Up to places they
give the tokens, the diagnostics and the echoes of the first and then those of the second, read with
the macros and the settings that the first leaves, and what the two leave is the same. -/
theorem drain_line {first : String}
    (h : ∀ last ∈ (Feed.statements { queue := tokenize first }).getLast?,
      Statement.IsComplete last)
    (second : String) (settings : Settings) :
    let earlier := (Session.ofSource first settings).drain
    let later := (earlier.2.resume second).drain
    let whole := (Session.ofSource (first ++ "\n" ++ second) settings).drain
    whole.1.map Token.unplaced = (earlier.1 ++ later.1).map Token.unplaced ∧
      (whole.2.diagnostics.toList.map Diagnostic.unplaced =
        (earlier.2.diagnostics.toList ++ later.2.diagnostics.toList).map Diagnostic.unplaced) ∧
      whole.2.echoes = earlier.2.echoes ++ later.2.echoes ∧
      whole.2.table.unplaced = later.2.table.unplaced ∧
      whole.2.settings = later.2.settings ∧ whole.2.afterEnd = later.2.afterEnd := by
  intro earlier later whole
  let start : Session := { settings }
  let middle := start.processAll (Feed.statements { queue := tokenize first })
  let next : Session := { middle.resume second with feed := {} }
  have hmiddle : next.after middle = middle := by
    obtain ⟨hfeed, hsink⟩ := start.processAll_feed (Feed.statements { queue := tokenize first })
    exact Session.after_resume hfeed hsink second
  obtain ⟨following, htokens, hfollowing⟩ := tokenize_line (Feed.getLast?_of_complete h) second
  let final := next.processAll (Feed.statements { queue := following })
  let finish := next.processAll (Feed.statements { queue := tokenize second })
  have hearlier : earlier = (middle.pending, { middle with pending := [] }) :=
    (Session.ofSource first settings).drain_eq_processAll
  have hlater : later = (finish.pending, { finish with pending := [] }) := by
    have hresume : earlier.2.resume second = middle.resume second := by
      rw [hearlier]
      rfl
    change (earlier.2.resume second).drain = _
    rw [hresume, Session.drain_eq_processAll]
    rfl
  have hwhole : whole =
      ((final.after middle).pending, { final.after middle with pending := [] }) := by
    have hstatements : Feed.statements { queue := tokenize (first ++ "\n" ++ second) } =
        Feed.statements { queue := tokenize first } ++ Feed.statements { queue := following } := by
      apply Feed.statements_append h
      exact htokens
    have hprocessed : start.processAll
        (Feed.statements { queue := tokenize (first ++ "\n" ++ second) }) = final.after middle := by
      rw [hstatements, Session.processAll, List.foldl_append, ← Session.processAll_after, hmiddle]
      rfl
    rw [← hprocessed]
    exact (Session.ofSource (first ++ "\n" ++ second) settings).drain_eq_processAll
  have hsame : final.unplaced = finish.unplaced := next.processAll_of_unplaced hfollowing
  obtain ⟨_, htable, hsettings, hpending, hdiagnostics, _, hechoes, hafter⟩ := Session.mk.inj hsame
  rw [hwhole, hlater, hearlier]
  refine ⟨?_, ?_, congrArg (middle.echoes ++ ·) hechoes, htable, hsettings, hafter⟩
  · rw [Session.after, List.map_append, List.map_append, hpending]
  · rw [Session.after, Array.toList_append, List.map_append, List.map_append, ← Array.toList_map,
      ← Array.toList_map, ← Array.toList_map, hdiagnostics]

/-- A source that calls a macro of the source before it. -/
theorem drain_line_define_call :
    let first := "DEFINE !m () x !ENDDEFINE."
    let statements := Feed.statements { queue := tokenize first }
    let earlier := (Session.ofSource first {}).drain
    (∀ last ∈ statements.getLast?, Statement.IsComplete last) ∧ statements.length = 1 ∧
      (Session.ofSource (first ++ "\n" ++ "!m.") {}).drain.1.map Token.unplaced =
        (earlier.1 ++ (earlier.2.resume "!m.").drain.1).map Token.unplaced := by
  intro first statements earlier
  have htokens : tokenize first =
      [⟨.identifier, "DEFINE", ⟨0, 6⟩⟩, ⟨.identifier, "!m", ⟨7, 9⟩⟩,
        ⟨.punct .leftParen, "(", ⟨10, 11⟩⟩, ⟨.punct .rightParen, ")", ⟨11, 12⟩⟩,
        ⟨.identifier, "x", ⟨13, 14⟩⟩, ⟨.identifier, "!ENDDEFINE", ⟨15, 25⟩⟩,
        ⟨.endCommand, ".", ⟨25, 26⟩⟩] := by
    decide +kernel
  have hstatements : statements = [tokenize first] := by
    have hread : Feed.readStatement { queue := tokenize first } = some (tokenize first, {}) := by
      rw [htokens]
      rfl
    exact (Feed.statements_of_some hread).trans (congrArg _ (Feed.statements_of_none rfl))
  have hcomplete : ∀ last ∈ statements.getLast?, Statement.IsComplete last := by
    rw [hstatements, htokens]
    rintro last ⟨⟩
    exact ⟨⟨_, rfl, rfl⟩, fun _ => ⟨⟨.identifier, "!ENDDEFINE", ⟨15, 25⟩⟩, by decide, by decide⟩⟩
  refine ⟨hcomplete, ?_, (drain_line hcomplete "!m." {}).1⟩
  rw [hstatements]
  rfl

end CommandMacros

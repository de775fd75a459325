import CommandMacros.Proofs.Unplaced.Definition
import CommandMacros.Proofs.Unplaced.Expansion
import CommandMacros.Session

/-!
Sessions without places. What a session makes of a statement, the macros, the settings, the tokens
and the reports, is the same up to places wherever the statement stands.
-/

namespace CommandMacros

/-! ### Settings -/

namespace Settings

theorem settingAt?_unplaced (t : Token) : settingAt? t.unplaced = settingAt? t := rfl

theorem assign_unplaced (settings : Settings) (setting : Setting) (value : Token) :
    settings.assign setting value.unplaced = settings.assign setting value := by
  cases setting <;> rfl

theorem applyAssignments_unplaced (settings : Settings) (tokens : List Token) :
    settings.applyAssignments (tokens.map Token.unplaced) =
      ((settings.applyAssignments tokens).1,
        (settings.applyAssignments tokens).2.map Diagnostic.unplaced) := by
  fun_induction applyAssignments settings tokens with
  | case1 settings name equals setting hequals hsetting =>
      simp only [List.map_cons, List.map_nil, applyAssignments, settingAt?_unplaced, hsetting,
        Token.isPunct_unplaced, hequals]
      rfl
  | case2 settings name equals setting hequals hsetting value others changed hchanged ih =>
      simp only [List.map_cons, applyAssignments, settingAt?_unplaced, hsetting,
        Token.isPunct_unplaced, hequals, assign_unplaced, hchanged, ih]
  | case3 settings name equals setting hequals hsetting value others cause hcause final diagnostics
      hrest ih =>
      simp only [List.map_cons, applyAssignments, settingAt?_unplaced, hsetting,
        Token.isPunct_unplaced, hequals, assign_unplaced, hcause, ih, hrest]
      rfl
  | case4 settings name equals rest hother ih =>
      rw [List.map_cons, List.map_cons, applyAssignments, settingAt?_unplaced,
        Token.isPunct_unplaced]
      split
      · next hsetting hequals => exact (hother _ hsetting hequals).elim
      · exact ih
  | case5 tokens settings hshort =>
      rcases tokens with - | ⟨t, - | ⟨u, rest⟩⟩
      · rfl
      · rfl
      · exact (hshort t u rest rfl).elim

theorem applyCommand_unplaced (settings : Settings) (command : List Token) :
    settings.applyCommand (command.map Token.unplaced) =
      ((settings.applyCommand command).1,
        (settings.applyCommand command).2.map Diagnostic.unplaced) := by
  have hset : isSet (command.map Token.unplaced) = isSet command := by
    cases command <;> rfl
  rw [applyCommand, applyCommand, hset, ← List.map_tail, applyAssignments_unplaced]
  split <;> rfl

theorem applyCommands_unplaced (settings : Settings) (commands : List (List Token)) :
    settings.applyCommands (commands.map (List.map Token.unplaced)) =
      ((settings.applyCommands commands).1,
        (settings.applyCommands commands).2.map Diagnostic.unplaced) := by
  induction commands generalizing settings with
  | nil => rfl
  | cons command others ih =>
      have hfront : (command.map Token.unplaced).takeWhile (!·.isEnd) =
          (command.takeWhile (!·.isEnd)).map Token.unplaced := List.takeWhile_map
      simp only [List.map_cons, applyCommands, hfront, applyCommand_unplaced, ih, List.map_append]

end Settings

theorem Token.commands_unplaced (tokens : List Token) :
    commands (tokens.map unplaced) = (commands tokens).map (List.map unplaced) := by
  induction tokens with
  | nil => rfl
  | cons t rest ih =>
      rw [List.map_cons, commands, commands, ih, isEnd_unplaced]
      split
      · rfl
      · cases commands rest <;> rfl

/-! ### Definitions -/

namespace Table

theorem insert_unplaced (key : String) (d : Definition) (entries : List (String × Definition)) :
    (insert key d.unplaced (entries.map fun entry => (entry.1, entry.2.unplaced))).1 =
      (insert key d entries).1.map fun entry => (entry.1, entry.2.unplaced) := by
  induction entries with
  | nil => rfl
  | cons entry others ih =>
      rw [List.map_cons, insert, insert]
      split
      · rfl
      split
      · rfl
      · exact congrArg (List.cons _) ih

theorem define_unplaced (table : Table) (d : Definition) :
    (table.unplaced.define d.unplaced).1 = (table.define d).1.unplaced :=
  congrArg Table.mk (insert_unplaced d.key d table.entries)

end Table

/-! ### Statements -/

def Feed.unplaced (feed : Feed) : Feed :=
  ⟨feed.lookahead.map Token.unplaced, feed.queue.map Token.unplaced⟩

namespace Session

def unplaced (session : Session) : Session :=
  { session with
    feed := session.feed.unplaced
    table := session.table.unplaced
    pending := session.pending.map Token.unplaced
    diagnostics := session.diagnostics.map Diagnostic.unplaced }

theorem dropRepeatedEnds_unplaced (afterEnd : Bool) (tokens : List Token) :
    dropRepeatedEnds afterEnd (tokens.map Token.unplaced) =
      ((dropRepeatedEnds afterEnd tokens).1.map Token.unplaced,
        (dropRepeatedEnds afterEnd tokens).2) := by
  induction tokens generalizing afterEnd with
  | nil => rfl
  | cons t rest ih =>
      rw [List.map_cons, dropRepeatedEnds, dropRepeatedEnds, Token.isEnd_unplaced, ih, ih]
      split <;> rfl

theorem define_unplaced (session : Session) (statement : List Token) :
    session.unplaced.define (statement.map Token.unplaced) =
      (session.define statement).unplaced := by
  have hparse := Definition.alike_parse statement
  rw [define, define]
  generalize Definition.parse statement = parsed,
    Definition.parse (statement.map Token.unplaced) = other at hparse
  cases hparse with
  | ok h =>
      subst h
      rw [unplaced]
      dsimp only
      rw [Table.define_unplaced]
      rfl
  | error h =>
      rw [unplaced, unplaced]
      dsimp only
      rw [Array.map_push]
      rfl

theorem echo_unplaced (session : Session) (lines : Array String) :
    session.unplaced.echo lines = (session.echo lines).unplaced := by
  obtain ⟨feed, table, settings, pending, diagnostics, sink, echoes, afterEnd⟩ := session
  cases sink <;> rfl

theorem expand_unplaced (session : Session) (statement : List Token) :
    session.unplaced.expand (statement.map Token.unplaced) =
      (session.expand statement).unplaced := by
  have hexpansion : Expansion.expandStatement session.unplaced.environment
      (statement.map Token.unplaced) {} = Expansion.unplacedExpansion
        (Expansion.expandStatement session.environment statement {}) := by
    have hlog : ({} : Log).unplaced = {} := by
      rw [Log.unplaced, Array.map_empty]
    rw [← Expansion.expandStatement_unplaced, hlog]
    rfl
  rw [expand, hexpansion, expand]
  generalize Expansion.expandStatement session.environment statement {} = expansion
  obtain ⟨output, log⟩ := expansion
  have hdiagnostics (problems : List Diagnostic) :
      session.diagnostics.map Diagnostic.unplaced ++ log.diagnostics.map Diagnostic.unplaced ++
          problems.map Diagnostic.unplaced =
        (session.diagnostics ++ log.diagnostics ++ problems).map Diagnostic.unplaced := by
    apply Array.toList_inj.mp
    simp only [Array.toList_appendList, Array.toList_append, Array.toList_map, List.map_append]
  dsimp only [Expansion.unplacedExpansion]
  rw [Token.commands_unplaced, Settings.applyCommands_unplaced, dropRepeatedEnds_unplaced,
    Log.unplaced, echo_unplaced]
  simp only [unplaced, List.map_append, hdiagnostics]

/-- Processing a statement looks at no places. -/
theorem process_unplaced (session : Session) (statement : List Token) :
    session.unplaced.process (statement.map Token.unplaced) =
      (session.process statement).unplaced := by
  have hfirst : (statement.map Token.unplaced).head?.any Statement.isDefine =
      statement.head?.any Statement.isDefine := by
    cases statement <;> rfl
  rw [process, process, hfirst, define_unplaced, expand_unplaced]
  split <;> rfl

end Session

end CommandMacros

import CommandMacros.Proofs.Expansion.Echo
import CommandMacros.Proofs.Session.Statements

/-!
Echoing in a session. Whether expansions are echoed, and where the lines go, changes nothing else:
sessions that differ in these only stay so, whatever `SET` commands there are on the way.
-/

namespace CommandMacros

/-! ### Settings -/

namespace Settings

/-- The settings with echoing off. -/
def silenced (settings : Settings) : Settings :=
  { settings with print := false }

variable {settings other : Settings}

theorem assign_silenced (h : other.silenced = settings.silenced) (setting : Setting)
    (value : Token) :
    (other.assign setting value).map silenced = (settings.assign setting value).map silenced := by
  obtain ⟨expand, print, iterateLimit, nestLimit⟩ := settings
  obtain ⟨expand', print', iterateLimit', nestLimit'⟩ := other
  obtain ⟨rfl, -, rfl, rfl⟩ := Settings.mk.inj h
  cases setting with
  | expand | print => cases hswitch : switch value <;> simp only [assign, hswitch] <;> rfl
  | iterate | nest => cases hlimit : limit value <;> simp only [assign, hlimit] <;> rfl

/-- Assignments give the same settings but for echoing, and the same problems. -/
theorem applyAssignments_silenced (h : other.silenced = settings.silenced) (tokens : List Token) :
    (other.applyAssignments tokens).1.silenced = (settings.applyAssignments tokens).1.silenced ∧
      (other.applyAssignments tokens).2 = (settings.applyAssignments tokens).2 := by
  fun_induction applyAssignments settings tokens generalizing other with
  | case1 settings name equals setting hequals hsetting =>
      simp only [applyAssignments, hsetting, hequals]
      exact ⟨h, trivial⟩
  | case2 settings name equals setting hequals hsetting value others changed hchanged ih =>
      have hassign := assign_silenced h setting value
      rw [hchanged] at hassign
      simp only [applyAssignments, hsetting, hequals]
      cases hother : other.assign setting value with
      | ok same =>
          rw [hother] at hassign
          exact ih (Except.ok.inj hassign)
      | error cause =>
          rw [hother] at hassign
          cases hassign
  | case3 settings name equals setting hequals hsetting value others cause hcause final problems
      hothers ih =>
      have hassign := assign_silenced h setting value
      rw [hcause] at hassign
      have hrest := ih h
      rw [hothers] at hrest
      simp only [applyAssignments, hsetting, hequals]
      cases hother : other.assign setting value with
      | ok same =>
          rw [hother] at hassign
          cases hassign
      | error same =>
          rw [hother] at hassign
          cases hassign
          exact ⟨hrest.1, congrArg (invalid setting cause value :: ·) hrest.2⟩
  | case4 settings name equals rest hnot ih =>
      simp only [applyAssignments]
      exact ih h
  | case5 tokens settings hshort =>
      rcases tokens with _ | ⟨name, _ | ⟨equals, rest⟩⟩
      · exact ⟨h, rfl⟩
      · exact ⟨h, rfl⟩
      · exact (hshort name equals rest rfl).elim

theorem applyCommand_silenced (h : other.silenced = settings.silenced) (command : List Token) :
    (other.applyCommand command).1.silenced = (settings.applyCommand command).1.silenced ∧
      (other.applyCommand command).2 = (settings.applyCommand command).2 := by
  unfold applyCommand
  split
  · exact applyAssignments_silenced h command.tail
  · exact ⟨h, rfl⟩

theorem applyCommands_silenced (h : other.silenced = settings.silenced)
    (commands : List (List Token)) :
    (other.applyCommands commands).1.silenced = (settings.applyCommands commands).1.silenced ∧
      (other.applyCommands commands).2 = (settings.applyCommands commands).2 := by
  induction commands generalizing settings other with
  | nil => exact ⟨h, rfl⟩
  | cons command others ih =>
      have hcommand := applyCommand_silenced h (command.takeWhile (!·.isEnd))
      have hothers := ih hcommand.1
      simp only [applyCommands]
      exact ⟨hothers.1, by rw [hcommand.2, hothers.2]⟩

end Settings

/-! ### Sessions -/

namespace Session

/-- The session with echoing off and no line echoed. -/
def silenced (session : Session) : Session :=
  { session with settings := session.settings.silenced, echoSink := .discard, echoes := #[] }

theorem expand_silenced (session : Session) (statement : List Token) :
    (session.silenced.expand statement).silenced = (session.expand statement).silenced := by
  obtain ⟨feed, table, settings, pending, diagnostics, sink, echoes, afterEnd⟩ := session
  obtain ⟨houtput, hdiagnostics⟩ :=
    Expansion.expandStatement_withPrint table settings false statement
  have happlied := @Settings.applyCommands_silenced settings settings.silenced rfl
    (Token.commands (Expansion.expandStatement ⟨table, settings⟩ statement {}).1)
  cases sink <;>
    simp only [expand, silenced, environment, echo, Settings.silenced] at happlied ⊢ <;>
    simp only [houtput, hdiagnostics, happlied]

/-- What a statement does but for echoing does not depend on echoing. -/
theorem process_silenced (session : Session) (statement : List Token) :
    (session.silenced.process statement).silenced = (session.process statement).silenced := by
  unfold process
  split
  · unfold define
    cases Definition.parse statement <;> rfl
  · exact session.expand_silenced statement

theorem processAll_silenced (session : Session) (statements : List (List Token)) :
    (session.silenced.processAll statements).silenced =
      (session.processAll statements).silenced := by
  induction statements generalizing session with
  | nil => rfl
  | cons statement others ih =>
      calc (session.silenced.processAll (statement :: others)).silenced
          = ((session.silenced.process statement).silenced.processAll others).silenced :=
            (ih _).symm
        _ = ((session.process statement).silenced.processAll others).silenced := by
            rw [process_silenced]
        _ = (session.processAll (statement :: others)).silenced := ih _

/-- The tokens and the diagnostics of a run do not depend on echoing. -/
theorem drain_silenced (session : Session) :
    session.silenced.drain.1 = session.drain.1 ∧
      session.silenced.drain.2.silenced = session.drain.2.silenced := by
  have hfinal := processAll_silenced { session with feed := {} } session.feed.statements
  rw [drain_eq_processAll, drain_eq_processAll session]
  have htokens := congrArg Session.pending hfinal
  have hrest := congrArg (fun final => { final with pending := [] }) hfinal
  exact ⟨htokens, hrest⟩

end Session

/-- Sessions that differ in echoing only give the same tokens, and end with no other difference. -/
theorem Session.drain_of_silenced {session other : Session}
    (h : other.silenced = session.silenced) :
    other.drain.1 = session.drain.1 ∧ other.drain.2.silenced = session.drain.2.silenced := by
  obtain ⟨htokens, hfinal⟩ := session.drain_silenced
  obtain ⟨hothers, hlast⟩ := other.drain_silenced
  rw [h] at hothers hlast
  exact ⟨hothers.symm.trans htokens, hlast.symm.trans hfinal⟩

/-- Echoing is transparent: with it on and off a source gives the same tokens and diagnostics.
Echoing is faithful: with it on, a statement expands to its pieces in order, copied tokens and what
its calls contribute, and the lines echoed are one for each of these calls in order, with the name
as it is written there and the tokens of the piece. -/
theorem echo_transparent_and_faithful :
    (∀ (source : String) (settings : Settings),
      expandSource source { settings with print := true } =
        expandSource source { settings with print := false }) ∧
    ∀ (table : Table) (settings : Settings) (statement : List Token) (log : Log),
      let env : Environment := ⟨table, { settings with print := true }⟩
      let expansion := Expansion.expandStatement env statement log
      let pieces := Expansion.pieces env (Emitted.ofTokens settings.expand statement)
      expansion.1 = pieces.flatMap Expansion.Piece.tokens ∧
        expansion.2.echoes.toList =
          log.echoes.toList ++ pieces.filterMap Expansion.Piece.echo? := by
  refine ⟨fun source settings => ?_, fun table settings statement log => ?_⟩
  · let session := Session.ofSource source { settings with print := false }
    let echoing := Session.ofSource source { settings with print := true }
    have hsilenced : echoing.silenced = session.silenced := rfl
    obtain ⟨htokens, hfinal⟩ := Session.drain_of_silenced hsilenced
    have hdiagnostics := congrArg Session.diagnostics hfinal
    exact Prod.ext htokens (congrArg Array.toList hdiagnostics)
  · intro env expansion pieces
    have hexpansion : expansion = Expansion.expandRecursively env (Expansion.evaluator env) 0
        (Emitted.ofTokens settings.expand statement) log :=
      Expansion.expandWith_eq_expandRecursively env _ _ 0 log
    rw [hexpansion]
    exact Expansion.expandRecursively_pieces rfl _ log

end CommandMacros

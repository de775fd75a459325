import CommandMacros.Proofs.Expansion.Balance
import CommandMacros.Proofs.Expansion.Complete
import CommandMacros.Proofs.Session.Statements
import CommandMacros.Proofs.Unplaced.Definition

/-!
`SET` commands act as they read in the stream. A session applies them statement by statement, before
it drops repeated ends. But the expansion of a statement ends with the end of the statement, so a
command never goes on in the next one, and a dropped end closes a command that holds nothing. All
problems with settings come from `SET` commands.
-/

namespace CommandMacros

/-- The error of a `SET` command. -/
def MacroError.isSetting : MacroError → Bool
  | .setting _ _ => true
  | _ => false

def Diagnostic.isSetting (d : Diagnostic) : Bool :=
  d.error.isSetting

namespace Settings

/-! ### Commands of a text -/

/-- The `SET` commands of a text, of the pieces between the ends of commands. -/
def setCommands (tokens : List Token) : List (List Token) :=
  (tokens.splitOnP Token.isEnd).filter isSet

@[simp] theorem setCommands_nil : setCommands [] = [] :=
  rfl

theorem setCommands_end {e : Token} (he : e.isEnd = true) (tokens others : List Token) :
    setCommands (tokens ++ e :: others) = setCommands tokens ++ setCommands others := by
  rw [setCommands, List.splitOnP_append_cons _ _ he, List.filter_append]
  rfl

/-- No command goes on from one text to the next if one of them holds nothing or the first one ends
its last command. -/
theorem setCommands_append {tokens others : List Token}
    (h : tokens = [] ∨ others = [] ∨ ∃ front e, e.isEnd = true ∧ tokens = front ++ [e]) :
    setCommands (tokens ++ others) = setCommands tokens ++ setCommands others := by
  rcases h with rfl | rfl | ⟨front, e, he, rfl⟩
  · rfl
  · rw [List.append_nil, setCommands_nil, List.append_nil]
  · rw [List.append_assoc, List.singleton_append, setCommands_end he, setCommands_end he,
      setCommands_nil, List.append_nil]

/-- The ends that are dropped close no `SET` command. Here `front` is what was given since the last
end. -/
theorem setCommands_dropRepeatedEnds {afterEnd : Bool} {front : List Token}
    (h : afterEnd = true → front = []) (tokens : List Token) :
    setCommands (front ++ (Session.dropRepeatedEnds afterEnd tokens).1) =
      setCommands (front ++ tokens) := by
  fun_induction Session.dropRepeatedEnds afterEnd tokens generalizing front with
  | case1 => rfl
  | case2 afterEnd t rest hdropped ih =>
      obtain ⟨hend, hafter⟩ := Bool.and_eq_true_iff.mp hdropped
      rw [ih h, h hafter, List.nil_append, List.nil_append]
      exact (setCommands_end hend [] rest).symm
  | case3 afterEnd t rest hkept kept ended hrest ih =>
      rw [hrest] at ih
      cases hend : t.isEnd with
      | true =>
          have hothers : setCommands kept = setCommands rest := @ih [] fun _ => rfl
          rw [setCommands_end hend, setCommands_end hend, hothers]
      | false =>
          have hothers := @ih (front ++ [t]) fun h => absurd h (Bool.eq_false_iff.mp hend)
          rwa [List.append_assoc, List.append_assoc] at hothers

/-- Cutting after each end gives the same commands, but for one at the end that holds nothing. -/
theorem splitOnP_eq_commands (tokens : List Token) :
    ∃ tail, tail.filter isSet = [] ∧
      tokens.splitOnP Token.isEnd =
        (Token.commands tokens).map (List.takeWhile (!·.isEnd)) ++ tail := by
  induction tokens with
  | nil => exact ⟨[[]], rfl, rfl⟩
  | cons t rest ih =>
      obtain ⟨tail, htail, hrest⟩ := ih
      rw [List.splitOnP_cons_eq_if_modifyHead, hrest, Token.commands]
      split
      · next hend =>
          refine ⟨tail, htail, ?_⟩
          rw [List.map_cons, List.takeWhile_cons_of_neg (by simp [hend]), List.cons_append]
      · next hend =>
          split
          · next hnone =>
              have hempty : rest = [] := by
                rw [← Token.flatten_commands rest, hnone, List.flatten_nil]
              subst hempty
              refine ⟨[], rfl, ?_⟩
              rw [← hrest, List.map_singleton, List.takeWhile_cons_of_pos (by simp [hend])]
              rfl
          · next command others hcommands =>
              refine ⟨tail, htail, ?_⟩
              rw [hcommands, List.map_cons, List.map_cons,
                List.takeWhile_cons_of_pos (by simp [hend]), List.cons_append, List.cons_append,
                List.modifyHead_cons]

/-! ### Commands one after the other -/

/-- Applies one more command, and adds the problems with it. -/
def applyNext (state : Settings × List Diagnostic) (command : List Token) :
    Settings × List Diagnostic :=
  let (changed, problems) := state.1.applyCommand command
  (changed, state.2 ++ problems)

theorem applyNext_of_not_isSet {command : List Token} (h : ¬isSet command = true)
    (state : Settings × List Diagnostic) : applyNext state command = state := by
  rw [applyNext, applyCommand, if_neg h]
  simp only [List.append_nil]

theorem foldl_applyNext_filter (commands : List (List Token))
    (state : Settings × List Diagnostic) :
    (commands.filter isSet).foldl applyNext state = commands.foldl applyNext state := by
  induction commands generalizing state with
  | nil => rfl
  | cons command others ih =>
      rw [List.filter_cons, List.foldl_cons]
      split
      · exact ih (applyNext state command)
      · next h =>
          rw [applyNext_of_not_isSet h]
          exact ih state

/-- Applying commands in a row applies each `SET` command to what those before it leave. -/
theorem applyCommands_eq_foldl (settings : Settings) (commands : List (List Token))
    (problems : List Diagnostic) :
    (commands.map (List.takeWhile (!·.isEnd))).foldl applyNext (settings, problems) =
      ((settings.applyCommands commands).1,
        problems ++ (settings.applyCommands commands).2) := by
  induction commands generalizing settings problems with
  | nil => simp only [applyCommands, List.map_nil, List.foldl_nil, List.append_nil]
  | cons command others ih =>
      rw [List.map_cons, List.foldl_cons, applyNext, ih, applyCommands, List.append_assoc]

theorem foldl_setCommands (settings : Settings) (tokens : List Token)
    (problems : List Diagnostic) :
    (setCommands tokens).foldl applyNext (settings, problems) =
      let (changed, more) := settings.applyCommands (Token.commands tokens)
      (changed, problems ++ more) := by
  obtain ⟨tail, htail, hpieces⟩ := splitOnP_eq_commands tokens
  rw [setCommands, hpieces, List.filter_append, htail, List.append_nil, foldl_applyNext_filter,
    applyCommands_eq_foldl]

theorem isSetting_of_applyCommands {settings : Settings} {commands : List (List Token)}
    {d : Diagnostic} (h : d ∈ (settings.applyCommands commands).2) : d.isSetting = true := by
  induction commands generalizing settings with
  | nil => cases h
  | cons command others ih =>
      rw [applyCommands] at h
      rcases List.mem_append.mp h with h | h
      · rw [applyCommand] at h
        split at h
        · obtain ⟨setting, cause, place, rfl⟩ := eq_invalid_of_mem_applyAssignments h
          rfl
        · cases h
      · exact ih h

end Settings

/-! ### Other problems -/

theorem Definition.not_isSetting_of_parse {statement : List Token} {fault : Fault}
    (h : parse statement = .error fault) : fault.toDiagnostic.isSetting = false := by
  obtain ⟨cause, hcause⟩ := cause_of_parse h
  rw [Fault.toDiagnostic, Diagnostic.isSetting, hcause]
  rfl

namespace Expansion

/-- No call of a procedure reports a problem with a setting, where no body holds such an error. -/
theorem Call.Reports.not_isSetting {env : Environment} {made : Call} {depth : Nat} {name : String}
    {d : Diagnostic} (h : made.Reports env depth name d) {rule : StackRule env}
    (hadmits : rule.Admits made) (herrors : ∀ error, rule.errors error → error.isSetting = false) :
    d.isSetting = false := by
  cases h with
  | binding _ _ hproblem =>
      obtain ⟨cause, hcause⟩ := bindArguments_errors hproblem
      rw [Log.reported, Diagnostic.isSetting, hcause]
      rfl
  | invalid nesting error span scene => exact herrors error (hadmits.2 error (.invalid span))
  | @failure _ _ _ _ d _ herror =>
      obtain ⟨error, span, stack⟩ := d
      cases error with
      | setting => exact herror.elim
      | _ => rfl
  | nesting | rangeLimit | listLimit | textLimit => rfl

theorem not_isSetting_of_expandStatement {env : Environment} (h : env.table.Compiled)
    (tokens : List Token) :
    ∀ d ∈ (expandStatement env tokens {}).2.diagnostics.toList, d.isSetting = false := by
  have hcompiled {error : MacroError} (herror : error.OfBody) : error.isSetting = false := by
    cases error with
    | setting => exact herror.elim
    | _ => rfl
  let rule := anyStack env (fun error => error.isSetting = false) (h.holdsOnly hcompiled) hcompiled
  have hstart : rule.Admits (.expandStatement 0 tokens {}) := ⟨none, trivial⟩
  exact Log.Adds.reportedSince (rule.adds_value hstart fun made _ hadmits depth name d hreports =>
    hreports.not_isSetting hadmits fun _ herror => herror)

end Expansion

/-! ### Statements one after the other -/

namespace Session

/-- The settings, and the problems with them so far. -/
def settingState (session : Session) : Settings × List Diagnostic :=
  (session.settings, session.diagnostics.toList.filter Diagnostic.isSetting)

/-- A statement applies the `SET` commands of what it gives. -/
theorem process_settingState {session : Session} (h : session.table.Compiled)
    (statement : List Token) :
    (session.process statement).settingState =
      (Settings.setCommands (session.output statement)).foldl Settings.applyNext
        session.settingState := by
  unfold process output
  split
  · rw [Settings.setCommands_nil, List.foldl_nil]
    unfold define
    split
    · rfl
    · next fault hfault =>
        have hfiltered : [fault.toDiagnostic].filter Diagnostic.isSetting = [] :=
          List.filter_cons_of_neg (Bool.eq_false_iff.mp (Definition.not_isSetting_of_parse hfault))
        rw [settingState, Array.toList_push, List.filter_append, hfiltered, List.append_nil]
        rfl
  · have hlog := @Expansion.not_isSetting_of_expandStatement session.environment h statement
    simp only [settingState, expand, Settings.foldl_setCommands]
    generalize Expansion.expandStatement session.environment statement {} = expansion at hlog ⊢
    let problems := (session.settings.applyCommands (Token.commands expansion.1)).2
    have hlogFiltered : expansion.2.diagnostics.toList.filter Diagnostic.isSetting = [] := by
      rw [List.filter_eq_nil_iff]
      exact fun d hd => Bool.eq_false_iff.mp (hlog d hd)
    have hproblems : problems.filter Diagnostic.isSetting = problems :=
      List.filter_eq_self.mpr fun d hd => Settings.isSetting_of_applyCommands hd
    rw [Array.toList_appendList, Array.toList_append, List.filter_append, List.filter_append,
      hlogFiltered, hproblems, List.append_nil]

/-- The last command of what a statement gives is ended, unless nothing is given or read after
it. -/
theorem output_ends (session : Session) {feed next : Feed} {statement : List Token}
    (h : feed.readStatement = some (statement, next)) :
    session.output statement = [] ∨ next.statements = [] ∨
      ∃ front e, e.isEnd = true ∧ session.output statement = front ++ [e] := by
  obtain ⟨first, rest, _, hcut⟩ := Feed.tokens_of_readStatement h
  cases hnext : next.tokens with
  | nil => exact .inr (.inl (Feed.statements_of_tokens_nil hnext))
  | cons t left =>
      unfold output
      split
      · exact .inl rfl
      · next hdefine =>
          have hfirst : statement.head? = some first := by
            rw [← Statement.head?_cut first rest, hcut]
          have hleft : (Statement.cut first rest).2 ≠ [] := by
            rw [hcut, hnext]
            exact List.cons_ne_nil t left
          rw [hfirst, Option.any_some, Bool.not_eq_true] at hdefine
          obtain ⟨front, e, he, hstatement⟩ := Statement.cut_ends hdefine hleft
          obtain rfl : statement = front ++ [e] := by rw [← hstatement, hcut]
          obtain ⟨expansion, hexpansion⟩ := Expansion.expandStatement_end he front {}
          exact .inr (.inr ⟨expansion, e, he, hexpansion⟩)

/-- A run applies the `SET` commands of all that its statements give. -/
theorem processAll_settingState {session : Session} (h : session.table.Compiled) (feed : Feed) :
    (session.processAll feed.statements).settingState =
      (Settings.setCommands (session.outputs feed.statements).flatten).foldl Settings.applyNext
        session.settingState := by
  fun_induction Feed.statements feed generalizing session with
  | case1 => rfl
  | case2 feed statement next hread _ ih =>
      -- No command goes on from this statement to the next, so the commands of both are in a row.
      have hends : session.output statement = [] ∨
          ((session.process statement).outputs next.statements).flatten = [] ∨
          ∃ front e, e.isEnd = true ∧ session.output statement = front ++ [e] := by
        rcases session.output_ends hread with hempty | hlast | hend
        · exact .inl hempty
        · rw [hlast]
          exact .inr (.inl rfl)
        · exact .inr (.inr hend)
      rw [outputs, List.flatten_cons, Settings.setCommands_append hends, List.foldl_append,
        ← process_settingState h, ← ih (process_compiled h statement)]
      rfl

/-- Where nothing is defined, statements that are no definitions are given as they are. -/
theorem outputs_of_no_table {session : Session} (htable : session.table = {})
    {statements : List (List Token)}
    (h : ∀ statement ∈ statements, statement.head?.any Statement.isDefine = false) :
    session.outputs statements = statements := by
  induction statements generalizing session with
  | nil => rfl
  | cons statement others ih =>
      obtain ⟨hfirst, hothers⟩ := List.forall_mem_cons.mp h
      have houtput : session.output statement = statement := by
        rw [output, if_neg (Bool.eq_false_iff.mp hfirst), Expansion.expandStatement_of_no_lookup]
        intro t _ _
        rw [environment, htable]
        rfl
      have hafter : (session.process statement).table = {} := by
        rw [process, if_neg (Bool.eq_false_iff.mp hfirst), ← htable]
        simp only [expand, echo]
        split <;> rfl
      rw [outputs, houtput, ih hafter hothers]

end Session

/-- The expansion of a statement ends with the end of the statement, whatever is called in it; and
after a run, the settings and the problems with them are those of the `SET` commands in the stream,
applied one after the other. -/
theorem set_commands_of_stream (source : String) (settings : Settings) :
    let start := Session.ofSource source settings
    let stream := start.drain.1
    let final := start.drain.2
    start.Pulls stream final ∧
      (Settings.setCommands stream).foldl Settings.applyNext (settings, []) =
        (final.settings, final.diagnostics.toList.filter Diagnostic.isSetting) ∧
      ∀ (env : Environment) (tokens : List Token) (e : Token) (log : Log), e.isEnd = true →
        ∃ expansion, (Expansion.expandStatement env (tokens ++ [e]) log).1 = expansion ++ [e] := by
  intro start stream final
  let read : Session := { start with feed := {} }
  have hcompiled : read.table.Compiled := List.forall_mem_nil _
  have hrun := Session.processAll_settingState hcompiled start.feed
  have hstream : Settings.setCommands stream =
      Settings.setCommands (read.outputs start.feed.statements).flatten := by
    have houtputs : read.outputs start.feed.statements = start.outputs start.feed.statements :=
      @Session.outputs_congr start read rfl _
    rw [show stream = _ from start.drain_eq_outputs, houtputs]
    exact @Settings.setCommands_dropRepeatedEnds true [] (fun _ => rfl) _
  have hfinal : final = { read.processAll start.feed.statements with pending := [] } :=
    congrArg Prod.snd start.drain_eq_processAll
  refine ⟨start.pulls_drain, ?_, fun env tokens e log he => ?_⟩
  · rw [hstream, hfinal]
    exact hrun.symm
  · exact Expansion.expandStatement_end he tokens log

/-- A switch is turned on and a limit is refused. A macro that takes all of its command leaves the
end of it. -/
theorem set_commands_of_stream_refused :
    let source := "SET MPRINT=ON.\nSET MNEST=OFF."
    let stream := (Session.ofSource source {}).drain.1
    let final := (Session.ofSource source {}).drain.2
    let env : Environment := ⟨⟨[("ALL", Expansion.takesCommand)]⟩, {}⟩
    let call : Token := ⟨.identifier, "all", .point 0⟩
    let stop : Token := ⟨.endCommand, ".", .point 0⟩
    stream = tokenize source ∧ final.settings = { print := true } ∧
      final.diagnostics.toList.filter Diagnostic.isSetting =
        [{ error := .setting .nest (.notALimit "OFF"), span := some ⟨25, 28⟩ }] ∧
      stop.isEnd = true ∧
      ∃ expansion, (Expansion.expandStatement env ([call] ++ [stop]) {}).1 =
        expansion ++ [stop] := by
  intro source stream final env call stop
  have htokens : tokenize source =
      [⟨.identifier, "SET", ⟨0, 3⟩⟩, ⟨.identifier, "MPRINT", ⟨4, 10⟩⟩,
        ⟨.punct .equals, "=", ⟨10, 11⟩⟩, ⟨.identifier, "ON", ⟨11, 13⟩⟩,
        ⟨.endCommand, ".", ⟨13, 14⟩⟩, ⟨.identifier, "SET", ⟨15, 18⟩⟩,
        ⟨.identifier, "MNEST", ⟨19, 24⟩⟩, ⟨.punct .equals, "=", ⟨24, 25⟩⟩,
        ⟨.identifier, "OFF", ⟨25, 28⟩⟩, ⟨.endCommand, ".", ⟨28, 29⟩⟩] := by
    decide +kernel
  have hstatements : (Session.ofSource source {}).feed.statements =
      Token.commands (tokenize source) := by
    rw [Session.ofSource, htokens, Feed.statements_of_some rfl, Feed.statements_of_some rfl,
      Feed.statements_of_none rfl]
    rfl
  have hstream : stream = tokenize source := by
    rw [show stream = _ from Session.drain_eq_outputs _, hstatements,
      Session.outputs_of_no_table rfl, Token.flatten_commands, htokens]
    · rfl
    · rw [htokens]
      decide
  obtain ⟨_, happlied, hend⟩ := set_commands_of_stream source {}
  have hsettings : (Settings.setCommands stream).foldl Settings.applyNext ({}, []) =
      ({ print := true },
        [{ error := .setting .nest (.notALimit "OFF"), span := some ⟨25, 28⟩ }]) := by
    rw [hstream, htokens]
    decide +kernel
  obtain ⟨hfinal, hproblems⟩ := Prod.mk.inj (hsettings.symm.trans happlied)
  exact ⟨hstream, hfinal.symm, hproblems.symm, rfl, hend env [call] stop {} rfl⟩

end CommandMacros

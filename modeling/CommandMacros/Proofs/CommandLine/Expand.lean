import CommandMacros.Proofs.Expansion.Complete
import CommandMacros.Proofs.Session.Definitions
import CommandMacros.Proofs.Session.Echo
import CommandMacros.Proofs.Session.Progress
import CommandMacros.Proofs.Token.Commands

/-!
The command that expands a file, against the expansion as a whole. The command prints while tokens
are pulled, and counts errors at the ends of commands; what it prints is the commands of the
expansion, up to the first one at whose end too many errors have been reported.
-/

namespace CommandMacros.CommandLine

open Session (addErrors)

/-! ### Lines -/

/-- The text of a line on the standard output. -/
def Line.output? : Line → Option String
  | .output text => some text
  | .report _ => none

/-- Texts one per line. -/
def asLines (texts : List String) : String :=
  String.join (texts.map (· ++ "\n"))

/-- The lines on the standard output. -/
def Outcome.printed (outcome : Outcome) : List String :=
  outcome.lines.filterMap Line.output?

theorem Outcome.stdout_eq (outcome : Outcome) : outcome.stdout = asLines outcome.printed := by
  have htext : outcome.stdout = outcome.textOf Line.output? := by
    refine congrArg (Outcome.textOf · outcome) (funext fun line => ?_)
    cases line <;> rfl
  exact htext

theorem filterMap_output?_report (texts : List String) :
    (texts.map Line.report).filterMap Line.output? = [] := by
  rw [List.filterMap_map]
  exact List.filterMap_eq_nil_iff.mpr fun _ _ => rfl

theorem filterMap_output?_output (texts : List String) :
    (texts.map Line.output).filterMap Line.output? = texts := by
  rw [List.filterMap_map]
  exact List.filterMap_some

theorem isEnd_of_mem_reverse {command : List Token} (h : ∀ t ∈ command, t.isEnd = false) :
    ∀ t ∈ command.reverse, t.isEnd = false :=
  fun t ht => h t (List.mem_reverse.mp ht)

namespace Printing

/-- The lines printed so far. -/
def printed (printing : Printing) : List String :=
  printing.lines.toList.filterMap Line.output?

theorem printed_writeEchoes (printing : Printing) (session : Session) :
    (printing.writeEchoes session).1.printed = printing.printed := by
  simp only [printed, writeEchoes, Session.takeEchoes, Array.toList_appendList,
    List.filterMap_append, filterMap_output?_report, List.append_nil]

theorem printed_writeDiagnostics (printing : Printing) (file source : String) (session : Session) :
    (printing.writeDiagnostics file source session).1.printed = printing.printed := by
  simp only [printed, writeDiagnostics, Session.takeDiagnostics, Array.toList_appendList,
    List.filterMap_append, filterMap_output?_report, List.append_nil]

theorem command_writeCommand (printing : Printing) (quiet : Bool) :
    (printing.writeCommand quiet).command = [] := by
  unfold writeCommand
  split <;> rfl

theorem errors_writeCommand (printing : Printing) (quiet : Bool) :
    (printing.writeCommand quiet).errors = printing.errors := by
  unfold writeCommand
  split <;> rfl

theorem printed_writeCommand (printing : Printing) :
    (printing.writeCommand false).printed =
      printing.printed ++
        if printing.command.isEmpty then [] else [Token.render printing.command.reverse] := by
  unfold writeCommand
  rw [Bool.or_false]
  split
  · exact (List.append_nil _).symm
  · simp only [printed, Array.toList_push, List.filterMap_append]
    rfl

/-- What is printed of a command that has no end. -/
theorem printed_writeCommand_open {printing : Printing}
    (h : ∀ t ∈ printing.command, t.isEnd = false) :
    (printing.writeCommand false).printed =
      printing.printed ++ Token.renderCommands printing.command.reverse := by
  rw [printed_writeCommand, Token.renderCommands,
    Token.commands_of_no_end (isEnd_of_mem_reverse h), List.isEmpty_reverse]
  split <;> rfl

theorem printed_remark (printing : Printing) (text : String) :
    printed { printing with lines := printing.lines.push (.report text) } = printing.printed := by
  simp only [printed, Array.toList_push, List.filterMap_append]
  exact List.append_nil _

theorem printed_writeNames (printing : Printing) (names : List String) :
    printed { printing with lines := printing.lines ++ names.map Line.output } =
      printing.printed ++ names := by
  simp only [printed, Array.toList_appendList, List.filterMap_append, filterMap_output?_output]

theorem printed_finish (printing : Printing) : printing.finish.printed = printing.printed :=
  rfl

end Printing

/-! ### Commands -/

/-- The texts of the commands among tokens that come with the number of errors reported up to them,
after the tokens of a command that is not complete yet, the last one first; and whether there is an
end where the errors have used up the budget. The command that has this end is the last one. -/
def typeset (budget : Nat) : List Token → List (Token × Nat) → List String × Bool
  | command, [] => (Token.renderCommands command.reverse, false)
  | command, (t, errors) :: rest =>
    if t.isEnd then
      let text := Token.render (t :: command).reverse
      if budget ≤ errors then
        ([text], true)
      else
        let others := typeset budget [] rest
        (text :: others.1, others.2)
    else
      typeset budget (t :: command) rest

/-- The commands that a run has still to print. -/
def upcoming (options : ExpandOptions) (session : Session) (printing : Printing) :
    List String × Bool :=
  typeset options.maxErrors printing.command (session.ahead.map (addErrors printing.errors))

/-- What a run prints after the lines before, and how it ends. -/
structure Outcome.Ends (outcome : Outcome) (options : ExpandOptions) (before : List String)
    (texts : List String × Bool) (table : Table) (errors : Nat) : Prop where
  printed : outcome.printed =
    before ++ texts.1 ++ if texts.2 then [] else if options.listMacros then table.names else []
  code : outcome.code = if texts.2 then 1 else if errors = 0 then 0 else 1

section Run

variable {options : ExpandOptions} {session rest : Session} {printing : Printing} {t : Token}

theorem upcoming_of_done (h : session.next = (none, rest)) :
    upcoming options session printing = (Token.renderCommands printing.command.reverse, false) := by
  rw [upcoming, Session.ahead_of_done h]
  rfl

theorem upcoming_of_next (h : session.next = (some t, rest)) :
    upcoming options session printing =
      typeset options.maxErrors printing.command
        ((t, printing.errors + rest.errorCount) ::
          rest.takeEchoes.2.ahead.map (addErrors printing.errors)) := by
  rw [upcoming, Session.ahead_of_next h, Session.ahead_takeEchoes]
  rfl

/-- What is left at the end of a run. -/
theorem writeRest_ends (hquiet : options.quiet = false) (source : String)
    (hcommand : ∀ t ∈ printing.command, t.isEnd = false) :
    (writeRest options source rest printing).Ends options printing.printed
      (Token.renderCommands printing.command.reverse, false) rest.table
      (printing.errors + rest.errorCount) := by
  let echoed := printing.writeEchoes rest
  have hopen : ∀ t ∈ echoed.1.command, t.isEnd = false := hcommand
  have hwritten := Printing.printed_writeCommand_open hopen
  have herrors := echoed.1.errors_writeCommand false
  unfold writeRest
  rw [hquiet]
  refine ⟨?_, ?_⟩
  · have hprinted := Printing.printed_writeNames
      ((echoed.1.writeCommand false).writeDiagnostics options.file source echoed.2).1
      (if options.listMacros then rest.table.names else [])
    rw [Printing.printed_writeDiagnostics, hwritten, Printing.printed_writeEchoes] at hprinted
    exact hprinted
  · have hcode : (echoed.1.writeCommand false).errors + rest.errorCount =
        printing.errors + rest.errorCount := congrArg (· + rest.errorCount) herrors
    rw [← hcode]
    rfl

/-- At the end of a command its text is printed, and the errors reported up to it are counted. -/
theorem reported_at_end (hquiet : options.quiet = false) (source : String) :
    let echoed := printing.writeEchoes rest
    let opened : Printing := { echoed.1 with command := t :: echoed.1.command }
    let reported :=
      (opened.writeCommand options.quiet).writeDiagnostics options.file source echoed.2
    reported.1.printed = printing.printed ++ [Token.render (t :: printing.command).reverse] ∧
      reported.1.errors = printing.errors + rest.errorCount ∧ reported.1.command = [] := by
  intro echoed opened reported
  have hechoed : opened.printed = printing.printed := printing.printed_writeEchoes rest
  have hwritten := opened.printed_writeCommand
  rw [← hquiet, hechoed] at hwritten
  refine ⟨?_, ?_, opened.command_writeCommand options.quiet⟩
  · rw [Printing.printed_writeDiagnostics]
    exact hwritten
  · exact congrArg (· + rest.errorCount) (opened.errors_writeCommand options.quiet)

/-- A run prints the commands still to come, and ends as it does after all tokens are pulled, unless
the errors use up the budget. -/
theorem writeCommands_ends (hquiet : options.quiet = false) (hbudget : 1 ≤ options.maxErrors)
    (source : String) (session : Session) (printing : Printing)
    (hcommand : ∀ t ∈ printing.command, t.isEnd = false) :
    (writeCommands options source session printing).Ends options printing.printed
      (upcoming options session printing) session.drain.2.table
      (printing.errors + session.drain.2.errorCount) := by
  fun_induction writeCommands options source session printing with
  | case1 session printing rest hnext =>
      rw [upcoming_of_done hnext, Session.drain_of_done hnext]
      exact writeRest_ends hquiet source hcommand
  | case2 session printing t rest hnext echoed opened hend written reported counted hover remark =>
      obtain ⟨hprinted, herrors, _⟩ := @reported_at_end options rest printing t hquiet source
      have hcount : counted.errors ≠ 0 := Nat.ne_of_gt (Nat.le_trans hbudget hover)
      rw [upcoming_of_next hnext, typeset, if_pos hend, ← herrors, if_pos hover]
      refine ⟨?_, if_neg hcount⟩
      rw [Printing.printed_finish, Printing.printed_remark, hprinted]
      exact (List.append_nil _).symm
  | case3 session printing t rest hnext echoed opened hend written reported counted hunder ih =>
      obtain ⟨hprinted, herrors, hclosed⟩ := @reported_at_end options rest printing t hquiet source
      -- the errors that are written out go from the session to the count of the run
      have hahead : echoed.2.ahead.map (addErrors printing.errors) =
          reported.2.ahead.map (addErrors counted.errors) := by
        have htaken : echoed.2.errorCount = rest.errorCount := rfl
        rw [herrors, ← Session.map_addErrors_map_addErrors, ← htaken]
        exact congrArg (List.map (addErrors printing.errors)) echoed.2.ahead_takeDiagnostics.symm
      have hupcoming : upcoming options session printing =
          (Token.render (t :: printing.command).reverse :: (upcoming options reported.2 counted).1,
            (upcoming options reported.2 counted).2) := by
        rw [upcoming_of_next hnext, typeset, if_pos hend, ← herrors, if_neg hunder, upcoming,
          hclosed, ← hahead]
        rfl
      obtain ⟨hechoedTable, hechoedTotal⟩ := rest.final_takeEchoes
      obtain ⟨hreportedTable, hreportedTotal⟩ := echoed.2.final_takeDiagnostics
      have htable : reported.2.drain.2.table = session.drain.2.table := by
        rw [Session.drain_of_next hnext]
        exact hreportedTable.trans hechoedTable
      have htotal : counted.errors + reported.2.drain.2.errorCount =
          printing.errors + session.drain.2.errorCount := by
        rw [Session.drain_of_next hnext, herrors, Nat.add_assoc]
        exact congrArg (printing.errors + ·) (hreportedTotal.trans hechoedTotal)
      have hends := ih (by rw [hclosed]; exact List.forall_mem_nil _)
      rw [htable, htotal, hprinted] at hends
      rw [hupcoming]
      refine ⟨?_, hends.code⟩
      rw [hends.printed, List.append_assoc printing.printed]
      rfl
  | case4 session printing t rest hnext echoed opened hend ih =>
      have hopen : ∀ u ∈ t :: printing.command, u.isEnd = false :=
        List.forall_mem_cons.mpr ⟨Bool.eq_false_iff.mpr hend, hcommand⟩
      have hupcoming : upcoming options session printing = upcoming options echoed.2 opened := by
        rw [upcoming_of_next hnext, typeset, if_neg hend]
        rfl
      have hechoed : opened.printed = printing.printed := printing.printed_writeEchoes rest
      obtain ⟨htable, herrors⟩ := rest.final_takeEchoes
      rw [hupcoming, Session.drain_of_next hnext, ← htable, ← herrors, ← hechoed]
      exact ih hopen

end Run

/-! ### The commands of the expansion -/

/-- Whether a token ends a command and the errors reported up to it have used up the budget. -/
def usesUp (budget : Nat) (given : Token × Nat) : Bool :=
  given.1.isEnd && decide (budget ≤ given.2)

section Typeset

variable {budget : Nat} {command : List Token}

theorem typeset_next {t : Token} {errors : Nat} {rest : List (Token × Nat)} {tokens : List Token}
    {stopped : Bool} (hcommand : ∀ u ∈ command, u.isEnd = false)
    (ht : usesUp budget (t, errors) = false)
    (hrest : ∀ command : List Token, (∀ u ∈ command, u.isEnd = false) →
      typeset budget command rest = (Token.renderCommands (command.reverse ++ tokens), stopped)) :
    typeset budget command ((t, errors) :: rest) =
      (Token.renderCommands (command.reverse ++ t :: tokens), stopped) := by
  rw [typeset]
  split
  · next hend =>
      have hunder : ¬budget ≤ errors := by
        rw [usesUp, hend, Bool.true_and] at ht
        exact of_decide_eq_false ht
      have hcommands := Token.commands_append_end (isEnd_of_mem_reverse hcommand) hend
      rw [if_neg hunder, hrest [] (List.forall_mem_nil _), Token.renderCommands,
        Token.renderCommands, hcommands, List.reverse_cons]
      rfl
  · next hend =>
      have hopen : ∀ u ∈ t :: command, u.isEnd = false :=
        List.forall_mem_cons.mpr ⟨Bool.eq_false_iff.mpr hend, hcommand⟩
      rw [hrest (t :: command) hopen, List.reverse_cons, List.append_assoc]
      rfl

/-- Without an end where the budget is used up, there are all commands. -/
theorem typeset_all {given : List (Token × Nat)} (hcommand : ∀ u ∈ command, u.isEnd = false)
    (hgiven : ∀ entry ∈ given, usesUp budget entry = false) :
    typeset budget command given =
      (Token.renderCommands (command.reverse ++ given.map Prod.fst), false) := by
  induction given generalizing command with
  | nil => rw [typeset, List.map_nil, List.append_nil]
  | cons entry rest ih =>
      obtain ⟨hentry, hrest⟩ := List.forall_mem_cons.mp hgiven
      exact typeset_next hcommand hentry fun _ hopen => ih hopen hrest

/-- With a first end where the budget is used up, there are the commands up to it. -/
theorem typeset_until {front : List (Token × Nat)} {stop : Token × Nat}
    (hcommand : ∀ u ∈ command, u.isEnd = false)
    (hfront : ∀ entry ∈ front, usesUp budget entry = false) (hstop : usesUp budget stop = true)
    (back : List (Token × Nat)) :
    typeset budget command (front ++ stop :: back) =
      (Token.renderCommands (command.reverse ++ (front ++ [stop]).map Prod.fst), true) := by
  induction front generalizing command with
  | nil =>
      obtain ⟨hend, hover⟩ := Bool.and_eq_true_iff.mp hstop
      have hcommands := Token.commands_append_end (isEnd_of_mem_reverse hcommand) hend []
      rw [List.nil_append, typeset, if_pos hend, if_pos (of_decide_eq_true hover),
        Token.renderCommands, List.nil_append, List.map_singleton, hcommands, List.reverse_cons]
      rfl
  | cons entry rest ih =>
      obtain ⟨hentry, hrest⟩ := List.forall_mem_cons.mp hfront
      exact typeset_next hcommand hentry fun _ hopen => ih hopen hrest

theorem exists_first_usesUp {given : List (Token × Nat)}
    (h : ∃ entry ∈ given, usesUp budget entry = true) :
    ∃ front stop back, given = front ++ stop :: back ∧ usesUp budget stop = true ∧
      ∀ entry ∈ front, usesUp budget entry = false := by
  obtain ⟨stop, hfind⟩ := Option.isSome_iff_exists.mp (List.find?_isSome.mpr h)
  obtain ⟨hstop, front, back, hsplit, hfront⟩ := List.find?_eq_some_iff_append.mp hfind
  exact ⟨front, stop, back, hsplit, hstop,
    fun entry hentry => Bool.not_eq_true' _ ▸ hfront entry hentry⟩

/-- A run that stops early has an error too, so the exit code tells whether there is one. -/
theorem Outcome.Ends.code_eq {outcome : Outcome} {options : ExpandOptions} {before : List String}
    {given : List (Token × Nat)} {table : Table} {errors : Nat}
    (hends : outcome.Ends options before (typeset options.maxErrors [] given) table errors)
    (hbudget : 1 ≤ options.maxErrors) (hcounted : ∀ entry ∈ given, entry.2 ≤ errors) :
    outcome.code = if errors = 0 then 0 else 1 := by
  by_cases hstop : ∃ entry ∈ given, usesUp options.maxErrors entry = true
  · obtain ⟨entry, hmem, hentry⟩ := hstop
    have hover : options.maxErrors ≤ entry.2 :=
      of_decide_eq_true (Bool.and_eq_true_iff.mp hentry).2
    have hcount : errors ≠ 0 := by
      have := hcounted entry hmem
      omega
    rw [hends.code, if_neg hcount]
    exact ite_self 1
  · have hnone : ∀ entry ∈ given, usesUp options.maxErrors entry = false :=
      fun entry hmem => Bool.eq_false_iff.mpr fun hentry => hstop ⟨entry, hmem, hentry⟩
    rw [hends.code, typeset_all (List.forall_mem_nil _) hnone]
    rfl

end Typeset

/-! ### The whole run -/

section Expansion

variable {find : String → Except ReadError FileTree} {options : ExpandOptions} {source : String}
  {settings : Settings}

theorem runExpand_eq_expandText (hsource : readText find options.file = .ok source)
    (hsettings : loadSettings find options = .ok settings) :
    runExpand find options = expandText options source settings := by
  rw [runExpand, hsource, hsettings]
  rfl

/-- Where the lines that are echoed go makes no difference to what is printed. -/
theorem expandText_ends (hquiet : options.quiet = false) (hbudget : 1 ≤ options.maxErrors)
    (source : String) (settings : Settings) :
    let start := Session.ofSource source settings
    (expandText options source settings).Ends options []
      (typeset options.maxErrors [] (start.progress start.feed.statements)) start.drain.2.table
      start.drain.2.errorCount := by
  intro start
  let session : Session :=
    { start with echoSink := if settings.print then .collect else .discard }
  have hsilenced : session.silenced = start.silenced := rfl
  have hahead : session.ahead = start.progress start.feed.statements := by
    rw [← start.progress_silenced, ← hsilenced, session.progress_silenced]
    rfl
  have hupcoming : upcoming options session {} =
      typeset options.maxErrors [] (start.progress start.feed.statements) := by
    rw [upcoming, hahead, Session.addErrors_zero, List.map_id]
  have hfinal := (Session.drain_of_silenced hsilenced).2
  have htable := congrArg Session.table hfinal
  have herrors := congrArg Session.errorCount hfinal
  have hends := writeCommands_ends hquiet hbudget source session {} (List.forall_mem_nil _)
  rw [hupcoming, Nat.zero_add] at hends
  exact ⟨htable ▸ hends.printed, herrors ▸ hends.code⟩

/-- The command that expands a file agrees with the expansion as a whole. If there is an end of a
command by which the statements up to its own have reported as many errors as the budget allows, the
commands up to the first such end are printed and the exit code is 1. Otherwise all commands are
printed, followed by the sorted names of the macros if they are asked for. The exit code is 1
exactly if an error is reported at all, and the commands on one line are the text of the
expansion. -/
theorem runExpand_agrees_with_expansion (hsource : readText find options.file = .ok source)
    (hsettings : loadSettings find options = .ok settings) (hquiet : options.quiet = false)
    (hbudget : 1 ≤ options.maxErrors) :
    let outcome := runExpand find options
    let expansion := expandSource source settings
    let start := Session.ofSource source settings
    let given := start.progress start.feed.statements
    let names := start.drain.2.table.names
    given.map Prod.fst = expansion.1 ∧
      ((∃ entry ∈ given, usesUp options.maxErrors entry = true) →
        ∃ front stop back, given = front ++ stop :: back ∧
          usesUp options.maxErrors stop = true ∧
          (∀ entry ∈ front, usesUp options.maxErrors entry = false) ∧
          let shown := Token.renderCommands ((front ++ [stop]).map Prod.fst)
          Token.renderCommands expansion.1 = shown ++ Token.renderCommands (back.map Prod.fst) ∧
            outcome.stdout = asLines shown ∧ outcome.code = 1) ∧
      ((∀ entry ∈ given, usesUp options.maxErrors entry = false) →
        outcome.stdout =
          asLines (Token.renderCommands expansion.1 ++ if options.listMacros then names else [])) ∧
      names.Pairwise (Text.upper · < Text.upper ·) ∧
      outcome.code = (if expansion.2.any (!·.isWarning) then 1 else 0) ∧
      " ".intercalate (Token.renderCommands expansion.1) = Token.render expansion.1 := by
  intro outcome expansion start given names
  have hends : outcome.Ends options [] (typeset options.maxErrors [] given) start.drain.2.table
      start.drain.2.errorCount := by
    have hrun := runExpand_eq_expandText hsource hsettings
    rw [show outcome = _ from hrun]
    exact expandText_ends hquiet hbudget source settings
  have htokens : given.map Prod.fst = expansion.1 := start.pulls_drain.map_fst_ahead
  have hany : start.drain.2.errorCount = 0 ↔ expansion.2.any (!·.isWarning) = false :=
    Session.errorCount_eq_zero_iff
  refine ⟨htokens, fun hstop => ?_, fun hnone => ?_, ?_, ?_, ?_⟩
  · obtain ⟨front, stop, back, hsplit, hstop, hbelow⟩ := exists_first_usesUp hstop
    have hend : stop.1.isEnd = true := (Bool.and_eq_true_iff.mp hstop).1
    have htypeset := typeset_until (List.forall_mem_nil _) hbelow hstop back
    rw [← hsplit] at htypeset
    have hprinted := hends.printed
    have hcode := hends.code
    rw [htypeset] at hprinted hcode
    refine ⟨front, stop, back, hsplit, hstop, hbelow, ?_, ?_, hcode⟩
    · rw [← htokens, hsplit, List.map_append, List.map_cons, Token.renderCommands,
        Token.commands_split hend, List.map_append, List.map_append]
      rfl
    · rw [outcome.stdout_eq, hprinted]
      exact congrArg asLines (List.append_nil _)
  · have htypeset := typeset_all (List.forall_mem_nil _) hnone
    have hprinted := hends.printed
    rw [htypeset, htokens] at hprinted
    rw [outcome.stdout_eq, hprinted]
    rfl
  · have hordered : start.drain.2.table.Ordered := by
      rw [start.drain_eq_processAll]
      dsimp only
      rw [Session.processAll_table]
      exact Table.Ordered.empty.defineAll _
    exact hordered.names_increasing
  · have hcounted : ∀ entry ∈ given, entry.2 ≤ start.drain.2.errorCount :=
      fun _ hmem => start.pulls_drain.errors_le hmem
    have hcode := hends.code_eq hbudget hcounted
    rw [hcode]
    cases herrors : expansion.2.any (!·.isWarning) with
    | false => exact if_pos (hany.mpr herrors)
    | true => exact if_neg fun hzero => Bool.false_ne_true ((hany.mp hzero).symm.trans herrors)
  · refine Token.intercalate_renderCommands fun t u hpair => ?_
    rw [show expansion.1 = _ from start.drain_eq_outputs] at hpair
    exact Session.not_ends_of_infix_dropRepeatedEnds hpair

/-- A definition without parameters is an error, and the only one allowed: the second command after
it is not printed. -/
theorem runExpand_stops_after_rejected_definition :
    let source := "DEFINE !ENDDEFINE.\nx.\ny."
    let find := fun _ => .ok (.file (.ok source))
    let options : ExpandOptions := { file := "syntax.sps", maxErrors := 1, listMacros := true }
    readText find options.file = .ok source ∧ loadSettings find options = .ok {} ∧
      options.quiet = false ∧ 1 ≤ options.maxErrors ∧
      (runExpand find options).stdout = "x.\n" ∧ (runExpand find options).code = 1 := by
  intro source find options
  have hread : readText find options.file = .ok source := rfl
  have hload : loadSettings find options = .ok {} := rfl
  let start := Session.ofSource source {}
  have htokens : tokenize source =
      [⟨.identifier, "DEFINE", ⟨0, 6⟩⟩, ⟨.identifier, "!ENDDEFINE", ⟨7, 17⟩⟩,
        ⟨.endCommand, ".", ⟨17, 18⟩⟩, ⟨.identifier, "x", ⟨19, 20⟩⟩, ⟨.endCommand, ".", ⟨20, 21⟩⟩,
        ⟨.identifier, "y", ⟨22, 23⟩⟩, ⟨.endCommand, ".", ⟨23, 24⟩⟩] := by
    decide +kernel
  have hstatements : start.feed.statements =
      [[⟨.identifier, "DEFINE", ⟨0, 6⟩⟩, ⟨.identifier, "!ENDDEFINE", ⟨7, 17⟩⟩,
        ⟨.endCommand, ".", ⟨17, 18⟩⟩],
        [⟨.identifier, "x", ⟨19, 20⟩⟩, ⟨.endCommand, ".", ⟨20, 21⟩⟩],
        [⟨.identifier, "y", ⟨22, 23⟩⟩, ⟨.endCommand, ".", ⟨23, 24⟩⟩]] := by
    rw [show start.feed = { queue := tokenize source } from rfl, htokens,
      Feed.statements_of_some rfl, Feed.statements_of_some rfl, Feed.statements_of_some rfl,
      Feed.statements_of_none rfl]
    rfl
  have hcopied {session : Session} (hempty : session.table = {}) (statement : List Token) :
      Expansion.expandStatement session.environment statement {} = (statement, {}) := by
    refine Expansion.expandStatement_of_no_lookup (fun t _ _ => ?_) {}
    rw [Session.environment, hempty]
    rfl
  have hgiven : start.progress start.feed.statements =
      [(⟨.identifier, "x", ⟨19, 20⟩⟩, 1), (⟨.endCommand, ".", ⟨20, 21⟩⟩, 1),
        (⟨.identifier, "y", ⟨22, 23⟩⟩, 1), (⟨.endCommand, ".", ⟨23, 24⟩⟩, 1)] := by
    rw [hstatements]
    have hrejected : start.process [⟨.identifier, "DEFINE", ⟨0, 6⟩⟩,
        ⟨.identifier, "!ENDDEFINE", ⟨7, 17⟩⟩, ⟨.endCommand, ".", ⟨17, 18⟩⟩] =
        { start with diagnostics :=
          #[{ error := .definition .missingParameterList, span := some ⟨17, 18⟩ }] } := rfl
    rw [Session.progress, hrejected, Session.progress_of_copied rfl (hcopied rfl _) rfl,
      Session.progress_of_copied rfl (hcopied rfl _) rfl]
    rfl
  obtain ⟨_, hstops, _⟩ := runExpand_agrees_with_expansion hread hload rfl (Nat.le_refl 1)
  obtain ⟨front, stop, back, hsplit, hstop, hbelow, _, hstdout, hcode⟩ :=
    hstops ⟨(⟨.endCommand, ".", ⟨20, 21⟩⟩, 1), by rw [hgiven]; decide, rfl⟩
  rw [hgiven] at hsplit
  refine ⟨hread, hload, rfl, Nat.le_refl 1, ?_, hcode⟩
  -- the first end is the second token that is given
  rcases front with _ | ⟨first, _ | ⟨second, later⟩⟩
  · cases hsplit
    cases hstop
  · cases hsplit
    rw [hstdout]
    decide +kernel
  · have hunder := hbelow second (List.mem_cons_of_mem _ List.mem_cons_self)
    rw [← (List.cons.inj (List.cons.inj hsplit).2).1] at hunder
    cases hunder

end Expansion

end CommandMacros.CommandLine

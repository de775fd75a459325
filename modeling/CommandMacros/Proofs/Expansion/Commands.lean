import CommandMacros.Proofs.Binding.CommandEnd
import CommandMacros.Proofs.Expansion.Coupling

/-!
Commands are expanded independently of each other. The arguments of a call do not reach past the end
of its command, so a scan can be cut there; and nothing in an expansion depends on what was reported
or echoed before it, so the later commands are expanded as if they stood alone.
-/

namespace CommandMacros

namespace Log

/-- The log with everything in an earlier log before it. -/
def after (log history : Log) : Log where
  diagnostics := history.diagnostics ++ log.diagnostics
  echoes := history.echoes ++ log.echoes
  stack := log.stack

/-- The same stack with nothing reported or echoed. -/
def cleared (log : Log) : Log where
  stack := log.stack

theorem cleared_after (log : Log) : log.cleared.after log = log := by
  simp only [cleared, after, Array.append_empty]

end Log

namespace Expansion

variable {env : Environment}

/-! ### What was recorded before -/

/-- Two runs of which the second begins with a history. -/
def withHistory (env : Environment) (history : Log) : Coupling env env where
  rel l m := m = l.after history
  lost _ := False
  lost_mono _ h := h
  enter h name := by rw [h]; rfl
  leave h := by rw [h]; rfl
  report := by
    rintro l m rfl d
    simp only [Log.report, Log.after, Array.push_append]
  echo := by
    rintro l m rfl depth name expansion
    cases echoName? env depth name with
    | none => rfl
    | some name => simp only [echoExpansion, Log.echo, Log.after, Array.push_append]
  table := rfl
  expand := rfl
  nest_le := Nat.le_refl _
  nest_lost h := absurd h (Nat.lt_irrefl _)
  iterate_le := Nat.le_refl _
  iterate_lost h := absurd h (Nat.lt_irrefl _)

theorem expandWith_after (env : Environment) (levels : Nat) (tokens : List Emitted) (depth : Nat)
    (log history : Log) :
    expandWith env (evaluateText env levels) tokens depth (log.after history) =
      ((expandWith env (evaluateText env levels) tokens depth log).1,
        (expandWith env (evaluateText env levels) tokens depth log).2.after history) := by
  have hrun := (withHistory env history).expandWith_expansions levels tokens depth
    (rfl : log.after history = log.after history)
  generalize expandWith env (evaluateText env levels) tokens depth log = first,
    expandWith env (evaluateText env levels) tokens depth (log.after history) = second at hrun ⊢
  cases hrun with
  | lost hlost => exact hlost.elim
  | same tokens hlogs => rw [hlogs]

/-- An expansion only adds to the log it is given, and does not depend on what is in it. -/
theorem expandWith_cleared (env : Environment) (levels : Nat) (tokens : List Emitted) (depth : Nat)
    (log : Log) :
    expandWith env (evaluateText env levels) tokens depth log =
      ((expandWith env (evaluateText env levels) tokens depth log.cleared).1,
        (expandWith env (evaluateText env levels) tokens depth log.cleared).2.after log) := by
  have h := expandWith_after env levels tokens depth log.cleared log
  rwa [Log.cleared_after] at h

theorem expandWith_stack (env : Environment) (levels : Nat) (tokens : List Emitted) (depth : Nat)
    (log : Log) :
    (expandWith env (evaluateText env levels) tokens depth log).2.stack = log.stack := by
  have htexts := (withHistory env {}).parallel_evaluateText levels
  exact ((Coupling.parallel_expandWith htexts tokens depth).continues log).stack

/-! ### Cutting a scan -/

theorem callee_of_isEnd {e : Emitted} (he : e.token.isEnd = true) : callee? env e = none := by
  have hidentifier : e.token.isIdentifier = false := Call.isIdentifier_eq_false he
  simp only [callee?, hidentifier, Bool.and_false, Bool.false_eq_true, if_false]

/-- The end of a command cuts a scan: the tokens after it are scanned when the command is done. -/
theorem expandRecursively_command {e : Emitted} (he : e.token.isEnd = true) (eval : Evaluator)
    (depth : Nat) (tokens others : List Emitted) (log : Log) :
    expandRecursively env eval depth (tokens ++ [e] ++ others) log =
      let first := expandRecursively env eval depth (tokens ++ [e]) log
      let second := expandRecursively env eval depth others first.2
      (first.1 ++ second.1, second.2) := by
  induction depth, tokens using scan_induction env.settings.nestLimit generalizing log with
  | nil depth =>
      simp only [List.nil_append, expandRecursively_copy (callee_of_isEnd he),
        expandRecursively_nil, List.singleton_append]
  | cons depth x following _ ih =>
      cases hx : callee? env x with
      | none =>
          simp only [List.cons_append, expandRecursively_copy hx]
          rw [ih following (Nat.le_refl _)]
      | some d =>
          -- The call reads the same arguments, and leaves a command with the others after it.
          obtain ⟨left, hleft, hlength⟩ := (bindArguments_leaves d (following ++ [e])).command he
          have hbound : bindArguments d (following ++ [e] ++ others) =
              (bindArguments d (following ++ [e])).extend others :=
            bindArguments_extend d (.command he) others
          have hrest : (bindArguments d (following ++ [e] ++ others)).rest =
              left ++ [e] ++ others := by
            rw [hbound, BoundCall.extend, hleft]
          simp only [List.cons_append, expandRecursively_call hx]
          rw [hrest, ih left hlength, hleft, hbound, List.append_assoc]
          rfl

/-- No call reads the end of its command, so a scan that reads it last also gives it last. -/
theorem expandRecursively_end {e : Emitted} (he : e.token.isEnd = true) (eval : Evaluator)
    (depth : Nat) (tokens : List Emitted) (log : Log) :
    ∃ expansion,
      (expandRecursively env eval depth (tokens ++ [e]) log).1 = expansion ++ [e.token] := by
  induction depth, tokens using scan_induction env.settings.nestLimit generalizing log with
  | nil depth =>
      refine ⟨[], ?_⟩
      rw [List.nil_append, expandRecursively_copy (callee_of_isEnd he), expandRecursively_nil,
        List.nil_append]
  | cons depth x following _ ih =>
      cases hx : callee? env x with
      | none =>
          obtain ⟨expansion, hexpansion⟩ := ih following (Nat.le_refl _) log
          refine ⟨x.token :: expansion, ?_⟩
          rw [List.cons_append, expandRecursively_copy hx, hexpansion, List.cons_append]
      | some d =>
          obtain ⟨left, hleft, hlength⟩ := (bindArguments_leaves d (following ++ [e])).command he
          let bound := bindArguments d (following ++ [e])
          let call := callExpansion env eval depth d x.token bound.bindings (enterCall log d bound)
          obtain ⟨rest, hrest⟩ := ih left hlength (leaveCall env depth x.token call)
          rw [← hleft] at hrest
          refine ⟨call.1 ++ rest, ?_⟩
          rw [List.cons_append, expandRecursively_call hx, List.append_assoc, ← hrest]

/-- The expansion of a statement ends with the end of the statement. -/
theorem expandStatement_end {e : Token} (he : e.isEnd = true) (tokens : List Token) (log : Log) :
    ∃ expansion, (expandStatement env (tokens ++ [e]) log).1 = expansion ++ [e] := by
  rw [expandStatement, expandCalls, expandWith_eq_expandRecursively, Emitted.ofTokens,
    List.map_append]
  exact expandRecursively_end (e := ⟨e, env.settings.expand⟩) he (evaluator env) 0 _ log

/-- A command is expanded first and then the commands after it, each with nothing recorded before. -/
theorem expandWith_command {e : Emitted} (he : e.token.isEnd = true) (levels : Nat)
    (tokens others : List Emitted) (depth : Nat) (log : Log) :
    let first := expandWith env (evaluateText env levels) (tokens ++ [e]) depth log.cleared
    let second := expandWith env (evaluateText env levels) others depth log.cleared
    expandWith env (evaluateText env levels) (tokens ++ [e] ++ others) depth log =
      (first.1 ++ second.1, (second.2.after first.2).after log) := by
  intro first second
  have hstack : first.2.cleared = log.cleared := by
    rw [Log.cleared, expandWith_stack]
    rfl
  have hsecond : expandWith env (evaluateText env levels) others depth first.2 =
      (second.1, second.2.after first.2) := by
    rw [expandWith_cleared, hstack]
  have hcut : expandWith env (evaluateText env levels) (tokens ++ [e] ++ others) depth log.cleared =
      (first.1 ++ second.1, second.2.after first.2) := by
    rw [expandWith_eq_expandRecursively, expandRecursively_command he]
    simp only [← expandWith_eq_expandRecursively]
    rw [hsecond]
  rw [expandWith_cleared, hcut]

/-- Commands are expanded independently of each other: the tokens, diagnostics and echoes of a
command are followed by those of the commands after it, each expanded alone under the same stack.
No binding reads the end of its command, and the bindings, the number of tokens read and the errors
are the same whatever follows it. -/
theorem commands_expand_independently (env : Environment) (levels : Nat) {e : Emitted}
    (he : e.token.isEnd = true) :
    (∀ tokens others depth log,
      let first := expandWith env (evaluateText env levels) (tokens ++ [e]) depth log.cleared
      let second := expandWith env (evaluateText env levels) others depth log.cleared
      let whole := expandWith env (evaluateText env levels) (tokens ++ [e] ++ others) depth log
      whole.1 = first.1 ++ second.1 ∧
        whole.2.diagnostics =
          log.diagnostics ++ first.2.diagnostics ++ second.2.diagnostics ∧
        whole.2.echoes = log.echoes ++ first.2.echoes ++ second.2.echoes ∧
        whole.2.stack = log.stack) ∧
    (∀ d tokens, ∃ taken, tokens = taken ++ (bindArguments d tokens).rest ∧
      (∀ e ∈ taken, e.token.isEnd = false) ∧
      (bindArguments d tokens).consumed tokens = taken.length) ∧
    (∀ d tokens others replaced,
      let bound := bindArguments d (tokens ++ [e] ++ others)
      let alike := bindArguments d (tokens ++ [e] ++ replaced)
      bound.bindings = alike.bindings ∧ bound.errors = alike.errors ∧
        bound.consumed (tokens ++ [e] ++ others) = alike.consumed (tokens ++ [e] ++ replaced)) := by
  refine ⟨?_, bindArguments_takes, ?_⟩
  · intro tokens others depth log first second whole
    have hwhole : whole = (first.1 ++ second.1, (second.2.after first.2).after log) :=
      expandWith_command he levels tokens others depth log
    have hstack : second.2.stack = log.stack := expandWith_stack env levels others depth log.cleared
    rw [hwhole]
    simp only [Log.after, Array.append_assoc, hstack, and_self]
  · intro d tokens others replaced bound alike
    have hbound : bound = (bindArguments d (tokens ++ [e])).extend others :=
      bindArguments_extend d (.command he) others
    have halike : alike = (bindArguments d (tokens ++ [e])).extend replaced :=
      bindArguments_extend d (.command he) replaced
    rw [hbound, halike]
    refine ⟨rfl, rfl, ?_⟩
    rw [BoundCall.consumed_extend, BoundCall.consumed_extend]

/-- A macro that takes all of its command. -/
def takesCommand : Definition where
  name := "all"
  span := .point 0
  parameters := [{ role := .positional, capture := .commandEnd }]
  body := [.parameter 0]

/-- The first of two calls that each take all of their command stops at the end of its own. -/
theorem takesCommand_twice :
    let env : Environment := ⟨⟨[("ALL", takesCommand)]⟩, {}⟩
    let word (text : String) : Emitted := ⟨⟨.identifier, text, .point 0⟩, true⟩
    let stop : Emitted := ⟨⟨.endCommand, ".", .point 0⟩, true⟩
    let expand (tokens : List Emitted) : List Token :=
      (expandWith env (evaluateText env 0) tokens 0 {}).1
    stop.token.isEnd = true ∧
      expand ([word "all", word "a"] ++ [stop] ++ [word "all", word "b"]) =
        expand ([word "all", word "a"] ++ [stop]) ++ expand [word "all", word "b"] := by
  intro env word stop expand
  have hcommands := (commands_expand_independently env 0 (e := stop) rfl).1
    [word "all", word "a"] [word "all", word "b"] 0 {}
  exact ⟨rfl, hcommands.1⟩

end Expansion

end CommandMacros

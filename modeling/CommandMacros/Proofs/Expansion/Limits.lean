import CommandMacros.Proofs.Expansion.Coupling

/-!
Limits that are not reached make no difference. The nesting limit is consulted where a call is
entered and the iteration limit where a loop goes on, at any depth of calls, loops and `!EVAL`
texts; a run that reports neither of them is the run under all higher limits.
-/

namespace CommandMacros

/-- Whether the nesting or the iteration limit of the settings was reached. -/
def Diagnostic.reachesLimit (d : Diagnostic) : Bool :=
  match d.error with
  | .nestingLimit _ _ | .iterationLimit _ => true
  | _ => false

/-- The diagnostics that were added to an earlier log. -/
def Log.reportedSince (log earlier : Log) : List Diagnostic :=
  log.diagnostics.toList.drop earlier.diagnostics.size

/-- The same settings up to limits that are no lower. -/
structure Settings.Raises (high low : Settings) : Prop where
  expand : high.expand = low.expand
  print : high.print = low.print
  nest : low.nestLimit ≤ high.nestLimit
  iterate : low.iterateLimit ≤ high.iterateLimit

namespace Expansion

/-- A diagnostic that was added stands after the diagnostics of every earlier log. -/
theorem exists_drop_report {log : Log} {start : Nat} (h : start ≤ log.diagnostics.size)
    (d : Diagnostic) (hd : d.reachesLimit = true) :
    ∃ added ∈ (log.report d).diagnostics.toList.drop start, added.reachesLimit = true := by
  refine ⟨{ d with stack := log.stack.reverse }, ?_, hd⟩
  have hlength : start ≤ log.diagnostics.toList.length := by rwa [Array.length_toList]
  simp only [Log.report, Array.toList_push, List.drop_append_of_le_length hlength]
  exact List.mem_append_right _ (List.mem_singleton.mpr rfl)

/-- Equal logs from a moment on, given up once a limit has been reached since. -/
def raisedLimits {high low : Settings} (h : high.Raises low) (table : Table) (start : Nat) :
    Coupling ⟨table, low⟩ ⟨table, high⟩ where
  rel l m := m = l ∧ start ≤ l.diagnostics.size
  lost reported := ∃ d ∈ reported.drop start, d.reachesLimit = true
  lost_mono := by
    rintro before after ⟨more, rfl⟩ ⟨d, hd, hlimit⟩
    refine ⟨d, ?_, hlimit⟩
    rw [List.drop_append]
    exact List.mem_append_left _ hd
  enter := by
    rintro l m ⟨rfl, hstart⟩ name
    exact ⟨rfl, hstart⟩
  leave := by
    rintro l m ⟨rfl, hstart⟩
    exact ⟨rfl, hstart⟩
  report := by
    rintro l m ⟨rfl, hstart⟩ d
    refine ⟨rfl, ?_⟩
    simp only [Log.report, Array.size_push]
    omega
  echo := by
    rintro l m ⟨rfl, hstart⟩ depth name expansion
    have hname : echoName? ⟨table, high⟩ depth name = echoName? ⟨table, low⟩ depth name := by
      rw [echoName?, echoName?, h.print]
    rw [hname]
    refine ⟨rfl, ?_⟩
    cases echoName? ⟨table, low⟩ depth name with
    | none => exact hstart
    | some name => exact hstart
  table := rfl
  expand := h.expand
  nest_le := h.nest
  nest_lost := by
    rintro _ l m ⟨_, hstart⟩ d name
    exact exists_drop_report hstart (nestingLimit ⟨table, low⟩ d name) rfl
  iterate_le := h.iterate
  iterate_lost := by
    rintro _ l m ⟨_, hstart⟩ span
    exact exists_drop_report hstart (iterationLimit ⟨table, low⟩ span) rfl

/-- Raising limits that were not reached changes nothing: neither the tokens nor the diagnostics
nor the echoes. -/
theorem expandStatement_eq_of_limits_unreached (table : Table) {high low : Settings}
    (hraises : high.Raises low) (tokens : List Token) (log : Log)
    (hunreached : ∀ d ∈ (expandStatement ⟨table, low⟩ tokens log).2.reportedSince log,
      d.reachesLimit = false) :
    expandStatement ⟨table, high⟩ tokens log = expandStatement ⟨table, low⟩ tokens log := by
  have hrun := (raisedLimits hraises table log.diagnostics.size).expandWith_expansions
    maxEvalNesting (Emitted.ofTokens low.expand tokens) 0 ⟨rfl, Nat.le_refl _⟩
  rw [expandStatement, expandStatement, hraises.expand]
  rw [expandStatement] at hunreached
  change Coupling.Expansions _ (expandCalls _ _ _ _) (expandCalls _ _ _ _) at hrun
  generalize expandCalls ⟨table, low⟩ _ 0 log = first,
    expandCalls ⟨table, high⟩ _ 0 log = second at hrun hunreached ⊢
  cases hrun with
  | lost hlost =>
      obtain ⟨d, hd, hlimit⟩ := hlost
      rw [hunreached d hd] at hlimit
      cases hlimit
  | same tokens hlogs => rw [hlogs.1]

/-- A name without a place. -/
def word (text : String) : Token := ⟨.identifier, text, .point 0⟩

/-- A macro that stands for one word, under a nesting limit. -/
def greetings (limit : Nat) : Environment where
  table := ⟨[("GREET", ⟨"greet", .point 0, [], [.literal [word "hello"]]⟩)]⟩
  settings := { nestLimit := limit }

/-- A call at the greatest depth that the lower limit allows. -/
theorem greetings_at_limit :
    expandStatement (greetings 1) [word "greet"] {} = ([word "hello"], {}) ∧
      expandStatement (greetings 50) [word "greet"] {} =
        expandStatement (greetings 1) [word "greet"] {} := by
  obtain ⟨d, hcall, hparameters, hbody⟩ : ∃ d, callee? (greetings 1) ⟨word "greet", true⟩ = some d ∧
      d.parameters = [] ∧ d.body = [.literal [word "hello"]] := ⟨_, rfl, rfl, rfl⟩
  have hword : callee? (greetings 1) ⟨word "hello", true⟩ = none := by rfl
  have hexpansion (entered : Log) :
      callExpansion (greetings 1) (evaluator (greetings 1)) 0 d (word "greet") [] entered =
        ([word "hello"], entered) := by
    have hdepth : 0 + 1 ≤ (greetings 1).settings.nestLimit := Nat.le_refl _
    rw [callExpansion, if_pos hdepth, callBody, hbody]
    refine (expandRecursively_copy hword _ 1 [] entered).trans ?_
    rw [expandRecursively_nil]
  have hrun : expandStatement (greetings 1) [word "greet"] {} = ([word "hello"], {}) := by
    rw [expandStatement, expandCalls, expandWith_eq_expandRecursively]
    refine (expandRecursively_call hcall _ 0 [] {}).trans ?_
    simp only [bindArguments_of_no_parameters hparameters, hexpansion, expandRecursively_nil]
    rfl
  have hraises : (greetings 50).settings.Raises (greetings 1).settings :=
    ⟨rfl, rfl, by decide, Nat.le_refl _⟩
  refine ⟨hrun, expandStatement_eq_of_limits_unreached (greetings 1).table hraises _ _ ?_⟩
  change ∀ d ∈ (expandStatement (greetings 1) [word "greet"] {}).2.reportedSince {}, _
  rw [hrun]
  intro d hd
  cases hd

end Expansion

end CommandMacros

import CommandMacros.Proofs.Expansion.Invariant

/-!
What is echoed. The expansion of a statement is made of pieces: tokens that are copied, and what
each call that begins in the statement itself contributes. With echoing on there is one line for
each of these calls, in their order, and no other.
-/

namespace CommandMacros.Expansion

/-! ### Two runs -/

theorem echoExpansion_stack (log : Log) (name? : Option String) (expansion : Unit → List Token) :
    (echoExpansion log name? expansion).stack = log.stack := by
  cases name? <;> rfl

/-- Two runs of which the second has echoing on or off, with the same diagnostics. -/
def withPrint (table : Table) (settings : Settings) (print : Bool) :
    Coupling ⟨table, settings⟩ ⟨table, { settings with print }⟩ where
  rel l m := m.diagnostics = l.diagnostics ∧ m.stack = l.stack
  lost _ := False
  lost_mono _ h := h
  enter h name := ⟨h.1, congrArg (name :: ·) h.2⟩
  leave h := ⟨h.1, congrArg List.tail h.2⟩
  report h d := by
    refine ⟨?_, h.2⟩
    simp only [Log.report, h.1, h.2]
  echo h depth name expansion := by
    rw [echoExpansion_diagnostics, echoExpansion_diagnostics, echoExpansion_stack,
      echoExpansion_stack]
    exact h
  table := rfl
  expand := rfl
  nest_le := Nat.le_refl _
  nest_lost h := absurd h (Nat.lt_irrefl _)
  iterate_le := Nat.le_refl _
  iterate_lost h := absurd h (Nat.lt_irrefl _)

/-- Echoing changes neither the tokens nor the diagnostics. -/
theorem expandStatement_withPrint (table : Table) (settings : Settings) (print : Bool)
    (statement : List Token) :
    let plain := expandStatement ⟨table, settings⟩ statement {}
    let other := expandStatement ⟨table, { settings with print }⟩ statement {}
    other.1 = plain.1 ∧ other.2.diagnostics = plain.2.diagnostics := by
  intro plain other
  have hrun : (withPrint table settings print).Expansions plain other :=
    (withPrint table settings print).expandWith_expansions maxEvalNesting
      (Emitted.ofTokens settings.expand statement) 0 ⟨rfl, rfl⟩
  generalize plain = first, other = second at hrun
  cases hrun with
  | lost hlost => exact hlost.elim
  | same tokens hlogs => exact ⟨rfl, hlogs.1⟩

/-- Two runs with any logs. -/
def withAnyLogs (table : Table) (settings : Settings) :
    Coupling ⟨table, settings⟩ ⟨table, settings⟩ where
  rel _ _ := True
  lost _ := False
  lost_mono _ h := h
  enter _ _ := trivial
  leave _ := trivial
  report _ _ := trivial
  echo _ _ _ _ := trivial
  table := rfl
  expand := rfl
  nest_le := Nat.le_refl _
  nest_lost h := absurd h (Nat.lt_irrefl _)
  iterate_le := Nat.le_refl _
  iterate_lost h := absurd h (Nat.lt_irrefl _)

/-- What a call contributes does not depend on the log. -/
theorem callExpansion_tokens (env : Environment) (depth : Nat) (d : Definition) (name : Token)
    (bindings : List Binding) (log other : Log) :
    (callExpansion env (evaluator env) depth d name bindings log).1 =
      (callExpansion env (evaluator env) depth d name bindings other).1 := by
  have htexts := (withAnyLogs env.table env.settings).parallel_evaluateText maxEvalNesting
  have hcall := Coupling.parallel_callExpansion htexts
    (fun _ body => Coupling.parallel_expandRecursively htexts (depth + 1) body) d name bindings
  have hrun := @Coupling.ParallelScan.expansions _ _ _ _ _ hcall log other trivial
  change Coupling.Expansions _ (callExpansion env (evaluator env) depth d name bindings log)
    (callExpansion env (evaluator env) depth d name bindings other) at hrun
  generalize callExpansion env (evaluator env) depth d name bindings log = first,
    callExpansion env (evaluator env) depth d name bindings other = second at hrun ⊢
  cases hrun with
  | lost hlost => exact hlost.elim
  | same tokens => rfl

/-! ### Inside of calls -/

/-- Below the statement itself no line is echoed. -/
def silentInside (env : Environment) (echoes : Array String) : Invariant env where
  token _ := True
  log l := l.echoes = echoes
  floor := 1
  scanned _ _ _ _ := trivial
  marker _ _ := trivial
  enter h _ := h
  leave h := h
  report h _ := h
  echo {l} h {depth} hdepth name expansion := by
    have hname : echoName? env depth name = none := by
      rw [echoName?, if_neg fun hzero => absurd hzero.1 (Nat.ne_of_gt hdepth)]
    rw [hname]
    exact h
  body _ _ _ _ _ := trivial
  defaults _ _ _ _ _ := trivial

/-- From entering a call up to its end nothing is echoed. -/
theorem callExpansion_echoes {env : Environment} {e : Emitted} {d : Definition}
    (hcallee : callee? env e = some d) (name : Token) (bound : BoundCall) (log : Log) :
    (callExpansion env (evaluator env) 0 d name bound.bindings (enterCall log d bound)).2.echoes =
      log.echoes := by
  let silent := silentInside env log.echoes
  have htexts : silent.KeepsTexts (evaluator env) := silent.keeps_evaluateText maxEvalNesting
  have hdeeper (body : List Emitted) (htokens : ∀ e ∈ body, silent.token e.token) :
      silent.KeepsScan (expandRecursively env (evaluator env) 1 body) :=
    Invariant.keeps_expandRecursively htexts 1 body (Nat.le_refl 1) htokens
  have hbindings : ∀ binding ∈ bound.bindings, ∀ t ∈ binding.tokens, silent.token t :=
    fun _ _ _ _ => trivial
  have hentered : silent.log (enterCall log d bound) := silent.log_enterCall rfl d bound
  exact (Invariant.keeps_callExpansion htexts (Nat.le_refl 1) (fun _ => hdeeper) hcallee name
    hbindings _ hentered).log

/-! ### Statements -/

/-- A piece of what a statement expands to: a token that is copied, or what a call contributes. -/
inductive Piece where
  | copied (t : Token)
  | called (name : Token) (expansion : List Token)

namespace Piece

def tokens : Piece → List Token
  | copied t => [t]
  | called _ expansion => expansion

/-- The line that a call is echoed with. -/
def echo? : Piece → Option String
  | copied _ => none
  | called name expansion =>
    some ("\"" ++ name.text ++ "\" expands to: " ++ Token.render expansion)

end Piece

/-- The pieces of a statement. A call takes its arguments with it. What it contributes is the
expansion of its body one level deeper, or nothing where the nesting limit does not allow it. -/
def pieces (env : Environment) (tokens : List Emitted) : List Piece :=
  match tokens with
  | [] => []
  | e :: following =>
    match callee? env e with
    | none => .copied e.token :: pieces env following
    | some d =>
      let bound := bindArguments d following
      .called e.token (callExpansion env (evaluator env) 0 d e.token bound.bindings {}).1 ::
        pieces env bound.rest
termination_by tokens.length
decreasing_by
  · exact Nat.lt_succ_self _
  · exact Nat.lt_succ_of_le (bindArguments_rest_le d following)

/-- With echoing on, the expansion is made of the pieces, and the lines are theirs. -/
theorem expandRecursively_pieces {env : Environment} (hprint : env.settings.print = true)
    (tokens : List Emitted) (log : Log) :
    let expansion := expandRecursively env (evaluator env) 0 tokens log
    expansion.1 = (pieces env tokens).flatMap Piece.tokens ∧
      expansion.2.echoes.toList =
        log.echoes.toList ++ (pieces env tokens).filterMap Piece.echo? := by
  fun_induction pieces env tokens generalizing log with
  | case1 =>
      rw [expandRecursively_nil]
      exact ⟨rfl, (List.append_nil _).symm⟩
  | case2 e following hcallee ih =>
      obtain ⟨htokens, hechoes⟩ := ih log
      rw [expandRecursively_copy hcallee]
      refine ⟨?_, hechoes⟩
      rw [htokens]
      rfl
  | case3 e following d hcallee bound ih =>
      rw [expandRecursively_call hcallee]
      dsimp only
      have htokens := callExpansion_tokens env 0 d e.token bound.bindings (enterCall log d bound) {}
      have hechoes := callExpansion_echoes hcallee e.token bound log
      generalize callExpansion env (evaluator env) 0 d e.token bound.bindings {} = contributed
        at htokens ⊢
      generalize callExpansion env (evaluator env) 0 d e.token (bindArguments d following).bindings
        (enterCall log d (bindArguments d following)) = expansion at htokens hechoes ⊢
      have hleft : (leaveCall env 0 e.token expansion).echoes.toList =
          log.echoes.toList ++ (Piece.called e.token contributed.1).echo?.toList := by
        rw [leaveCall, echoName?, if_pos ⟨rfl, hprint⟩, htokens]
        simp only [echoExpansion, Log.echo, Log.leave, hechoes, Array.toList_push]
        rfl
      obtain ⟨hrest, hlines⟩ := ih (leaveCall env 0 e.token expansion)
      rw [hleft] at hlines
      refine ⟨?_, ?_⟩
      · rw [hrest, htokens]
        rfl
      · rw [hlines, List.append_assoc]
        rfl

end CommandMacros.Expansion

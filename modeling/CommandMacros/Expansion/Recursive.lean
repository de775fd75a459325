import CommandMacros.Expansion.Expand

/-!
The expansion of macro calls by plain recursion: the expansion of a call is the expansion of its
body one level deeper. This says what the stack of frames computes.
-/

namespace CommandMacros.Expansion

/-- Replaces each call among the tokens by its expansion. `depth` is the nesting depth of what gave
the tokens. -/
def expandRecursively (env : Environment) (eval : Evaluator) (depth : Nat)
    (tokens : List Emitted) (log : Log) : List Token × Log :=
  match tokens with
  | [] => ([], log)
  | e :: following =>
    match callee? env e with
    | none =>
      let rest := expandRecursively env eval depth following log
      (e.token :: rest.1, rest.2)
    | some d =>
      let bound := bindArguments d following
      let entered := enterCall log d bound
      let expansion :=
        if depth + 1 ≤ env.settings.nestLimit then
          let body := callBody env eval d bound.bindings (depth + 1) entered
          expandRecursively env eval (depth + 1) body.1 body.2
        else
          ([], entered.report (nestingLimit env d e.token))
      let left := echoExpansion expansion.2.leave (echoName? env depth e.token) fun _ => expansion.1
      let rest := expandRecursively env eval depth bound.rest left
      (expansion.1 ++ rest.1, rest.2)
termination_by (env.settings.nestLimit - depth, tokens.length)
decreasing_by
  · exact Prod.Lex.right _ (Nat.lt_succ_self _)
  · exact Prod.Lex.left _ _ (by omega)
  · exact Prod.Lex.right _ (Nat.lt_succ_of_le (bindArguments_rest_le d following))

/-- Expands a text as `evaluateText` does, with every call in it expanded by recursion. -/
def evaluateRecursively (env : Environment) : (levels : Nat) → Evaluator
  | 0, _, span, scene =>
    ("", scene.report { error := .evalNestingLimit maxEvalNesting, span := some span })
  | levels + 1, text, span, scene =>
    let eval := evaluateRecursively env levels
    let body := Body.compile scene.activation.definition.parameters (tokenizeAt text span)
    let emission := substitute env eval body (scene.enter "!EVAL")
    let activation := emission.scene.activation
    let (tokens, log) :=
      expandRecursively env eval activation.depth emission.tokens emission.scene.log
    (Token.render tokens, ⟨activation, log.leave⟩)

/-! ### One token of the scan -/

/-- What a call from `depth` that has been entered contributes, and the log before it is left. -/
def callExpansion (env : Environment) (eval : Evaluator) (depth : Nat) (d : Definition)
    (name : Token) (bindings : List Binding) (entered : Log) : List Token × Log :=
  if depth + 1 ≤ env.settings.nestLimit then
    let body := callBody env eval d bindings (depth + 1) entered
    expandRecursively env eval (depth + 1) body.1 body.2
  else
    ([], entered.report (nestingLimit env d name))

/-- The log after a call from `depth` has been left. -/
def leaveCall (env : Environment) (depth : Nat) (name : Token) (expansion : List Token × Log) :
    Log :=
  echoExpansion expansion.2.leave (echoName? env depth name) fun _ => expansion.1

@[simp] theorem expandRecursively_nil (env : Environment) (eval : Evaluator) (depth : Nat)
    (log : Log) : expandRecursively env eval depth [] log = ([], log) := by
  rw [expandRecursively]

theorem expandRecursively_copy {env : Environment} {e : Emitted} (he : callee? env e = none)
    (eval : Evaluator) (depth : Nat) (following : List Emitted) (log : Log) :
    expandRecursively env eval depth (e :: following) log =
      (e.token :: (expandRecursively env eval depth following log).1,
        (expandRecursively env eval depth following log).2) := by
  rw [expandRecursively, he]

theorem expandRecursively_call {env : Environment} {e : Emitted} {d : Definition}
    (he : callee? env e = some d) (eval : Evaluator) (depth : Nat) (following : List Emitted)
    (log : Log) :
    expandRecursively env eval depth (e :: following) log =
      let bound := bindArguments d following
      let expansion :=
        callExpansion env eval depth d e.token bound.bindings (enterCall log d bound)
      let rest :=
        expandRecursively env eval depth bound.rest (leaveCall env depth e.token expansion)
      (expansion.1 ++ rest.1, rest.2) := by
  rw [expandRecursively, he]
  rfl

/-- Induction along a scan: a call leads to tokens one level deeper, as long as the nesting limit
allows it, and then to what is left of the tokens after it. -/
theorem scan_induction (limit : Nat) {motive : Nat → List Emitted → Prop}
    (nil : ∀ depth, motive depth [])
    (cons : ∀ depth e following, (depth + 1 ≤ limit → ∀ body, motive (depth + 1) body) →
      (∀ rest : List Emitted, rest.length ≤ following.length → motive depth rest) →
        motive depth (e :: following))
    (depth : Nat) (tokens : List Emitted) : motive depth tokens := by
  match tokens with
  | [] => exact nil depth
  | e :: following =>
    exact cons depth e following
      (fun _ body => scan_induction limit nil cons (depth + 1) body)
      (fun rest _ => scan_induction limit nil cons depth rest)
termination_by (limit - depth, tokens.length)
decreasing_by
  · exact Prod.Lex.left _ _ (by omega)
  · exact Prod.Lex.right _ (by simp only [List.length_cons]; omega)

end CommandMacros.Expansion

import CommandMacros.Expansion.Recursive

/-!
The stack of frames computes the recursive expansion. A frame on any stack of half-scanned frames
is scanned to its end before the frames below it move, and the scan adds exactly the recursive
expansion of its tokens to the output and to the log; the offset saved in the frame therefore cuts
the expansion of its call out of the shared output. The texts of `!EVAL` are expanded by the same
machine one level further in, so the two evaluators agree level by level.
-/

namespace CommandMacros.Expansion

variable {env : Environment} {eval : Evaluator}

theorem Machine.run_nil (output : Array Token) (log : Log) :
    Machine.run env eval ⟨[], output, log⟩ = ⟨[], output, log⟩ := by
  rw [Machine.run]

theorem Machine.run_cons (frame : Frame) (outer : List Frame) (output : Array Token) (log : Log) :
    Machine.run env eval ⟨frame :: outer, output, log⟩ =
      Machine.run env eval (advance env eval frame outer output log) := by
  rw [Machine.run]

/-! ### The steps of a frame -/

theorem advance_last (depth start : Nat) (echo : Option String) (output : Array Token)
    (log : Log) : advance env eval ⟨[], depth, start, echo⟩ [] output log = ⟨[], output, log⟩ :=
  rfl

theorem advance_leave (depth start : Nat) (echo : Option String) (caller : Frame)
    (outer : List Frame) (output : Array Token) (log : Log) :
    advance env eval ⟨[], depth, start, echo⟩ (caller :: outer) output log =
      ⟨caller :: outer, output, echoExpansion log.leave echo fun _ =>
        (output.extract start output.size).toList⟩ :=
  rfl

theorem advance_copy {e : Emitted} (he : callee? env e = none) (tokens : List Emitted)
    (depth start : Nat) (echo : Option String) (outer : List Frame) (output : Array Token)
    (log : Log) :
    advance env eval ⟨e :: tokens, depth, start, echo⟩ outer output log =
      ⟨⟨tokens, depth, start, echo⟩ :: outer, output.push e.token, log⟩ := by
  simp only [advance, he]

theorem advance_enter {e : Emitted} {d : Definition} (he : callee? env e = some d)
    {depth : Nat} (hdepth : depth + 1 ≤ env.settings.nestLimit) (tokens : List Emitted)
    (start : Nat) (echo : Option String) (outer : List Frame) (output : Array Token) (log : Log) :
    advance env eval ⟨e :: tokens, depth, start, echo⟩ outer output log =
      let bound := bindArguments d tokens
      let body := callBody env eval d bound.bindings (depth + 1) (enterCall log d bound)
      ⟨⟨body.1, depth + 1, output.size, echoName? env depth e.token⟩ ::
        ⟨bound.rest, depth, start, echo⟩ :: outer, output, body.2⟩ := by
  simp only [advance, he, if_pos hdepth]

theorem advance_drop {e : Emitted} {d : Definition} (he : callee? env e = some d)
    {depth : Nat} (hdepth : ¬depth + 1 ≤ env.settings.nestLimit) (tokens : List Emitted)
    (start : Nat) (echo : Option String) (outer : List Frame) (output : Array Token) (log : Log) :
    advance env eval ⟨e :: tokens, depth, start, echo⟩ outer output log =
      let bound := bindArguments d tokens
      let dropped := (enterCall log d bound).report (nestingLimit env d e.token)
      ⟨⟨bound.rest, depth, start, echo⟩ :: outer, output,
        leaveCall env depth e.token ([], dropped)⟩ := by
  simp only [advance, he, if_neg hdepth]
  rfl

/-! ### A frame is scanned to its end -/

/-- On every stack, a frame with these tokens is scanned to its end while the frames below it stay
as they are, and the scan adds the recursive expansion of the tokens. -/
def ScansRecursively (env : Environment) (eval : Evaluator) (depth : Nat)
    (tokens : List Emitted) : Prop :=
  ∀ (start : Nat) (echo : Option String) (outer : List Frame) (output : Array Token) (log : Log),
    Machine.run env eval ⟨⟨tokens, depth, start, echo⟩ :: outer, output, log⟩ =
      let expansion := expandRecursively env eval depth tokens log
      Machine.run env eval
        ⟨⟨[], depth, start, echo⟩ :: outer, output ++ expansion.1.toArray, expansion.2⟩

theorem extract_append_toArray (output : Array Token) (tokens : List Token) :
    ((output ++ tokens.toArray).extract output.size
      (output ++ tokens.toArray).size).toList = tokens := by
  have hdrop : (output.toList ++ tokens).drop output.size = tokens := by
    rw [← Array.length_toList, List.drop_left]
  rw [Array.toList_extract, List.extract_eq_take_drop, Array.toList_append, hdrop]
  exact List.take_of_length_le (by simp)

/-- A call leaves its frame and the output as if its expansion had been spliced in place. -/
theorem run_call {e : Emitted} {d : Definition} (he : callee? env e = some d) {depth : Nat}
    (hbody : depth + 1 ≤ env.settings.nestLimit →
      ∀ body, ScansRecursively env eval (depth + 1) body)
    (tokens : List Emitted) (start : Nat) (echo : Option String) (outer : List Frame)
    (output : Array Token) (log : Log) :
    Machine.run env eval ⟨⟨e :: tokens, depth, start, echo⟩ :: outer, output, log⟩ =
      let bound := bindArguments d tokens
      let expansion :=
        callExpansion env eval depth d e.token bound.bindings (enterCall log d bound)
      Machine.run env eval ⟨⟨bound.rest, depth, start, echo⟩ :: outer,
        output ++ expansion.1.toArray, leaveCall env depth e.token expansion⟩ := by
  rw [Machine.run_cons]
  by_cases hdepth : depth + 1 ≤ env.settings.nestLimit
  · rw [advance_enter he hdepth]
    simp only [callExpansion, if_pos hdepth]
    rw [hbody hdepth, Machine.run_cons, advance_leave, extract_append_toArray]
    rfl
  · rw [advance_drop he hdepth]
    simp only [callExpansion, if_neg hdepth, Array.append_empty]

theorem scansRecursively (depth : Nat) (tokens : List Emitted) :
    ScansRecursively env eval depth tokens := by
  induction depth, tokens using scan_induction env.settings.nestLimit with
  | nil depth =>
      intro start echo outer output log
      simp only [expandRecursively_nil, Array.append_empty]
  | cons depth e following ihbody ihrest =>
      intro start echo outer output log
      cases he : callee? env e with
      | none =>
          rw [Machine.run_cons, advance_copy he, ihrest following (Nat.le_refl _),
            expandRecursively_copy he]
          simp only [Array.push_eq_append, Array.append_assoc, List.append_toArray,
            List.singleton_append]
      | some d =>
          rw [run_call he ihbody, expandRecursively_call he]
          dsimp only
          rw [ihrest _ (bindArguments_rest_le d following)]
          simp only [Array.append_assoc, List.append_toArray]

/-- The stack of frames expands calls as the recursion does, whatever expands the texts of
`!EVAL`. -/
theorem expandWith_eq_expandRecursively (env : Environment) (eval : Evaluator)
    (tokens : List Emitted) (depth : Nat) (log : Log) :
    expandWith env eval tokens depth log = expandRecursively env eval depth tokens log := by
  simp only [expandWith]
  rw [scansRecursively depth tokens, Machine.run_cons, advance_last, Machine.run_nil]
  simp

/-! ### Texts of `!EVAL` -/

theorem evaluateText_eq_evaluateRecursively (env : Environment) (levels : Nat) :
    evaluateText env levels = evaluateRecursively env levels := by
  induction levels with
  | zero => rfl
  | succ levels ih =>
      funext text span scene
      simp only [evaluateText, evaluateRecursively, expandWith_eq_expandRecursively, ih]

/-- The explicit stack of frames equals the plain recursion: from every starting log and depth, and
with any number of `!EVAL` levels left, both give the same tokens, the same diagnostics with their
stacks, the same echoes and the same stack of names, also where `!EVAL` enters the expansion
again. -/
theorem frameStack_eq_recursion (env : Environment) (levels : Nat) (tokens : List Emitted)
    (depth : Nat) (log : Log) :
    expandWith env (evaluateText env levels) tokens depth log =
      expandRecursively env (evaluateRecursively env levels) depth tokens log := by
  rw [evaluateText_eq_evaluateRecursively, expandWith_eq_expandRecursively]

end CommandMacros.Expansion

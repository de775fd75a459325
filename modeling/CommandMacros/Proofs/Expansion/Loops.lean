import CommandMacros.Expansion.Substitute

/-!
What a loop does. Its body is run with one value of the variable after the other, up to a `!BREAK`
and for no more values than the iteration limit allows; if a value is left over then, this is
reported, once. The values of a numeric loop are the sums of the first one and the step, as long as
they are within the bounds, whatever the sums are.
-/

namespace CommandMacros.Expansion

/-- Runs the body with one value after the other, up to a `!BREAK`. -/
def passes (body : Scene → Emission) (variableName : String) : List String → Scene → Emission
  | [], scene => .silent scene
  | value :: values, scene =>
    (iteration body variableName value scene).andThen (passes body variableName values)

/-- The end of a loop after its passes. A `!BREAK` goes no further; without one, the warning is
reported if values are left over. -/
def Emission.endLoop (run : Emission) (leftOver : Prop) [Decidable leftOver]
    (warning : Diagnostic) : Emission :=
  if run.broken = false ∧ leftOver then
    .ofTokens run.tokens (run.scene.report warning)
  else
    .ofTokens run.tokens run.scene

/-- The index of a numeric loop after a number of passes: the step is added once for each. -/
def indexAfter (first step : Float) : Nat → Float
  | 0 => first
  | n + 1 => indexAfter first step n + step

/-- The indices of as many passes at most, up to the first that is past the last value. -/
def indicesWithin (first last step : Float) (count : Nat) : List Float :=
  ((List.range count).map (indexAfter first step)).takeWhile (withinBounds · last step)

/-! ### One after the other -/

namespace Emission

theorem andThen_of_broken {first : Emission} (h : first.broken = true)
    (next : Scene → Emission) : first.andThen next = first :=
  if_pos h

theorem andThen_of_not_broken {first : Emission} (h : first.broken = false)
    (next : Scene → Emission) : first.andThen next = (next first.scene).after first.tokens :=
  if_neg (Bool.eq_false_iff.mp h)

theorem after_after (emission : Emission) (tokens front : List Emitted) :
    (emission.after tokens).after front = emission.after (front ++ tokens) := by
  simp only [after, List.append_assoc]

theorem andThen_andThen (first : Emission) (second third : Scene → Emission) :
    (first.andThen second).andThen third =
      first.andThen fun scene => (second scene).andThen third := by
  cases hfirst : first.broken with
  | true => rw [andThen_of_broken hfirst, andThen_of_broken hfirst, andThen_of_broken hfirst]
  | false =>
      rw [andThen_of_not_broken hfirst, andThen_of_not_broken hfirst]
      cases hsecond : (second first.scene).broken with
      | true => rw [andThen_of_broken hsecond, andThen_of_broken (by exact hsecond)]
      | false =>
          rw [andThen_of_not_broken hsecond, andThen_of_not_broken (by exact hsecond), after_after]
          rfl

/-- What stands before a loop stands before it when it has ended. -/
theorem endLoop_after (run : Emission) (leftOver : Prop) [Decidable leftOver]
    (warning : Diagnostic) (tokens : List Emitted) :
    (run.endLoop leftOver warning).after tokens = (run.after tokens).endLoop leftOver warning := by
  unfold endLoop
  split
  · next h => exact (if_pos h).symm
  · next h => exact (if_neg h).symm

theorem endLoop_congr (run : Emission) {leftOver other : Prop} [Decidable leftOver]
    [Decidable other] (h : leftOver ↔ other) (warning : Diagnostic) :
    run.endLoop leftOver warning = run.endLoop other warning := by
  simp only [endLoop, h]

theorem endLoop_of_broken {run : Emission} (h : run.broken = true) (leftOver : Prop)
    [Decidable leftOver] (warning : Diagnostic) :
    run.endLoop leftOver warning = .ofTokens run.tokens run.scene := by
  refine if_neg fun hboth => ?_
  rw [h] at hboth
  cases hboth.1

theorem broken_endLoop (run : Emission) (leftOver : Prop) [Decidable leftOver]
    (warning : Diagnostic) : (run.endLoop leftOver warning).broken = false := by
  unfold endLoop
  split <;> rfl

end Emission

theorem passes_append (body : Scene → Emission) (variableName : String)
    (front values : List String) (scene : Scene) :
    passes body variableName (front ++ values) scene =
      (passes body variableName front scene).andThen (passes body variableName values) := by
  induction front generalizing scene with
  | nil => rfl
  | cons value front ih =>
      rw [List.cons_append, passes, passes, Emission.andThen_andThen]
      exact congrArg _ (funext ih)

/-! ### Loops -/

section Loops

variable {env : Environment} {body : Scene → Emission} {variableName : String} {span : Span}

/-- A loop over a list takes as many values as are allowed, and leaves the others over. -/
theorem iterateList_eq (remaining : Nat) (values : List String) (scene : Scene) :
    iterateList env body variableName span remaining values scene =
      (passes body variableName (values.take remaining) scene).endLoop
        (remaining < values.length) (iterationLimit env span) := by
  induction remaining generalizing values scene with
  | zero =>
      cases values with
      | nil => rfl
      | cons value values => exact (if_pos ⟨rfl, Nat.zero_lt_succ _⟩).symm
  | succ remaining ih =>
      cases values with
      | nil => rfl
      | cons value values =>
          rw [iterateList, List.take_succ_cons, passes]
          cases hpass : (iteration body variableName value scene).broken with
          | true =>
              rw [Emission.andThen_of_broken hpass, Emission.endLoop_of_broken hpass]
              exact if_pos hpass
          | false =>
              have hgoes : ¬(iteration body variableName value scene).broken = true :=
                Bool.eq_false_iff.mp hpass
              rw [Emission.andThen_of_not_broken hpass, Emission.andPasses, if_neg hgoes, ih,
                Emission.endLoop_after]
              simp only [List.length_cons, Nat.succ_lt_succ_iff]

/-- Adding the step first shifts the indices by one pass. -/
theorem indexAfter_add (first step : Float) (n : Nat) :
    indexAfter (first + step) step n = indexAfter first step (n + 1) := by
  induction n with
  | zero => rfl
  | succ n ih => rw [indexAfter, ih, ← indexAfter]

theorem indicesWithin_past {first last step : Float} (h : ¬withinBounds first last step = true)
    (count : Nat) : indicesWithin first last step count = [] := by
  cases count with
  | zero => rfl
  | succ count =>
      rw [indicesWithin, List.range_succ_eq_map, List.map_cons]
      exact List.takeWhile_cons_of_neg h

theorem indicesWithin_pass {first last step : Float} (h : withinBounds first last step = true)
    (count : Nat) : indicesWithin first last step (count + 1) =
      first :: indicesWithin (first + step) last step count := by
  have hshift : indexAfter first step ∘ Nat.succ = indexAfter (first + step) step :=
    funext fun n => (indexAfter_add first step n).symm
  rw [indicesWithin, List.range_succ_eq_map, List.map_cons, List.map_map, hshift]
  exact List.takeWhile_cons_of_pos h

/-- A numeric loop is a loop over its indices. Whether one is left over can be seen from the first
that is not allowed any more. -/
theorem iterateRange_eq_iterateList (last step : Float) (remaining : Nat) (first : Float)
    (scene : Scene) :
    iterateRange env body variableName last step span remaining first scene =
      iterateList env body variableName span remaining
        ((indicesWithin first last step (remaining + 1)).map Number.text) scene := by
  induction remaining generalizing first scene with
  | zero =>
      by_cases h : withinBounds first last step = true
      · rw [iterateRange_limit h, indicesWithin_pass h]
        rfl
      · rw [iterateRange_past h, indicesWithin_past h]
        rfl
  | succ remaining ih =>
      by_cases h : withinBounds first last step = true
      · rw [iterateRange_pass h, indicesWithin_pass h, List.map_cons, iterateList]
        exact congrArg _ (funext (ih (first + step)))
      · rw [iterateRange_past h, indicesWithin_past h]
        rfl

theorem length_indicesWithin_le (first last step : Float) (count : Nat) :
    (indicesWithin first last step count).length ≤ count := by
  calc (indicesWithin first last step count).length
      ≤ ((List.range count).map (indexAfter first step)).length :=
        (List.takeWhile_sublist _).length_le
    _ = count := by rw [List.length_map, List.length_range]

/-- One index more is within the bounds if all before it are, and it is itself. -/
theorem indicesWithin_succ (first last step : Float) (count : Nat) :
    indicesWithin first last step (count + 1) =
      if (indicesWithin first last step count).length = count ∧
          withinBounds (indexAfter first step count) last step = true then
        indicesWithin first last step count ++ [indexAfter first step count]
      else
        indicesWithin first last step count := by
  have hlength : ((List.range count).map (indexAfter first step)).length = count := by
    rw [List.length_map, List.length_range]
  rw [indicesWithin, List.range_succ, List.map_append, List.map_singleton, List.takeWhile_append,
    hlength, ← indicesWithin]
  by_cases hall : (indicesWithin first last step count).length = count
  · have hwhole : indicesWithin first last step count =
        (List.range count).map (indexAfter first step) :=
      (List.takeWhile_prefix _).eq_of_length (hall.trans hlength.symm)
    rw [if_pos hall, ← hwhole]
    by_cases hnext : withinBounds (indexAfter first step count) last step = true
    · rw [if_pos ⟨hall, hnext⟩, List.takeWhile_cons, hnext, List.takeWhile_nil]
      rfl
    · rw [if_neg fun h => hnext h.2, List.takeWhile_cons, if_neg hnext, List.append_nil]
  · rw [if_neg hall, if_neg fun h => hall h.1]

/-- A numeric loop takes the indices within its bounds, as many as are allowed, and leaves one over
if all these and the next one are within the bounds. -/
theorem iterateRange_eq (last step : Float) (remaining : Nat) (first : Float) (scene : Scene) :
    iterateRange env body variableName last step span remaining first scene =
      (passes body variableName ((indicesWithin first last step remaining).map Number.text)
        scene).endLoop
        ((indicesWithin first last step remaining).length = remaining ∧
          withinBounds (indexAfter first step remaining) last step = true)
        (iterationLimit env span) := by
  have hle := length_indicesWithin_le first last step remaining
  rw [iterateRange_eq_iterateList, iterateList_eq, indicesWithin_succ]
  split
  · next hleft =>
      rw [List.map_append, List.take_left' (by rw [List.length_map, hleft.1])]
      refine Emission.endLoop_congr _ (iff_of_true ?_ hleft) _
      rw [List.length_append, List.length_map, hleft.1]
      exact Nat.lt_succ_self remaining
  · next hleft =>
      rw [List.take_of_length_le (by rwa [List.length_map])]
      refine Emission.endLoop_congr _ (iff_of_false ?_ hleft) _
      rw [List.length_map]
      exact Nat.not_lt.mpr hle

end Loops

/-- The iteration limit is exact. A numeric loop runs its body with the successive indices that are
within the bounds, at most as many as the limit allows and none after a `!BREAK`, and reports the
limit once if that many passes were made, none of them with a `!BREAK`, and the next index is still
within the bounds. A loop over a list does the same with the tokens of the text of the list, and
reports the limit if one of them is left over. -/
theorem iteration_limit_exact (env : Environment) (eval : Evaluator) (variableName : String)
    (body : List Directive) (span : Span) :
    let limit := env.settings.iterateLimit
    let run := passes (substitute env eval body) variableName
    (∀ first last step scene,
      let values := indicesWithin first last step limit
      values.length ≤ limit ∧
        iterateRange env (substitute env eval body) variableName last step span limit first scene =
          (run (values.map Number.text) scene).endLoop
            (values.length = limit ∧ withinBounds (indexAfter first step limit) last step = true)
            (iterationLimit env span)) ∧
      ∀ list, runList env eval (substitute env eval body) variableName list span =
        orFail (evaluate eval list) span fun text scene =>
          let values := (tokenize text).map Token.text
          (run (values.take limit) scene).endLoop (limit < values.length)
            (iterationLimit env span) := by
  intro limit run
  refine ⟨fun first last step scene => ⟨?_, ?_⟩, fun list => ?_⟩
  · exact length_indicesWithin_le first last step limit
  · exact iterateRange_eq last step limit first scene
  · refine congrArg (orFail (evaluate eval list) span) (funext fun text => funext fun scene => ?_)
    exact iterateList_eq limit ((tokenize text).map Token.text) scene

end CommandMacros.Expansion

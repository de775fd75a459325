import CommandMacros.Proofs.Expansion.Compiled
import CommandMacros.Proofs.Expansion.Limits
import CommandMacros.Proofs.Expansion.Loops

/-!
Where a `!BREAK` leads. It ends the branches it stands in and the body of the innermost loop around
them, and with it this loop; what follows the loop is run. A compiled body has no `!BREAK` outside
of loops, so all of its directives are run, in a call and in an `!EVAL` alike.
-/

namespace CommandMacros

/-- Whether a `!BREAK` in the directive is one of a loop around it. That of a loop is its own. -/
def Directive.passesBreak : Directive → Bool
  | .cond .. | .breakLoop => true
  | _ => false

namespace Expansion

/-- Runs all directives in order, whatever they give. -/
def runAll (env : Environment) (eval : Evaluator) : List Directive → Scene → Emission
  | [], scene => .silent scene
  | directive :: others, scene =>
    let first := substituteOne env eval directive scene
    (runAll env eval others first.scene).after first.tokens

/-- Running the directives reaches a `!BREAK` among them or in the branches of their conditions.
With it go the tokens given before, and the scene there with the branches left. -/
inductive BreakReached (env : Environment) (eval : Evaluator) :
    List Directive → Scene → List Emitted → Scene → Prop
  | here {before after : List Directive} {scene next : Scene} {tokens : List Emitted}
      (hbefore : substitute env eval before scene = ⟨tokens, false, next⟩) :
      BreakReached env eval (before ++ .breakLoop :: after) scene tokens next
  | inside {before after thenBranch branch : List Directive} {condition : Expr}
      {elseBranch : Option (List Directive)} {scene next chosen last : Scene} {value : String}
      {tokens inner : List Emitted}
      (hbefore : substitute env eval before scene = ⟨tokens, false, next⟩)
      (hcondition : evaluate eval condition next = .ok value chosen)
      (hbranch : (if truth value then some thenBranch else elseBranch) = some branch)
      (h : BreakReached env eval branch (chosen.enter "!IF") inner last) :
      BreakReached env eval (before ++ .cond condition thenBranch elseBranch :: after) scene
        (tokens ++ inner) last.leave

/-- The directive is a loop over these values, which are no more than the limit allows, and starts
in this scene. -/
inductive LoopsOver (env : Environment) (eval : Evaluator) (variableName : String)
    (body : List Directive) : Directive → Scene → List String → Scene → Prop
  | range {first last : Expr} {step : Option Expr} {span : Span} {scene start : Scene}
      {lower upper increment : Float}
      (h : loopBounds eval first last step (scene.enter "!DO") =
        .ok (lower, upper, increment) start) :
      LoopsOver env eval variableName body (.doRange variableName first last step body span) scene
        ((indicesWithin lower upper increment env.settings.iterateLimit).map Number.text) start
  | list {list : Expr} {span : Span} {scene start : Scene} {text : String}
      (h : evaluate eval list (scene.enter "!DO") = .ok text start) :
      LoopsOver env eval variableName body (.doIn variableName list body span) scene
        (((tokenize text).map Token.text).take env.settings.iterateLimit) start

section

variable {env : Environment} {eval : Evaluator}

/-! ### Loops -/

theorem broken_iterateRange (body : Scene → Emission) (variableName : String) (last step : Float)
    (span : Span) (remaining : Nat) (index : Float) (scene : Scene) :
    (iterateRange env body variableName last step span remaining index scene).broken = false := by
  rw [iterateRange_eq]
  exact Emission.broken_endLoop ..

theorem broken_iterateList (body : Scene → Emission) (variableName : String) (span : Span)
    (remaining : Nat) (values : List String) (scene : Scene) :
    (iterateList env body variableName span remaining values scene).broken = false := by
  rw [iterateList_eq]
  exact Emission.broken_endLoop ..

/-- A failure does not end anything. -/
theorem broken_orFail {α : Type} {computation : Eval α} {next : α → Scene → Emission}
    (hnext : ∀ value scene, (next value scene).broken = false) (fallback : Span) (scene : Scene) :
    (orFail computation fallback next scene).broken = false := by
  unfold orFail
  split
  · exact hnext ..
  · rfl

/-- Nothing but a condition or a `!BREAK` ends the directives early; a `!BREAK` inside a loop goes
no further than the loop. -/
theorem broken_of_not_passesBreak {d : Directive} (h : d.passesBreak = false) (scene : Scene) :
    (substituteOne env eval d scene).broken = false := by
  cases d with
  | cond | breakLoop => cases h
  | doRange variableName first last step body span =>
      rw [substituteOne]
      exact broken_orFail (fun _ _ => broken_iterateRange ..) span _
  | doIn variableName list body span =>
      rw [substituteOne]
      exact broken_orFail (fun _ _ => broken_iterateList ..) span _
  | parameter index =>
      rw [substituteOne]
      split <;> rfl
  | call | assign =>
      rw [substituteOne]
      exact broken_orFail (fun _ _ => rfl) _ _
  | literal | allPositionals | setExpand | invalid =>
      rw [substituteOne]
      rfl

/-- The first pass that reaches a `!BREAK` is the last one of its loop. -/
theorem substituteOne_of_breakReached {d : Directive} {variableName value : String}
    {body : List Directive} {front values : List String} {scene start next last : Scene}
    {tokens inner : List Emitted}
    (hloop : LoopsOver env eval variableName body d scene (front ++ value :: values) start)
    (hfront : passes (substitute env eval body) variableName front start = ⟨tokens, false, next⟩)
    (hbreak : substitute env eval body (next.setVariable variableName value) =
      ⟨inner, true, last⟩) :
    substituteOne env eval d scene = ⟨tokens ++ inner, false, last.leave⟩ := by
  have hpass : iteration (substitute env eval body) variableName value next =
      ⟨inner, true, last⟩ := hbreak
  have hpasses : passes (substitute env eval body) variableName (front ++ value :: values) start =
      ⟨tokens ++ inner, true, last⟩ := by
    rw [passes_append, hfront, Emission.andThen_of_not_broken rfl, passes, hpass,
      Emission.andThen_of_broken rfl]
    rfl
  generalize front ++ value :: values = all at hloop hpasses
  cases hloop with
  | range h =>
      rw [substituteOne, within, runRange, orFail, h]
      dsimp only
      rw [iterateRange_eq, hpasses, Emission.endLoop_of_broken rfl]
      rfl
  | list h =>
      rw [substituteOne, within, runList, orFail, h]
      dsimp only
      rw [iterateList_eq, hpasses, Emission.endLoop_of_broken rfl]
      rfl

/-! ### Sequences of directives -/

theorem substitute_append (before after : List Directive) (scene : Scene) :
    substitute env eval (before ++ after) scene =
      (substitute env eval before scene).andThen (substitute env eval after) := by
  induction before generalizing scene with
  | nil => rfl
  | cons d before ih =>
      rw [List.cons_append, substitute, substitute, Emission.andThen_andThen]
      exact congrArg _ (funext ih)

theorem broken_runAll (tree : List Directive) (scene : Scene) :
    (runAll env eval tree scene).broken = false := by
  induction tree generalizing scene with
  | nil => rfl
  | cons d others ih => exact ih _

/-- Where nothing ends the directives early, all of them are run. -/
theorem substitute_eq_runAll {tree : List Directive}
    (h : ∀ d ∈ tree, ∀ scene, (substituteOne env eval d scene).broken = false) (scene : Scene) :
    substitute env eval tree scene = runAll env eval tree scene := by
  induction tree generalizing scene with
  | nil => rfl
  | cons d others ih =>
      obtain ⟨hd, hothers⟩ := List.forall_mem_cons.mp h
      rw [substitute, runAll, Emission.andThen_of_not_broken (hd scene), ih hothers]

mutual

/-- What is well formed outside of loops ends nothing early. -/
theorem broken_of_wellFormed {ground : Ground} (d : Directive) (h : d.WellFormed ground false)
    (scene : Scene) : (substituteOne env eval d scene).broken = false := by
  match d with
  | .cond condition thenBranch elseBranch =>
    cases h with
    | cond _ hthen _ helse =>
        rw [substituteOne_cond]
        refine broken_orFail (fun value scene => ?_) _ _
        cases truth value with
        | true => exact broken_substitute thenBranch hthen _
        | false =>
            match elseBranch with
            | some branch => exact broken_substitute branch (helse branch rfl) _
            | none => rfl
  | .breakLoop => nomatch h
  | .literal _ | .parameter _ | .allPositionals | .call .. | .doRange .. | .doIn .. | .assign ..
  | .setExpand _ | .invalid .. => exact broken_of_not_passesBreak rfl scene

theorem broken_substitute {ground : Ground} (tree : List Directive)
    (h : ∀ d ∈ tree, d.WellFormed ground false) (scene : Scene) :
    (substitute env eval tree scene).broken = false := by
  match tree with
  | [] => rfl
  | d :: others =>
    obtain ⟨hd, hothers⟩ := List.forall_mem_cons.mp h
    rw [substitute, Emission.andThen_of_not_broken (broken_of_wellFormed d hd scene)]
    exact broken_substitute others hothers _

end

/-- A compiled body is run to its end. -/
theorem substitute_compile (parameters : List Parameter) (tokens : List Token) (scene : Scene) :
    substitute env eval (Body.compile parameters tokens) scene =
      runAll env eval (Body.compile parameters tokens) scene := by
  have hwell := Body.compile_wellFormed parameters (placed_everywhere tokens)
  exact substitute_eq_runAll (fun d hd => broken_of_wellFormed d (hwell.directives d hd)) scene

/-! ### Reaching a `!BREAK` -/

theorem BreakReached.first (others : List Directive) (scene : Scene) :
    BreakReached env eval (.breakLoop :: others) scene [] scene := by
  change BreakReached env eval ([] ++ .breakLoop :: others) scene [] scene
  exact .here rfl

theorem BreakReached.firstBranch {condition : Expr} {thenBranch branch : List Directive}
    {elseBranch : Option (List Directive)} {scene chosen last : Scene} {value : String}
    {inner : List Emitted} (hcondition : evaluate eval condition scene = .ok value chosen)
    (hbranch : (if truth value then some thenBranch else elseBranch) = some branch)
    (h : BreakReached env eval branch (chosen.enter "!IF") inner last) (others : List Directive) :
    BreakReached env eval (.cond condition thenBranch elseBranch :: others) scene inner
      last.leave := by
  change BreakReached env eval ([] ++ .cond condition thenBranch elseBranch :: others) scene
    ([] ++ inner) last.leave
  exact .inside rfl hcondition hbranch h

/-- Directives before that end nothing make no difference. -/
theorem BreakReached.cons {d : Directive} {others : List Directive} {scene next last : Scene}
    {tokens inner : List Emitted} (hd : substituteOne env eval d scene = ⟨tokens, false, next⟩)
    (h : BreakReached env eval others next inner last) :
    BreakReached env eval (d :: others) scene (tokens ++ inner) last := by
  have hbefore {before : List Directive} {given : List Emitted} {reached : Scene}
      (h : substitute env eval before next = ⟨given, false, reached⟩) :
      substitute env eval (d :: before) scene = ⟨tokens ++ given, false, reached⟩ := by
    rw [substitute, hd, Emission.andThen_of_not_broken rfl, h]
    rfl
  cases h with
  | here h => exact .here (hbefore h)
  | inside h hcondition hbranch hinner =>
      rw [← List.append_assoc]
      exact .inside (hbefore h) hcondition hbranch hinner

/-- A `!BREAK` that is reached ends the directives. -/
theorem BreakReached.substitute_eq {tree : List Directive} {scene last : Scene}
    {tokens : List Emitted} (h : BreakReached env eval tree scene tokens last) :
    substitute env eval tree scene = ⟨tokens, true, last⟩ := by
  induction h with
  | here hbefore =>
      rw [substitute_append, hbefore, Emission.andThen_of_not_broken rfl, substitute,
        substituteOne, Emission.andThen_of_broken rfl, Emission.after, List.append_nil]
  | inside hbefore hcondition hbranch _ ih =>
      rw [substitute_append, hbefore, Emission.andThen_of_not_broken rfl, substitute,
        substituteOne_cond, orFail, hcondition]
      dsimp only
      rw [hbranch]
      dsimp only [within]
      rw [ih, Emission.andThen_of_broken rfl]
      rfl

/-- If the directives end early, a `!BREAK` has been reached. -/
def EndsOnlyByBreak (env : Environment) (eval : Evaluator) (tree : List Directive) : Prop :=
  ∀ scene tokens last, substitute env eval tree scene = ⟨tokens, true, last⟩ →
    BreakReached env eval tree scene tokens last

theorem breakReached_of_cond {condition : Expr} {thenBranch : List Directive}
    {elseBranch : Option (List Directive)} (hthen : EndsOnlyByBreak env eval thenBranch)
    (helse : ∀ branch ∈ elseBranch, EndsOnlyByBreak env eval branch) {scene last : Scene}
    {tokens : List Emitted}
    (h : substituteOne env eval (.cond condition thenBranch elseBranch) scene =
      ⟨tokens, true, last⟩) (others : List Directive) :
    BreakReached env eval (.cond condition thenBranch elseBranch :: others) scene tokens last := by
  rw [substituteOne_cond, orFail] at h
  cases hvalue : evaluate eval condition scene with
  | error diagnostic next =>
      rw [hvalue] at h
      cases h
  | ok value chosen =>
      rw [hvalue] at h
      dsimp only at h
      cases hbranch : (if truth value then some thenBranch else elseBranch) with
      | none =>
          rw [hbranch] at h
          cases h
      | some branch =>
          have hends : EndsOnlyByBreak env eval branch := by
            cases htruth : truth value with
            | true =>
                rw [htruth] at hbranch
                cases hbranch
                exact hthen
            | false =>
                rw [htruth] at hbranch
                exact helse branch hbranch
          rw [hbranch] at h
          cases hinner : substitute env eval branch (chosen.enter "!IF") with
          | mk inner broken reached =>
              dsimp only [within] at h
              rw [hinner] at h
              cases h
              exact .firstBranch hvalue hbranch (hends _ _ _ hinner) others

mutual

theorem breakReached_of_substituteOne (d : Directive) {scene last : Scene} {tokens : List Emitted}
    (h : substituteOne env eval d scene = ⟨tokens, true, last⟩) (others : List Directive) :
    BreakReached env eval (d :: others) scene tokens last := by
  have hsimple (hd : d.passesBreak = false) :
      BreakReached env eval (d :: others) scene tokens last := by
    have hbroken : (substituteOne env eval d scene).broken = false :=
      broken_of_not_passesBreak hd scene
    rw [h] at hbroken
    cases hbroken
  match d with
  | .breakLoop =>
    rw [substituteOne] at h
    cases h
    exact .first others scene
  | .cond condition thenBranch none =>
    refine breakReached_of_cond (endsOnlyByBreak thenBranch) ?_ h others
    rintro _ ⟨⟩
  | .cond condition thenBranch (some branch) =>
    refine breakReached_of_cond (endsOnlyByBreak thenBranch) ?_ h others
    rintro _ ⟨⟩
    exact endsOnlyByBreak branch
  | .literal _ | .parameter _ | .allPositionals | .call .. | .doRange .. | .doIn .. | .assign ..
  | .setExpand _ | .invalid .. => exact hsimple rfl

theorem endsOnlyByBreak (tree : List Directive) : EndsOnlyByBreak env eval tree := by
  intro scene tokens last h
  match tree with
  | [] => cases h
  | d :: others =>
    rw [substitute] at h
    cases hfirst : substituteOne env eval d scene with
    | mk given broken next =>
        rw [hfirst] at h
        cases broken with
        | true =>
            rw [Emission.andThen_of_broken rfl] at h
            exact breakReached_of_substituteOne d (hfirst.trans h) others
        | false =>
            rw [Emission.andThen_of_not_broken rfl] at h
            cases hothers : substitute env eval others next with
            | mk inner broken reached =>
                rw [hothers] at h
                cases h
                exact .cons hfirst (endsOnlyByBreak others _ _ _ hothers)

end

end

/-- A `!BREAK` ends its innermost loop and nothing else. Every directive of a compiled body is run,
in order, and none ends the body early. Directives end early exactly where a `!BREAK` is reached,
through any number of branches; what stands after it is not run. In a loop that is the last pass,
and the directives after the loop go on from there, as they do after any loop. So the bodies of
calls and the texts of `!EVAL`, which look at no `!BREAK`, are run to their end. -/
theorem break_ends_innermost_loop (env : Environment) (eval : Evaluator) :
    (∀ parameters tokens scene,
      let tree := Body.compile parameters tokens
      (substitute env eval tree scene).broken = false ∧
        substitute env eval tree scene = runAll env eval tree scene) ∧
    (∀ tree scene tokens last, substitute env eval tree scene = ⟨tokens, true, last⟩ ↔
      BreakReached env eval tree scene tokens last) ∧
    (∀ d variableName body front value values scene start tokens next inner last,
      LoopsOver env eval variableName body d scene (front ++ value :: values) start →
      passes (substitute env eval body) variableName front start = ⟨tokens, false, next⟩ →
      BreakReached env eval body (next.setVariable variableName value) inner last →
      ∀ after, substitute env eval (d :: after) scene =
        (substitute env eval after last.leave).after (tokens ++ inner)) ∧
    (∀ d, d.passesBreak = false → ∀ after scene,
      let first := substituteOne env eval d scene
      substitute env eval (d :: after) scene =
        (substitute env eval after first.scene).after first.tokens) ∧
    (∀ d : Definition, d.Compiled → ∀ bindings depth log,
      let emission := runAll env eval d.body ⟨{ definition := d, bindings, depth }, log⟩
      callBody env eval d bindings depth log = (emission.tokens, emission.scene.log)) ∧
    ∀ levels text span scene,
      let inner := evaluateText env levels
      let tree := Body.compile scene.activation.definition.parameters (tokenizeAt text span)
      let emission := runAll env inner tree (scene.enter "!EVAL")
      let activation := emission.scene.activation
      let (tokens, log) := expandWith env inner emission.tokens activation.depth emission.scene.log
      evaluateText env (levels + 1) text span scene =
        (Token.render tokens, ⟨activation, log.leave⟩) := by
  refine ⟨fun parameters tokens scene => ?_, fun tree scene tokens last => ?_, ?_, ?_, ?_, ?_⟩
  · intro tree
    rw [substitute_compile]
    exact ⟨broken_runAll tree scene, rfl⟩
  · exact ⟨endsOnlyByBreak tree scene tokens last, BreakReached.substitute_eq⟩
  · intro d variableName body front value values scene start tokens next inner last hloop hfront
      hbreak after
    rw [substitute, substituteOne_of_breakReached hloop hfront hbreak.substitute_eq,
      Emission.andThen_of_not_broken rfl]
  · intro d hd after scene first
    rw [substitute, Emission.andThen_of_not_broken (broken_of_not_passesBreak hd scene)]
  · rintro d ⟨tokens, hbody⟩ bindings depth log emission
    rw [callBody, hbody, substitute_compile, ← hbody]
  · intro levels text span scene inner tree emission activation
    rw [evaluateText, substitute_compile]

/-- `!IF !i !THEN !BREAK !IFEND next` -/
def untilTrue : List Directive :=
  [.cond (.operand (.token (word "!i"))) [.breakLoop] none, .literal [word "next"]]

/-- A loop over the three tokens of the list `'0 1 0'`. -/
def search : Directive :=
  .doIn "!i" (.operand (.token ⟨.string "0 1 0", "'0 1 0'", .point 0⟩)) untilTrue (.point 0)

/-- A call of the macro with the body `!BREAK word`, where the `!BREAK` is in no loop. -/
def searching : Scene where
  activation :=
    { definition := ⟨"m", .point 0, [], Body.compile [] [word "!BREAK", word "word"]⟩
      bindings := []
      depth := 1 }
  log := {}

/-- The loop in its second pass. -/
def secondPass : Scene :=
  ((searching.enter "!DO").setVariable "!i" "0").setVariable "!i" "1"

/-- The loop ends with its second pass and not without its first, and the word after it is given;
a `!BREAK` in no loop ends nothing. -/
theorem search_ends_at_true :
    let env : Environment := ⟨⟨[]⟩, {}⟩
    let d := searching.activation.definition
    (∃ start next last,
      LoopsOver env (evaluator env) "!i" untilTrue search searching ["0", "1", "0"] start ∧
        passes (substitute env (evaluator env) untilTrue) "!i" ["0"] start =
          ⟨[⟨word "next", true⟩], false, next⟩ ∧
        BreakReached env (evaluator env) untilTrue (next.setVariable "!i" "1") [] last) ∧
      (substitute env (evaluator env) [search, .literal [word "done"]] searching).tokens =
        [⟨word "next", true⟩, ⟨word "done", true⟩] ∧
      (Directive.literal [word "done"]).passesBreak = false ∧
      d.Compiled ∧
      ((callBody env (evaluator env) d [] 1 {}).1.map fun e => (e.token.text, e.expandable)) =
        [("!ERROR", false), ("word", true)] := by
  intro env d
  obtain ⟨-, -, hloop, -, hcall, -⟩ := break_ends_innermost_loop env (evaluator env)
  have hstart : LoopsOver env (evaluator env) "!i" untilTrue search searching
      ["0", "1", "0"] (searching.enter "!DO") := by
    have hvalues : (["0", "1", "0"] : List String) =
        ((tokenize "0 1 0").map Token.text).take env.settings.iterateLimit := by
      decide +kernel
    rw [hvalues]
    exact .list rfl
  have hpass : passes (substitute env (evaluator env) untilTrue) "!i" ["0"]
      (searching.enter "!DO") =
        ⟨[⟨word "next", true⟩], false, (searching.enter "!DO").setVariable "!i" "0"⟩ := rfl
  have hcondition : evaluate (evaluator env) (.operand (.token (word "!i"))) secondPass =
      .ok "1" secondPass := rfl
  have hbreak : BreakReached env (evaluator env) untilTrue secondPass []
      (secondPass.enter "!IF").leave :=
    .firstBranch hcondition rfl (.first [] (secondPass.enter "!IF")) _
  have hcompiled : d.Compiled := ⟨_, rfl⟩
  refine ⟨⟨_, _, _, hstart, hpass, hbreak⟩, ?_, rfl, hcompiled, ?_⟩
  · rw [hloop _ _ _ ["0"] "1" ["0"] _ _ _ _ _ _ hstart hpass hbreak]
    rfl
  · rw [hcall d hcompiled]
    rfl

end Expansion

end CommandMacros

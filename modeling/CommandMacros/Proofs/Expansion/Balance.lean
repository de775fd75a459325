import CommandMacros.Proofs.Expansion.Commands
import CommandMacros.Proofs.Expansion.Compiled
import CommandMacros.Proofs.Expansion.Inert
import CommandMacros.Proofs.Expansion.Limits
import CommandMacros.Proofs.Expansion.Reports

/-!
The bookkeeping of an expansion is balanced. Whatever a call does and however it ends, it leaves the
stack, the number of `!EVAL` expansions and its activation as they were, and only adds to the log.
So a stack tells the truth: what stands on it besides directives are the macro calls in progress,
as many as the depth of the innermost one.
-/

namespace CommandMacros

/-- What directives put on the stack. -/
def directiveNames : List String := ["!IF", "!DO", "!EVAL"]

/-- The macro calls on a stack. -/
def macroFrames (stack : List String) : List String :=
  stack.filter fun name => !directiveNames.contains name

/-- No macro of the table is spelled like something that directives put on the stack. -/
def Table.NamesNoDirective (table : Table) : Prop :=
  ∀ entry ∈ table.entries, entry.2.name ∉ directiveNames

/-- Every error in the bodies of the table is of the given kind. -/
def Table.HoldsOnly (table : Table) (errors : MacroError → Prop) : Prop :=
  ∀ entry ∈ table.entries, HoldOnly errors entry.2.body

/-- Compiled bodies hold errors of bodies only. -/
theorem Table.Compiled.holdsOnly {table : Table} (h : table.Compiled) {errors : MacroError → Prop}
    (hbody : ∀ {error : MacroError}, error.OfBody → errors error) : table.HoldsOnly errors := by
  intro entry hentry d hd error herror
  obtain ⟨tokens, hcompiled⟩ := h entry hentry
  rw [hcompiled] at hd
  exact hbody (Body.compile_holdOnly _ tokens d hd error herror)

def MacroError.isNestingLimit : MacroError → Bool
  | .nestingLimit _ _ => true
  | _ => false

theorem MacroError.OfExpression.not_nestingLimit {name : String} {error : MacroError}
    (h : error.OfExpression name) : error.isNestingLimit = false := by
  cases error with
  | nestingLimit => exact h.elim
  | _ => rfl

theorem MacroError.OfBody.not_nestingLimit {error : MacroError} (h : error.OfBody) :
    error.isNestingLimit = false := by
  cases error with
  | nestingLimit => exact h.elim
  | _ => rfl

/-! ### Frames on a stack -/

theorem macroFrames_directive {name : String} (h : name ∈ directiveNames) (stack : List String) :
    macroFrames (name :: stack) = macroFrames stack := by
  refine List.filter_cons_of_neg ?_
  simp only [List.contains_eq_mem, h, decide_true, Bool.not_true, Bool.false_eq_true,
    not_false_eq_true]

theorem macroFrames_macro {name : String} (h : name ∉ directiveNames) (stack : List String) :
    macroFrames (name :: stack) = name :: macroFrames stack := by
  refine List.filter_cons_of_pos ?_
  simp only [List.contains_eq_mem, h, decide_false, Bool.not_false]

theorem macroFrames_reverse (stack : List String) :
    macroFrames stack.reverse = (macroFrames stack).reverse :=
  List.filter_reverse

namespace Expansion

/-- The stack holds one name for each `!EVAL` expansion and each macro call in progress, and neither
limit is passed. -/
structure Counts (settings : Settings) (nesting depth : Nat) (innermost : Option String)
    (stack : List String) : Prop where
  frames : (macroFrames stack).length = depth
  head : (macroFrames stack).head? = innermost
  texts : stack.count "!EVAL" = nesting
  depth_le : depth ≤ settings.nestLimit
  nesting_le : nesting ≤ maxEvalNesting

namespace Counts

variable {settings : Settings} {nesting depth : Nat} {innermost : Option String}
  {stack : List String}

theorem directive (h : Counts settings nesting depth innermost stack) {name : String}
    (hname : name = "!IF" ∨ name = "!DO") :
    Counts settings nesting depth innermost (name :: stack) := by
  have hmem : name ∈ directiveNames ∧ name ≠ "!EVAL" := by
    rcases hname with rfl | rfl <;> decide
  have hframes := macroFrames_directive hmem.1 stack
  refine ⟨?_, ?_, ?_, h.depth_le, h.nesting_le⟩
  · rw [hframes, h.frames]
  · rw [hframes, h.head]
  · rw [List.count_cons_of_ne hmem.2, h.texts]

theorem text (h : Counts settings nesting depth innermost stack)
    (hnesting : nesting < maxEvalNesting) :
    Counts settings (nesting + 1) depth innermost ("!EVAL" :: stack) := by
  have hframes : macroFrames ("!EVAL" :: stack) = macroFrames stack :=
    macroFrames_directive (by decide) stack
  refine ⟨?_, ?_, ?_, h.depth_le, hnesting⟩
  · rw [hframes, h.frames]
  · rw [hframes, h.head]
  · rw [List.count_cons_self, h.texts]

theorem enter (h : Counts settings nesting depth innermost stack) {name : String}
    (hname : name ∉ directiveNames) (hdepth : depth + 1 ≤ settings.nestLimit) :
    Counts settings nesting (depth + 1) (some name) (name :: stack) := by
  have hframes := macroFrames_macro hname stack
  refine ⟨?_, ?_, ?_, hdepth, h.nesting_le⟩
  · rw [hframes, List.length_cons, h.frames]
  · rw [hframes, List.head?_cons]
  · rw [List.count_cons_of_ne, h.texts]
    rintro rfl
    exact hname (by decide)

/-- As the stack of a diagnostic, with the outermost name first. -/
theorem reported (h : Counts settings nesting depth innermost stack) :
    (macroFrames stack.reverse).length = depth ∧
      (macroFrames stack.reverse).getLast? = innermost := by
  rw [macroFrames_reverse, List.length_reverse, List.getLast?_reverse]
  exact ⟨h.frames, h.head⟩

/-- A call that is entered is on the stack, even where the limit forbids to go on with it. -/
theorem reported_enter (h : Counts settings nesting depth innermost stack) {name : String}
    (hname : name ∉ directiveNames) :
    (macroFrames (name :: stack).reverse).length = depth + 1 ∧
      (macroFrames (name :: stack).reverse).getLast? = some name := by
  rw [macroFrames_reverse, List.length_reverse, List.getLast?_reverse, macroFrames_macro hname]
  exact ⟨congrArg (· + 1) h.frames, rfl⟩

end Counts

/-- Any stack will do. -/
def anyStack (env : Environment) (errors : MacroError → Prop)
    (htable : env.table.HoldsOnly errors)
    (hcompiled : ∀ {error : MacroError}, error.OfBody → errors error) : StackRule env where
  fits _ _ _ _ := True
  errors := errors
  directive _ _ := trivial
  text _ _ := trivial
  enter _ _ _ := trivial
  body hcallee := by
    obtain ⟨name, hentry⟩ := mem_entries_of_callee hcallee
    exact htable _ hentry
  compiled := hcompiled

/-- The stack counts the expansions and the calls in progress. -/
def countedStack (env : Environment) (hnames : env.table.NamesNoDirective)
    (errors : MacroError → Prop) (htable : env.table.HoldsOnly errors)
    (hcompiled : ∀ {error : MacroError}, error.OfBody → errors error) : StackRule env where
  fits := Counts env.settings
  errors := errors
  directive hname h := h.directive hname
  text hnesting h := h.text hnesting
  enter hcallee hdepth h := by
    obtain ⟨name, hentry⟩ := mem_entries_of_callee hcallee
    exact h.enter (hnames _ hentry) hdepth
  body hcallee := by
    obtain ⟨name, hentry⟩ := mem_entries_of_callee hcallee
    exact htable _ hentry
  compiled := hcompiled

/-! ### What a call leaves as it was -/

/-- The call leaves the stack, what was recorded, and the macro, the bindings and the depth of its
activation as they were. The loop over the frames leaves the names of all but the outermost one. -/
def Call.Continues : (c : Call) → c.Answer → Prop
  | .expandStatement _ _ log, expansion | .expandCalls _ _ _ log, expansion =>
    log.Continues expansion.2
  | .scanFrames _ machine, final =>
    final.log.stack = machine.log.stack.drop (machine.frames.length - 1) ∧
      machine.log.diagnostics.toList <+: final.log.diagnostics.toList
  | .substitute _ _ scene, emission | .substituteOne _ _ scene, emission
  | .iterateRange _ _ _ _ _ _ _ _ scene, emission | .iterateList _ _ _ _ _ _ scene, emission =>
    scene.Continues emission.scene
  | .evaluate _ _ scene, result | .operandText _ _ scene, result =>
    scene.Continues (Coupling.finalScene result)
  | .operandTexts _ _ scene, result => scene.Continues (Coupling.finalScene result)
  | .evaluateText _ _ _ scene, answer => scene.Continues answer.2

theorem StackRule.framesFit {env : Environment} {rule : StackRule env} {nesting : Nat}
    (h : ∀ depth innermost stack, rule.fits nesting depth innermost stack) (frames : List Frame)
    (stack : List String) : rule.FramesFit nesting frames stack := by
  induction frames generalizing stack with
  | nil => exact ⟨0, none, h 0 none stack⟩
  | cons frame outer ih => exact ⟨⟨none, h _ none stack⟩, fun _ => ih stack.tail⟩

/-- A rule that no call breaks. -/
def noRule (env : Environment) : StackRule env :=
  anyStack env (fun _ => True) (fun _ _ _ _ _ _ => trivial) (fun _ => trivial)

theorem noRule_admits (env : Environment) (c : Call) : (noRule env).Admits c := by
  have htree (tree : List Directive) : HoldOnly (fun _ => True) tree := fun _ _ _ _ => trivial
  cases c with
  | expandStatement | expandCalls => exact ⟨none, trivial⟩
  | scanFrames nesting machine => exact StackRule.framesFit (fun _ _ _ => trivial) _ _
  | substitute nesting tree scene => exact ⟨trivial, htree tree⟩
  | substituteOne => exact ⟨trivial, fun _ _ => trivial⟩
  | iterateRange nesting variableName last step body | iterateList nesting variableName body =>
      exact ⟨trivial, htree body⟩
  | evaluate | operandText | operandTexts | evaluateText => exact trivial

theorem continues_value (env : Environment) (c : Call) : c.Continues (c.value env) := by
  have htexts (nesting : Nat) : (withHistory env {}).ParallelTexts (evaluatorWithin env nesting)
      (evaluatorWithin env nesting) :=
    (withHistory env {}).parallel_evaluateText _
  cases c with
  | expandStatement nesting tokens log =>
      exact (Coupling.parallel_expandWith (htexts nesting) _ 0).continues log
  | expandCalls nesting tokens depth log =>
      exact (Coupling.parallel_expandWith (htexts nesting) tokens depth).continues log
  | scanFrames nesting machine =>
      have hadmits := noRule_admits env (.scanFrames nesting machine)
      have hadds : Call.Adds (fun _ => True) (.scanFrames nesting machine) _ :=
        (noRule env).adds_value hadmits fun _ _ _ _ _ _ _ => trivial
      obtain ⟨hstack, added, hadded, _⟩ := hadds
      exact ⟨hstack, added, hadded.symm⟩
  | substitute nesting tree scene =>
      exact (Coupling.parallel_substitute (htexts nesting) tree).continues scene
  | substituteOne nesting directive scene =>
      exact (Coupling.parallel_substituteOne (htexts nesting) directive).continues scene
  | iterateRange nesting variableName last step body span iterations index scene =>
      have hbody := Coupling.parallel_substitute (htexts nesting) body
      exact (Coupling.parallel_iterateRange hbody (Nat.add_zero _).symm variableName last step span
        _ index).continues scene
  | iterateList nesting variableName body span iterations values scene =>
      have hbody := Coupling.parallel_substitute (htexts nesting) body
      exact (Coupling.parallel_iterateList hbody (Nat.add_zero _).symm variableName span _
        values).continues scene
  | evaluate nesting expr scene =>
      exact (Coupling.parallel_evaluate (htexts nesting) expr).continues scene
  | operandText nesting operand scene =>
      exact (Coupling.parallel_operandText (htexts nesting) operand).continues scene
  | operandTexts nesting operands scene =>
      exact (Coupling.parallel_operandTexts (htexts nesting) operands).continues scene
  | evaluateText nesting text span scene => exact (htexts nesting text span).continues scene

/-! ### What a stack tells -/

section Counted

variable {env : Environment} {hnames : env.table.NamesNoDirective} {errors : MacroError → Prop}
  {htable : env.table.HoldsOnly errors}
  {hcompiled : ∀ {error : MacroError}, error.OfBody → errors error}

/-- The macro calls on the stack of a diagnostic are as many as the depth of the call that is
entered or substituted, which is the last of them. -/
theorem Call.Reports.frames {made : Call} {depth : Nat} {name : String} {d : Diagnostic}
    (h : made.Reports env depth name d)
    (hadmits : (countedStack env hnames errors htable hcompiled).Admits made) :
    (macroFrames d.stack).length = depth ∧ (macroFrames d.stack).getLast? = some name := by
  cases h with
  | binding _ hcallee | nesting _ hcallee =>
      obtain ⟨⟨innermost, hframe⟩, _⟩ := hadmits
      obtain ⟨key, hentry⟩ := mem_entries_of_callee hcallee
      exact Counts.reported_enter hframe (hnames _ hentry)
  | invalid | rangeLimit | listLimit => exact Counts.reported hadmits.1
  | textLimit => exact Counts.reported hadmits
  | @failure _ directive scene names _ hframes _ =>
      have hcounts : Counts env.settings _ _ _ scene.log.stack := hadmits.1
      have hnames : names = [] ∨ names = ["!DO"] := by
        cases directive <;> cases hframes <;> decide
      rcases hnames with rfl | rfl
      · exact hcounts.reported
      · exact (hcounts.directive (.inr rfl)).reported

/-- Only a call that goes past the nesting limit is reported as such, where no body holds such an
error. -/
theorem Call.Reports.depth_of_nestingLimit {made : Call} {depth : Nat} {name : String}
    {d : Diagnostic} (h : made.Reports env depth name d) (hlimit : d.error.isNestingLimit = true)
    (hadmits : (countedStack env hnames errors htable hcompiled).Admits made)
    (herrors : ∀ error, errors error → error.isNestingLimit = false) :
    depth = env.settings.nestLimit + 1 := by
  cases h with
  | binding _ _ hproblem =>
      obtain ⟨cause, hcause⟩ := bindArguments_errors hproblem
      rw [Log.reported, hcause] at hlimit
      cases hlimit
  | nesting _ _ hdepth =>
      obtain ⟨⟨innermost, hframe⟩, _⟩ := hadmits
      have hle := Counts.depth_le hframe
      omega
  | invalid nesting error span scene =>
      have hheld := herrors error (hadmits.2 error (.invalid span))
      cases hheld.symm.trans hlimit
  | failure _ herror => cases herror.not_nestingLimit.symm.trans hlimit
  | rangeLimit | listLimit | textLimit => cases hlimit

/-- Every call is made under as many `!EVAL` expansions as its stack has. -/
theorem nesting_of_admits {made : Call}
    (h : (countedStack env hnames errors htable hcompiled).Admits made) :
    made.nesting = made.log.stack.count "!EVAL" ∧ made.nesting ≤ maxEvalNesting := by
  have hcounts : ∃ depth innermost,
      Counts env.settings made.nesting depth innermost made.log.stack := by
    cases made with
    | expandStatement | expandCalls => exact ⟨_, h⟩
    | scanFrames nesting machine =>
        obtain ⟨frames, output, log⟩ := machine
        cases frames with
        | nil => exact h
        | cons frame outer => exact ⟨_, h.1⟩
    | substitute | substituteOne | iterateRange | iterateList => exact ⟨_, _, h.1⟩
    | evaluate | operandText | operandTexts | evaluateText => exact ⟨_, _, h⟩
  obtain ⟨depth, innermost, hcounts⟩ := hcounts
  exact ⟨hcounts.texts.symm, hcounts.nesting_le⟩

end Counted

theorem Log.Adds.reportedSince {holds : Diagnostic → Prop} {before after : Log}
    (h : before.Adds holds after) : ∀ d ∈ after.reportedSince before, holds d := by
  obtain ⟨added, hadded, hholds⟩ := h.added
  have hsince : after.reportedSince before = added := by
    rw [Log.reportedSince, hadded, ← Array.length_toList, List.drop_left]
  rw [hsince]
  exact hholds

/-- The bookkeeping of an expansion. Every call returns, leaves the stack, what was recorded and its
activation as they were, and makes its own calls under one number of `!EVAL` expansions.

Where no macro is spelled like a directive, there are never more than 50 such expansions, as many as
the stack shows, and each diagnostic of a statement is reported by a call that was made on the way:
its stack names as many macro calls as the depth of the call that is being entered or substituted,
the outermost first and this one last. If no body holds such an error itself, as no compiled one
does, every nesting limit is reported one call past it. -/
theorem bookkeeping_balanced (env : Environment) :
    (∀ c : Call, Routine.Returns (procedureBody env) (callProcedure c) (c.value env) ∧
      c.Continues (c.value env) ∧
      ∀ made, Routine.MakesDirectly (procedureBody env) made (procedureBody env c) →
        made.nesting = c.innerNesting) ∧
    (env.table.Compiled → env.table.HoldsOnly (fun error => error.isNestingLimit = false)) ∧
    (env.table.NamesNoDirective → ∀ (tokens : List Token) (log : Log), log.stack = [] →
      let run := callProcedure (.expandStatement 0 tokens log)
      (∀ made, Routine.Makes (procedureBody env) made run →
        made.nesting = made.log.stack.count "!EVAL" ∧ made.nesting ≤ maxEvalNesting) ∧
      ∀ d ∈ (expandStatement env tokens log).2.reportedSince log,
        (∃ made depth name, Routine.Makes (procedureBody env) made run ∧
          made.Reports env depth name d ∧ (macroFrames d.stack).length = depth ∧
          (macroFrames d.stack).getLast? = some name) ∧
        (env.table.HoldsOnly (fun error => error.isNestingLimit = false) →
          d.error.isNestingLimit = true →
            (macroFrames d.stack).length = env.settings.nestLimit + 1)) := by
  refine ⟨fun c => ⟨(settles env c).call, continues_value env c, fun made hmade => ?_⟩,
    fun h => h.holdsOnly MacroError.OfBody.not_nestingLimit, fun hnames tokens log hstack => ?_⟩
  · exact (noRule env).nesting_of_makesDirectly (noRule_admits env c) hmade
  · intro run
    -- The errors in the bodies matter for the last part only.
    let errors (error : MacroError) : Prop :=
      env.table.HoldsOnly (fun error => error.isNestingLimit = false) →
        error.isNestingLimit = false
    have htable : env.table.HoldsOnly errors :=
      fun entry hentry d hd error h honly => honly entry hentry d hd error h
    have hcompiled : ∀ {error : MacroError}, error.OfBody → errors error :=
      fun h _ => h.not_nestingLimit
    let rule := countedStack env hnames errors htable hcompiled
    have hstart : rule.Admits (.expandStatement 0 tokens log) := by
      refine ⟨none, ?_⟩
      rw [hstack]
      exact ⟨rfl, rfl, rfl, Nat.zero_le _, Nat.zero_le _⟩
    refine ⟨fun made hmade => nesting_of_admits (rule.admits_of_makes hstart hmade), ?_⟩
    refine Log.Adds.reportedSince (rule.adds_value hstart ?_)
    intro made hmade hadmits depth name d h
    obtain ⟨hlength, hlast⟩ := h.frames hadmits
    refine ⟨⟨made, depth, name, hmade, h, hlength, hlast⟩, fun honly hlimit => ?_⟩
    rw [hlength]
    exact h.depth_of_nestingLimit hlimit hadmits fun error herror => herror honly

/-- A macro that stands for itself, where one call is allowed. -/
def endless : Environment where
  table := ⟨[("AGAIN", ⟨"again", .point 0, [], [.literal [word "again"]]⟩)]⟩
  settings := { nestLimit := 1 }

/-- The call inside the call that is allowed is reported under both names. -/
theorem endless_reported :
    let d : Diagnostic :=
      { error := .nestingLimit "again" 1, span := some (.point 0), stack := ["again", "again"] }
    (expandStatement endless [word "again"] {}).2.reportedSince {} = [d] ∧
      endless.table.NamesNoDirective ∧
      endless.table.HoldsOnly (fun error => error.isNestingLimit = false) ∧
      (macroFrames d.stack).length = endless.settings.nestLimit + 1 := by
  intro d
  obtain ⟨again, hcall, hagain⟩ : ∃ again, callee? endless ⟨word "again", true⟩ = some again ∧
      again = ⟨"again", .point 0, [], [.literal [word "again"]]⟩ := ⟨_, rfl, rfl⟩
  have hbound : bindArguments again [] = ⟨[], [], []⟩ :=
    bindArguments_of_no_parameters (by rw [hagain]) []
  have hdropped (eval : Evaluator) (entered : Log) :
      (expandRecursively endless eval 1 [⟨word "again", true⟩] entered).2 =
        ((entered.enter "again").report (nestingLimit endless again (word "again"))).leave := by
    have hlimit : ¬1 + 1 ≤ endless.settings.nestLimit := by decide
    rw [expandRecursively_call hcall, hbound]
    simp only [callExpansion, if_neg hlimit, expandRecursively_nil, hagain]
    rfl
  have hrun : (expandStatement endless [word "again"] {}).2.reportedSince {} = [d] := by
    have hallowed : 0 + 1 ≤ endless.settings.nestLimit := Nat.le_refl 1
    have hbody (eval : Evaluator) (entered : Log) :
        callExpansion endless eval 0 again (word "again") [] entered =
          expandRecursively endless eval 1 [⟨word "again", true⟩] entered := by
      rw [callExpansion, if_pos hallowed, callBody, hagain]
      rfl
    rw [expandStatement, expandCalls, expandWith_eq_expandRecursively]
    change (expandRecursively endless _ 0 [⟨word "again", true⟩] {}).2.reportedSince {} = [d]
    rw [expandRecursively_call hcall, hbound]
    simp only [hbody, expandRecursively_nil, leaveCall, hdropped]
    rw [hagain]
    rfl
  have hnames : endless.table.NamesNoDirective := List.forall_mem_singleton.mpr (by decide)
  have honly : endless.table.HoldsOnly (fun error => error.isNestingLimit = false) := by
    refine List.forall_mem_singleton.mpr (List.forall_mem_singleton.mpr ?_)
    rintro error ⟨⟩
  obtain ⟨_, hreported⟩ := (bookkeeping_balanced endless).2.2 hnames [word "again"] {} rfl
  have hmem : d ∈ (expandStatement endless [word "again"] {}).2.reportedSince {} := by
    rw [hrun]
    exact List.mem_singleton_self d
  exact ⟨hrun, hnames, honly, (hreported d hmem).2 honly rfl⟩

end Expansion

end CommandMacros

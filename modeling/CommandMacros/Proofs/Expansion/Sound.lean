import CommandMacros.Proofs.Binding.Sound
import CommandMacros.Proofs.Definition.Sound
import CommandMacros.Proofs.Expansion.Contract

/-!
Expansions keep to what their macros are made of. Where the macros of the table have well-formed
bodies, every directive, expression and operand that is run is well formed over the parameters of
the macro being expanded, there is a binding for each of them, and all tokens and diagnostics have
places in the region of the source. This is a contract of the procedures, and each procedure is
shown to meet it on its own.
-/

namespace CommandMacros

namespace Expansion

variable {region : Region} {d : Definition} {α β : Type}

/-- A scene of a call of the macro: it is sound, each parameter has a binding, and what is bound and
what was reported lies in the region. -/
structure SceneOf (region : Region) (d : Definition) (scene : Scene) : Prop where
  definition : scene.activation.definition = d
  sound : d.Sound region
  length : scene.activation.bindings.length = d.parameters.length
  bindings : ∀ binding ∈ scene.activation.bindings, Placed region binding.tokens
  log : DiagnosticsIn region scene.log.diagnostics.toList

/-- Tokens in the region, and a scene of the macro. -/
structure EmissionOf (region : Region) (d : Definition) (emission : Emission) : Prop where
  tokens : EmittedIn region emission.tokens
  scene : SceneOf region d emission.scene

/-- A value that satisfies the condition or an error in the region, and a scene of the macro. -/
def ResultOf (region : Region) (d : Definition) (condition : α → Prop) :
    EStateM.Result Diagnostic Scene α → Prop
  | .ok value scene => condition value ∧ SceneOf region d scene
  | .error diagnostic scene => diagnostic.In region ∧ SceneOf region d scene

/-- Tokens and a log in the region. -/
structure ExpansionIn (region : Region) (expansion : List Token × Log) : Prop where
  tokens : Placed region expansion.1
  log : DiagnosticsIn region expansion.2.diagnostics.toList

/-- Frames, output and log in the region. -/
structure Machine.In (region : Region) (machine : Machine) : Prop where
  frames : ∀ frame ∈ machine.frames, EmittedIn region frame.tokens
  output : Placed region machine.output.toList
  log : DiagnosticsIn region machine.log.diagnostics.toList

/-- What the procedures of an expansion keep to in a region. -/
def soundness (region : Region) : Routine.Contract Call Call.Answer where
  requires
    | .expandStatement _ tokens log =>
      Placed region tokens ∧ DiagnosticsIn region log.diagnostics.toList
    | .expandCalls _ tokens _ log =>
      EmittedIn region tokens ∧ DiagnosticsIn region log.diagnostics.toList
    | .scanFrames _ machine => machine.In region
    | .substitute _ tree scene =>
      SceneOf region scene.activation.definition scene ∧
        ∃ inLoop, TreeWellFormed ⟨scene.activation.definition.parameters, region⟩ inLoop tree
    | .substituteOne _ directive scene =>
      SceneOf region scene.activation.definition scene ∧
        ∃ inLoop, directive.WellFormed ⟨scene.activation.definition.parameters, region⟩ inLoop
    | .iterateRange _ _ _ _ body span _ _ scene | .iterateList _ _ body span _ _ scene =>
      SceneOf region scene.activation.definition scene ∧
        TreeWellFormed ⟨scene.activation.definition.parameters, region⟩ true body ∧ span ∈ region
    | .evaluate _ expr scene =>
      SceneOf region scene.activation.definition scene ∧
        expr.WellFormed ⟨scene.activation.definition.parameters, region⟩
    | .operandText _ operand scene =>
      SceneOf region scene.activation.definition scene ∧
        operand.WellFormed ⟨scene.activation.definition.parameters, region⟩
    | .operandTexts _ operands scene =>
      SceneOf region scene.activation.definition scene ∧
        ∀ operand ∈ operands, operand.WellFormed ⟨scene.activation.definition.parameters, region⟩
    | .evaluateText _ _ span scene =>
      SceneOf region scene.activation.definition scene ∧ span ∈ region
  ensures
    | .expandStatement .., expansion | .expandCalls .., expansion => ExpansionIn region expansion
    | .scanFrames .., machine => machine.In region
    | .substitute _ _ scene, emission | .substituteOne _ _ scene, emission
    | .iterateRange _ _ _ _ _ _ _ _ scene, emission | .iterateList _ _ _ _ _ _ scene, emission =>
      EmissionOf region scene.activation.definition emission
    | .evaluate _ _ scene, result | .operandText _ _ scene, result =>
      ResultOf region scene.activation.definition (fun _ => True) result
    | .operandTexts _ operands scene, result =>
      ResultOf region scene.activation.definition (fun texts => texts.length = operands.length)
        result
    | .evaluateText _ _ _ scene, answer => SceneOf region scene.activation.definition answer.2

/-! ### Scenes -/

namespace SceneOf

variable {scene : Scene}

theorem report (h : SceneOf region d scene) {diagnostic : Diagnostic}
    (hdiagnostic : diagnostic.In region) : SceneOf region d (scene.report diagnostic) where
  definition := h.definition
  sound := h.sound
  length := h.length
  bindings := h.bindings
  log := h.log.push hdiagnostic

/-- A scene that differs in the variables, the flags and the stack only. -/
theorem congr (h : SceneOf region d scene) {other : Scene}
    (hdefinition : other.activation.definition = scene.activation.definition)
    (hbindings : other.activation.bindings = scene.activation.bindings)
    (hlog : other.log.diagnostics = scene.log.diagnostics) : SceneOf region d other where
  definition := hdefinition.trans h.definition
  sound := h.sound
  length := hbindings ▸ h.length
  bindings := hbindings ▸ h.bindings
  log := hlog ▸ h.log

theorem enter (h : SceneOf region d scene) (name : String) : SceneOf region d (scene.enter name) :=
  h.congr rfl rfl rfl

theorem leave (h : SceneOf region d scene) : SceneOf region d scene.leave :=
  h.congr rfl rfl rfl

theorem setVariable (h : SceneOf region d scene) (name value : String) :
    SceneOf region d (scene.setVariable name value) :=
  h.congr rfl rfl rfl

/-- Every parameter has a binding. -/
theorem exists_binding (h : SceneOf region d scene) {index : Nat}
    (hindex : index < d.parameters.length) :
    ∃ binding, scene.activation.bindings[index]? = some binding :=
  ⟨_, List.getElem?_eq_getElem (h.length ▸ hindex)⟩

end SceneOf

theorem EmissionOf.silent {scene : Scene} (h : SceneOf region d scene) :
    EmissionOf region d (.silent scene) :=
  ⟨.nil region, h⟩

theorem EmissionOf.after {emission : Emission} (h : EmissionOf region d emission)
    {tokens : List Emitted} (htokens : EmittedIn region tokens) :
    EmissionOf region d (emission.after tokens) :=
  ⟨htokens.append h.tokens, h.scene⟩

/-- An error leaves a marker at its own place or at the fallback. -/
theorem EmissionOf.fail {scene : Scene} (h : SceneOf region d scene) {diagnostic : Diagnostic}
    (hdiagnostic : diagnostic.In region) {fallback : Span} (hfallback : fallback ∈ region) :
    EmissionOf region d (fail scene diagnostic fallback) := by
  have hplace : diagnostic.span.getD fallback ∈ region := by
    cases hspan : diagnostic.span with
    | none => exact hfallback
    | some span => exact hdiagnostic span hspan
  refine ⟨.ofTokens ?_ false, h.report hdiagnostic⟩
  exact List.forall_mem_singleton.mpr hplace

theorem placed_tokenizeAt {span : Span} (h : span ∈ region) (text : String) :
    Placed region (tokenizeAt text span) := by
  intro t ht
  obtain ⟨_, _, rfl⟩ := List.mem_map.mp ht
  exact h

/-! ### Calls made in a scene -/

abbrev Keeps (region : Region) (condition : α → Prop) (routine : Calling α) : Prop :=
  Routine.Meets (soundness region) condition routine

section Asking

variable {scene : Scene} (hscene : SceneOf region d scene) (nesting : Nat)

include hscene

theorem keeps_substitute {inLoop : Bool} {tree : List Directive}
    (htree : TreeWellFormed ⟨d.parameters, region⟩ inLoop tree) :
    Keeps region (EmissionOf region d) (callProcedure (.substitute nesting tree scene)) := by
  obtain rfl := hscene.definition
  have hcall : (soundness region).requires (.substitute nesting tree scene) :=
    ⟨hscene, inLoop, htree⟩
  exact .ask hcall

theorem keeps_substituteOne {inLoop : Bool} {directive : Directive}
    (hdirective : directive.WellFormed ⟨d.parameters, region⟩ inLoop) :
    Keeps region (EmissionOf region d)
      (callProcedure (.substituteOne nesting directive scene)) := by
  obtain rfl := hscene.definition
  have hcall : (soundness region).requires (.substituteOne nesting directive scene) :=
    ⟨hscene, inLoop, hdirective⟩
  exact .ask hcall

theorem keeps_iterateRange (variableName : String) (last step : Float) {body : List Directive}
    (hbody : TreeWellFormed ⟨d.parameters, region⟩ true body) {span : Span} (hspan : span ∈ region)
    (iterations : Nat) (index : Float) :
    Keeps region (EmissionOf region d)
      (callProcedure (.iterateRange nesting variableName last step body span iterations index
        scene)) := by
  obtain rfl := hscene.definition
  have hcall : (soundness region).requires
      (.iterateRange nesting variableName last step body span iterations index scene) :=
    ⟨hscene, hbody, hspan⟩
  exact .ask hcall

theorem keeps_iterateList (variableName : String) {body : List Directive}
    (hbody : TreeWellFormed ⟨d.parameters, region⟩ true body) {span : Span} (hspan : span ∈ region)
    (iterations : Nat) (values : List String) :
    Keeps region (EmissionOf region d)
      (callProcedure (.iterateList nesting variableName body span iterations values scene)) := by
  obtain rfl := hscene.definition
  have hcall : (soundness region).requires
      (.iterateList nesting variableName body span iterations values scene) :=
    ⟨hscene, hbody, hspan⟩
  exact .ask hcall

theorem keeps_evaluateText (text : String) {span : Span} (hspan : span ∈ region) :
    Keeps region (fun answer => SceneOf region d answer.2)
      (callProcedure (.evaluateText nesting text span scene)) := by
  obtain rfl := hscene.definition
  have hcall : (soundness region).requires (.evaluateText nesting text span scene) :=
    ⟨hscene, hspan⟩
  exact .ask hcall

end Asking

/-! ### Expressions -/

/-- In every scene of the macro the computation gives a value that satisfies the condition, or an
error in the region, and a scene of the macro again. -/
def KeepsEval (region : Region) (d : Definition) (condition : α → Prop)
    (computation : CallingEval α) : Prop :=
  ∀ scene, SceneOf region d scene →
    Keeps region (ResultOf region d condition) (computation scene)

namespace KeepsEval

variable {condition : α → Prop} {result : β → Prop}

theorem pure {value : α} (h : condition value) :
    KeepsEval region d condition (Pure.pure value : CallingEval α) :=
  fun _ hscene => .pure ⟨h, hscene⟩

theorem bind {computation : CallingEval α} {next : α → CallingEval β}
    (h : KeepsEval region d condition computation)
    (hnext : ∀ value, condition value → KeepsEval region d result (next value)) :
    KeepsEval region d result (computation >>= next : CallingEval β) := by
  intro scene hscene
  refine (h scene hscene).bind fun outcome houtcome => ?_
  cases outcome with
  | ok value scene => exact hnext value houtcome.1 scene houtcome.2
  | error diagnostic scene => exact .pure houtcome

theorem ofActivation {value : Activation → α} (h : ∀ activation, condition (value activation)) :
    KeepsEval region d condition (.ofActivation value) :=
  fun _ hscene => .pure ⟨h _, hscene⟩

theorem fail {error : Activation → Diagnostic} (h : ∀ activation, (error activation).span = none) :
    KeepsEval region d condition (.fail error) := by
  refine fun _ hscene => .pure ⟨fun span hspan => ?_, hscene⟩
  rw [h] at hspan
  cases hspan

variable (nesting : Nat)

theorem evaluate {expr : Expr} (h : expr.WellFormed ⟨d.parameters, region⟩) :
    KeepsEval region d (fun _ => True) (.evaluate nesting expr) := by
  intro scene hscene
  obtain rfl := hscene.definition
  have hcall : (soundness region).requires (.evaluate nesting expr scene) := ⟨hscene, h⟩
  exact .ask hcall

theorem operandText {operand : Operand} (h : operand.WellFormed ⟨d.parameters, region⟩) :
    KeepsEval region d (fun _ => True) (.operandText nesting operand) := by
  intro scene hscene
  obtain rfl := hscene.definition
  have hcall : (soundness region).requires (.operandText nesting operand scene) := ⟨hscene, h⟩
  exact .ask hcall

theorem operandTexts {operands : List Operand}
    (h : ∀ operand ∈ operands, operand.WellFormed ⟨d.parameters, region⟩) :
    KeepsEval region d (fun texts => texts.length = operands.length)
      (.operandTexts nesting operands) := by
  intro scene hscene
  obtain rfl := hscene.definition
  have hcall : (soundness region).requires (.operandTexts nesting operands scene) := ⟨hscene, h⟩
  exact .ask hcall

theorem applyBuiltin (function : Builtin) (arguments : List String) {span : Span}
    (hspan : span ∈ region) :
    KeepsEval region d (fun _ => True) (.applyBuiltin nesting function arguments span) := by
  intro scene hscene
  unfold CallingEval.applyBuiltin
  split
  · refine (keeps_evaluateText hscene nesting _ hspan).bind fun answer hanswer => ?_
    exact .pure ⟨trivial, hanswer⟩
  · split
    · exact .pure ⟨trivial, hscene⟩
    · exact .pure ⟨.of_span rfl hspan, hscene⟩

theorem callText {function : Builtin} {arguments : List Operand}
    (harguments : ∀ argument ∈ arguments, argument.WellFormed ⟨d.parameters, region⟩) {span : Span}
    (hspan : span ∈ region) :
    KeepsEval region d (fun _ => True) (.callText nesting function arguments span) :=
  (operandTexts nesting harguments).bind fun texts _ => applyBuiltin nesting function texts hspan

theorem evaluateNumber {expr : Expr} (h : expr.WellFormed ⟨d.parameters, region⟩) :
    KeepsEval region d (fun _ => True) (.evaluateNumber nesting expr) := by
  refine (evaluate nesting h).bind fun text _ => ?_
  split
  · exact pure trivial
  · exact fail fun _ => rfl

theorem loopStep (first last : Float) {step : Option Expr}
    (h : ∀ expr ∈ step, expr.WellFormed ⟨d.parameters, region⟩) :
    KeepsEval region d (fun _ => True) (.loopStep nesting first last step) := by
  cases step with
  | none => exact pure trivial
  | some expr => exact evaluateNumber nesting (h expr rfl)

theorem loopBounds {first last : Expr} {step : Option Expr}
    (hfirst : first.WellFormed ⟨d.parameters, region⟩)
    (hlast : last.WellFormed ⟨d.parameters, region⟩)
    (hstep : ∀ expr ∈ step, expr.WellFormed ⟨d.parameters, region⟩) :
    KeepsEval region d (fun _ => True) (.loopBounds nesting first last step) := by
  refine (evaluateNumber nesting hfirst).bind fun first _ => ?_
  refine (evaluateNumber nesting hlast).bind fun last _ => ?_
  refine (loopStep nesting first last hstep).bind fun step _ => ?_
  split
  · exact fail fun _ => rfl
  · exact pure trivial

end KeepsEval

theorem keeps_operandBody (nesting : Nat) {operand : Operand}
    (h : operand.WellFormed ⟨d.parameters, region⟩) :
    KeepsEval region d (fun _ => True) (operandBody nesting operand) := by
  cases h with
  | token | parameter | allPositionals =>
      rw [operandBody]
      exact .ofActivation fun _ => trivial
  | call _ harguments hspan => exact .callText nesting harguments hspan

theorem keeps_operandsBody (nesting : Nat) {operands : List Operand}
    (h : ∀ operand ∈ operands, operand.WellFormed ⟨d.parameters, region⟩) :
    KeepsEval region d (fun texts => texts.length = operands.length)
      (operandsBody nesting operands) := by
  cases operands with
  | nil => exact .pure rfl
  | cons operand others =>
      obtain ⟨hoperand, hothers⟩ := List.forall_mem_cons.mp h
      refine (KeepsEval.operandText nesting hoperand).bind fun text _ => ?_
      refine (KeepsEval.operandTexts nesting hothers).bind fun texts htexts => ?_
      exact .pure (congrArg Nat.succ htexts)

theorem keeps_evaluateBody (nesting : Nat) {expr : Expr}
    (h : expr.WellFormed ⟨d.parameters, region⟩) :
    KeepsEval region d (fun _ => True) (evaluateBody nesting expr) := by
  cases expr with
  | or left right | and left right | relation _ left right =>
      refine (KeepsEval.evaluate nesting h.1).bind fun left _ => ?_
      refine (KeepsEval.evaluate nesting h.2).bind fun right _ => ?_
      exact .pure trivial
  | not inner =>
      have hinner : inner.WellFormed ⟨d.parameters, region⟩ := h
      refine (KeepsEval.evaluate nesting hinner).bind fun value _ => ?_
      exact .pure trivial
  | operand leaf =>
      refine (KeepsEval.operandText nesting h).bind fun text _ => ?_
      exact .pure trivial

/-! ### Directives -/

section Directives

variable {scene : Scene}

theorem keeps_callThen {first : Emission} (hfirst : EmissionOf region d first)
    {next : Scene → Calling Emission}
    (hnext : ∀ scene, SceneOf region d scene → Keeps region (EmissionOf region d) (next scene)) :
    Keeps region (EmissionOf region d) (callThen first next) := by
  unfold callThen
  split
  · exact .pure hfirst
  · exact (hnext first.scene hfirst.scene).bind fun _ hothers =>
      .pure (hothers.after hfirst.tokens)

theorem keeps_callPasses {once : Emission} (honce : EmissionOf region d once)
    {others : Scene → Calling Emission}
    (hothers : ∀ scene, SceneOf region d scene →
      Keeps region (EmissionOf region d) (others scene)) :
    Keeps region (EmissionOf region d) (callPasses once others) := by
  unfold callPasses
  split
  · exact .pure ⟨honce.tokens, honce.scene⟩
  · exact (hothers once.scene honce.scene).bind fun _ hrest => .pure (hrest.after honce.tokens)

theorem keeps_callOrFail {computation : CallingEval α} {condition : α → Prop}
    (h : KeepsEval region d condition computation) {fallback : Span} (hfallback : fallback ∈ region)
    {next : α → Scene → Calling Emission}
    (hnext : ∀ value scene, SceneOf region d scene →
      Keeps region (EmissionOf region d) (next value scene)) (hscene : SceneOf region d scene) :
    Keeps region (EmissionOf region d) (callOrFail computation fallback next scene) := by
  refine (h scene hscene).bind fun outcome houtcome => ?_
  cases outcome with
  | ok value scene => exact hnext value scene houtcome.2
  | error diagnostic scene => exact .pure (.fail houtcome.2 houtcome.1 hfallback)

theorem keeps_callWithin (name : String) {run : Scene → Calling Emission}
    (hrun : ∀ scene, SceneOf region d scene → Keeps region (EmissionOf region d) (run scene))
    (hscene : SceneOf region d scene) :
    Keeps region (EmissionOf region d) (callWithin name run scene) :=
  (hrun _ (hscene.enter name)).bind fun _ hemission =>
    .pure ⟨hemission.tokens, hemission.scene.leave⟩

theorem keeps_rangeBody (env : Environment) (nesting : Nat) (variableName : String)
    (last step : Float) {body : List Directive}
    (hbody : TreeWellFormed ⟨d.parameters, region⟩ true body) {span : Span} (hspan : span ∈ region)
    (iterations : Nat) (index : Float) (hscene : SceneOf region d scene) :
    Keeps region (EmissionOf region d)
      (rangeBody env nesting variableName last step body span iterations index scene) := by
  unfold rangeBody
  split
  · split
    · exact .pure (.silent (hscene.report (.of_span rfl hspan)))
    · refine (keeps_substitute (hscene.setVariable _ _) nesting hbody).bind fun once honce => ?_
      exact keeps_callPasses honce fun _ hscene =>
        keeps_iterateRange hscene nesting variableName last step hbody hspan _ _
  · exact .pure (.silent hscene)

theorem keeps_listBody (env : Environment) (nesting : Nat) (variableName : String)
    {body : List Directive} (hbody : TreeWellFormed ⟨d.parameters, region⟩ true body) {span : Span}
    (hspan : span ∈ region) (iterations : Nat) (values : List String)
    (hscene : SceneOf region d scene) :
    Keeps region (EmissionOf region d)
      (listBody env nesting variableName body span iterations values scene) := by
  unfold listBody
  split
  · exact .pure (.silent hscene)
  · split
    · exact .pure (.silent (hscene.report (.of_span rfl hspan)))
    · refine (keeps_substitute (hscene.setVariable _ _) nesting hbody).bind fun once honce => ?_
      exact keeps_callPasses honce fun _ hscene =>
        keeps_iterateList hscene nesting variableName hbody hspan _ _

theorem emittedIn_literalTokens (env : Environment) (scene : Scene) {t : Token}
    (ht : t.span ∈ region) : EmittedIn region (literalTokens env scene t) := by
  unfold literalTokens
  split
  · exact .ofTokens (placed_tokenizeAt ht _) false
  · exact List.forall_mem_singleton.mpr ht

theorem emittedIn_bindingTokens (env : Environment) (scene : Scene) {binding : Binding}
    (h : Placed region binding.tokens) : EmittedIn region (bindingTokens env scene binding) :=
  .ofTokens h _

theorem mem_bindings_of_mem_positionals {activation : Activation} {binding : Binding}
    (h : binding ∈ activation.positionals) : binding ∈ activation.bindings := by
  obtain ⟨⟨p, other⟩, hmem, rfl⟩ := List.mem_map.mp h
  exact (List.of_mem_zip (List.mem_filter.mp hmem).1).2

theorem keeps_directiveBody (env : Environment) (nesting : Nat) {inLoop : Bool}
    {directive : Directive} (h : directive.WellFormed ⟨d.parameters, region⟩ inLoop)
    (hscene : SceneOf region d scene) :
    Keeps region (EmissionOf region d) (directiveBody env nesting directive scene) := by
  -- A condition or an assignment has no place of its own: its marker goes to the beginning.
  have hzero : Span.point 0 ∈ region := region.zero
  cases h with
  | literal _ hplain =>
      refine .pure ⟨fun e he => ?_, hscene⟩
      obtain ⟨t, ht, hmem⟩ := List.mem_flatMap.mp he
      exact emittedIn_literalTokens env scene (hplain t ht).span_mem e hmem
  | parameter =>
      rw [directiveBody]
      split
      · next binding hbinding =>
          have hplaced := hscene.bindings binding (List.mem_of_getElem? hbinding)
          exact .pure ⟨emittedIn_bindingTokens env scene hplaced, hscene⟩
      · exact .pure (.silent hscene)
  | allPositionals =>
      refine .pure ⟨fun e he => ?_, hscene⟩
      obtain ⟨binding, hbinding, hmem⟩ := List.mem_flatMap.mp he
      have hplaced := hscene.bindings binding (mem_bindings_of_mem_positionals hbinding)
      exact emittedIn_bindingTokens env scene hplaced e hmem
  | call _ harguments hspan =>
      refine keeps_callOrFail (.callText nesting harguments hspan) hspan (fun text _ hscene => ?_)
        hscene
      exact .pure ⟨.ofTokens (placed_tokenizeAt hspan text) false, hscene⟩
  | @cond _ _ thenBranch elseBranch hcondition hthen hthenJoined helse helseJoined =>
      refine keeps_callOrFail (.evaluate nesting hcondition) hzero (fun value _ hscene => ?_) hscene
      split
      · next branch hbranch =>
          have htree : TreeWellFormed ⟨d.parameters, region⟩ inLoop branch := by
            split at hbranch
            · cases hbranch
              exact ⟨hthen, hthenJoined⟩
            · exact ⟨helse branch hbranch, helseJoined branch hbranch⟩
          exact keeps_callWithin "!IF"
            (fun _ hscene => keeps_substitute hscene nesting htree) hscene
      · exact .pure (.silent hscene)
  | doRange _ hfirst hlast hstep hbody hjoined hspan =>
      refine keeps_callWithin "!DO" (fun _ hscene => ?_) hscene
      refine keeps_callOrFail (.loopBounds nesting hfirst hlast hstep) hspan (fun _ _ hscene => ?_)
        hscene
      exact keeps_iterateRange hscene nesting _ _ _ ⟨hbody, hjoined⟩ hspan 0 _
  | doIn _ hlist hbody hjoined hspan =>
      refine keeps_callWithin "!DO" (fun _ hscene => ?_) hscene
      refine keeps_callOrFail (.evaluate nesting hlist) hspan (fun _ _ hscene => ?_) hscene
      exact keeps_iterateList hscene nesting _ ⟨hbody, hjoined⟩ hspan 0 _
  | assign _ hvalue =>
      refine keeps_callOrFail (.evaluate nesting hvalue) hzero (fun _ _ hscene => ?_) hscene
      exact .pure (.silent (hscene.setVariable _ _))
  | setExpand enabled => exact .pure (.silent (hscene.congr rfl rfl rfl))
  | breakLoop => exact .pure ⟨.nil region, hscene⟩
  | invalid error hspan =>
      exact .pure (.fail hscene (.of_span rfl hspan) hspan)

theorem keeps_substituteBody (nesting : Nat) {inLoop : Bool} {tree : List Directive}
    (h : TreeWellFormed ⟨d.parameters, region⟩ inLoop tree) (hscene : SceneOf region d scene) :
    Keeps region (EmissionOf region d) (substituteBody nesting tree scene) := by
  cases tree with
  | nil => exact .pure (.silent hscene)
  | cons directive others =>
      obtain ⟨hfirst, hothers⟩ := List.forall_mem_cons.mp h.directives
      refine (keeps_substituteOne hscene nesting hfirst).bind fun first hfirst => ?_
      exact keeps_callThen hfirst fun _ hscene =>
        keeps_substitute hscene nesting ⟨hothers, h.joined.2⟩

end Directives

/-! ### Calls of macros -/

section Frames

theorem log_reports {log : Log} (h : DiagnosticsIn region log.diagnostics.toList)
    {diagnostics : List Diagnostic} (hdiagnostics : DiagnosticsIn region diagnostics) :
    DiagnosticsIn region (diagnostics.foldl Log.report log).diagnostics.toList := by
  induction diagnostics generalizing log with
  | nil => exact h
  | cons d others ih =>
      obtain ⟨hd, hothers⟩ := List.forall_mem_cons.mp hdiagnostics
      exact ih (h.push hd) hothers

theorem echoExpansion_diagnostics (log : Log) (name? : Option String)
    (expansion : Unit → List Token) :
    (echoExpansion log name? expansion).diagnostics = log.diagnostics := by
  cases name? <;> rfl

theorem keeps_scanFrames (nesting : Nat) {machine : Machine} (h : machine.In region) :
    Keeps region (Machine.In region) (callProcedure (.scanFrames nesting machine)) := by
  have hcall : (soundness region).requires (.scanFrames nesting machine) := h
  exact .ask hcall

theorem keeps_expandCalls (nesting : Nat) {tokens : List Emitted}
    (htokens : EmittedIn region tokens) (depth : Nat) {log : Log}
    (hlog : DiagnosticsIn region log.diagnostics.toList) :
    Keeps region (ExpansionIn region) (callProcedure (.expandCalls nesting tokens depth log)) := by
  have hcall : (soundness region).requires (.expandCalls nesting tokens depth log) :=
    ⟨htokens, hlog⟩
  exact .ask hcall

/-- Entering a call of a sound macro gives a scene of it. -/
theorem sceneOf_enterCall (hd : d.Sound region) {tokens : List Emitted}
    (htokens : EmittedIn region tokens) {log : Log}
    (hlog : DiagnosticsIn region log.diagnostics.toList) (depth : Nat) :
    let bound := bindArguments d tokens
    SceneOf region d
      ⟨{ definition := d, bindings := bound.bindings, depth }, enterCall log d bound⟩ := by
  have hbound := bindArguments_in hd.defaults htokens
  refine ⟨rfl, hd, hbound.length, hbound.bindings, log_reports ?_ hbound.errors⟩
  exact hlog

theorem keeps_textBody (nesting : Nat) (text : String) {span : Span} (hspan : span ∈ region)
    {scene : Scene} (hscene : SceneOf region d scene) :
    Keeps region (fun answer => SceneOf region d answer.2) (textBody nesting text span scene) := by
  unfold textBody
  split
  · exact .pure (hscene.report (.of_span rfl hspan))
  · -- The text is computed and stands nowhere in the source; its tokens take the place of the call.
    obtain rfl := hscene.definition
    have htree := Body.compile_wellFormed scene.activation.definition.parameters
      (placed_tokenizeAt hspan text)
    refine (keeps_substitute (hscene.enter "!EVAL") (nesting + 1) htree).bind
      fun emission hemission => ?_
    refine (keeps_expandCalls (nesting + 1) hemission.tokens _ hemission.scene.log).bind
      fun expansion hexpansion => ?_
    exact .pure ⟨hemission.scene.definition, hscene.sound, hemission.scene.length,
      hemission.scene.bindings, hexpansion.log⟩

variable {env : Environment} (htable : env.table.Sound region)

include htable

theorem sound_of_callee {e : Emitted} (h : callee? env e = some d) : d.Sound region := by
  unfold callee? at h
  split at h
  · exact htable.lookup h
  · cases h

theorem keeps_framesBody (nesting : Nat) {machine : Machine} (h : machine.In region) :
    Keeps region (Machine.In region) (framesBody env nesting machine) := by
  unfold framesBody
  split
  · exact .pure h
  · next frame outer output log =>
      obtain ⟨hframe, houter⟩ := List.forall_mem_cons.mp h.frames
      split
      · refine keeps_scanFrames nesting ⟨houter, h.output, ?_⟩
        split
        · exact h.log
        · rw [echoExpansion_diagnostics]
          exact h.log
      · next e tokens htokens =>
          rw [htokens] at hframe
          split
          · refine keeps_scanFrames nesting
              ⟨List.forall_mem_cons.mpr ⟨hframe.tail, houter⟩, ?_, h.log⟩
            rw [Array.toList_push]
            exact h.output.append (List.forall_mem_singleton.mpr hframe.head)
          · next d hcallee =>
              have hd := sound_of_callee htable hcallee
              have hbound := bindArguments_in hd.defaults hframe.tail
              have hscene := sceneOf_enterCall hd hframe.tail h.log (frame.depth + 1)
              dsimp only
              split
              · refine keeps_scanFrames nesting
                  ⟨List.forall_mem_cons.mpr ⟨hbound.rest, houter⟩, h.output, ?_⟩
                rw [echoExpansion_diagnostics]
                exact hscene.log.push (.of_span rfl hframe.head)
              · refine (keeps_substitute hscene nesting hd.body).bind fun emission hemission => ?_
                refine keeps_scanFrames nesting ⟨?_, h.output, hemission.scene.log⟩
                exact List.forall_mem_cons.mpr
                  ⟨hemission.tokens, List.forall_mem_cons.mpr ⟨hbound.rest, houter⟩⟩

/-- Every procedure meets the contract. -/
theorem keeps_procedureBody (c : Call) (h : (soundness region).requires c) :
    Keeps region ((soundness region).ensures c) (procedureBody env c) := by
  cases c with
  | expandStatement nesting tokens log =>
      exact keeps_expandCalls nesting (.ofTokens h.1 _) 0 h.2
  | expandCalls nesting tokens depth log =>
      have hmachine : Machine.In region ⟨[⟨tokens, depth, 0, none⟩], #[], log⟩ :=
        ⟨List.forall_mem_singleton.mpr h.1, .nil region, h.2⟩
      exact (keeps_scanFrames nesting hmachine).bind fun final hfinal =>
        .pure ⟨hfinal.output, hfinal.log⟩
  | scanFrames nesting machine => exact keeps_framesBody htable nesting h
  | substitute nesting tree scene =>
      obtain ⟨hscene, inLoop, htree⟩ := h
      exact keeps_substituteBody nesting htree hscene
  | substituteOne nesting directive scene =>
      obtain ⟨hscene, inLoop, hdirective⟩ := h
      exact keeps_directiveBody env nesting hdirective hscene
  | iterateRange nesting variableName last step body span iterations index scene =>
      exact keeps_rangeBody env nesting variableName last step h.2.1 h.2.2 iterations index h.1
  | iterateList nesting variableName body span iterations values scene =>
      exact keeps_listBody env nesting variableName h.2.1 h.2.2 iterations values h.1
  | evaluate nesting expr scene => exact keeps_evaluateBody nesting h.2 scene h.1
  | operandText nesting operand scene => exact keeps_operandBody nesting h.2 scene h.1
  | operandTexts nesting operands scene => exact keeps_operandsBody nesting h.2 scene h.1
  | evaluateText nesting text span scene => exact keeps_textBody nesting text h.2 h.1

/-- What a procedure computes is what the contract ensures. -/
theorem value_ensures {c : Call} (h : (soundness region).requires c) :
    (soundness region).ensures c (c.value env) :=
  (settles env c).satisfies (keeps_procedureBody htable) (keeps_procedureBody htable c h)

/-- Every call that is made while a procedure runs is made as the contract requires. -/
theorem makes_requires {c made : Call} (h : (soundness region).requires c)
    (hmade : Routine.Makes (procedureBody env) made (callProcedure c)) :
    (soundness region).requires made :=
  hmade.required (keeps_procedureBody htable) (.ask h)

end Frames

end Expansion

end CommandMacros

import CommandMacros.Proofs.Expansion.Inert

/-!
What expressions read. Without an `!EVAL`, the value of an expression depends on what its operands
stand for and, where it fails, on the name of the macro, and on nothing else of a scene: in scenes
that agree on these the expression has one answer, and each scene stays as it is.
-/

namespace CommandMacros

/-- The first operand is the second one, or stands among its arguments at some level. -/
inductive Operand.StandsIn (leaf : Operand) : Operand → Prop
  | self : StandsIn leaf leaf
  | argument {function : Builtin} {arguments : List Operand} {span : Span} {operand : Operand}
      (hmem : operand ∈ arguments) (h : StandsIn leaf operand) :
      StandsIn leaf (.call function arguments span)

/-- The operand stands in the expression. -/
def Expr.Reads (leaf : Operand) : Expr → Prop
  | .or left right | .and left right | .relation _ left right => left.Reads leaf ∨ right.Reads leaf
  | .not inner => inner.Reads leaf
  | .operand whole => leaf.StandsIn whole

/-- What there is to read in an activation: the name and the parameters of the macro, the arguments,
and the values of the variables by their names. -/
structure Reading where
  name : String
  parameters : List Parameter
  bindings : List Binding
  value? : String → Option String

def Activation.reading (activation : Activation) : Reading where
  name := activation.definition.name
  parameters := activation.definition.parameters
  bindings := activation.bindings
  value? := activation.locals.get?

namespace Expansion

/-! ### Computations that agree -/

section Agreement

variable {ι α β : Type} {scenes : ι → Scene} {evals : ι → Evaluator}

/-- The result of a computation that leaves the scene as it is. -/
def answerAt (answer : Except Diagnostic α) (scene : Scene) : EStateM.Result Diagnostic Scene α :=
  match answer with
  | .ok value => .ok value scene
  | .error d => .error d scene

theorem answerAt_injective (scene : Scene) : Function.Injective (answerAt (α := α) · scene) := by
  intro first second h
  cases first <;> cases second <;> cases h <;> rfl

/-- The computations, each in a scene of its own, have one answer and leave the scenes as they
are. -/
def Agreed (scenes : ι → Scene) (computations : ι → Eval α) : Prop :=
  ∃ answer, ∀ i, computations i (scenes i) = answerAt answer (scenes i)

namespace Agreed

theorem bind {first : ι → Eval α} {next : ι → α → Eval β} (h : Agreed scenes first)
    (hnext : ∀ value, Agreed scenes fun i => next i value) :
    Agreed scenes fun i => first i >>= next i := by
  obtain ⟨answer, hanswer⟩ := h
  cases answer with
  | ok value =>
      obtain ⟨final, hfinal⟩ := hnext value
      refine ⟨final, fun i => ?_⟩
      change EStateM.bind (first i) (next i) (scenes i) = _
      rw [EStateM.bind, hanswer i]
      exact hfinal i
  | error d =>
      refine ⟨.error d, fun i => ?_⟩
      change EStateM.bind (first i) (next i) (scenes i) = _
      rw [EStateM.bind, hanswer i]
      rfl

theorem read (f : Activation → α) {value : α} (h : ∀ i, f (scenes i).activation = value) :
    Agreed scenes fun _ scene => .ok (f scene.activation) scene :=
  ⟨.ok value, fun i => congrArg (EStateM.Result.ok · (scenes i)) (h i)⟩

theorem pure (value : α) : Agreed scenes fun _ => Pure.pure value :=
  read (fun _ => value) fun _ => rfl

theorem throw (f : Activation → Diagnostic) {d : Diagnostic}
    (h : ∀ i, f (scenes i).activation = d) :
    Agreed scenes fun _ scene => (.error (f scene.activation) scene : EStateM.Result _ _ α) :=
  ⟨.error d, fun i => congrArg (EStateM.Result.error · (scenes i)) (h i)⟩

end Agreed

/-! ### Activations that agree -/

/-- The operands stand for the same in the two activations, which are of macros of one name. -/
structure Agrees (read : Operand → Prop) (first second : Activation) : Prop where
  name : second.definition.name = first.definition.name
  token {t : Token} (h : read (.token t)) : second.tokenText t = first.tokenText t
  parameter {index : Nat} (h : read (.parameter index)) :
    argumentText second index = argumentText first index
  allPositionals (h : read .allPositionals) : positionalsText second = positionalsText first

theorem Agrees.mono {read part : Operand → Prop} {first second : Activation}
    (h : Agrees read first second) (hpart : ∀ operand, part operand → read operand) :
    Agrees part first second where
  name := h.name
  token ht := h.token (hpart _ ht)
  parameter hindex := h.parameter (hpart _ hindex)
  allPositionals hall := h.allPositionals (hpart _ hall)

variable {base : Activation}

/-- All the scenes agree with the activation on the operands. -/
def AllAgree (scenes : ι → Scene) (base : Activation) (read : Operand → Prop) : Prop :=
  ∀ i, Agrees read base (scenes i).activation

theorem AllAgree.mono {read part : Operand → Prop} (h : AllAgree scenes base read)
    (hpart : ∀ operand, part operand → read operand) : AllAgree scenes base part :=
  fun i => (h i).mono hpart

theorem agreed_applyBuiltin {function : Builtin} (h : function ≠ .eval) (arguments : List String)
    (span : Span) : Agreed scenes fun i => applyBuiltin (evals i) function arguments span := by
  unfold applyBuiltin
  simp only [Builtin.apply_of_ne_eval _ h]
  cases function.compute arguments with
  | ok text => exact .pure text
  | error cause =>
      exact .throw (fun _ => { error := .call function cause, span := some span }) fun _ => rfl

mutual

theorem agreed_operandText (operand : Operand) (hfree : operand.EvalFree)
    (h : AllAgree scenes base (·.StandsIn operand)) :
    Agreed scenes fun i => operandText (evals i) operand := by
  match operand with
  | .token t =>
    exact .read (fun activation => activation.tokenText t) fun i => (h i).token .self
  | .parameter index =>
    exact .read (fun activation => argumentText activation index) fun i => (h i).parameter .self
  | .allPositionals => exact .read positionalsText fun i => (h i).allPositionals .self
  | .call function arguments span =>
    cases hfree with
    | call hfunction harguments =>
        refine (agreed_operandTexts arguments harguments ?_).bind fun texts =>
          agreed_applyBuiltin hfunction texts span
        exact fun operand hoperand => h.mono fun _ hleaf => .argument hoperand hleaf

theorem agreed_operandTexts (operands : List Operand)
    (hfree : ∀ operand ∈ operands, operand.EvalFree)
    (h : ∀ operand ∈ operands, AllAgree scenes base (·.StandsIn operand)) :
    Agreed scenes fun i => operandTexts (evals i) operands := by
  match operands with
  | [] => exact .pure []
  | operand :: others =>
    obtain ⟨hoperandFree, hothersFree⟩ := List.forall_mem_cons.mp hfree
    obtain ⟨hoperand, hothers⟩ := List.forall_mem_cons.mp h
    exact (agreed_operandText operand hoperandFree hoperand).bind fun text =>
      (agreed_operandTexts others hothersFree hothers).bind fun texts => .pure (text :: texts)

end

theorem agreed_evaluate {expr : Expr} (hfree : expr.EvalFree)
    (h : AllAgree scenes base (expr.Reads ·)) :
    Agreed scenes fun i => evaluate (evals i) expr := by
  induction expr with
  | or left right ihleft ihright =>
      refine (ihleft hfree.1 (h.mono fun _ => .inl)).bind fun _ => ?_
      exact (ihright hfree.2 (h.mono fun _ => .inr)).bind fun _ => .pure _
  | and left right ihleft ihright =>
      refine (ihleft hfree.1 (h.mono fun _ => .inl)).bind fun _ => ?_
      exact (ihright hfree.2 (h.mono fun _ => .inr)).bind fun _ => .pure _
  | not inner ih => exact (ih hfree h).bind fun _ => .pure _
  | relation relation left right ihleft ihright =>
      refine (ihleft hfree.1 (h.mono fun _ => .inl)).bind fun _ => ?_
      exact (ihright hfree.2 (h.mono fun _ => .inr)).bind fun _ => .pure _
  | operand operand => exact (agreed_operandText operand hfree h).bind fun _ => .pure _

theorem agreed_evaluateNumber {expr : Expr} (hfree : expr.EvalFree)
    (h : AllAgree scenes base (expr.Reads ·)) :
    Agreed scenes fun i => evaluateNumber (evals i) expr := by
  refine (agreed_evaluate hfree h).bind fun text => ?_
  cases singleNumber? text with
  | some value => exact .pure value
  | none =>
      let failure (activation : Activation) : Diagnostic :=
        { error := .binding activation.definition.name (.notANumber text) }
      have hfailure (i : ι) : failure (scenes i).activation = failure base := by
        simp only [failure, (h i).name]
      exact .throw failure hfailure

theorem agreed_loopBounds {first last : Expr} {step : Option Expr} (hfirstFree : first.EvalFree)
    (hlastFree : last.EvalFree) (hstepFree : ∀ expr ∈ step, expr.EvalFree)
    (hfirst : AllAgree scenes base (first.Reads ·)) (hlast : AllAgree scenes base (last.Reads ·))
    (hstep : ∀ expr ∈ step, AllAgree scenes base (expr.Reads ·)) :
    Agreed scenes fun i => loopBounds (evals i) first last step := by
  refine (agreed_evaluateNumber hfirstFree hfirst).bind fun first => ?_
  refine (agreed_evaluateNumber hlastFree hlast).bind fun last => ?_
  have hloopStep : Agreed scenes fun i => loopStep (evals i) first last step := by
    cases step with
    | some expr => exact agreed_evaluateNumber (hstepFree expr rfl) (hstep expr rfl)
    | none => exact .pure _
  refine hloopStep.bind fun step => ?_
  have hnonzero : Agreed scenes fun _ => nonzeroStep step := by
    unfold nonzeroStep
    cases step == 0.0 with
    | true =>
        let failure (activation : Activation) : Diagnostic :=
          { error := .binding activation.definition.name .zeroStep }
        have hfailure (i : ι) : failure (scenes i).activation = failure base := by
          simp only [failure, (hfirst i).name]
        exact .throw failure hfailure
    | false => exact .pure step
  exact hnonzero.bind fun step => .pure (first, last, step)

end Agreement

/-! ### Nothing but readings -/

/-- Where there is the same to read, all operands stand for the same. -/
theorem agrees_of_reading {first second : Activation} (h : second.reading = first.reading)
    (read : Operand → Prop) : Agrees read first second where
  name := congrArg Reading.name h
  token {t} _ := by
    have hvalue : second.locals.get? t.text = first.locals.get? t.text :=
      congrFun (congrArg Reading.value? h) t.text
    rw [Activation.tokenText, Activation.tokenText, hvalue]
  parameter {index} _ := by
    have hbindings : second.bindings = first.bindings := congrArg Reading.bindings h
    rw [argumentText, argumentText, hbindings]
  allPositionals _ := by
    have hbindings : second.bindings = first.bindings := congrArg Reading.bindings h
    have hparameters : second.definition.parameters = first.definition.parameters :=
      congrArg Reading.parameters h
    rw [positionalsText, positionalsText, Activation.positionals, Activation.positionals,
      hbindings, hparameters]

/-- Computations that agree wherever there is the same to read have an answer that is a function of
what there is to read. -/
theorem exists_answer {α : Type} [Inhabited α] {computation : Evaluator → Eval α}
    (h : ∀ {ι : Type} {scenes : ι → Scene} {evals : ι → Evaluator} {base : Activation},
      (∀ read, AllAgree scenes base read) → Agreed scenes fun i => computation (evals i)) :
    ∃ answer : Reading → Except Diagnostic α, ∀ eval scene,
      computation eval scene = answerAt (answer scene.activation.reading) scene := by
  have hreading (reading : Reading) : ∃ answer, ∀ eval scene,
      scene.activation.reading = reading → computation eval scene = answerAt answer scene := by
    by_cases hbase : ∃ base : Activation, base.reading = reading
    · obtain ⟨base, rfl⟩ := hbase
      -- All scenes with this reading, each under every evaluator, are one family.
      let ι := Evaluator × { scene : Scene // scene.activation.reading = base.reading }
      have hagreed : Agreed (fun i : ι => i.2.val) fun i => computation i.1 :=
        h fun read i => agrees_of_reading i.2.property read
      obtain ⟨answer, hanswer⟩ := hagreed
      exact ⟨answer, fun eval scene hscene => hanswer (eval, ⟨scene, hscene⟩)⟩
    · exact ⟨.ok default, fun _ scene hscene => absurd ⟨scene.activation, hscene⟩ hbase⟩
  obtain ⟨answer, hanswer⟩ := Classical.skolem.mp hreading
  exact ⟨answer, fun eval scene => hanswer scene.activation.reading eval scene rfl⟩

/-- An expression without an `!EVAL` has no effect, and nothing but readings has an effect on it.
Whether it has a value, or a number as its value, or fails: the scene stays as it is, with the log
and all of the activation, and the result is a function of what there is to read in the activation.
The evaluator, with the macros, the settings and the levels of `!EVAL` in it, does not matter, nor
do the log, the depth and whether calls are expanded. -/
theorem expressions_without_eval_only_read {expr : Expr} (hfree : expr.EvalFree) :
    (∃ answer : Reading → Except Diagnostic String, ∀ eval scene,
      evaluate eval expr scene = answerAt (answer scene.activation.reading) scene) ∧
    ∃ answer : Reading → Except Diagnostic Float, ∀ eval scene,
      evaluateNumber eval expr scene = answerAt (answer scene.activation.reading) scene :=
  ⟨exists_answer fun h => agreed_evaluate hfree (h _),
    exists_answer fun h => agreed_evaluateNumber hfree (h _)⟩

/-- `!LENGTH(!BLANKS(!n))` -/
def lengthOfBlanks : Expr :=
  .operand (.call .length [.call .blanks [.token ⟨.identifier, "!n", .point 0⟩] (.point 4)]
    (.point 2))

/-- A call of a macro without parameters in which `!n` is 3. -/
def countingToThree : Scene where
  activation :=
    { definition := ⟨"m", .point 0, [], []⟩
      bindings := []
      depth := 1
      locals := { values := [("!N", "3")] } }
  log := {}

/-- The same call before `!n` is set. -/
def countingToNothing : Scene where
  activation := { definition := ⟨"m", .point 0, [], []⟩, bindings := [], depth := 1 }
  log := {}

/-- The value of a variable decides between a result and a failure, and the inner function fails
without a trace. -/
theorem lengthOfBlanks_only_reads :
    lengthOfBlanks.EvalFree ∧
      (∃ answer : Reading → Except Diagnostic String,
        (∀ eval scene, evaluate eval lengthOfBlanks scene =
          answerAt (answer scene.activation.reading) scene) ∧
        answer countingToThree.activation.reading = .ok "3" ∧
        answer countingToNothing.activation.reading = .error
          { error := .call .blanks (.notNonNegative "!n"), span := some (.point 4) }) ∧
      ∃ answer : Reading → Except Diagnostic Float, ∀ eval scene,
        evaluateNumber eval lengthOfBlanks scene =
          answerAt (answer scene.activation.reading) scene := by
  have hfree : lengthOfBlanks.EvalFree := by
    refine .call (by decide) (List.forall_mem_singleton.mpr (.call (by decide) ?_))
    exact List.forall_mem_singleton.mpr (.token _)
  obtain ⟨⟨answer, hanswer⟩, hnumber⟩ := expressions_without_eval_only_read hfree
  let eval : Evaluator := fun text _ scene => (text, scene)
  refine ⟨hfree, ⟨answer, hanswer, ?_, ?_⟩, hnumber⟩
  · exact answerAt_injective countingToThree (hanswer eval countingToThree).symm
  · exact answerAt_injective countingToNothing (hanswer eval countingToNothing).symm

end Expansion

end CommandMacros

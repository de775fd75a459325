import CommandMacros.Proofs.Expansion.Continuation
import CommandMacros.Proofs.Expansion.Markers
import CommandMacros.Proofs.Expansion.Readings

/-!
Arguments that are only passed on. Where a parameter is referred to in the text of a body but in no
expression, the body gives the same whatever is bound to the parameter, with holes in it that the
bound tokens fill as they are. Nothing in an argument is then taken for a directive, a variable, a
function or a reference.
-/

namespace CommandMacros

/-- The operand stands in an expression of the directive, or of one inside it. -/
inductive Directive.Reads (leaf : Operand) : Directive → Prop
  | call {function : Builtin} {arguments : List Operand} {span : Span}
      (h : leaf.StandsIn (.call function arguments span)) :
      Reads leaf (.call function arguments span)
  | condition {condition : Expr} {thenBranch : List Directive}
      {elseBranch : Option (List Directive)} (h : condition.Reads leaf) :
      Reads leaf (.cond condition thenBranch elseBranch)
  | thenBranch {condition : Expr} {thenBranch : List Directive}
      {elseBranch : Option (List Directive)} {d : Directive} (hd : d ∈ thenBranch)
      (h : Reads leaf d) : Reads leaf (.cond condition thenBranch elseBranch)
  | elseBranch {condition : Expr} {thenBranch branch : List Directive} {d : Directive}
      (hd : d ∈ branch) (h : Reads leaf d) : Reads leaf (.cond condition thenBranch (some branch))
  | first {variableName : String} {first last : Expr} {step : Option Expr}
      {body : List Directive} {span : Span} (h : first.Reads leaf) :
      Reads leaf (.doRange variableName first last step body span)
  | last {variableName : String} {first last : Expr} {step : Option Expr}
      {body : List Directive} {span : Span} (h : last.Reads leaf) :
      Reads leaf (.doRange variableName first last step body span)
  | step {variableName : String} {first last step : Expr} {body : List Directive} {span : Span}
      (h : step.Reads leaf) : Reads leaf (.doRange variableName first last (some step) body span)
  | doRange {variableName : String} {first last : Expr} {step : Option Expr}
      {body : List Directive} {span : Span} {d : Directive} (hd : d ∈ body) (h : Reads leaf d) :
      Reads leaf (.doRange variableName first last step body span)
  | list {variableName : String} {list : Expr} {body : List Directive} {span : Span}
      (h : list.Reads leaf) : Reads leaf (.doIn variableName list body span)
  | doIn {variableName : String} {list : Expr} {body : List Directive} {span : Span}
      {d : Directive} (hd : d ∈ body) (h : Reads leaf d) :
      Reads leaf (.doIn variableName list body span)
  | value {variableName : String} {value : Expr} (h : value.Reads leaf) :
      Reads leaf (.assign variableName value)

/-- The directive refers to the parameter in its text only, and expands no text. A positional
parameter is also one of those that `!*` refers to. -/
structure Directive.PassesOn (definition : Definition) (index : Nat) (d : Directive) : Prop where
  evalFree : d.EvalFree
  parameter : ¬d.Reads (.parameter index)
  allPositionals : (∃ p ∈ definition.parameters[index]?, p.isPositional = true) →
    ¬d.Reads .allPositionals

theorem Directive.PassesOn.part {definition : Definition} {index : Nat} {d part : Directive}
    (h : d.PassesOn definition index) (hfree : part.EvalFree)
    (hreads : ∀ leaf, part.Reads leaf → d.Reads leaf) : part.PassesOn definition index where
  evalFree := hfree
  parameter hpart := h.parameter (hreads _ hpart)
  allPositionals hp hpart := h.allPositionals hp (hreads _ hpart)

/-- The activation with other tokens bound to the parameter. -/
def Activation.rebind (activation : Activation) (index : Nat) (tokens : List Token) : Activation :=
  { activation with
    bindings := activation.bindings.modify index fun binding => { binding with tokens } }

def Scene.rebind (scene : Scene) (index : Nat) (tokens : List Token) : Scene :=
  { scene with activation := scene.activation.rebind index tokens }

namespace Expansion

/-! ### Arguments -/

section Arguments

/-- The values of the positional parameters. -/
def positionalValues (parameters : List Parameter) (bindings : List Binding) : List Binding :=
  ((parameters.zip bindings).filter (·.1.isPositional)).map (·.2)

theorem positionalValues_cons (p : Parameter) (parameters : List Parameter) (binding : Binding)
    (bindings : List Binding) :
    positionalValues (p :: parameters) (binding :: bindings) =
      (if p.isPositional then [binding] else []) ++ positionalValues parameters bindings := by
  unfold positionalValues
  rw [List.zip_cons_cons, List.filter_cons]
  split <;> rfl

/-- A parameter that is positional has its value in one place among those of the positional ones,
and any other parameter has none there. -/
theorem positionalValues_modify (parameters : List Parameter) (bindings : List Binding)
    (index : Nat) :
    (∀ f, positionalValues parameters (bindings.modify index f) =
        positionalValues parameters bindings) ∨
      (∃ p ∈ parameters[index]?, p.isPositional = true) ∧
        ∃ front binding back, ∀ f,
          positionalValues parameters (bindings.modify index f) = front ++ f binding :: back := by
  induction bindings generalizing parameters index with
  | nil => exact .inl fun f => by rw [List.modify_nil]
  | cons binding bindings ih =>
      cases parameters with
      | nil => exact .inl fun f => rfl
      | cons p parameters =>
          cases index with
          | zero =>
              simp only [List.modify_zero_cons, positionalValues_cons]
              cases hp : p.isPositional with
              | true => exact .inr ⟨⟨p, rfl, hp⟩, [], binding, _, fun f => rfl⟩
              | false => exact .inl fun f => rfl
          | succ index =>
              -- The first value is the same in both, whether it is a positional one or not.
              simp only [List.modify_succ_cons, positionalValues_cons]
              rcases ih parameters index with hsame | ⟨hp, front, other, back, hother⟩
              · exact .inl fun f => by rw [hsame f]
              · let own := if p.isPositional then [binding] else []
                refine .inr ⟨hp, own ++ front, other, back, fun f => ?_⟩
                rw [hother f, List.append_assoc]

variable {activation : Activation} {index : Nat}

/-- What is bound to a parameter stands in one place among the positional values, if the parameter
is positional, and nowhere among them otherwise. -/
theorem positionals_rebind (activation : Activation) (index : Nat) :
    (∀ tokens, (activation.rebind index tokens).positionals = activation.positionals) ∨
      (∃ p ∈ activation.definition.parameters[index]?, p.isPositional = true) ∧
        ∃ (front : List Binding) (binding : Binding) (back : List Binding), ∀ tokens,
          (activation.rebind index tokens).positionals =
            front ++ { binding with tokens } :: back := by
  rcases positionalValues_modify activation.definition.parameters activation.bindings index with
    hsame | ⟨hp, front, binding, back, hother⟩
  · exact .inl fun tokens => hsame _
  · exact .inr ⟨hp, front, binding, back, fun tokens => hother _⟩

theorem getElem?_rebind (scene : Scene) (index other : Nat) (tokens : List Token) :
    (scene.rebind index tokens).activation.bindings[other]? =
      scene.activation.bindings[other]?.map fun binding =>
        if index = other then { binding with tokens } else binding :=
  List.getElem?_modify ..

theorem argumentText_rebind {other : Nat} (h : other ≠ index) (tokens : List Token) :
    argumentText (activation.rebind index tokens) other = argumentText activation other := by
  unfold argumentText Activation.rebind
  rw [List.getElem?_modify_ne _ _ h.symm]

/-- What does not refer to the parameter stands for the same, whatever is bound to it. -/
theorem allAgree_rebind {definition : Definition} {d : Directive} (h : d.PassesOn definition index)
    {scene : Scene} (hdefinition : scene.activation.definition = definition) :
    AllAgree (scene.rebind index) scene.activation (d.Reads ·) := by
  subst hdefinition
  intro tokens
  refine ⟨rfl, fun _ => rfl, fun {other} hother => ?_, fun hall => ?_⟩
  · refine argumentText_rebind ?_ tokens
    rintro rfl
    exact h.parameter hother
  · rcases positionals_rebind scene.activation index with hsame | ⟨hp, -⟩
    · exact congrArg (fun bindings => String.intercalate " " (bindings.map fun b =>
        Token.render b.tokens)) (hsame tokens)
    · exact absurd hall (h.allPositionals hp)

end Arguments

/-! ### Tokens with holes -/

/-- A token that is given, or the place of the tokens bound to a parameter, with the flag that they
get there. -/
inductive Slot where
  | token (e : Emitted)
  | hole (expandable : Bool)
deriving DecidableEq

/-- The tokens in the slot once these are bound. -/
def Slot.fill (tokens : List Token) : Slot → List Emitted
  | .token e => [e]
  | .hole expandable => Emitted.ofTokens expandable tokens

theorem flatMap_fill_token (bound : List Token) (tokens : List Emitted) :
    (tokens.map Slot.token).flatMap (Slot.fill bound) = tokens := by
  rw [List.flatMap_map]
  exact List.flatMap_singleton' tokens

/-- What directives give, but for the tokens bound to a parameter. -/
structure Template where
  slots : List Slot
  broken : Bool
  scene : Scene

namespace Template

def fill (template : Template) (index : Nat) (tokens : List Token) : Emission :=
  ⟨template.slots.flatMap (Slot.fill tokens), template.broken, template.scene.rebind index tokens⟩

/-- Tokens that are given. -/
def ofTokens (tokens : List Emitted) (scene : Scene) : Template :=
  ⟨tokens.map .token, false, scene⟩

/-- Puts slots in front. -/
def after (template : Template) (slots : List Slot) : Template :=
  { template with slots := slots ++ template.slots }

theorem fill_ofTokens (tokens : List Emitted) (scene : Scene) (index : Nat) (bound : List Token) :
    (ofTokens tokens scene).fill index bound = .ofTokens tokens (scene.rebind index bound) :=
  congrArg (Emission.ofTokens · _) (flatMap_fill_token bound tokens)

theorem fill_after (template : Template) (slots : List Slot) (index : Nat) (tokens : List Token) :
    (template.after slots).fill index tokens =
      (template.fill index tokens).after (slots.flatMap (Slot.fill tokens)) := by
  simp only [fill, after, Emission.after, List.flatMap_append]

end Template

/-- In activations of the macro, the run gives what a template gives, which is one for all tokens
that may be bound to the parameter. -/
def Templated (definition : Definition) (index : Nat) (run : Scene → Emission) : Prop :=
  ∀ scene : Scene, scene.activation.definition = definition →
    ∃ template : Template, scene.Continues template.scene ∧
      ∀ tokens, run (scene.rebind index tokens) = template.fill index tokens

namespace Templated

variable {α : Type} {definition : Definition} {index : Nat} {run next body : Scene → Emission}

/-- A run that gives tokens and changes the scene, whatever is bound. -/
theorem ofTokens (tokens : Scene → List Emitted) (after : Scene → Scene)
    (hafter : ∀ scene : Scene, scene.Continues (after scene))
    (hrun : ∀ scene bound, run (scene.rebind index bound) =
      .ofTokens (tokens scene) ((after scene).rebind index bound)) :
    Templated definition index run := by
  refine fun scene _ => ⟨.ofTokens (tokens scene) (after scene), hafter scene, fun bound => ?_⟩
  rw [Template.fill_ofTokens, hrun]

theorem silent : Templated definition index Emission.silent :=
  .ofTokens (fun _ => []) id .refl fun _ _ => rfl

theorem orFail {computation : Eval α} {next : α → Scene → Emission} {fallback : Span}
    (hcomputation : ∀ scene : Scene, scene.activation.definition = definition →
      Agreed (scene.rebind index) fun _ => computation)
    (hnext : ∀ value, Templated definition index (next value)) :
    Templated definition index (orFail computation fallback next) := by
  intro scene hdefinition
  unfold Expansion.orFail
  -- The answer is one for all that may be bound, so the same way is taken.
  obtain ⟨answer, hanswer⟩ := hcomputation scene hdefinition
  simp only [hanswer]
  cases answer with
  | ok value => exact hnext value scene hdefinition
  | error d =>
      let marker := Token.errorMarker d.message (d.span.getD fallback)
      exact ⟨.ofTokens (Emitted.inert [marker]) (scene.report d), .report scene d, fun _ => rfl⟩

theorem andThen (h : Templated definition index run) (hnext : Templated definition index next) :
    Templated definition index fun scene => (run scene).andThen next := by
  intro scene hdefinition
  obtain ⟨first, hfirst, hrun⟩ := h scene hdefinition
  simp only [hrun]
  cases hbroken : first.broken with
  | true => exact ⟨first, hfirst, fun _ => Emission.andThen_of_broken hbroken next⟩
  | false =>
      obtain ⟨second, hsecond, hnext⟩ := hnext first.scene (hfirst.definition.trans hdefinition)
      refine ⟨second.after first.slots, hfirst.trans hsecond, fun tokens => ?_⟩
      rw [Template.fill_after, ← hnext]
      exact Emission.andThen_of_not_broken hbroken next

theorem within (h : Templated definition index run) (name : String) :
    Templated definition index (within name run) := by
  intro scene hdefinition
  obtain ⟨template, hscene, hrun⟩ := h (scene.enter name) hdefinition
  refine ⟨{ template with scene := template.scene.leave }, hscene.leave, fun tokens => ?_⟩
  exact congrArg (fun emission => { emission with scene := emission.scene.leave }) (hrun tokens)

theorem iteration (h : Templated definition index body) (variableName value : String) :
    Templated definition index (iteration body variableName value) := by
  intro scene hdefinition
  obtain ⟨template, hscene, hrun⟩ := h (scene.setVariable variableName value) hdefinition
  exact ⟨template, (Scene.Continues.setVariable ..).trans hscene, hrun⟩

theorem passes (h : Templated definition index body) (variableName : String)
    (values : List String) : Templated definition index (passes body variableName values) := by
  induction values with
  | nil => exact silent
  | cons value values ih => exact (h.iteration variableName value).andThen ih

theorem endLoop (h : Templated definition index run) (leftOver : Prop) [Decidable leftOver]
    (warning : Diagnostic) :
    Templated definition index fun scene => (run scene).endLoop leftOver warning := by
  intro scene hdefinition
  obtain ⟨template, hscene, hrun⟩ := h scene hdefinition
  simp only [hrun]
  by_cases hleft : template.broken = false ∧ leftOver
  · exact ⟨⟨template.slots, false, template.scene.report warning⟩, hscene.trans (.report _ _),
      fun _ => if_pos hleft⟩
  · exact ⟨⟨template.slots, false, template.scene⟩, hscene, fun _ => if_neg hleft⟩

end Templated

/-! ### Directives -/

section Directives

variable {env : Environment} {eval : Evaluator} {definition : Definition} {index : Nat}

theorem templated_iterateRange {body : Scene → Emission} (h : Templated definition index body)
    (variableName : String) (last step : Float) (span : Span) (remaining : Nat) (first : Float) :
    Templated definition index
      (iterateRange env body variableName last step span remaining first) := by
  rw [funext (iterateRange_eq last step remaining first)]
  exact (h.passes variableName _).endLoop _ _

theorem templated_iterateList {body : Scene → Emission} (h : Templated definition index body)
    (variableName : String) (span : Span) (remaining : Nat) (values : List String) :
    Templated definition index (iterateList env body variableName span remaining values) := by
  rw [funext (iterateList_eq remaining values)]
  exact (h.passes variableName _).endLoop _ _

/-- A reference to the parameter is a hole, open to calls if both the value and the text are. -/
theorem substituteOne_parameter_rebind {scene : Scene} {binding : Binding}
    (h : binding ∈ scene.activation.bindings[index]?) (tokens : List Token) :
    substituteOne env eval (.parameter index) (scene.rebind index tokens) =
      .ofTokens (Slot.fill tokens (.hole (binding.expandable && textExpandable env scene)))
        (scene.rebind index tokens) := by
  rw [substituteOne, getElem?_rebind, h, Option.map_some, if_pos rfl]
  rfl

theorem templated_parameter (other : Nat) :
    Templated definition index (substituteOne env eval (.parameter other)) := by
  intro scene _
  cases hbinding : scene.activation.bindings[other]? with
  | none =>
      refine ⟨.ofTokens [] scene, .refl scene, fun tokens => ?_⟩
      rw [substituteOne, getElem?_rebind, hbinding]
      rfl
  | some binding =>
      by_cases hother : index = other
      · subst hother
        let hole := Slot.hole (binding.expandable && textExpandable env scene)
        refine ⟨⟨[hole], false, scene⟩, .refl scene, fun tokens => ?_⟩
        rw [substituteOne_parameter_rebind hbinding, Template.fill, List.flatMap_singleton]
        rfl
      · refine ⟨.ofTokens (bindingTokens env scene binding) scene, .refl scene, fun tokens => ?_⟩
        rw [Template.fill_ofTokens, substituteOne, getElem?_rebind, hbinding, Option.map_some,
          if_neg hother]
        rfl

/-- Among the positional values, those of the parameter leave the hole in their place. -/
theorem templated_allPositionals :
    Templated definition index (substituteOne env eval .allPositionals) := by
  intro scene _
  let given (bindings : List Binding) : List Emitted := bindings.flatMap (bindingTokens env scene)
  have hrun (tokens : List Token) :
      substituteOne env eval .allPositionals (scene.rebind index tokens) =
        .ofTokens (given (scene.activation.rebind index tokens).positionals)
          (scene.rebind index tokens) := rfl
  simp only [hrun]
  rcases positionals_rebind scene.activation index with hsame | ⟨-, front, binding, back, hother⟩
  · refine ⟨.ofTokens (given scene.activation.positionals) scene, .refl scene, fun tokens => ?_⟩
    rw [Template.fill_ofTokens, hsame]
  · let hole := Slot.hole (binding.expandable && textExpandable env scene)
    let slots := (given front).map .token ++ hole :: (given back).map .token
    refine ⟨⟨slots, false, scene⟩, .refl scene, fun tokens => ?_⟩
    rw [hother, Template.fill, List.flatMap_append, List.flatMap_cons, flatMap_fill_token,
      flatMap_fill_token]
    exact congrArg (Emission.ofTokens · _) List.flatMap_append

mutual

/-- One directive, by the form of it. -/
theorem templated_substituteOne (d : Directive) (h : d.PassesOn definition index) :
    Templated definition index (substituteOne env eval d) := by
  have hagree : ∀ scene : Scene, scene.activation.definition = definition →
      AllAgree (scene.rebind index) scene.activation (d.Reads ·) :=
    fun _ => allAgree_rebind h
  match d, h.evalFree with
  | .literal tokens, _ =>
    exact .ofTokens (fun scene => tokens.flatMap (literalTokens env scene)) id .refl fun _ _ => rfl
  | .parameter other, _ => exact templated_parameter other
  | .allPositionals, _ => exact templated_allPositionals
  | .call function arguments span, .call hcall =>
    refine .orFail (fun scene hscene => ?_) fun text => ?_
    · exact agreed_operandText (.call function arguments span) hcall
        ((hagree scene hscene).mono fun _ => .call)
    · exact .ofTokens (fun _ => Emitted.inert (tokenizeAt text span)) id .refl fun _ _ => rfl
  | .cond condition thenBranch elseBranch, .cond hcondition hthen helse =>
    rw [funext (substituteOne_cond env eval condition thenBranch elseBranch)]
    refine .orFail (fun scene hscene => ?_) fun value => ?_
    · exact agreed_evaluate hcondition ((hagree scene hscene).mono fun _ => .condition)
    cases truth value with
    | true =>
        refine (templated_substitute thenBranch fun d hd => ?_).within "!IF"
        exact h.part (hthen d hd) fun _ => .thenBranch hd
    | false =>
        match elseBranch with
        | some branch =>
          refine (templated_substitute branch fun d hd => ?_).within "!IF"
          exact h.part (helse branch rfl d hd) fun _ => .elseBranch hd
        | none => exact .silent
  | .doRange variableName first last step body span, .doRange hfirst hlast hstep hbody =>
    have hrun : Templated definition index (substitute env eval body) :=
      templated_substitute body fun d hd => h.part (hbody d hd) fun _ => .doRange hd
    refine Templated.within (.orFail (fun scene hscene => ?_) fun bounds => ?_) "!DO"
    · have hread := hagree scene hscene
      refine agreed_loopBounds hfirst hlast hstep (hread.mono fun _ => .first)
        (hread.mono fun _ => .last) ?_
      rintro _ rfl
      exact hread.mono fun _ => .step
    · exact templated_iterateRange hrun variableName _ _ span _ _
  | .doIn variableName list body span, .doIn hlist hbody =>
    have hrun : Templated definition index (substitute env eval body) :=
      templated_substitute body fun d hd => h.part (hbody d hd) fun _ => .doIn hd
    refine Templated.within (.orFail (fun scene hscene => ?_) fun text => ?_) "!DO"
    · exact agreed_evaluate hlist ((hagree scene hscene).mono fun _ => .list)
    · exact templated_iterateList hrun variableName span _ _
  | .assign variableName value, .assign hvalue =>
    refine .orFail (fun scene hscene => ?_) fun text => ?_
    · exact agreed_evaluate hvalue ((hagree scene hscene).mono fun _ => .value)
    · exact .ofTokens (fun _ => []) _ (.setVariable · variableName text) fun _ _ => rfl
  | .setExpand enabled, _ =>
    exact .ofTokens (fun _ => []) _ (.setExpand · enabled) fun _ _ => rfl
  | .breakLoop, _ => exact fun scene _ => ⟨⟨[], true, scene⟩, .refl scene, fun _ => rfl⟩
  | .invalid error span, _ =>
    let failure : Diagnostic := { error, span := some span }
    exact .ofTokens (fun _ => Emitted.inert [.errorMarker failure.message span]) _
      (.report · failure) fun _ _ => rfl

theorem templated_substitute (tree : List Directive)
    (h : ∀ d ∈ tree, d.PassesOn definition index) :
    Templated definition index (substitute env eval tree) := by
  match tree with
  | [] => exact .silent
  | d :: others =>
    obtain ⟨hd, hothers⟩ := List.forall_mem_cons.mp h
    exact (templated_substituteOne d hd).andThen (templated_substitute others hothers)

end

end Directives

/-- Arguments are passed on as they are. Where a tree without an `!EVAL` refers to a parameter in
its text only, there is one list of tokens and holes and one scene afterwards for all that may be
bound to the parameter: the tree gives the list with the bound tokens in the holes, each with the
flag of its hole, and leaves that scene. A reference to the parameter is such a hole. -/
theorem arguments_passed_verbatim (env : Environment) (eval : Evaluator) {tree : List Directive}
    {index : Nat} {scene : Scene}
    (h : ∀ d ∈ tree, d.PassesOn scene.activation.definition index) :
    (∃ (slots : List Slot) (broken : Bool) (after : Scene), scene.Continues after ∧
      ∀ tokens, substitute env eval tree (scene.rebind index tokens) =
        ⟨slots.flatMap (Slot.fill tokens), broken, after.rebind index tokens⟩) ∧
    ∀ binding ∈ scene.activation.bindings[index]?,
      let hole := Slot.hole (binding.expandable && textExpandable env scene)
      ∀ tokens, substituteOne env eval (.parameter index) (scene.rebind index tokens) =
        .ofTokens (hole.fill tokens) (scene.rebind index tokens) := by
  refine ⟨?_, fun binding hbinding => substituteOne_parameter_rebind hbinding⟩
  obtain ⟨template, hscene, hrun⟩ := templated_substitute tree h scene rfl
  exact ⟨template.slots, template.broken, template.scene, hscene, hrun⟩

/-- The argument names the variable that the body has set and a directive, and is given as it is,
first open to calls and then inert. -/
theorem variable_name_passed_on :
    let env : Environment := ⟨⟨[]⟩, {}⟩
    let given : Parameter := { role := .positional, capture := .commandEnd }
    let scene : Scene :=
      ⟨{ definition := ⟨"m", .point 0, [given], []⟩, bindings := [⟨[], true⟩], depth := 1 }, {}⟩
    let tree : List Directive :=
      [.assign "!x" (.operand (.token (word "a"))), .literal [word "!x"], .parameter 0,
        .setExpand false, .allPositionals]
    let argument := [word "!x", word "!BREAK"]
    (∀ d ∈ tree, d.PassesOn scene.activation.definition 0) ∧
      (substitute env (evaluator env) tree (scene.rebind 0 argument)).tokens =
        Emitted.inert [word "a"] ++ Emitted.ofTokens true argument ++ Emitted.inert argument ∧
      (∃ (slots : List Slot) (broken : Bool) (after : Scene), scene.Continues after ∧
        ∀ tokens, substitute env (evaluator env) tree (scene.rebind 0 tokens) =
          ⟨slots.flatMap (Slot.fill tokens), broken, after.rebind 0 tokens⟩) ∧
      ∀ tokens, substituteOne env (evaluator env) (.parameter 0) (scene.rebind 0 tokens) =
        .ofTokens (Emitted.ofTokens true tokens) (scene.rebind 0 tokens) := by
  intro env given scene tree argument
  have hpasses : ∀ d ∈ tree, d.PassesOn scene.activation.definition 0 := by
    have hvalue (leaf : Operand) (hleaf : leaf ≠ .token (word "a")) :
        ¬(Directive.assign "!x" (.operand (.token (word "a")))).Reads leaf := by
      intro hreads
      cases hreads with
      | value hreads =>
          cases hreads
          exact hleaf rfl
    intro d hd
    simp only [tree, List.mem_cons, List.not_mem_nil, or_false] at hd
    obtain rfl | rfl | rfl | rfl | rfl := hd
    · exact ⟨.assign (.token _), hvalue _ nofun, fun _ => hvalue _ nofun⟩
    · exact ⟨.literal _, nofun, fun _ => nofun⟩
    · exact ⟨.parameter 0, nofun, fun _ => nofun⟩
    · exact ⟨.setExpand false, nofun, fun _ => nofun⟩
    · exact ⟨.allPositionals, nofun, fun _ => nofun⟩
  obtain ⟨htree, hreference⟩ := arguments_passed_verbatim env (evaluator env) hpasses
  refine ⟨hpasses, ?_, htree, hreference _ rfl⟩
  decide +kernel

end Expansion

end CommandMacros

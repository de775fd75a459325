import CommandMacros.Proofs.Expansion.FrameStack
import CommandMacros.Proofs.Unplaced.Binding

/-!
Expanding without places. An expansion gives the same tokens, diagnostics and echoes up to places
wherever its tokens stand and whatever the places in its macros are.
-/

namespace CommandMacros

/-- The definitions of the table without their places. -/
def Table.unplaced (table : Table) : Table :=
  ⟨table.entries.map fun entry => (entry.1, entry.2.unplaced)⟩

def Activation.unplaced (activation : Activation) : Activation :=
  { activation with
    definition := activation.definition.unplaced
    bindings := activation.bindings.map Binding.unplaced }

def Log.unplaced (log : Log) : Log :=
  { log with diagnostics := log.diagnostics.map Diagnostic.unplaced }

def Scene.unplaced (scene : Scene) : Scene :=
  ⟨scene.activation.unplaced, scene.log.unplaced⟩

def Environment.unplaced (env : Environment) : Environment :=
  { env with table := env.table.unplaced }

/-! ### Texts of tokens -/

namespace Token

theorem pieces_unplaced (tokens : List Token) : pieces (tokens.map unplaced) = pieces tokens := by
  fun_induction pieces tokens with
  | case1 => rfl
  | case2 t => rfl
  | case3 t u rest hspace ih =>
      change (if needsSpace t u then _ else _) = _
      rw [if_pos hspace]
      exact congrArg (t.text :: " " :: ·) ih
  | case4 t u rest hspace ih =>
      change (if needsSpace t u then _ else _) = _
      rw [if_neg hspace]
      exact congrArg (t.text :: ·) ih

theorem render_unplaced (tokens : List Token) : render (tokens.map unplaced) = render tokens := by
  rw [render, pieces_unplaced, render]

end Token

theorem tokenizeAt_unplaced (text : String) (span : Span) :
    (tokenizeAt text span).map Token.unplaced = tokenizeAt text (.point 0) := by
  rw [tokenizeAt, List.map_map]
  rfl

/-! ### Logs and scenes -/

namespace Log

variable (log : Log)

theorem report_unplaced (d : Diagnostic) :
    log.unplaced.report d.unplaced = (log.report d).unplaced := by
  rw [report, report, unplaced, unplaced, Array.map_push]
  rfl

theorem reports_unplaced (diagnostics : List Diagnostic) :
    (diagnostics.map Diagnostic.unplaced).foldl report log.unplaced =
      (diagnostics.foldl report log).unplaced := by
  induction diagnostics generalizing log with
  | nil => rfl
  | cons d others ih =>
      rw [List.map_cons, List.foldl_cons, List.foldl_cons, report_unplaced]
      exact ih (log.report d)

theorem echo_unplaced (name : String) (expansion : List Token) :
    log.unplaced.echo name (expansion.map Token.unplaced) = (log.echo name expansion).unplaced := by
  rw [echo, Token.render_unplaced]
  rfl

end Log

theorem Scene.report_unplaced (scene : Scene) (d : Diagnostic) :
    scene.unplaced.report d.unplaced = (scene.report d).unplaced :=
  congrArg (Scene.mk scene.activation.unplaced) (scene.log.report_unplaced d)

theorem Activation.positionals_unplaced (activation : Activation) :
    activation.unplaced.positionals = activation.positionals.map Binding.unplaced := by
  simp only [positionals, unplaced, Definition.unplaced, List.zip_map, List.filter_map,
    List.map_map]
  rfl

namespace Expansion

/-! ### Expressions -/

theorem argumentText_unplaced (activation : Activation) (index : Nat) :
    argumentText activation.unplaced index = argumentText activation index := by
  rw [argumentText, argumentText, Activation.unplaced, List.getElem?_map, Option.map_map]
  congr 2
  funext binding
  exact Token.render_unplaced binding.tokens

theorem positionalsText_unplaced (activation : Activation) :
    positionalsText activation.unplaced = positionalsText activation := by
  rw [positionalsText, positionalsText, Activation.positionals_unplaced, List.map_map]
  congr 2
  funext binding
  exact Token.render_unplaced binding.tokens

/-- The second evaluator does without places what the first does. -/
def SameTexts (eval other : Evaluator) : Prop :=
  ∀ text span scene, other text (.point 0) scene.unplaced =
    ((eval text span scene).1, (eval text span scene).2.unplaced)

/-- The outcome of a computation without places. -/
def unplacedResult {α : Type} :
    EStateM.Result Diagnostic Scene α → EStateM.Result Diagnostic Scene α
  | .ok value scene => .ok value scene.unplaced
  | .error d scene => .error d.unplaced scene.unplaced

/-- The second computation does without places what the first does. -/
def SameValues {α : Type} (computation other : Eval α) : Prop :=
  ∀ scene, other scene.unplaced = unplacedResult (computation scene)

namespace SameValues

variable {α β : Type}

theorem pure (value : α) : SameValues (Pure.pure value : Eval α) (Pure.pure value) :=
  fun _ => rfl

theorem bind {computation other : Eval α} {next otherNext : α → Eval β}
    (h : SameValues computation other)
    (hnext : ∀ value, SameValues (next value) (otherNext value)) :
    SameValues (computation >>= next) (other >>= otherNext) := by
  intro scene
  change EStateM.bind other otherNext scene.unplaced =
    unplacedResult (EStateM.bind computation next scene)
  rw [EStateM.bind, EStateM.bind, h scene]
  cases computation scene with
  | ok value after => exact hnext value after
  | error d after => rfl

end SameValues

variable {eval other : Evaluator}

theorem sameValues_applyBuiltin (heval : SameTexts eval other) (function : Builtin)
    (arguments : List String) (span : Span) :
    SameValues (applyBuiltin eval function arguments span)
      (applyBuiltin other function arguments (.point 0)) := by
  intro scene
  by_cases hfunction : function = .eval
  · subst hfunction
    let text := arguments[0]?.getD ""
    change EStateM.Result.ok (other text (.point 0) scene.unplaced).1
      (other text (.point 0) scene.unplaced).2 = _
    rw [heval text span scene]
    rfl
  · rw [applyBuiltin, applyBuiltin, Builtin.apply_of_ne_eval _ hfunction,
      Builtin.apply_of_ne_eval _ hfunction]
    cases function.compute arguments with
    | ok text => rfl
    | error cause => rfl

mutual

theorem sameValues_operandText (heval : SameTexts eval other) (operand : Operand) :
    SameValues (operandText eval operand) (operandText other operand.unplaced) := by
  match operand with
  | .token t => exact fun _ => rfl
  | .parameter index =>
    exact fun scene => congrArg (EStateM.Result.ok · scene.unplaced)
      (argumentText_unplaced scene.activation index)
  | .allPositionals =>
    exact fun scene => congrArg (EStateM.Result.ok · scene.unplaced)
      (positionalsText_unplaced scene.activation)
  | .call function arguments span =>
    exact (sameValues_operandTexts heval arguments).bind fun texts =>
      sameValues_applyBuiltin heval function texts span

theorem sameValues_operandTexts (heval : SameTexts eval other) (operands : List Operand) :
    SameValues (operandTexts eval operands)
      (operandTexts other (Operand.unplacedAll operands)) := by
  match operands with
  | [] => exact .pure []
  | operand :: others =>
    exact (sameValues_operandText heval operand).bind fun text =>
      (sameValues_operandTexts heval others).bind fun texts => .pure (text :: texts)

end

section Expressions

variable (heval : SameTexts eval other)

include heval

theorem sameValues_callText (function : Builtin) (arguments : List Operand) (span : Span) :
    SameValues (callText eval function arguments span)
      (callText other function (Operand.unplacedAll arguments) (.point 0)) :=
  (sameValues_operandTexts heval arguments).bind fun texts =>
    sameValues_applyBuiltin heval function texts span

theorem sameValues_evaluate (expr : Expr) :
    SameValues (evaluate eval expr) (evaluate other expr.unplaced) := by
  induction expr with
  | or left right hleft hright | and left right hleft hright
  | relation _ left right hleft hright =>
      exact hleft.bind fun _ => hright.bind fun _ => .pure _
  | not inner hinner => exact hinner.bind fun _ => .pure _
  | operand leaf => exact (sameValues_operandText heval leaf).bind fun _ => .pure _

theorem sameValues_evaluateNumber (expr : Expr) :
    SameValues (evaluateNumber eval expr) (evaluateNumber other expr.unplaced) := by
  refine (sameValues_evaluate heval expr).bind fun text => ?_
  cases singleNumber? text with
  | some value => exact .pure value
  | none => exact fun _ => rfl

theorem sameValues_loopBounds (first last : Expr) (step : Option Expr) :
    SameValues (loopBounds eval first last step)
      (loopBounds other first.unplaced last.unplaced (step.map Expr.unplaced)) := by
  refine (sameValues_evaluateNumber heval first).bind fun start => ?_
  refine (sameValues_evaluateNumber heval last).bind fun finish => ?_
  have hstep : SameValues (loopStep eval start finish step)
      (loopStep other start finish (step.map Expr.unplaced)) := by
    cases step with
    | none => exact .pure _
    | some step => exact sameValues_evaluateNumber heval step
  have hnonzero (step : Float) : SameValues (nonzeroStep step) (nonzeroStep step) := by
    intro scene
    rw [nonzeroStep, nonzeroStep]
    split <;> rfl
  exact hstep.bind fun step => (hnonzero step).bind fun step => .pure (start, finish, step)

end Expressions

/-! ### Directives -/

def Emission.unplaced (emission : Emission) : Emission :=
  ⟨emission.tokens.map Emitted.unplaced, emission.broken, emission.scene.unplaced⟩

/-- The second run does without places what the first does. -/
def SameRuns (run other : Scene → Emission) : Prop :=
  ∀ scene, other scene.unplaced = (run scene).unplaced

theorem Emitted.ofTokens_unplaced (expandable : Bool) (tokens : List Token) :
    (Emitted.ofTokens expandable tokens).map Emitted.unplaced =
      Emitted.ofTokens expandable (tokens.map Token.unplaced) := by
  rw [Emitted.ofTokens, Emitted.ofTokens, List.map_map, List.map_map]
  rfl

namespace SameRuns

variable {run runOther next nextOther : Scene → Emission}

theorem silent : SameRuns Emission.silent Emission.silent :=
  fun _ => rfl

theorem andThen (h : SameRuns run runOther) (hnext : SameRuns next nextOther) :
    SameRuns (fun scene => (run scene).andThen next)
      (fun scene => (runOther scene).andThen nextOther) := by
  intro scene
  dsimp only
  rw [h scene, Emission.andThen, Emission.andThen]
  change (if (run scene).broken then _ else _) = _
  split
  · rfl
  · change (nextOther (run scene).scene.unplaced).after _ = _
    rw [hnext (run scene).scene]
    simp only [Emission.after, Emission.unplaced, List.map_append]

theorem andPasses (h : SameRuns run runOther) (hnext : SameRuns next nextOther) :
    SameRuns (fun scene => (run scene).andPasses next)
      (fun scene => (runOther scene).andPasses nextOther) := by
  intro scene
  dsimp only
  rw [h scene, Emission.andPasses, Emission.andPasses]
  change (if (run scene).broken then _ else _) = _
  split
  · rfl
  · change (nextOther (run scene).scene.unplaced).after _ = _
    rw [hnext (run scene).scene]
    simp only [Emission.after, Emission.unplaced, List.map_append]

theorem report (d : Diagnostic) :
    SameRuns (fun scene => .silent (scene.report d))
      (fun scene => .silent (scene.report d.unplaced)) :=
  fun scene => congrArg Emission.silent (scene.report_unplaced d)

theorem fail (d : Diagnostic) (fallback : Span) :
    SameRuns (fun scene => fail scene d fallback)
      (fun scene => fail scene d.unplaced (.point 0)) := by
  intro scene
  have hspan : d.unplaced.span.getD (.point 0) = .point 0 := by
    rw [Diagnostic.unplaced]
    cases d.span <;> rfl
  dsimp only [Expansion.fail]
  rw [hspan, Scene.report_unplaced]
  rfl

theorem orFail {α : Type} {computation other : Eval α} (h : SameValues computation other)
    (fallback : Span) {next nextOther : α → Scene → Emission}
    (hnext : ∀ value, SameRuns (next value) (nextOther value)) :
    SameRuns (orFail computation fallback next) (orFail other (.point 0) nextOther) := by
  intro scene
  rw [Expansion.orFail, Expansion.orFail, h scene]
  cases computation scene with
  | ok value after => exact hnext value after
  | error d after => exact fail d fallback after

theorem within (h : SameRuns run runOther) (name : String) :
    SameRuns (within name run) (within name runOther) := by
  intro scene
  have hrun := h (scene.enter name)
  change Emission.mk (runOther (scene.enter name).unplaced).tokens
    (runOther (scene.enter name).unplaced).broken
    (runOther (scene.enter name).unplaced).scene.leave = _
  rw [hrun]
  rfl

theorem iterateRange (env : Environment) (h : SameRuns run runOther) (variableName : String)
    (last step : Float) (span : Span) (remaining : Nat) (index : Float) :
    SameRuns (iterateRange env run variableName last step span remaining index)
      (iterateRange env.unplaced runOther variableName last step (.point 0) remaining index) := by
  induction remaining generalizing index with
  | zero =>
      by_cases hbounds : withinBounds index last step = true
      · rw [iterateRange_limit hbounds, iterateRange_limit hbounds]
        exact report (iterationLimit env span)
      · rw [iterateRange_past hbounds, iterateRange_past hbounds]
        exact silent
  | succ remaining ih =>
      by_cases hbounds : withinBounds index last step = true
      · rw [iterateRange_pass hbounds, iterateRange_pass hbounds]
        have honce : SameRuns (iteration run variableName (Number.text index))
            (iteration runOther variableName (Number.text index)) :=
          fun scene => h (scene.setVariable variableName (Number.text index))
        exact honce.andPasses (ih (index + step))
      · rw [iterateRange_past hbounds, iterateRange_past hbounds]
        exact silent

theorem iterateList (env : Environment) (h : SameRuns run runOther) (variableName : String)
    (span : Span) (remaining : Nat) (values : List String) :
    SameRuns (iterateList env run variableName span remaining values)
      (iterateList env.unplaced runOther variableName (.point 0) remaining values) := by
  induction values generalizing remaining with
  | nil =>
      rw [iterateList_nil, iterateList_nil]
      exact silent
  | cons value values ih =>
      cases remaining with
      | zero => exact report (iterationLimit env span)
      | succ remaining =>
          have honce : SameRuns (iteration run variableName value)
              (iteration runOther variableName value) :=
            fun scene => h (scene.setVariable variableName value)
          exact honce.andPasses (ih remaining)

end SameRuns

theorem literalTokens_unplaced (env : Environment) (scene : Scene) (t : Token) :
    literalTokens env.unplaced scene.unplaced t.unplaced =
      (literalTokens env scene t).map Emitted.unplaced := by
  have hvalue : (if t.unplaced.isMacroId then
      scene.unplaced.activation.locals.get? t.unplaced.text else none) =
        if t.isMacroId then scene.activation.locals.get? t.text else none := rfl
  rw [literalTokens, literalTokens, hvalue]
  split
  · rw [Emitted.inert, Emitted.inert, Emitted.ofTokens_unplaced, tokenizeAt_unplaced]
    rfl
  · rfl

theorem bindingTokens_unplaced (env : Environment) (scene : Scene) (binding : Binding) :
    bindingTokens env.unplaced scene.unplaced binding.unplaced =
      (bindingTokens env scene binding).map Emitted.unplaced := by
  rw [bindingTokens, bindingTokens, Emitted.ofTokens_unplaced]
  rfl

section Leaves

variable (env : Environment) {eval other : Evaluator}

theorem sameRuns_literal (tokens : List Token) :
    SameRuns (substituteOne env eval (.literal tokens))
      (substituteOne env.unplaced other (Directive.literal tokens).unplaced) := by
  intro scene
  change Emission.ofTokens ((tokens.map Token.unplaced).flatMap
    (literalTokens env.unplaced scene.unplaced)) scene.unplaced = Emission.mk
      ((tokens.flatMap (literalTokens env scene)).map Emitted.unplaced) false scene.unplaced
  rw [List.flatMap_map, List.map_flatMap]
  simp only [literalTokens_unplaced]
  rfl

theorem sameRuns_parameter (index : Nat) :
    SameRuns (substituteOne env eval (.parameter index))
      (substituteOne env.unplaced other (.parameter index)) := by
  intro scene
  have hbinding : scene.unplaced.activation.bindings[index]? =
      scene.activation.bindings[index]?.map Binding.unplaced := List.getElem?_map
  rw [substituteOne, substituteOne, hbinding]
  cases scene.activation.bindings[index]? with
  | none => rfl
  | some binding =>
      exact congrArg (Emission.ofTokens · scene.unplaced) (bindingTokens_unplaced env scene binding)

theorem sameRuns_allPositionals :
    SameRuns (substituteOne env eval .allPositionals)
      (substituteOne env.unplaced other .allPositionals) := by
  intro scene
  change Emission.ofTokens (scene.activation.unplaced.positionals.flatMap
    (bindingTokens env.unplaced scene.unplaced)) scene.unplaced = Emission.mk
      ((scene.activation.positionals.flatMap (bindingTokens env scene)).map Emitted.unplaced) false
      scene.unplaced
  rw [Activation.positionals_unplaced, List.flatMap_map, List.map_flatMap]
  simp only [bindingTokens_unplaced]
  rfl

end Leaves

mutual

theorem sameRuns_substituteOne (env : Environment) (heval : SameTexts eval other)
    (directive : Directive) :
    SameRuns (substituteOne env eval directive)
      (substituteOne env.unplaced other directive.unplaced) := by
  match directive with
  | .literal tokens => exact sameRuns_literal env tokens
  | .parameter index => exact sameRuns_parameter env index
  | .allPositionals => exact sameRuns_allPositionals env
  | .call function arguments span =>
    refine .orFail (sameValues_callText heval function arguments span) span fun text scene => ?_
    rw [← tokenizeAt_unplaced text span]
    exact congrArg (Emission.ofTokens · scene.unplaced)
      (Emitted.ofTokens_unplaced false (tokenizeAt text span)).symm
  | .cond condition thenBranch elseBranch =>
    rw [funext (substituteOne_cond env eval condition thenBranch elseBranch), Directive.unplaced,
      funext (substituteOne_cond env.unplaced other condition.unplaced _ _)]
    refine .orFail (sameValues_evaluate heval condition) (.point 0) fun value => ?_
    cases truth value with
    | true => exact (sameRuns_substitute env heval thenBranch).within "!IF"
    | false =>
        match elseBranch with
        | some branch => exact (sameRuns_substitute env heval branch).within "!IF"
        | none => exact .silent
  | .doRange variableName first last step body span =>
    have hbody := sameRuns_substitute env heval body
    refine SameRuns.within (.orFail (sameValues_loopBounds heval first last step) span ?_) "!DO"
    exact fun bounds => hbody.iterateRange env variableName bounds.2.1 bounds.2.2 span _ bounds.1
  | .doIn variableName list body span =>
    have hbody := sameRuns_substitute env heval body
    refine SameRuns.within (.orFail (sameValues_evaluate heval list) span fun text => ?_) "!DO"
    exact hbody.iterateList env variableName span _ _
  | .assign variableName value =>
    exact .orFail (sameValues_evaluate heval value) (.point 0) fun _ _ => rfl
  | .setExpand enabled => exact fun _ => rfl
  | .breakLoop => exact fun _ => rfl
  | .invalid error span => exact .fail { error, span := some span } span

theorem sameRuns_substitute (env : Environment) (heval : SameTexts eval other)
    (tree : List Directive) :
    SameRuns (substitute env eval tree)
      (substitute env.unplaced other (Directive.unplacedAll tree)) := by
  match tree with
  | [] => exact .silent
  | directive :: others =>
    exact (sameRuns_substituteOne env heval directive).andThen
      (sameRuns_substitute env heval others)

end

/-! ### Scans -/

theorem lookup_unplaced (table : Table) (name : String) :
    table.unplaced.lookup name = (table.lookup name).map Definition.unplaced := by
  rw [Table.lookup, Table.lookup, Table.unplaced]
  induction table.entries with
  | nil => rfl
  | cons entry others ih =>
      rw [List.map_cons, List.lookup_cons, List.lookup_cons, ih]
      split <;> rfl

theorem callee?_unplaced (env : Environment) (e : Emitted) :
    callee? env.unplaced e.unplaced = (callee? env e).map Definition.unplaced := by
  change (if e.expandable && e.token.isIdentifier then env.table.unplaced.lookup e.token.text
    else none) = _
  rw [lookup_unplaced, callee?]
  split <;> rfl

/-- The tokens and the log of an expansion without places. -/
def unplacedExpansion (expansion : List Token × Log) : List Token × Log :=
  (expansion.1.map Token.unplaced, expansion.2.unplaced)

theorem enterCall_unplaced (log : Log) (d : Definition) (bound : BoundCall) :
    enterCall log.unplaced d.unplaced bound.unplaced = (enterCall log d bound).unplaced := by
  rw [enterCall, enterCall, ← Log.reports_unplaced]
  rfl

theorem echoExpansion_unplaced (log : Log) (name? : Option String) (expansion : List Token) :
    echoExpansion log.unplaced name? (fun _ => expansion.map Token.unplaced) =
      (echoExpansion log name? fun _ => expansion).unplaced := by
  cases name? with
  | none => rfl
  | some name => exact log.echo_unplaced name expansion

theorem leaveCall_unplaced (env : Environment) (depth : Nat) (name : Token)
    (expansion : List Token × Log) :
    leaveCall env.unplaced depth name.unplaced (unplacedExpansion expansion) =
      (leaveCall env depth name expansion).unplaced :=
  echoExpansion_unplaced expansion.2.leave (echoName? env depth name) expansion.1

theorem callBody_unplaced (env : Environment) (heval : SameTexts eval other) (d : Definition)
    (bindings : List Binding) (depth : Nat) (log : Log) :
    callBody env.unplaced other d.unplaced (bindings.map Binding.unplaced) depth log.unplaced =
      ((callBody env eval d bindings depth log).1.map Emitted.unplaced,
        (callBody env eval d bindings depth log).2.unplaced) := by
  have hrun := sameRuns_substitute env heval d.body ⟨{ definition := d, bindings, depth }, log⟩
  exact congrArg (fun emission : Emission => (emission.tokens, emission.scene.log)) hrun

theorem callExpansion_unplaced (env : Environment) (heval : SameTexts eval other) {depth : Nat}
    (hdeeper : depth + 1 ≤ env.settings.nestLimit → ∀ body log,
      expandRecursively env.unplaced other (depth + 1) (body.map Emitted.unplaced) log.unplaced =
        unplacedExpansion (expandRecursively env eval (depth + 1) body log))
    (d : Definition) (name : Token) (bindings : List Binding) (entered : Log) :
    callExpansion env.unplaced other depth d.unplaced name.unplaced
        (bindings.map Binding.unplaced) entered.unplaced =
      unplacedExpansion (callExpansion env eval depth d name bindings entered) := by
  rw [callExpansion, callExpansion, callBody_unplaced env heval]
  change (if depth + 1 ≤ env.settings.nestLimit then _ else _) = _
  split
  · next hdepth => exact hdeeper hdepth _ _
  · exact congrArg (Prod.mk []) (entered.report_unplaced (nestingLimit env d name))

/-- Scanning for calls looks at no places. -/
theorem expandRecursively_unplaced (env : Environment) (heval : SameTexts eval other) (depth : Nat)
    (tokens : List Emitted) (log : Log) :
    expandRecursively env.unplaced other depth (tokens.map Emitted.unplaced) log.unplaced =
      unplacedExpansion (expandRecursively env eval depth tokens log) := by
  induction depth, tokens using scan_induction env.settings.nestLimit generalizing log with
  | nil depth =>
      rw [List.map_nil, expandRecursively_nil, expandRecursively_nil]
      rfl
  | cons depth e following hdeeper hfollowing =>
      have hcallee := callee?_unplaced env e
      cases he : callee? env e with
      | none =>
          rw [he] at hcallee
          rw [List.map_cons, expandRecursively_copy hcallee, expandRecursively_copy he,
            hfollowing following (Nat.le_refl _)]
          rfl
      | some d =>
          rw [he] at hcallee
          let bound := bindArguments d following
          let expansion :=
            callExpansion env eval depth d e.token bound.bindings (enterCall log d bound)
          have hexpansion : callExpansion env.unplaced other depth d.unplaced e.unplaced.token
              bound.unplaced.bindings (enterCall log d bound).unplaced =
                unplacedExpansion expansion :=
            callExpansion_unplaced env heval hdeeper d e.token bound.bindings
              (enterCall log d bound)
          have hleave : leaveCall env.unplaced depth e.unplaced.token
              (unplacedExpansion expansion) = (leaveCall env depth e.token expansion).unplaced :=
            leaveCall_unplaced env depth e.token expansion
          have hrest : expandRecursively env.unplaced other depth bound.unplaced.rest
              (leaveCall env depth e.token expansion).unplaced = _ :=
            hfollowing bound.rest (bindArguments_rest_le d following)
              (leaveCall env depth e.token expansion)
          rw [List.map_cons, expandRecursively_call hcallee, expandRecursively_call he,
            bindArguments_unplaced]
          dsimp only
          rw [enterCall_unplaced, hexpansion, hleave, hrest]
          exact congrArg (Prod.mk · _) List.map_append.symm

/-- Expanding the text of an `!EVAL` looks at no places. -/
theorem sameTexts_evaluateRecursively (env : Environment) (levels : Nat) :
    SameTexts (evaluateRecursively env levels) (evaluateRecursively env.unplaced levels) := by
  induction levels with
  | zero =>
      intro text span scene
      exact congrArg (Prod.mk "") (scene.report_unplaced
        { error := .evalNestingLimit maxEvalNesting, span := some span })
  | succ levels ih =>
      intro text span scene
      let body := Body.compile scene.activation.definition.parameters (tokenizeAt text span)
      let emission := substitute env (evaluateRecursively env levels) body (scene.enter "!EVAL")
      have hbody : Body.compile scene.unplaced.activation.definition.parameters
          (tokenizeAt text (.point 0)) = Directive.unplacedAll body := by
        rw [← tokenizeAt_unplaced text span]
        exact Body.compile_unplaced _ _
      have hemission : substitute env.unplaced (evaluateRecursively env.unplaced levels)
          (Directive.unplacedAll body) (scene.unplaced.enter "!EVAL") = emission.unplaced :=
        sameRuns_substitute env ih body (scene.enter "!EVAL")
      have hscan : expandRecursively env.unplaced (evaluateRecursively env.unplaced levels)
          emission.unplaced.scene.activation.depth emission.unplaced.tokens
          emission.unplaced.scene.log = _ :=
        expandRecursively_unplaced env ih emission.scene.activation.depth emission.tokens
          emission.scene.log
      simp only [evaluateRecursively, hbody, hemission, hscan]
      exact congrArg (Prod.mk · _) (Token.render_unplaced _)

/-- Expanding a statement looks at no places. -/
theorem expandStatement_unplaced (env : Environment) (tokens : List Token) (log : Log) :
    expandStatement env.unplaced (tokens.map Token.unplaced) log.unplaced =
      unplacedExpansion (expandStatement env tokens log) := by
  have heval : SameTexts (evaluator env) (evaluator env.unplaced) := by
    rw [evaluator, evaluator, evaluateText_eq_evaluateRecursively,
      evaluateText_eq_evaluateRecursively]
    exact sameTexts_evaluateRecursively env maxEvalNesting
  rw [expandStatement, expandStatement, expandCalls, expandCalls, expandWith_eq_expandRecursively,
    expandWith_eq_expandRecursively, ← expandRecursively_unplaced env heval,
    Emitted.ofTokens_unplaced]
  rfl

end Expansion

end CommandMacros

import CommandMacros.Proofs.Expansion.Inert
import CommandMacros.Proofs.Expansion.Limits

/-!
Complete expansions. Macros that only copy text, and keep none of it from being searched, have every
name on the way looked up. What an expansion gives then names no macro, whether or not the nesting
limit was reached, and expanding it again changes nothing.
-/

namespace CommandMacros

/-- The directive copies text, fails, or chooses between such directives by a condition that expands
no text. -/
inductive Directive.Copies : Directive → Prop
  | literal (tokens : List Token) : Copies (.literal tokens)
  | parameter (index : Nat) : Copies (.parameter index)
  | allPositionals : Copies .allPositionals
  | cond {condition : Expr} {thenBranch : List Directive} {elseBranch : Option (List Directive)}
      (hcondition : condition.EvalFree) (hthen : ∀ d ∈ thenBranch, Copies d)
      (helse : ∀ branch ∈ elseBranch, ∀ d ∈ branch, Copies d) :
      Copies (.cond condition thenBranch elseBranch)
  | invalid (error : MacroError) (span : Span) : Copies (.invalid error span)

/-- The macro copies text, and all its arguments are searched for calls. -/
structure Definition.Copies (d : Definition) : Prop where
  parameters : ∀ p ∈ d.parameters, p.noExpand = false
  body : ∀ directive ∈ d.body, directive.Copies

/-- Every macro of the table copies text. -/
def Table.Copies (table : Table) : Prop :=
  ∀ entry ∈ table.entries, entry.2.Copies

/-- No text of the activation is kept from being searched for calls. -/
structure Activation.Open (activation : Activation) : Prop where
  expandEnabled : activation.expandEnabled = true
  locals : ∀ name, activation.locals.get? name = none
  bindings : ∀ binding ∈ activation.bindings, binding.expandable = true

namespace Expansion

/-- Every name among the tokens may be a call. -/
def Searched (tokens : List Emitted) : Prop :=
  ∀ e ∈ tokens, e.token.isIdentifier = true → e.expandable = true

namespace Searched

variable {tokens others : List Emitted}

theorem nil : Searched [] :=
  List.forall_mem_nil _

theorem append (h : Searched tokens) (hothers : Searched others) : Searched (tokens ++ others) :=
  List.forall_mem_append.mpr ⟨h, hothers⟩

theorem flatMap {α : Type} {f : α → List Emitted} {values : List α}
    (h : ∀ value ∈ values, Searched (f value)) : Searched (values.flatMap f) := by
  intro e he
  obtain ⟨value, hvalue, he⟩ := List.mem_flatMap.mp he
  exact h value hvalue e he

theorem ofTokens (tokens : List Token) : Searched (Emitted.ofTokens true tokens) := by
  intro e he _
  obtain ⟨t, _, rfl⟩ := List.mem_map.mp he
  rfl

/-- What a binding leaves is still searched. -/
theorem rest (h : Searched tokens) (d : Definition) : Searched (bindArguments d tokens).rest := by
  obtain ⟨taken, htaken, _⟩ := bindArguments_leaves d tokens
  rw [htaken] at h
  exact (List.forall_mem_append.mp h).2

end Searched

/-! ### Runs of directives -/

/-- A run that leaves the activation as it is, and gives only tokens that are searched if the
activation is open. -/
structure OpenRun (run : Scene → Emission) : Prop where
  activation (scene : Scene) : (run scene).scene.activation = scene.activation
  searched {scene : Scene} (h : scene.activation.Open) : Searched (run scene).tokens

namespace OpenRun

variable {run next : Scene → Emission}

theorem silent : OpenRun Emission.silent :=
  ⟨fun _ => rfl, fun _ => .nil⟩

theorem ofTokens {f : Scene → List Emitted}
    (h : ∀ {scene : Scene}, scene.activation.Open → Searched (f scene)) :
    OpenRun fun scene => .ofTokens (f scene) scene :=
  ⟨fun _ => rfl, h⟩

/-- The marker of an error is no name. -/
theorem fail (d : Diagnostic) (fallback : Span) : OpenRun fun scene => fail scene d fallback := by
  refine ⟨fun _ => rfl, fun _ e he hidentifier => ?_⟩
  obtain rfl := List.mem_singleton.mp he
  cases hidentifier

theorem orFail {α : Type} {computation : Eval α} {next : α → Scene → Emission}
    (h : SameReading computation computation) (hnext : ∀ value, OpenRun (next value))
    (fallback : Span) : OpenRun (orFail computation fallback next) := by
  have hcases (scene : Scene) :
      ∃ run, OpenRun run ∧ Expansion.orFail computation fallback next scene = run scene := by
    unfold Expansion.orFail
    cases hresult : computation scene with
    | ok value after =>
        obtain rfl := h.ok hresult
        exact ⟨next value, hnext value, rfl⟩
    | error d after =>
        obtain rfl := h.error hresult
        exact ⟨_, fail d fallback, rfl⟩
  refine ⟨fun scene => ?_, fun {scene} hopen => ?_⟩
  · obtain ⟨run, hrun, heq⟩ := hcases scene
    rw [heq, hrun.activation]
  · obtain ⟨run, hrun, heq⟩ := hcases scene
    rw [heq]
    exact hrun.searched hopen

theorem andThen (h : OpenRun run) (hnext : OpenRun next) :
    OpenRun fun scene => (run scene).andThen next := by
  refine ⟨fun scene => ?_, fun {scene} hopen => ?_⟩
  · unfold Emission.andThen
    split
    · exact h.activation scene
    · exact (hnext.activation _).trans (h.activation scene)
  · have hfirst := h.searched hopen
    unfold Emission.andThen
    split
    · exact hfirst
    · exact hfirst.append (hnext.searched (by rwa [h.activation]))

theorem within (h : OpenRun run) (name : String) : OpenRun (within name run) :=
  ⟨fun scene => h.activation (scene.enter name),
    fun {scene} hopen => @OpenRun.searched _ h (scene.enter name) hopen⟩

end OpenRun

section Complete

variable {env : Environment} (hexpand : env.settings.expand = true) {eval : Evaluator}

include hexpand

theorem textExpandable_of_open {scene : Scene} (h : scene.activation.Open) :
    textExpandable env scene = true := by
  rw [textExpandable, h.expandEnabled, hexpand]
  rfl

theorem searched_literalTokens {scene : Scene} (h : scene.activation.Open) (t : Token) :
    Searched (literalTokens env scene t) := by
  have hvalue : (if t.isMacroId then scene.activation.locals.get? t.text else none) = none := by
    rw [h.locals, ite_self]
  rw [literalTokens, hvalue]
  intro e he _
  obtain rfl := List.mem_singleton.mp he
  exact textExpandable_of_open hexpand h

theorem searched_bindingTokens {scene : Scene} (h : scene.activation.Open) {binding : Binding}
    (hbinding : binding ∈ scene.activation.bindings) :
    Searched (bindingTokens env scene binding) := by
  rw [bindingTokens, h.bindings binding hbinding, textExpandable_of_open hexpand h]
  exact .ofTokens _

theorem openRun_parameter (index : Nat) : OpenRun (substituteOne env eval (.parameter index)) := by
  refine ⟨fun scene => ?_, fun {scene} hopen => ?_⟩
  · rw [substituteOne]
    split <;> rfl
  · rw [substituteOne]
    split
    · next binding hbinding =>
        exact searched_bindingTokens hexpand hopen (List.mem_of_getElem? hbinding)
    · exact .nil

theorem openRun_allPositionals : OpenRun (substituteOne env eval .allPositionals) := by
  refine .ofTokens fun hopen => .flatMap fun binding hbinding => ?_
  obtain ⟨pair, hpair, rfl⟩ := List.mem_map.mp hbinding
  exact searched_bindingTokens hexpand hopen (List.of_mem_zip (List.mem_filter.mp hpair).1).2

end Complete

mutual

/-- One directive, by the form of it. -/
theorem openRun_substituteOne {env : Environment} (hexpand : env.settings.expand = true)
    {eval : Evaluator} (directive : Directive) (h : directive.Copies) :
    OpenRun (substituteOne env eval directive) := by
  match directive, h with
  | .literal tokens, _ =>
    exact .ofTokens fun hopen => .flatMap fun t _ => searched_literalTokens hexpand hopen t
  | .parameter index, _ => exact openRun_parameter hexpand index
  | .allPositionals, _ => exact openRun_allPositionals hexpand
  | .cond condition thenBranch elseBranch, .cond hcondition hthen helse =>
    rw [funext (substituteOne_cond env eval condition thenBranch elseBranch)]
    refine .orFail (same_evaluate hcondition) (fun value => ?_) (.point 0)
    cases truth value with
    | true => exact (openRun_substitute hexpand thenBranch hthen).within "!IF"
    | false =>
        match elseBranch with
        | some branch => exact (openRun_substitute hexpand branch (helse branch rfl)).within "!IF"
        | none => exact .silent
  | .invalid error span, _ => exact .fail { error, span := some span } span

theorem openRun_substitute {env : Environment} (hexpand : env.settings.expand = true)
    {eval : Evaluator} (tree : List Directive) (h : ∀ d ∈ tree, d.Copies) :
    OpenRun (substitute env eval tree) := by
  match tree with
  | [] => exact .silent
  | directive :: others =>
    obtain ⟨hdirective, hothers⟩ := List.forall_mem_cons.mp h
    exact (openRun_substituteOne hexpand directive hdirective).andThen
      (openRun_substitute hexpand others hothers)

end

/-! ### Scans -/

section Scans

variable {env : Environment} {eval : Evaluator}

/-- The body of a call gives only tokens that are searched. -/
theorem searched_callBody (hexpand : env.settings.expand = true) {d : Definition} (hd : d.Copies)
    (tokens : List Emitted) (depth : Nat) (log : Log) :
    Searched (callBody env eval d (bindArguments d tokens).bindings depth log).1 := by
  refine (openRun_substitute hexpand d.body hd.body).searched ⟨rfl, fun _ => rfl, fun b hb => ?_⟩
  obtain ⟨⟨p, value⟩, hpair, rfl⟩ := List.mem_map.mp hb
  change (!p.noExpand) = true
  rw [hd.parameters p (List.of_mem_zip hpair).1]
  rfl

/-- No name in the expansion of searched tokens is that of a macro. -/
theorem lookup_of_mem_expandRecursively (hexpand : env.settings.expand = true)
    (htable : env.table.Copies) (depth : Nat) (tokens : List Emitted) (hsearched : Searched tokens)
    (log : Log) :
    ∀ t ∈ (expandRecursively env eval depth tokens log).1, t.isIdentifier = true →
      env.table.lookup t.text = none := by
  induction depth, tokens using scan_induction env.settings.nestLimit generalizing log with
  | nil depth =>
      rw [expandRecursively_nil]
      exact List.forall_mem_nil _
  | cons depth e following hdeeper hfollowing =>
      obtain ⟨hhead, hrest⟩ := List.forall_mem_cons.mp hsearched
      cases he : callee? env e with
      | none =>
          rw [expandRecursively_copy he]
          refine List.forall_mem_cons.mpr ⟨fun hidentifier => ?_,
            hfollowing following (Nat.le_refl _) hrest log⟩
          rwa [callee?, hhead hidentifier, hidentifier, Bool.and_true, if_pos rfl] at he
      | some d =>
          obtain ⟨name, hentry⟩ := mem_entries_of_callee he
          rw [expandRecursively_call he]
          refine List.forall_mem_append.mpr ⟨?_, hfollowing _ (bindArguments_rest_le d following)
            (Searched.rest hrest d) _⟩
          unfold callExpansion
          split
          · next hdepth =>
              exact hdeeper hdepth _ (searched_callBody hexpand (htable _ hentry) following _ _) _
          · exact List.forall_mem_nil _

/-- Tokens of which none is a call are copied. -/
theorem expandRecursively_of_no_callee {tokens : List Emitted}
    (h : ∀ e ∈ tokens, callee? env e = none) (depth : Nat) (log : Log) :
    expandRecursively env eval depth tokens log = (tokens.map Emitted.token, log) := by
  induction tokens with
  | nil => exact expandRecursively_nil env eval depth log
  | cons e following ih =>
      obtain ⟨he, hfollowing⟩ := List.forall_mem_cons.mp h
      rw [expandRecursively_copy he, ih hfollowing]
      rfl

end Scans

/-- A statement without names of macros is its own expansion. -/
theorem expandStatement_of_no_lookup {env : Environment} {tokens : List Token}
    (h : ∀ t ∈ tokens, t.isIdentifier = true → env.table.lookup t.text = none) (log : Log) :
    expandStatement env tokens log = (tokens, log) := by
  have hmap : (Emitted.ofTokens env.settings.expand tokens).map Emitted.token = tokens := by
    rw [Emitted.ofTokens, List.map_map]
    exact List.map_id tokens
  rw [expandStatement, expandCalls, expandWith_eq_expandRecursively,
    expandRecursively_of_no_callee, hmap]
  intro e he
  obtain ⟨t, ht, rfl⟩ := List.mem_map.mp he
  unfold callee?
  split
  · next hcall => exact h t ht (Bool.and_eq_true_iff.mp hcall).2
  · rfl

/-- Expansion is complete where nothing is kept from being searched: no name in the expansion of a
statement is that of a macro, and expanding it again gives it back, with nothing reported or
echoed. -/
theorem expansion_complete (env : Environment) (hexpand : env.settings.expand = true)
    (htable : env.table.Copies) (tokens : List Token) (log : Log) :
    let output := (expandStatement env tokens log).1
    (∀ t ∈ output, t.isIdentifier = true → env.table.contains t.text = false) ∧
      ∀ later, expandStatement env output later = (output, later) := by
  intro output
  have houtput : ∀ t ∈ output, t.isIdentifier = true → env.table.lookup t.text = none := by
    have hsearched : Searched (Emitted.ofTokens env.settings.expand tokens) := by
      rw [hexpand]
      exact .ofTokens tokens
    have hstatement : output = (expandRecursively env (evaluator env) 0
        (Emitted.ofTokens env.settings.expand tokens) log).1 := by
      rw [← expandWith_eq_expandRecursively]
      rfl
    rw [hstatement]
    exact lookup_of_mem_expandRecursively hexpand htable 0 _ hsearched log
  refine ⟨fun t ht hidentifier => ?_, fun later => expandStatement_of_no_lookup houtput later⟩
  rw [Table.contains, houtput t ht hidentifier]
  rfl

/-- A macro that calls itself under a condition, and says a word. -/
def insist : Definition :=
  let body : List Directive := [.literal [word "insist", word "again"]]
  ⟨"insist", .point 0, [], [.cond (.operand (.token (word "on"))) body none]⟩

/-- The macro under a nesting limit that allows one call. -/
def insistent : Environment where
  table := ⟨[("INSIST", insist)]⟩
  settings := { nestLimit := 1 }

/-- A call that runs into the nesting limit leaves no call behind. -/
theorem insistent_complete :
    insistent.table.Copies ∧
      (expandStatement insistent [word "insist"] {}).1 = [word "again"] ∧
      insistent.table.contains "again" = false ∧
      expandStatement insistent [word "again"] {} = ([word "again"], {}) := by
  have htable : insistent.table.Copies := by
    refine List.forall_mem_singleton.mpr ⟨List.forall_mem_nil _, ?_⟩
    refine List.forall_mem_singleton.mpr (.cond ?_ ?_ nofun)
    · exact .token _
    · exact List.forall_mem_singleton.mpr (.literal _)
  have hcall : callee? insistent ⟨word "insist", true⟩ = some insist := by rfl
  have hagain : callee? insistent ⟨word "again", true⟩ = none := by rfl
  have hbound (tokens : List Emitted) : bindArguments insist tokens = ⟨[], tokens, []⟩ :=
    bindArguments_of_no_parameters rfl tokens
  have hdropped (eval : Evaluator) (log : Log) :
      (expandRecursively insistent eval 1 [⟨word "insist", true⟩, ⟨word "again", true⟩] log).1 =
        [word "again"] := by
    have hlimit : ¬ 1 + 1 ≤ insistent.settings.nestLimit := by decide
    simp only [expandRecursively_call hcall, hbound, callExpansion, if_neg hlimit,
      expandRecursively_copy hagain, expandRecursively_nil, List.nil_append]
  have hrun : (expandStatement insistent [word "insist"] {}).1 = [word "again"] := by
    rw [expandStatement, expandCalls, expandWith_eq_expandRecursively]
    exact (expandRecursively_whole hcall (hbound []) (Nat.le_refl 1) _ {}).trans (hdropped _ _)
  obtain ⟨hnames, hagain⟩ := expansion_complete insistent rfl htable [word "insist"] {}
  rw [hrun] at hnames hagain
  exact ⟨htable, hrun, hnames (word "again") (List.mem_singleton.mpr rfl) rfl, hagain {}⟩

end Expansion

end CommandMacros

import CommandMacros.Proofs.Body.Compile

/-!
The text of a body. Wherever a token stands as text in a compiled body, also inside conditions and
loops, it is one of the tokens that the body was compiled from.
-/

namespace CommandMacros

/-- The token stands as text in the directive. -/
inductive Directive.Spells (t : Token) : Directive → Prop
  | literal {tokens : List Token} (h : t ∈ tokens) : Spells t (.literal tokens)
  | thenBranch {condition : Expr} {thenBranch : List Directive}
      {elseBranch : Option (List Directive)} {d : Directive} (hd : d ∈ thenBranch)
      (h : Spells t d) : Spells t (.cond condition thenBranch elseBranch)
  | elseBranch {condition : Expr} {thenBranch branch : List Directive} {d : Directive}
      (hd : d ∈ branch) (h : Spells t d) : Spells t (.cond condition thenBranch (some branch))
  | doRange {variableName : String} {first last : Expr} {step : Option Expr}
      {body : List Directive} {span : Span} {d : Directive} (hd : d ∈ body) (h : Spells t d) :
      Spells t (.doRange variableName first last step body span)
  | doIn {variableName : String} {list : Expr} {body : List Directive} {span : Span}
      {d : Directive} (hd : d ∈ body) (h : Spells t d) :
      Spells t (.doIn variableName list body span)

/-- All that stands as text in the directives satisfies the condition. -/
def SpellOnly (holds : Token → Prop) (tree : List Directive) : Prop :=
  ∀ d ∈ tree, ∀ t, d.Spells t → holds t

theorem SpellOnly.nil (holds : Token → Prop) : SpellOnly holds [] :=
  List.forall_mem_nil _

theorem SpellOnly.cons {holds : Token → Prop} {d : Directive} {tree : List Directive}
    (hd : ∀ t, d.Spells t → holds t) (h : SpellOnly holds tree) : SpellOnly holds (d :: tree) :=
  List.forall_mem_cons.mpr ⟨hd, h⟩

namespace Body

variable {holds : Token → Prop} {scope : Scope} {ahead : Ahead}

/-- All that stands as text where a token begins something satisfies the condition. -/
def Step.SpellsOnly (holds : Token → Prop) : Step → Prop
  | .literal t => holds t
  | .directive d => ∀ t, d.Spells t → holds t

theorem spells_consLiteral {t : Token} (ht : holds t) {tree : List Directive}
    (h : SpellOnly holds tree) : SpellOnly holds (consLiteral t tree) := by
  unfold consLiteral
  split
  · next tokens others =>
      obtain ⟨htokens, hothers⟩ := List.forall_mem_cons.mp h
      refine .cons ?_ hothers
      rintro u ⟨hu⟩
      rcases List.mem_cons.mp hu with rfl | hu
      · exact ht
      · exact htokens u (.literal hu)
  · refine .cons ?_ h
    rintro u ⟨hu⟩
    rw [List.mem_singleton.mp hu]
    exact ht

theorem Step.SpellsOnly.cons {first : Step} (hfirst : first.SpellsOnly holds)
    {tree : List Directive} (h : SpellOnly holds tree) : SpellOnly holds (first.cons tree) := by
  cases first with
  | literal t => exact spells_consLiteral hfirst h
  | directive d => exact .cons hfirst h

theorem spells_recover {result : Except Fault (Directive × Nat)}
    (h : Yields .everywhere (fun r => ∀ t, r.1.Spells t → holds t) result) :
    (recover result).1.SpellsOnly holds := by
  cases result with
  | ok r => exact h
  | error f =>
      rintro t ⟨⟩

theorem spells_assignment (tokens : List Token) :
    Yields .everywhere (fun read => ∀ t, read.value.Spells t → holds t)
      (assignment scope tokens) := by
  rw [assignment]
  refine (yields_everywhere _).bind fun name _ => ?_
  refine (yields_everywhere _).bind fun equals _ => ?_
  refine (yields_everywhere _).bind fun value _ => ?_
  rintro t ⟨⟩

section Blocks

variable (hahead : ∀ block skipped, SpellOnly holds (ahead block skipped).directives)

include hahead

theorem spells_conditional (inLoop : Bool) (keyword : Span) (tokens : List Token) :
    Yields .everywhere (fun r => ∀ t, r.1.Spells t → holds t)
      (conditional scope ahead inLoop keyword tokens) := by
  rw [conditional]
  refine (yields_everywhere _).bind fun condition _ => ?_
  have hthen := hahead (.thenBranch inLoop) condition.taken
  dsimp only
  split
  · exact Region.mem_everywhere keyword
  split
  · have helse := hahead (.elseBranch inLoop)
      (condition.taken + (ahead (.thenBranch inLoop) condition.taken).taken + 1)
    split
    · exact Region.mem_everywhere keyword
    · rintro t (_ | ⟨hd, ht⟩ | ⟨hd, ht⟩)
      · exact hthen _ hd t ht
      · exact helse _ hd t ht
  · rintro t (_ | ⟨hd, ht⟩)
    exact hthen _ hd t ht

theorem spells_loop (keyword : Span) (tokens : List Token) :
    Yields .everywhere (fun r => ∀ t, r.1.Spells t → holds t)
      (loop scope ahead keyword tokens) := by
  rw [loop]
  refine (yields_everywhere _).bind fun name _ => ?_
  refine (yields_everywhere _).bind fun head _ => ?_
  have hbody := hahead .loop (name.taken + head.taken)
  dsimp only
  split
  · exact Region.mem_everywhere keyword
  · intro t ht
    cases hvalue : head.value with
    | range first last step =>
        rw [hvalue] at ht
        cases ht with
        | doRange hd ht => exact hbody _ hd t ht
    | list items =>
        rw [hvalue] at ht
        cases ht with
        | doIn hd ht => exact hbody _ hd t ht

theorem spells_step (inLoop : Bool) {t : Token} (ht : holds t) (rest : List Token) :
    (step scope ahead inLoop t rest).1.SpellsOnly holds := by
  have hsilent {d : Directive} (h : ∀ u, ¬d.Spells u) : (Step.directive d).SpellsOnly holds :=
    fun u hu => absurd hu (h u)
  unfold step
  split
  · exact hsilent (by rintro u ⟨⟩)
  split
  · exact ht
  split
  · exact hsilent (by rintro u ⟨⟩)
  split
  · exact spells_recover (spells_conditional hahead inLoop t.span rest)
  · exact spells_recover (spells_loop hahead t.span rest)
  · refine spells_recover ((spells_assignment rest).map fun _ hread => hread)
  · split
    · exact hsilent (by rintro u ⟨⟩)
    · exact hsilent (by rintro u ⟨⟩)
  · exact hsilent (by rintro u ⟨⟩)
  · exact hsilent (by rintro u ⟨⟩)
  · split
    · refine spells_recover ((yields_everywhere _).map fun _ _ => ?_)
      rintro u ⟨⟩
    · exact ht

end Blocks

theorem spells_blockOf (scope : Scope) (block : Block) {tokens : List Token}
    (h : ∀ t ∈ tokens, holds t) : SpellOnly holds (blockOf scope block tokens).directives := by
  induction hlength : tokens.length using Nat.strongRecOn generalizing block tokens with
  | _ n ih =>
    subst hlength
    cases tokens with
    | nil => exact .nil holds
    | cons t rest =>
        obtain ⟨ht, hrest⟩ := List.forall_mem_cons.mp h
        have hahead (inner : Block) (skipped : Nat) :
            SpellOnly holds (blockOf scope inner (rest.drop skipped)).directives := by
          refine ih _ ?_ inner (fun u hu => hrest u (List.mem_of_mem_drop hu)) rfl
          rw [List.length_drop, List.length_cons]
          omega
        rw [blockOf_cons, blockAt]
        split
        · exact .nil holds
        · exact (spells_step hahead block.inLoop ht rest).cons (hahead block _)

/-- A body has no text but that of its tokens. -/
theorem spells_compile (parameters : List Parameter) {tokens : List Token}
    (h : ∀ t ∈ tokens, holds t) : SpellOnly holds (compile parameters tokens) :=
  spells_blockOf ⟨parameters, finishOf tokens⟩ .body h

end Body

end CommandMacros

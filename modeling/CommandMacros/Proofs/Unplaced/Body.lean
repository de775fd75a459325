import CommandMacros.Body.Compile
import CommandMacros.Proofs.Unplaced.Basic

/-!
Compiling without places. The same tokens compile to the same directives up to places, wherever the
tokens stand. What does not compile fails with an error of an expression or a call.
-/

namespace CommandMacros

/-- The errors that a directive or an expression fails to compile with. -/
def MacroError.OfBody : MacroError → Prop
  | .evaluation _ | .call _ _ => True
  | _ => False

/-- The error of an invalid directive inside the directive. -/
inductive Directive.Holds (error : MacroError) : Directive → Prop
  | invalid (span : Span) : Holds error (.invalid error span)
  | thenBranch {condition : Expr} {thenBranch : List Directive}
      {elseBranch : Option (List Directive)} {d : Directive} (hd : d ∈ thenBranch)
      (h : Holds error d) : Holds error (.cond condition thenBranch elseBranch)
  | elseBranch {condition : Expr} {thenBranch branch : List Directive} {d : Directive}
      (hd : d ∈ branch) (h : Holds error d) :
      Holds error (.cond condition thenBranch (some branch))
  | doRange {variableName : String} {first last : Expr} {step : Option Expr}
      {body : List Directive} {span : Span} {d : Directive} (hd : d ∈ body) (h : Holds error d) :
      Holds error (.doRange variableName first last step body span)
  | doIn {variableName : String} {list : Expr} {body : List Directive} {span : Span}
      {d : Directive} (hd : d ∈ body) (h : Holds error d) :
      Holds error (.doIn variableName list body span)

/-- The directive did compile, and there are no directives inside it. -/
def Directive.isSimple : Directive → Bool
  | .invalid .. | .cond .. | .doRange .. | .doIn .. => false
  | _ => true

theorem Directive.not_holds_of_isSimple {d : Directive} (h : d.isSimple = true)
    (error : MacroError) : ¬d.Holds error := by
  intro hholds
  cases hholds <;> cases h

/-- Every error inside the directives is of the given kind. -/
def HoldOnly (errors : MacroError → Prop) (tree : List Directive) : Prop :=
  ∀ d ∈ tree, ∀ error, d.Holds error → errors error

/-! ### Parameters -/

namespace Parameters

variable (parameters : List Parameter)

theorem positionalCount_unplaced :
    positionalCount (parameters.map Parameter.unplaced) = positionalCount parameters := by
  rw [positionalCount, List.countP_map]
  rfl

theorem findKeyword?_unplaced (name : String) :
    findKeyword? (parameters.map Parameter.unplaced) name = findKeyword? parameters name := by
  rw [findKeyword?, List.findIdx?_map]
  rfl

theorem find?_unplaced (reference : String) :
    find? (parameters.map Parameter.unplaced) reference = find? parameters reference := by
  simp only [find?, positionalCount_unplaced, findKeyword?_unplaced]

end Parameters

namespace Body

def Scope.unplaced (scope : Scope) : Scope :=
  ⟨scope.parameters.map Parameter.unplaced, .point 0⟩

theorem callStart?_unplaced (t : Token) (rest : List Token) :
    callStart? t.unplaced (rest.map Token.unplaced) = callStart? t rest := by
  rw [callStart?, callStart?, nextIs_unplaced fun _ => rfl]
  rfl

/-! ### Operands -/

/-- The arguments of a call without their places, and no place for the call. -/
def unplacedCall (c : List Operand × Span) : List Operand × Span :=
  (Operand.unplacedAll c.1, .point 0)

theorem Operand.length_unplacedAll (operands : List Operand) :
    (Operand.unplacedAll operands).length = operands.length := by
  induction operands with
  | nil => rfl
  | cons operand others ih => exact congrArg (· + 1) ih

theorem alike_checkArity (function : Builtin) (arguments : List Operand) (span : Span) :
    Alike MacroError.OfBody (fun c other => other = unplacedCall c)
      (checkArity function arguments span)
      (checkArity function (Operand.unplacedAll arguments) (.point 0)) := by
  rw [checkArity, checkArity, Operand.length_unplacedAll]
  split
  · exact .ok rfl
  · exact .error trivial

section Readers

variable (scope : Scope)

theorem find?_scope_unplaced (reference : String) :
    Parameters.find? scope.unplaced.parameters reference =
      Parameters.find? scope.parameters reference :=
  Parameters.find?_unplaced scope.parameters reference

mutual

theorem alike_operand (t : Token) (rest : List Token) :
    ReadsAlike MacroError.OfBody Operand.unplaced (operand scope t rest)
      (operand scope.unplaced t.unplaced (rest.map Token.unplaced)) := by
  rw [operand, operand]
  refine .ite .rfl (fun _ => .ok (.leaving rfl rest)) (fun _ => ?_)
  refine .ite .rfl (fun _ => ?_) (fun _ => .ok (.leaving rfl rest))
  simp only [Token.text_unplaced, find?_scope_unplaced, callStart?_unplaced]
  cases Parameters.find? scope.parameters t.text with
  | some index => exact .ok (.leaving rfl rest)
  | none =>
      cases callStart? t rest with
      | some function => exact (alike_call function t rest).map fun _ _ h => h.map rfl
      | none => exact .ok (.leaving rfl rest)
termination_by (rest.length + 1, 1)

theorem alike_call (function : Builtin) (t : Token) (rest : List Token) :
    ReadsAlike MacroError.OfBody unplacedCall (call scope function t rest)
      (call scope.unplaced function t.unplaced (rest.map Token.unplaced)) := by
  match rest with
  | [] =>
    rw [List.map_nil, call, call]
    exact (alike_checkArity function [] t.span).map fun _ _ h => .leaving h []
  | opening :: inner =>
    rw [List.map_cons, call, call]
    refine .ite .rfl (fun _ => ?_) (fun _ => ?_)
    · refine (alike_arguments function t.span inner).bind fun listed other hlisted => ?_
      rw [hlisted.value]
      refine (alike_checkArity function listed.value.1 _).bind fun c other hc => ?_
      exact .ok (.afterOne (.afterOne (hlisted.map hc)))
    · exact (alike_checkArity function [] t.span).map fun _ _ h => .leaving h (opening :: inner)
termination_by (rest.length + 1, 0)

theorem alike_arguments (function : Builtin) (name : Span) (tokens : List Token) :
    ReadsAlike MacroError.OfBody unplacedCall (arguments scope function name tokens)
      (arguments scope.unplaced function (.point 0) (tokens.map Token.unplaced)) := by
  match tokens with
  | [] =>
    rw [List.map_nil, arguments, arguments]
    exact .error trivial
  | t :: rest =>
    rw [List.map_cons, arguments, arguments]
    refine .ite .rfl (fun _ => .ok (.leaving rfl rest)) (fun _ => ?_)
    refine (alike_operand t rest).bind fun first other hfirst => ?_
    refine hfirst.casesOnRest ?_ ?_
    · intros
      exact .error trivial
    · intro _ u others _ _ _ _ hu hread
      have hless := Parsed.rest_succ_le_of_rest_eq hu
      refine .ite .rfl (fun _ => ?_) (fun _ => .ite .rfl (fun _ => ?_) (fun _ => .error trivial))
      · refine (alike_arguments function name others).bind fun more other hmore => .ok ?_
        exact hread.afterToken rfl rfl (.afterOne (hmore.map rfl))
      · exact .ok ⟨rfl, rfl, rfl⟩
termination_by (tokens.length, 2)
decreasing_by
  · exact Prod.Lex.right _ (by decide)
  · exact Prod.Lex.left _ _ hless

end

/-! ### Expressions -/

mutual

theorem alike_expression {tokens others : List Token}
    (hothers : others = tokens.map Token.unplaced) :
    ReadsAlike MacroError.OfBody Expr.unplaced (expression scope tokens)
      (expression scope.unplaced others) := by
  subst hothers
  rw [expression, expression]
  refine (alike_conjunction tokens).bind fun left other hleft => ?_
  have := left.shorter
  exact alike_disjunctionTail hleft
termination_by (tokens.length, 4)

theorem alike_disjunctionTail {bound room : Nat} {left : Parsed Expr bound}
    {other : Parsed Expr room} (hleft : ParsedAlike Expr.unplaced left other) :
    ReadsAlike MacroError.OfBody Expr.unplaced (disjunctionTail scope left)
      (disjunctionTail scope.unplaced other) := by
  refine hleft.casesOnRest ?_ ?_
  · intros
    rw [disjunctionTail, disjunctionTail]
    exact .ok ⟨rfl, rfl, rfl⟩
  · intro _ t rest _ _ _ _ ht hread
    have hrest : rest.length < left.rest.length := Parsed.rest_lt_of_rest_eq ht
    rw [disjunctionTail, disjunctionTail]
    refine .ite .rfl (fun _ => ?_) (fun _ => .ok hread)
    refine (alike_conjunction rest).bind fun right other hright => ?_
    have hless : right.rest.length < left.rest.length := Nat.lt_trans right.shorter hrest
    exact alike_disjunctionTail (hread.afterToken rfl rfl (.afterOne (hright.map rfl)))
termination_by (left.rest.length, 5)

theorem alike_conjunction (tokens : List Token) :
    ReadsAlike MacroError.OfBody Expr.unplaced (conjunction scope tokens)
      (conjunction scope.unplaced (tokens.map Token.unplaced)) := by
  rw [conjunction, conjunction]
  refine (alike_negation tokens).bind fun left other hleft => ?_
  have := left.shorter
  exact alike_conjunctionTail hleft
termination_by (tokens.length, 3)

theorem alike_conjunctionTail {bound room : Nat} {left : Parsed Expr bound}
    {other : Parsed Expr room} (hleft : ParsedAlike Expr.unplaced left other) :
    ReadsAlike MacroError.OfBody Expr.unplaced (conjunctionTail scope left)
      (conjunctionTail scope.unplaced other) := by
  refine hleft.casesOnRest ?_ ?_
  · intros
    rw [conjunctionTail, conjunctionTail]
    exact .ok ⟨rfl, rfl, rfl⟩
  · intro _ t rest _ _ _ _ ht hread
    have hrest : rest.length < left.rest.length := Parsed.rest_lt_of_rest_eq ht
    rw [conjunctionTail, conjunctionTail]
    refine .ite .rfl (fun _ => ?_) (fun _ => .ok hread)
    refine (alike_negation rest).bind fun right other hright => ?_
    have hless : right.rest.length < left.rest.length := Nat.lt_trans right.shorter hrest
    exact alike_conjunctionTail (hread.afterToken rfl rfl (.afterOne (hright.map rfl)))
termination_by (left.rest.length, 5)

theorem alike_negation (tokens : List Token) :
    ReadsAlike MacroError.OfBody Expr.unplaced (negation scope tokens)
      (negation scope.unplaced (tokens.map Token.unplaced)) := by
  match tokens with
  | [] =>
    rw [List.map_nil, negation, negation]
    exact alike_comparison []
  | t :: rest =>
    rw [List.map_cons, negation, negation]
    refine .ite .rfl (fun _ => ?_) (fun _ => alike_comparison (t :: rest))
    exact (alike_negation rest).bind fun inner other hinner => .ok (.afterOne (hinner.map rfl))
termination_by (tokens.length, 2)

theorem alike_comparison (tokens : List Token) :
    ReadsAlike MacroError.OfBody Expr.unplaced (comparison scope tokens)
      (comparison scope.unplaced (tokens.map Token.unplaced)) := by
  rw [comparison, comparison]
  refine (alike_group tokens).bind fun left other hleft => ?_
  have hleftShorter := left.shorter
  refine hleft.casesOnRest ?_ ?_
  · intros
    exact .ok ⟨rfl, rfl, rfl⟩
  · intro _ t rest _ _ _ _ ht hread
    have hrest := Parsed.rest_lt_of_rest_eq ht
    have hrelation : Relation.ofToken? t.unplaced = Relation.ofToken? t := rfl
    dsimp only
    rw [hrelation]
    cases Relation.ofToken? t with
    | none => exact .ok hread
    | some relation =>
        refine (alike_group rest).bind fun right other hright => .ok ?_
        exact hread.afterToken rfl rfl (.afterOne (hright.map rfl))
termination_by (tokens.length, 1)

theorem alike_group (tokens : List Token) :
    ReadsAlike MacroError.OfBody Expr.unplaced (group scope tokens)
      (group scope.unplaced (tokens.map Token.unplaced)) := by
  match tokens with
  | [] =>
    rw [List.map_nil, group, group]
    exact .error trivial
  | t :: rest =>
    rw [List.map_cons, group, group]
    refine .ite .rfl (fun _ => ?_) (fun _ => .ite .rfl (fun _ => .error trivial) (fun _ => ?_))
    · refine (alike_expression rfl).bind fun inner other hinner => ?_
      refine (alike_expect scope.finish (fun _ => rfl) trivial hinner.rest).bind
        fun closing other hclosing => .ok ?_
      exact .afterOne (hinner.andThen (hclosing.map hinner.value))
    · exact (alike_operand scope t rest).bind fun leaf other hleaf => .ok (hleaf.map rfl)
termination_by (tokens.length, 0)

end

/-! ### The parts of directives -/

section Parts

variable {tokens others : List Token} (hothers : others = tokens.map Token.unplaced)

include hothers

theorem alike_variableName (directive : String) :
    ReadsAlike MacroError.OfBody id (variableName scope directive tokens)
      (variableName scope.unplaced directive others) := by
  refine (alike_expect scope.finish (fun _ => rfl) trivial hothers).bind fun t other ht => ?_
  rw [ht.value, Token.text_unplaced, find?_scope_unplaced]
  refine .ite .rfl (fun _ => .error trivial) (fun _ => .ok ?_)
  exact ht.map rfl

theorem alike_assignment :
    Alike MacroError.OfBody (fun read other => ParsedAlike Directive.unplaced read other ∧
      read.value.isSimple = true) (assignment scope tokens)
      (assignment scope.unplaced others) := by
  refine (alike_variableName scope hothers "!LET").bind fun name _ hname => ?_
  refine (alike_expect _ (fun _ => rfl) trivial hname.rest).bind fun equals _ hequals => ?_
  refine (alike_expression scope hequals.rest).bind fun value _ hvalue => .ok ⟨?_, rfl⟩
  refine hname.andThen (hequals.andThen (hvalue.map ?_))
  rw [hname.value]
  rfl

theorem alike_loopStep :
    ReadsAlike MacroError.OfBody (Option.map Expr.unplaced) (loopStep scope tokens)
      (loopStep scope.unplaced others) := by
  subst hothers
  cases tokens with
  | nil => exact .ok (.leaving rfl [])
  | cons t rest =>
      refine .ite .rfl (fun _ => ?_) (fun _ => .ok (.leaving rfl (t :: rest)))
      exact (alike_expression scope rfl).bind fun step _ hstep =>
        .ok (.afterOne (.afterOne (hstep.map rfl)))

def LoopHead.unplaced : LoopHead → LoopHead
  | .range first last step => .range first.unplaced last.unplaced (step.map Expr.unplaced)
  | .list items => .list items.unplaced

theorem alike_loopHead :
    ReadsAlike MacroError.OfBody LoopHead.unplaced (loopHead scope tokens)
      (loopHead scope.unplaced others) := by
  subst hothers
  cases tokens with
  | nil => exact .error trivial
  | cons t rest =>
      refine .ite .rfl (fun _ => ?_) (fun _ => .ite .rfl (fun _ => ?_) (fun _ => .error trivial))
      · exact (alike_expression scope rfl).bind fun list _ hlist => .ok (.afterOne (hlist.map rfl))
      · refine (alike_expression scope rfl).bind fun first _ hfirst => ?_
        refine (alike_expect scope.finish (fun _ => rfl) trivial hfirst.rest).bind
          fun limit _ hlimit => ?_
        refine (alike_expression scope hlimit.rest).bind fun last _ hlast => ?_
        refine (alike_loopStep scope hlast.rest).bind fun step _ hstep => .ok ?_
        refine .afterOne (hfirst.andThen (hlimit.andThen (hlast.andMaybe (hstep.map ?_))))
        rw [hfirst.value, hlast.value]
        rfl

theorem alike_conditionHead :
    ReadsAlike MacroError.OfBody Expr.unplaced (conditionHead scope tokens)
      (conditionHead scope.unplaced others) := by
  refine (alike_expression scope hothers).bind fun condition _ hcondition => ?_
  refine (alike_expect scope.finish (fun _ => rfl) trivial hcondition.rest).bind
    fun thenWord _ hthen => .ok ?_
  exact hcondition.andThen (hthen.map hcondition.value)

end Parts

/-! ### Blocks -/

/-- Directives and the same ones without their places. What failed to compile holds an error of a
body. -/
structure TreeAlike (tree other : List Directive) : Prop where
  unplaced : other = Directive.unplacedAll tree
  errors : HoldOnly MacroError.OfBody tree

theorem TreeAlike.nil : TreeAlike [] [] :=
  ⟨rfl, List.forall_mem_nil _⟩

structure CompiledAlike (compiled other : Compiled) : Prop where
  directives : TreeAlike compiled.directives other.directives
  taken : other.taken = compiled.taken

/-- What begins at a token, with places and without. -/
def StepAlike : Step → Step → Prop
  | .literal t, other => other = .literal t.unplaced
  | .directive d, other =>
    other = .directive d.unplaced ∧ ∀ error, d.Holds error → error.OfBody

/-- A directive and its length, with places and without. -/
def FoundAlike (found other : Directive × Nat) : Prop :=
  StepAlike (.directive found.1) (.directive other.1) ∧ other.2 = found.2

section Blocks

variable {ahead other : Ahead}
  (hahead : ∀ block skipped, CompiledAlike (ahead block skipped) (other block skipped))

include hahead

theorem alike_conditional (inLoop : Bool) (keyword : Span) (tokens : List Token) :
    Alike MacroError.OfBody FoundAlike (conditional scope ahead inLoop keyword tokens)
      (conditional scope.unplaced other inLoop (.point 0) (tokens.map Token.unplaced)) := by
  refine (alike_conditionHead scope rfl).bind fun condition _ hcondition => ?_
  have hthen := hahead (.thenBranch inLoop) condition.taken
  simp only [hcondition.taken, hcondition.value, hthen.taken, hthen.directives.unplaced,
    ← List.map_drop]
  cases tokens.drop (condition.taken + (ahead (.thenBranch inLoop) condition.taken).taken) with
  | nil => exact .error trivial
  | cons t rest =>
      refine .ite .rfl (fun _ => ?_) (fun _ => .ok ⟨⟨rfl, ?_⟩, rfl⟩)
      · have helse := hahead (.elseBranch inLoop)
          (condition.taken + (ahead (.thenBranch inLoop) condition.taken).taken + 1)
        simp only [helse.taken, helse.directives.unplaced, ← List.map_drop]
        cases rest.drop _ with
        | nil => exact .error trivial
        | cons ending left =>
            refine .ok ⟨⟨rfl, fun error hholds => ?_⟩, rfl⟩
            cases hholds with
            | thenBranch hd h => exact hthen.directives.errors _ hd error h
            | elseBranch hd h => exact helse.directives.errors _ hd error h
      · intro error hholds
        cases hholds with
        | thenBranch hd h => exact hthen.directives.errors _ hd error h

theorem alike_loop (keyword : Span) (tokens : List Token) :
    Alike MacroError.OfBody FoundAlike (loop scope ahead keyword tokens)
      (loop scope.unplaced other (.point 0) (tokens.map Token.unplaced)) := by
  refine (alike_variableName scope rfl "!DO").bind fun name _ hname => ?_
  refine (alike_loopHead scope hname.rest).bind fun head _ hhead => ?_
  have hbody := hahead .loop (name.taken + head.taken)
  simp only [hname.taken, hname.value, hhead.taken, hhead.value, hbody.taken,
    hbody.directives.unplaced, ← List.map_drop]
  cases tokens.drop _ with
  | nil => exact .error trivial
  | cons ending left =>
      cases head.value with
      | range first last step =>
          refine .ok ⟨⟨rfl, fun error hholds => ?_⟩, rfl⟩
          cases hholds with
          | doRange hd h => exact hbody.directives.errors _ hd error h
      | list items =>
          refine .ok ⟨⟨rfl, fun error hholds => ?_⟩, rfl⟩
          cases hholds with
          | doIn hd h => exact hbody.directives.errors _ hd error h

omit hahead in
theorem alike_recover {found unplaced : Except Fault (Directive × Nat)}
    (h : Alike MacroError.OfBody FoundAlike found unplaced) :
    StepAlike (recover found).1 (recover unplaced).1 ∧
      (recover unplaced).2 = (recover found).2 := by
  cases h with
  | ok h => exact h
  | error h =>
      refine ⟨⟨rfl, ?_⟩, rfl⟩
      rintro error ⟨⟩
      exact h

theorem alike_step (inLoop : Bool) (t : Token) (rest : List Token) :
    let found := step scope ahead inLoop t rest
    let unplaced := step scope.unplaced other inLoop t.unplaced (rest.map Token.unplaced)
    StepAlike found.1 unplaced.1 ∧ unplaced.2 = found.2 := by
  have hsimple (d : Directive) (hd : d.isSimple = true) :
      StepAlike (.directive d) (.directive d.unplaced) :=
    ⟨rfl, fun error h => absurd h (Directive.not_holds_of_isSimple hd error)⟩
  simp only [step, Token.isPunct_unplaced, Token.isMacroId_unplaced, Token.text_unplaced,
    Token.span_unplaced, find?_scope_unplaced, callStart?_unplaced]
  split
  · exact ⟨hsimple .allPositionals rfl, rfl⟩
  split
  · exact ⟨rfl, rfl⟩
  cases Parameters.find? scope.parameters t.text with
  | some index => exact ⟨hsimple (.parameter index) rfl, rfl⟩
  | none =>
      dsimp only
      split
      · exact alike_recover (alike_conditional scope hahead inLoop t.span rest)
      · exact alike_recover (alike_loop scope hahead t.span rest)
      · refine alike_recover ((alike_assignment scope rfl).map fun read _ hread => ?_)
        obtain ⟨hread, hvalue⟩ := hread
        rw [hread.value, hread.taken]
        exact ⟨hsimple read.value hvalue, rfl⟩
      · split
        · exact ⟨hsimple .breakLoop rfl, rfl⟩
        · exact alike_recover (.error trivial)
      · exact ⟨hsimple (.setExpand true) rfl, rfl⟩
      · exact ⟨hsimple (.setExpand false) rfl, rfl⟩
      · cases callStart? t rest with
        | some function =>
            refine alike_recover ((alike_call scope function t rest).map fun read _ hread => ?_)
            rw [hread.value, hread.taken]
            exact ⟨hsimple (.call function read.value.1 read.value.2) rfl, rfl⟩
        | none => exact ⟨rfl, rfl⟩

end Blocks

theorem alike_consLiteral (t : Token) {tree other : List Directive} (h : TreeAlike tree other) :
    TreeAlike (consLiteral t tree) (consLiteral t.unplaced other) := by
  obtain ⟨rfl, herrors⟩ := h
  have hliteral (tokens : List Token) (error : MacroError)
      (h : (Directive.literal tokens).Holds error) : error.OfBody :=
    absurd h (Directive.not_holds_of_isSimple rfl error)
  cases tree with
  | nil => exact ⟨rfl, List.forall_mem_singleton.mpr (hliteral [t])⟩
  | cons d others =>
      obtain ⟨hd, hothers⟩ := List.forall_mem_cons.mp herrors
      cases d with
      | literal tokens => exact ⟨rfl, List.forall_mem_cons.mpr ⟨hliteral (t :: tokens), hothers⟩⟩
      | _ => exact ⟨rfl, List.forall_mem_cons.mpr ⟨hliteral [t], herrors⟩⟩

theorem StepAlike.cons {first unplaced : Step} {tree other : List Directive}
    (hfirst : StepAlike first unplaced) (h : TreeAlike tree other) :
    TreeAlike (first.cons tree) (unplaced.cons other) := by
  cases first with
  | literal t =>
      obtain rfl := hfirst
      exact alike_consLiteral t h
  | directive d =>
      obtain ⟨rfl, hd⟩ := hfirst
      exact ⟨congrArg (d.unplaced :: ·) h.unplaced, List.forall_mem_cons.mpr ⟨hd, h.errors⟩⟩

theorem alike_blockAt {ahead other : Ahead}
    (hahead : ∀ block skipped, CompiledAlike (ahead block skipped) (other block skipped))
    (block : Block) (t : Token) (rest : List Token) :
    CompiledAlike (blockAt scope ahead block t rest)
      (blockAt scope.unplaced other block t.unplaced (rest.map Token.unplaced)) := by
  obtain ⟨hfirst, htaken⟩ := alike_step scope hahead block.inLoop t rest
  have hends : block.endsAt t.unplaced = block.endsAt t := rfl
  rw [blockAt, blockAt, hends]
  split
  · exact ⟨.nil, rfl⟩
  · dsimp only
    rw [htaken]
    have hothers := hahead block (step scope ahead block.inLoop t rest).2
    refine ⟨hfirst.cons hothers.directives, ?_⟩
    dsimp only
    rw [hothers.taken]

/-- Every block is the same up to places wherever its tokens stand. -/
theorem alike_blockOf (block : Block) (tokens : List Token) :
    CompiledAlike (blockOf scope block tokens)
      (blockOf scope.unplaced block (tokens.map Token.unplaced)) := by
  induction hlength : tokens.length using Nat.strongRecOn generalizing block tokens with
  | _ n ih =>
    subst hlength
    cases tokens with
    | nil => exact ⟨.nil, rfl⟩
    | cons t rest =>
        rw [List.map_cons, blockOf_cons, blockOf_cons]
        refine alike_blockAt scope (fun inner skipped => ?_) block t rest
        rw [← List.map_drop]
        refine ih _ ?_ inner (rest.drop skipped) rfl
        rw [List.length_drop, List.length_cons]
        omega

end Readers

/-- Compiling a body looks at no places. -/
theorem compile_unplaced (parameters : List Parameter) (tokens : List Token) :
    compile (parameters.map Parameter.unplaced) (tokens.map Token.unplaced) =
      Directive.unplacedAll (compile parameters tokens) := by
  rw [compile, finishOf_unplaced]
  exact (alike_blockOf ⟨parameters, finishOf tokens⟩ .body tokens).directives.unplaced

/-- What fails to compile in a body holds an error of a body. -/
theorem compile_holdOnly (parameters : List Parameter) (tokens : List Token) :
    HoldOnly MacroError.OfBody (compile parameters tokens) :=
  (alike_blockOf ⟨parameters, finishOf tokens⟩ .body tokens).directives.errors

end Body

end CommandMacros

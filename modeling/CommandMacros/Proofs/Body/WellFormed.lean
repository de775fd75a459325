import CommandMacros.Body.Compile
import CommandMacros.Proofs.Reading

/-!
Well-formed bodies. In a well-formed body every reference to a parameter is to one that exists,
every call has as many arguments as its function takes, a `!BREAK` stands in a loop, variables have
names of their own, and the plain text between directives is kept together and holds nothing that a
directive stands for. The places of its parts lie in a region.
-/

namespace CommandMacros

/-- What a body is well formed over: the parameters of its macro, and the region of its parts. -/
structure Ground where
  parameters : List Parameter
  region : Region

/-- Operands refer to parameters that exist, and calls have as many arguments as their functions
take. -/
inductive Operand.WellFormed (ground : Ground) : Operand → Prop
  | token (t : Token) : WellFormed ground (.token t)
  | parameter {index : Nat} (h : index < ground.parameters.length) :
      WellFormed ground (.parameter index)
  | allPositionals : WellFormed ground .allPositionals
  | call {function : Builtin} {arguments : List Operand} {span : Span}
      (hcount : function.accepts arguments.length = true)
      (harguments : ∀ argument ∈ arguments, WellFormed ground argument)
      (hspan : span ∈ ground.region) : WellFormed ground (.call function arguments span)

/-- All operands of the expression are well formed. -/
def Expr.WellFormed (ground : Ground) : Expr → Prop
  | .or left right | .and left right | .relation _ left right =>
    left.WellFormed ground ∧ right.WellFormed ground
  | .not inner => inner.WellFormed ground
  | .operand leaf => leaf.WellFormed ground

/-- The keywords that begin a directive wherever they stand. -/
def directiveKeywords : List String :=
  ["!IF", "!DO", "!LET", "!BREAK", "!ONEXPAND", "!OFFEXPAND"]

/-- A token that stands for itself in a body. -/
structure Token.IsPlain (ground : Ground) (t : Token) : Prop where
  not_bangAsterisk : t.isPunct .bangAsterisk = false
  not_parameter : t.isMacroId = true → Parameters.find? ground.parameters t.text = none
  not_keyword : ∀ keyword ∈ directiveKeywords, t.matchesKeyword keyword = false
  span_mem : t.span ∈ ground.region

/-- A name that a variable of a body can have. -/
structure IsVariableName (ground : Ground) (name : String) : Prop where
  isMarked : Token.isMarked name = true
  one_lt_length : 1 < name.length
  not_reserved : isReserved name = false
  not_parameter : Parameters.find? ground.parameters name = none

def Directive.isLiteral : Directive → Bool
  | .literal _ => true
  | _ => false

/-- Pieces of plain text that stand next to each other are one piece. -/
def LiteralsJoined : List Directive → Prop
  | [] => True
  | first :: rest =>
    (∀ second ∈ rest.head?, ¬(first.isLiteral = true ∧ second.isLiteral = true)) ∧
      LiteralsJoined rest

/-- A directive, in a loop or not, with everything inside it. -/
inductive Directive.WellFormed (ground : Ground) : Bool → Directive → Prop
  | literal {inLoop : Bool} {tokens : List Token} (hne : tokens ≠ [])
      (hplain : ∀ t ∈ tokens, t.IsPlain ground) : WellFormed ground inLoop (.literal tokens)
  | parameter {inLoop : Bool} {index : Nat} (h : index < ground.parameters.length) :
      WellFormed ground inLoop (.parameter index)
  | allPositionals {inLoop : Bool} : WellFormed ground inLoop .allPositionals
  | call {inLoop : Bool} {function : Builtin} {arguments : List Operand} {span : Span}
      (hcount : function.accepts arguments.length = true)
      (harguments : ∀ argument ∈ arguments, argument.WellFormed ground)
      (hspan : span ∈ ground.region) : WellFormed ground inLoop (.call function arguments span)
  | cond {inLoop : Bool} {condition : Expr} {thenBranch : List Directive}
      {elseBranch : Option (List Directive)} (hcondition : condition.WellFormed ground)
      (hthen : ∀ d ∈ thenBranch, WellFormed ground inLoop d)
      (hthenJoined : LiteralsJoined thenBranch)
      (helse : ∀ branch ∈ elseBranch, ∀ d ∈ branch, WellFormed ground inLoop d)
      (helseJoined : ∀ branch ∈ elseBranch, LiteralsJoined branch) :
      WellFormed ground inLoop (.cond condition thenBranch elseBranch)
  | doRange {inLoop : Bool} {variableName : String} {first last : Expr} {step : Option Expr}
      {body : List Directive} {span : Span} (hname : IsVariableName ground variableName)
      (hfirst : first.WellFormed ground) (hlast : last.WellFormed ground)
      (hstep : ∀ expr ∈ step, expr.WellFormed ground)
      (hbody : ∀ d ∈ body, WellFormed ground true d) (hjoined : LiteralsJoined body)
      (hspan : span ∈ ground.region) :
      WellFormed ground inLoop (.doRange variableName first last step body span)
  | doIn {inLoop : Bool} {variableName : String} {list : Expr} {body : List Directive} {span : Span}
      (hname : IsVariableName ground variableName) (hlist : list.WellFormed ground)
      (hbody : ∀ d ∈ body, WellFormed ground true d) (hjoined : LiteralsJoined body)
      (hspan : span ∈ ground.region) :
      WellFormed ground inLoop (.doIn variableName list body span)
  | assign {inLoop : Bool} {variableName : String} {value : Expr}
      (hname : IsVariableName ground variableName) (hvalue : value.WellFormed ground) :
      WellFormed ground inLoop (.assign variableName value)
  | setExpand {inLoop : Bool} (enabled : Bool) : WellFormed ground inLoop (.setExpand enabled)
  | breakLoop : WellFormed ground true .breakLoop
  | invalid {inLoop : Bool} {span : Span} (error : MacroError) (hspan : span ∈ ground.region) :
      WellFormed ground inLoop (.invalid error span)

/-- A body, or a branch or the body of a loop. -/
structure TreeWellFormed (ground : Ground) (inLoop : Bool) (tree : List Directive) : Prop where
  directives : ∀ d ∈ tree, d.WellFormed ground inLoop
  joined : LiteralsJoined tree

theorem Parameters.find?_lt {parameters : List Parameter} {reference : String} {index : Nat}
    (h : Parameters.find? parameters reference = some index) : index < parameters.length := by
  unfold Parameters.find? at h
  split at h
  · split at h
    · split at h
      · next n _ hn =>
          have hcount : positionalCount parameters ≤ parameters.length := List.countP_le_length
          cases h
          omega
      · cases h
    · exact List.findIdx?_eq_some_iff_findIdx_eq.mp h |>.1
  · cases h

namespace Body

/-! ### Operands -/

section Readers

variable {region : Region} {scope : Scope}

def Scope.ground (scope : Scope) (region : Region) : Ground :=
  ⟨scope.parameters, region⟩

theorem yields_checkArity (function : Builtin) {arguments : List Operand} {span : Span}
    (harguments : ∀ argument ∈ arguments, argument.WellFormed (scope.ground region))
    (hspan : span ∈ region) :
    Yields region (fun c => function.accepts c.1.length = true ∧
      (∀ argument ∈ c.1, argument.WellFormed (scope.ground region)) ∧ c.2 ∈ region)
      (checkArity function arguments span) := by
  unfold checkArity
  split
  · next hcount => exact ⟨hcount, harguments, hspan⟩
  · exact hspan

mutual

theorem reads_operand {t : Token} {rest : List Token} (h : Placed region (t :: rest)) :
    Reads region (·.WellFormed (scope.ground region)) (operand scope t rest) := by
  rw [operand]
  split
  · exact ⟨.allPositionals, h.tail⟩
  split
  · split
    · next index hindex => exact ⟨.parameter (Parameters.find?_lt hindex), h.tail⟩
    · split
      · next function _ =>
          refine (reads_call function h).map ?_
          rintro parsed ⟨⟨hcount, harguments, hspan⟩, hrest⟩
          exact ⟨.call hcount harguments hspan, hrest⟩
      · exact ⟨.token t, h.tail⟩
  · exact ⟨.token t, h.tail⟩
termination_by (rest.length + 1, 1)

theorem reads_call (function : Builtin) {t : Token} {rest : List Token}
    (h : Placed region (t :: rest)) :
    Reads region (fun c => function.accepts c.1.length = true ∧
      (∀ argument ∈ c.1, argument.WellFormed (scope.ground region)) ∧ c.2 ∈ region)
      (call scope function t rest) := by
  have hbare : ∀ argument ∈ ([] : List Operand), argument.WellFormed (scope.ground region) :=
    List.forall_mem_nil _
  match rest with
  | [] =>
    rw [call]
    exact (yields_checkArity function hbare h.head).map fun _ hc => ⟨hc, .nil region⟩
  | opening :: inner =>
    rw [call]
    split
    · refine (reads_arguments function h.head h.tail.tail).bind ?_
      rintro listed ⟨⟨harguments, hspan⟩, hrest⟩
      refine (yields_checkArity function harguments (region.through h.head hspan)).bind ?_
      exact fun c hc => ⟨hc, hrest⟩
    · exact (yields_checkArity function hbare h.head).map fun _ hc => ⟨hc, h.tail⟩
termination_by (rest.length + 1, 0)

theorem reads_arguments (function : Builtin) {name : Span} (hname : name ∈ region)
    {tokens : List Token} (h : Placed region tokens) :
    Reads region (fun c => (∀ argument ∈ c.1, argument.WellFormed (scope.ground region)) ∧
      c.2 ∈ region) (arguments scope function name tokens) := by
  match tokens with
  | [] =>
    rw [arguments]
    exact hname
  | t :: rest =>
    rw [arguments]
    split
    · exact ⟨⟨List.forall_mem_nil _, h.head⟩, h.tail⟩
    refine (reads_operand h).bind ?_
    rintro first ⟨hfirst, hrest⟩
    split
    · exact hname
    · next u others hu =>
        rw [hu] at hrest
        split
        · refine (reads_arguments function hname hrest.tail).bind ?_
          rintro more ⟨⟨hmore, hspan⟩, hleft⟩
          exact ⟨⟨List.forall_mem_cons.mpr ⟨hfirst, hmore⟩, hspan⟩, hleft⟩
        split
        · exact ⟨⟨List.forall_mem_singleton.mpr hfirst, hrest.head⟩, hrest.tail⟩
        · exact hrest.head
termination_by (tokens.length, 2)
decreasing_by
  · exact Prod.Lex.right _ (by decide)
  · exact Prod.Lex.left _ _ (Parsed.rest_succ_le_of_rest_eq ‹_›)

end

/-! ### Expressions -/

mutual

theorem reads_expression (hfinish : scope.finish ∈ region) {tokens : List Token}
    (h : Placed region tokens) :
    Reads region (·.WellFormed (scope.ground region)) (expression scope tokens) := by
  rw [expression]
  refine (reads_conjunction hfinish h).bind fun left hleft => ?_
  have := left.shorter
  exact reads_disjunctionTail hfinish hleft.1 hleft.2
termination_by (tokens.length, 4)

theorem reads_disjunctionTail (hfinish : scope.finish ∈ region) {bound : Nat}
    {left : Parsed Expr bound} (hleft : left.value.WellFormed (scope.ground region))
    (hrest : Placed region left.rest) :
    Reads region (·.WellFormed (scope.ground region)) (disjunctionTail scope left) := by
  rw [disjunctionTail]
  split
  · exact ⟨hleft, hrest⟩
  · next t rest ht =>
      split
      · rw [ht] at hrest
        refine (reads_conjunction hfinish hrest.tail).bind fun right hright => ?_
        exact reads_disjunctionTail hfinish ⟨hleft, hright.1⟩ hright.2
      · exact ⟨hleft, hrest⟩
termination_by (left.rest.length, 5)
decreasing_by
  · exact Prod.Lex.left _ _ (Parsed.rest_lt_of_rest_eq ‹_›)
  · exact Prod.Lex.left _ _ (Nat.lt_trans right.shorter (Parsed.rest_lt_of_rest_eq ‹_›))

theorem reads_conjunction (hfinish : scope.finish ∈ region) {tokens : List Token}
    (h : Placed region tokens) :
    Reads region (·.WellFormed (scope.ground region)) (conjunction scope tokens) := by
  rw [conjunction]
  refine (reads_negation hfinish h).bind fun left hleft => ?_
  have := left.shorter
  exact reads_conjunctionTail hfinish hleft.1 hleft.2
termination_by (tokens.length, 3)

theorem reads_conjunctionTail (hfinish : scope.finish ∈ region) {bound : Nat}
    {left : Parsed Expr bound} (hleft : left.value.WellFormed (scope.ground region))
    (hrest : Placed region left.rest) :
    Reads region (·.WellFormed (scope.ground region)) (conjunctionTail scope left) := by
  rw [conjunctionTail]
  split
  · exact ⟨hleft, hrest⟩
  · next t rest ht =>
      split
      · rw [ht] at hrest
        refine (reads_negation hfinish hrest.tail).bind fun right hright => ?_
        exact reads_conjunctionTail hfinish ⟨hleft, hright.1⟩ hright.2
      · exact ⟨hleft, hrest⟩
termination_by (left.rest.length, 5)
decreasing_by
  · exact Prod.Lex.left _ _ (Parsed.rest_lt_of_rest_eq ‹_›)
  · exact Prod.Lex.left _ _ (Nat.lt_trans right.shorter (Parsed.rest_lt_of_rest_eq ‹_›))

theorem reads_negation (hfinish : scope.finish ∈ region) {tokens : List Token}
    (h : Placed region tokens) :
    Reads region (·.WellFormed (scope.ground region)) (negation scope tokens) := by
  match tokens with
  | [] =>
    rw [negation]
    exact reads_comparison hfinish h
  | t :: rest =>
    rw [negation]
    split
    · exact (reads_negation hfinish h.tail).bind fun inner hinner => ⟨hinner.1, hinner.2⟩
    · exact reads_comparison hfinish h
termination_by (tokens.length, 2)

theorem reads_comparison (hfinish : scope.finish ∈ region) {tokens : List Token}
    (h : Placed region tokens) :
    Reads region (·.WellFormed (scope.ground region)) (comparison scope tokens) := by
  rw [comparison]
  refine (reads_group hfinish h).bind fun left hleft => ?_
  split
  · exact hleft
  · next t rest ht =>
      have hrest := hleft.2
      rw [ht] at hrest
      have := Parsed.rest_lt_of_rest_eq ht
      have := left.shorter
      split
      · exact hleft
      · exact (reads_group hfinish hrest.tail).bind fun _ hright =>
          ⟨⟨hleft.1, hright.1⟩, hright.2⟩
termination_by (tokens.length, 1)

theorem reads_group (hfinish : scope.finish ∈ region) {tokens : List Token}
    (h : Placed region tokens) :
    Reads region (·.WellFormed (scope.ground region)) (group scope tokens) := by
  match tokens with
  | [] =>
    rw [group]
    exact hfinish
  | t :: rest =>
    rw [group]
    split
    · refine (reads_expression hfinish h.tail).bind fun inner hinner => ?_
      refine (reads_expect hfinish _ _ hinner.2).bind fun closing hclosing => ?_
      exact ⟨hinner.1, hclosing.2⟩
    split
    · exact h.head
    · exact (reads_operand h).bind fun leaf hleaf => hleaf
termination_by (tokens.length, 0)

end

end Readers

end Body

end CommandMacros

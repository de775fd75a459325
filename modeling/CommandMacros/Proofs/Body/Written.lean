import CommandMacros.Proofs.Body.ReadBack
import CommandMacros.Proofs.Unplaced.Body

/-!
Expressions as they are written. Each operator has several spellings, and the tokens stand wherever
they do; parentheses are put only where the precedence of the operators needs them. However it is
written, the expression that is read is the one that was meant, and the reader stops after its last
token. The names of parameters come first: a function that a parameter is called after cannot be
written.
-/

namespace CommandMacros

/-- What carries on nothing that could go on with a relation carries on nothing. -/
theorem Token.carriesOn_of_true {t : Token} (h : t.carriesOn true = false) (isOpen : Bool) :
    t.carriesOn isOpen = false := by
  cases isOpen with
  | true => exact h
  | false =>
      obtain ⟨hoperator, _⟩ := Bool.or_eq_false_iff.mp h
      rw [carriesOn, hoperator]
      rfl

/-! ### Places -/

theorem reference_unplaced (parameters : List Parameter) (index : Nat) :
    (Parameters.reference parameters index).unplaced = Parameters.reference parameters index := by
  unfold Parameters.reference
  split <;> rfl

mutual

/-- Without its places, an operand is printed without places. -/
theorem print_unplaced (parameters : List Parameter) (leaf : Operand) :
    (leaf.print parameters).map Token.unplaced = leaf.unplaced.print parameters := by
  match leaf with
  | .token t => rfl
  | .parameter index => exact congrArg (fun t => [t]) (reference_unplaced parameters index)
  | .allPositionals => rfl
  | .call function arguments span =>
    rw [Operand.print, List.map_cons, List.map_cons, printArguments_unplaced]
    rfl

theorem printArguments_unplaced (parameters : List Parameter) (call : Span)
    (list : List Operand) :
    (Operand.printArguments parameters call list).map Token.unplaced =
      Operand.printArguments parameters (.point 0) (Operand.unplacedAll list) := by
  match list with
  | [] => rfl
  | [last] =>
    rw [Operand.printArguments, List.map_append, print_unplaced]
    rfl
  | first :: second :: others =>
    rw [Operand.printArguments, List.map_append, List.map_cons, print_unplaced,
      printArguments_unplaced]
    rfl

end

mutual

theorem Operand.unplaced_unplaced (leaf : Operand) : leaf.unplaced.unplaced = leaf.unplaced := by
  match leaf with
  | .token t => rfl
  | .parameter index => rfl
  | .allPositionals => rfl
  | .call function arguments span =>
    rw [Operand.unplaced, Operand.unplaced, Operand.unplacedAll_unplacedAll]

theorem Operand.unplacedAll_unplacedAll (list : List Operand) :
    Operand.unplacedAll (Operand.unplacedAll list) = Operand.unplacedAll list := by
  match list with
  | [] => rfl
  | first :: others =>
    rw [Operand.unplacedAll, Operand.unplacedAll, Operand.unplaced_unplaced,
      Operand.unplacedAll_unplacedAll]

end

theorem Expr.unplaced_unplaced (e : Expr) : e.unplaced.unplaced = e.unplaced := by
  induction e with
  | or left right ihleft ihright | and left right ihleft ihright
  | relation _ left right ihleft ihright => simp only [unplaced, ihleft, ihright]
  | not inner ih => simp only [unplaced, ih]
  | operand leaf => simp only [unplaced, Operand.unplaced_unplaced]

theorem Token.IsLeaf.unplaced {parameters : List Parameter} {t : Token} (h : t.IsLeaf parameters) :
    t.unplaced.IsLeaf parameters :=
  ⟨h.not_leftParen, h.not_rightParen, h.not_comma, h.not_end, h.not_not, h.not_bangAsterisk,
    h.not_parameter, h.not_function⟩

mutual

/-- An operand without its places is as well formed and as legible as before. -/
theorem readable_unplaced {parameters : List Parameter} {callable : Builtin → Prop}
    {region : Region} (leaf : Operand) (hwell : leaf.WellFormed ⟨parameters, region⟩)
    (hlegible : leaf.Legible parameters callable) :
    leaf.unplaced.WellFormed ⟨parameters, .forward⟩ ∧
      leaf.unplaced.Legible parameters callable := by
  match leaf with
  | .token t =>
    cases hlegible with
    | token ht => exact ⟨.token _, .token ht.unplaced⟩
  | .parameter index =>
    cases hwell with
    | parameter hindex => exact ⟨.parameter hindex, .parameter index⟩
  | .allPositionals => exact ⟨.allPositionals, .allPositionals⟩
  | .call function arguments span =>
    cases hwell with
    | call hcount harguments _ =>
        cases hlegible with
        | call hfunction hleaves =>
            have hall := readable_unplacedAll arguments harguments hleaves
            rw [← Body.Operand.length_unplacedAll] at hcount
            exact ⟨.call hcount (fun leaf hleaf => (hall leaf hleaf).1) Region.forward.zero,
              .call hfunction fun leaf hleaf => (hall leaf hleaf).2⟩

theorem readable_unplacedAll {parameters : List Parameter} {callable : Builtin → Prop}
    {region : Region} (list : List Operand)
    (hwell : ∀ leaf ∈ list, leaf.WellFormed ⟨parameters, region⟩)
    (hlegible : ∀ leaf ∈ list, leaf.Legible parameters callable) :
    ∀ leaf ∈ Operand.unplacedAll list,
      leaf.WellFormed ⟨parameters, .forward⟩ ∧ leaf.Legible parameters callable := by
  match list with
  | [] => exact List.forall_mem_nil _
  | first :: others =>
    obtain ⟨hfirst, hothers⟩ := List.forall_mem_cons.mp hwell
    obtain ⟨hfirstLegible, hothersLegible⟩ := List.forall_mem_cons.mp hlegible
    exact List.forall_mem_cons.mpr ⟨readable_unplaced first hfirst hfirstLegible,
      readable_unplacedAll others hothers hothersLegible⟩

end

namespace Expr

variable {parameters : List Parameter} {level : Level} {e : Expr} {tokens : List Token}

theorem enclose_unplaced (needed : Bool) (tokens : List Token) :
    (enclose needed tokens).map Token.unplaced = enclose needed (tokens.map Token.unplaced) := by
  cases needed with
  | true => simp [enclose, Token.unplaced, Token.sign]
  | false => rfl

theorem Each.unplaced {condition other : Operand → Prop}
    (hleaf : ∀ leaf, condition leaf → other leaf.unplaced) (h : e.Each condition) :
    e.unplaced.Each other := by
  induction e with
  | or left right ihleft ihright | and left right ihleft ihright
  | relation _ left right ihleft ihright => exact ⟨ihleft h.1, ihright h.2⟩
  | not inner ih => exact ih h
  | operand leaf => exact hleaf leaf h

/-- Without their places, the tokens write the expression without its places. -/
theorem Written.unplaced (h : e.Written parameters level tokens) :
    e.unplaced.Written parameters level (tokens.map Token.unplaced) := by
  induction h with
  | or _ ht _ level ihleft ihright =>
      rw [enclose_unplaced, List.map_append, List.map_cons]
      exact .or ihleft (by exact ht) ihright level
  | and _ ht _ level ihleft ihright =>
      rw [enclose_unplaced, List.map_append, List.map_cons]
      exact .and ihleft (by exact ht) ihright level
  | not ht _ level ih =>
      rw [enclose_unplaced, List.map_cons]
      exact .not (by exact ht) ih level
  | relation _ ht _ level ihleft ihright =>
      rw [enclose_unplaced, List.map_append, List.map_cons]
      exact .relation ihleft (by exact ht) ihright level
  | operand leaf level =>
      rw [print_unplaced]
      exact .operand leaf.unplaced level

end Expr

namespace Body

/-! ### What readers leave -/

/-- The reader leaves the last of the tokens. -/
def Leaves {α : Type} {bound : Nat} (tokens : List Token)
    (result : Except Fault (Parsed α bound)) : Prop :=
  Yields .everywhere (fun parsed => parsed.rest <:+ tokens) result

section Leaving

variable {scope : Scope}

theorem Leaves.of_suffix {α : Type} {bound : Nat} {tokens others : List Token}
    {result : Except Fault (Parsed α bound)} (h : Leaves tokens result)
    (hsuffix : tokens <:+ others) : Leaves others result :=
  Yields.mono h fun _ hrest => hrest.trans hsuffix

theorem leaves_expect (finish : Span) (test : Token → Bool) (error : MacroError)
    (tokens : List Token) : Leaves tokens (expect finish test error tokens) := by
  cases tokens with
  | nil => exact Region.mem_everywhere _
  | cons t rest =>
      rw [expect]
      split
      · exact List.suffix_cons t rest
      · exact Region.mem_everywhere _

mutual

theorem leaves_operand (t : Token) (rest : List Token) :
    Leaves rest (operand scope t rest) := by
  rw [operand]
  split
  · exact List.suffix_refl rest
  split
  · split
    · exact List.suffix_refl rest
    · split
      · next function _ => exact Yields.map (leaves_call function t rest) fun _ hrest => hrest
      · exact List.suffix_refl rest
  · exact List.suffix_refl rest
termination_by (rest.length + 1, 1)

theorem leaves_call (function : Builtin) (t : Token) (rest : List Token) :
    Leaves rest (call scope function t rest) := by
  match rest with
  | [] =>
    rw [call]
    exact Yields.map (yields_everywhere _) fun _ _ => List.suffix_refl []
  | opening :: inner =>
    rw [call]
    split
    · refine Yields.bind (leaves_arguments function t.span inner) fun listed hlisted => ?_
      refine Yields.bind (yields_everywhere _) fun _ _ => ?_
      exact hlisted.trans (List.suffix_cons opening inner)
    · exact Yields.map (yields_everywhere _) fun _ _ => List.suffix_refl _
termination_by (rest.length + 1, 0)

theorem leaves_arguments (function : Builtin) (name : Span) (tokens : List Token) :
    Leaves tokens (arguments scope function name tokens) := by
  match tokens with
  | [] =>
    rw [arguments]
    exact Region.mem_everywhere _
  | t :: rest =>
    rw [arguments]
    split
    · exact List.suffix_cons t rest
    · refine Yields.bind (leaves_operand t rest) fun first hfirst => ?_
      split
      · exact Region.mem_everywhere _
      · next u others hu =>
          have hless := Parsed.rest_succ_le_of_rest_eq hu
          have hothers : others <:+ t :: rest := by
            rw [hu] at hfirst
            exact (List.suffix_cons u others).trans (hfirst.trans (List.suffix_cons t rest))
          split
          · exact Yields.bind (leaves_arguments function name others) fun more hmore =>
              hmore.trans hothers
          split
          · exact hothers
          · exact Region.mem_everywhere _
termination_by (tokens.length, 2)
decreasing_by
  · exact Prod.Lex.right _ (by decide)
  · exact Prod.Lex.left _ _ hless

end

mutual

theorem leaves_expression (tokens : List Token) : Leaves tokens (expression scope tokens) := by
  rw [expression]
  refine Yields.bind (leaves_conjunction tokens) fun left hleft => ?_
  have := left.shorter
  exact (leaves_disjunctionTail left).of_suffix hleft
termination_by (tokens.length, 4)

theorem leaves_disjunctionTail {bound : Nat} (left : Parsed Expr bound) :
    Leaves left.rest (disjunctionTail scope left) := by
  rw [disjunctionTail]
  split
  · exact List.suffix_refl _
  · next t rest ht =>
      have hrest := Parsed.rest_lt_of_rest_eq ht
      split
      · refine Yields.bind (leaves_conjunction rest) fun right hright => ?_
        have hless : right.rest.length < left.rest.length := Nat.lt_trans right.shorter hrest
        have hsuffix : right.rest <:+ left.rest := by
          rw [ht]
          exact hright.trans (List.suffix_cons t rest)
        exact (leaves_disjunctionTail _).of_suffix hsuffix
      · exact List.suffix_refl _
termination_by (left.rest.length, 5)

theorem leaves_conjunction (tokens : List Token) : Leaves tokens (conjunction scope tokens) := by
  rw [conjunction]
  refine Yields.bind (leaves_negation tokens) fun left hleft => ?_
  have := left.shorter
  exact (leaves_conjunctionTail left).of_suffix hleft
termination_by (tokens.length, 3)

theorem leaves_conjunctionTail {bound : Nat} (left : Parsed Expr bound) :
    Leaves left.rest (conjunctionTail scope left) := by
  rw [conjunctionTail]
  split
  · exact List.suffix_refl _
  · next t rest ht =>
      have hrest := Parsed.rest_lt_of_rest_eq ht
      split
      · refine Yields.bind (leaves_negation rest) fun right hright => ?_
        have hless : right.rest.length < left.rest.length := Nat.lt_trans right.shorter hrest
        have hsuffix : right.rest <:+ left.rest := by
          rw [ht]
          exact hright.trans (List.suffix_cons t rest)
        exact (leaves_conjunctionTail _).of_suffix hsuffix
      · exact List.suffix_refl _
termination_by (left.rest.length, 5)

theorem leaves_negation (tokens : List Token) : Leaves tokens (negation scope tokens) := by
  match tokens with
  | [] =>
    rw [negation]
    exact leaves_comparison []
  | t :: rest =>
    rw [negation]
    split
    · exact Yields.bind (leaves_negation rest) fun _ hinner =>
        hinner.trans (List.suffix_cons t rest)
    · exact leaves_comparison (t :: rest)
termination_by (tokens.length, 2)

theorem leaves_comparison (tokens : List Token) : Leaves tokens (comparison scope tokens) := by
  rw [comparison]
  refine Yields.bind (leaves_group tokens) fun left hleft => ?_
  have hshorter := left.shorter
  split
  · exact hleft
  · next t rest ht =>
      have hless := Parsed.rest_lt_of_rest_eq ht
      dsimp only
      split
      · exact hleft
      · rw [ht] at hleft
        exact Yields.bind (leaves_group rest) fun _ hright =>
          hright.trans ((List.suffix_cons t rest).trans hleft)
termination_by (tokens.length, 1)

theorem leaves_group (tokens : List Token) : Leaves tokens (group scope tokens) := by
  match tokens with
  | [] =>
    rw [group]
    exact Region.mem_everywhere _
  | t :: rest =>
    rw [group]
    split
    · refine Yields.bind (leaves_expression rest) fun inner hinner => ?_
      exact Yields.bind (leaves_expect ..) fun _ hclosing =>
        hclosing.trans (hinner.trans (List.suffix_cons t rest))
    split
    · exact Region.mem_everywhere _
    · exact Yields.bind (leaves_operand t rest) fun _ hleaf =>
        hleaf.trans (List.suffix_cons t rest)
termination_by (tokens.length, 0)

end

end Leaving

/-- Reading looks at no places: what is read from the tokens without them is read from the tokens
with them, up to places. -/
theorem gives_of_unplaced {scope : Scope} {tokens rest : List Token} {e : Expr}
    (h : Gives (expression scope ((tokens ++ rest).map Token.unplaced)) e
      (rest.map Token.unplaced)) :
    ∃ read, Gives (expression scope (tokens ++ rest)) read rest ∧ read.unplaced = e.unplaced := by
  have hplaced : ReadsAlike MacroError.OfBody Expr.unplaced (expression scope (tokens ++ rest))
      (expression scope.unplaced ((tokens ++ rest).map Token.unplaced)) :=
    alike_expression scope rfl
  have hunplaced : ReadsAlike MacroError.OfBody Expr.unplaced
      (expression scope ((tokens ++ rest).map Token.unplaced))
      (expression scope.unplaced ((tokens ++ rest).map Token.unplaced)) := by
    refine alike_expression scope ?_
    rw [List.map_map]
    rfl
  obtain ⟨parsed, hparsed, rfl, hleft⟩ := h
  rw [hparsed] at hunplaced
  have hleaves : Leaves (tokens ++ rest) (expression scope (tokens ++ rest)) :=
    leaves_expression (tokens ++ rest)
  generalize expression scope.unplaced ((tokens ++ rest).map Token.unplaced) = other
    at hplaced hunplaced
  generalize expression scope (tokens ++ rest) = result at hplaced hleaves ⊢
  cases hunplaced with
  | ok hsame =>
      cases hplaced with
      | @ok read _ hread =>
          refine ⟨read.value, gives_ok.mpr ⟨rfl, ?_⟩, hread.value.symm.trans hsame.value⟩
          have hlength : read.rest.length = rest.length := by
            have hmaps := hread.rest.symm.trans hsame.rest
            rw [hleft] at hmaps
            simpa using congrArg List.length hmaps
          have hsuffix : read.rest <:+ rest :=
            List.suffix_of_suffix_length_le hleaves (List.suffix_append tokens rest)
              (Nat.le_of_eq hlength)
          exact hsuffix.eq_of_length hlength

end Body

namespace Definition

/-- Expressions are read with the precedence of their operators. Over the parameters of a
definition, an expression that calls no function hidden by a parameter is read up to places from any
way to write it, wherever the tokens stand, and what is left is what stands after it. -/
theorem expression_of_written {tokens : List Token} {d : Definition} {e : Expr}
    (hparse : parse tokens = .ok d)
    (hspelled : ∀ t ∈ tokens, t.isIdentifier = true → Scan.Shape .identifier t.text.toList)
    (hnot : ∀ p ∈ d.parameters, ∀ name, p.keyword? = some name → name ≠ "NOT")
    (hcount : d.parameters.length < 2 * Number.wordBound)
    (hwell : e.WellFormed ⟨d.parameters, .everywhere⟩)
    (hlegible : e.Each (·.Legible d.parameters (Parameters.Callable d.parameters))) :
    e.Written d.parameters .disjunction (e.print d.parameters .disjunction) ∧
      ∀ finish printed written rest, e.Written d.parameters .disjunction printed →
        written.map Token.unplaced = printed.map Token.unplaced →
        (∀ t ∈ rest.head?, t.carriesOn true = false) →
        ∃ read, Gives (Body.expression ⟨d.parameters, finish⟩ (written ++ rest)) read rest ∧
          read.unplaced = e.unplaced := by
  refine ⟨Expr.written_print .., ?_⟩
  intro finish printed written rest hwritten hplaces hrest
  have hresolvable : Parameters.Resolvable d.parameters :=
    Parameters.resolvable (parse_eq_ok_iff.mp hparse).2.ordered
      (fun _ hp _ => isStoredName_of_parse hparse hspelled hp) hnot hcount
  have heach : e.unplaced.Each fun leaf => leaf.WellFormed ⟨d.parameters, .forward⟩ ∧
      leaf.Legible d.parameters (Parameters.Callable d.parameters) :=
    Expr.Each.unplaced (fun leaf h => readable_unplaced leaf h.1 h.2) (Expr.each_and hwell hlegible)
  have hlevel : e.unplaced.Spelled (Body.TakenAs ⟨d.parameters, finish⟩) .disjunction
      (e.unplaced.endsOpen .disjunction) (written.map Token.unplaced) := by
    rw [hplaces]
    exact hwritten.unplaced.spelled
      (fun _ h => Body.takenAs_print hresolvable (fun _ hspan => hspan) h.1 h.2) heach
  have hstops : ∀ t ∈ (rest.map Token.unplaced).head?,
      t.carriesOn (e.unplaced.endsOpen .disjunction) = false := by
    rw [List.head?_map]
    intro t ht
    obtain ⟨u, hu, rfl⟩ := Option.map_eq_some_iff.mp ht
    exact Token.carriesOn_of_true (hrest u hu) _
  have hgives := Body.gives_expression_of_spelled (fun _ _ h => h) hlevel hstops
  rw [← List.map_append] at hgives
  obtain ⟨read, hread, hsame⟩ := Body.gives_of_unplaced hgives
  exact ⟨read, hread, hsame.trans e.unplaced_unplaced⟩

/-- One parameter called `K`. -/
def oneParameter : List Parameter :=
  [{ role := .keyword "K", capture := .commandEnd }]

/-- `~ !K ~= a | ( b | !* ) & !HEAD ( c )` -/
def mixed : Expr :=
  .or
    (.not (.relation .notEqual (.operand (.parameter 0)) (.operand (.token (.keyword "a")))))
    (.and (.or (.operand (.token (.keyword "b"))) (.operand .allPositionals))
      (.operand (.call .head [.token (.keyword "c")] (.point 0))))

/-- `!not !K ne a !Or ( b | !* ) & !HEAD ( c )` -/
def mixedTokens : List Token :=
  [.keyword "!not", .keyword "!K", .keyword "ne", .keyword "a", .keyword "!Or",
    .sign .leftParen (.point 0), .keyword "b", .sign .or (.point 0), .sign .bangAsterisk (.point 0),
    .sign .rightParen (.point 0), .sign .and (.point 0), .keyword "!HEAD",
    .sign .leftParen (.point 0), .keyword "c", .sign .rightParen (.point 0)]

theorem written_mixed : mixed.Written oneParameter .disjunction mixedTokens := by
  have hnotEqual : Relation.notEqual.SpelledBy (.keyword "ne") := .inr (.inl (by decide))
  have hleft : (Expr.not (.relation .notEqual (.operand (.parameter 0))
      (.operand (.token (.keyword "a"))))).Written oneParameter .disjunction
      [.keyword "!not", .keyword "!K", .keyword "ne", .keyword "a"] :=
    .not (by decide) (.relation (.operand (.parameter 0) .group) hnotEqual
      (.operand (.token (.keyword "a")) .group) .negation) .disjunction
  have hgroup : (Expr.or (.operand (.token (.keyword "b"))) (.operand .allPositionals)).Written
      oneParameter .conjunction [.sign .leftParen (.point 0), .keyword "b", .sign .or (.point 0),
        .sign .bangAsterisk (.point 0), .sign .rightParen (.point 0)] :=
    .or (.operand (.token (.keyword "b")) .disjunction) rfl
      (.operand .allPositionals .conjunction) .conjunction
  exact .or hleft (by decide) (.and hgroup rfl (.operand _ .negation) .conjunction) .disjunction

/-- An expression with all kinds of operators and operands, at another place. -/
theorem expression_of_mixed :
    let declared := declaring [.word "K" (.point 0), .word "!CMDEND" (.point 0)]
    let written := mixedTokens.map fun t => { t with span := ⟨3, 4⟩ }
    parse declared = .ok { name := "m", span := .point 0, parameters := oneParameter, body := [] } ∧
      mixed.WellFormed ⟨oneParameter, .everywhere⟩ ∧
      mixed.Each (·.Legible oneParameter (Parameters.Callable oneParameter)) ∧
      mixed.Written oneParameter .disjunction mixedTokens ∧
      ∃ read, Gives (Body.expression ⟨oneParameter, .point 0⟩
        (written ++ [.keyword "!THEN"])) read [.keyword "!THEN"] ∧
        read.unplaced = mixed.unplaced := by
  intro declared written
  have hparse : parse declared =
      .ok { name := "m", span := .point 0, parameters := oneParameter, body := [] } := by
    refine parse_declaring (.last (writesParameter_commandEnd ?_)) ?_
    · exact .keyword rfl (by decide) (by decide)
    · exact ⟨List.forall_mem_singleton.mpr ⟨trivial, nofun⟩, List.pairwise_singleton ..⟩
  have hheads : ∀ t ∈ declared, t.isIdentifier = true →
      (t.text.toList.head?.any fun c => c == '!' || Scan.isNameStart c) = true := by decide
  have hnot : ∀ p ∈ oneParameter, ∀ name, p.keyword? = some name → name ≠ "NOT" := by
    refine List.forall_mem_singleton.mpr ?_
    rintro _ ⟨⟩
    decide
  have hleaf : ∀ text ∈ ["a", "b", "c"], (Token.keyword text).IsLeaf oneParameter := by
    have hall : ∀ text ∈ ["a", "b", "c"], Body.isNot (.keyword text) = false ∧
        (Token.keyword text).namesFunction = false ∧
        Parameters.find? oneParameter text = none := by decide
    intro text htext
    obtain ⟨hnot, hfunction, hparameter⟩ := hall text htext
    exact ⟨rfl, rfl, rfl, rfl, hnot, rfl, fun _ => hparameter, hfunction⟩
  have hwell : mixed.WellFormed ⟨oneParameter, .everywhere⟩ := by
    refine ⟨⟨.parameter (by decide), .token _⟩, ⟨.token _, .allPositionals⟩, ?_⟩
    exact .call (by decide) (List.forall_mem_singleton.mpr (.token _)) trivial
  have hlegible : mixed.Each (·.Legible oneParameter (Parameters.Callable oneParameter)) := by
    refine ⟨⟨.parameter 0, .token (hleaf "a" (by decide))⟩,
      ⟨.token (hleaf "b" (by decide)), .allPositionals⟩, ?_⟩
    exact .call (by decide) (List.forall_mem_singleton.mpr (.token (hleaf "c" (by decide))))
  obtain ⟨-, hread⟩ := expression_of_written hparse
    (fun t ht hname => shape_of_head (hheads t ht hname)) hnot (by decide) hwell hlegible
  refine ⟨hparse, hwell, hlegible, written_mixed, ?_⟩
  refine hread (.point 0) mixedTokens written [.keyword "!THEN"] written_mixed ?_ (by decide)
  rw [List.map_map]
  rfl

/-- A parameter hides the function of its name: the call is read as a reference to the parameter,
and its arguments are left. -/
theorem hidden_function_not_read :
    let e : Expr := .operand (.call .head [.token (.keyword "x")] (.point 0))
    let printed := e.print headParameters .disjunction
    parse (declaring [.word "HEAD" (.point 0), .word "!CMDEND" (.point 0)]) =
        .ok { name := "m", span := .point 0, parameters := headParameters, body := [] } ∧
      (∀ p ∈ headParameters, p.keyword? ≠ some "NOT") ∧
      e.WellFormed ⟨headParameters, .everywhere⟩ ∧
      e.Each (·.Legible headParameters fun _ => True) ∧
      e.Written headParameters .disjunction printed ∧
      Gives (Body.expression ⟨headParameters, .point 0⟩ printed) (.operand (.parameter 0))
        [.sign .leftParen (.point 0), .keyword "x", .sign .rightParen (.point 0)] ∧
      ¬∃ read, Gives (Body.expression ⟨headParameters, .point 0⟩ printed) read [] ∧
        read.unplaced = e.unplaced := by
  intro e printed
  let left : List Token :=
    [.sign .leftParen (.point 0), .keyword "x", .sign .rightParen (.point 0)]
  have hstored : ∀ p ∈ headParameters, ∀ name, p.keyword? = some name → IsStoredName name := by
    refine List.forall_mem_singleton.mpr ?_
    rintro _ ⟨⟩
    exact ⟨by decide, 'H', ['E', 'A', 'D'], rfl,
      Text.isCapital_of_toNat (.inr (by decide)) (.inl (by decide))⟩
  have hnot : ∀ p ∈ headParameters, ∀ name, p.keyword? = some name → name ≠ "NOT" := by
    refine List.forall_mem_singleton.mpr ?_
    rintro _ ⟨⟩
    decide
  have hresolvable : Parameters.Resolvable headParameters :=
    Parameters.resolvable (List.pairwise_singleton ..) hstored hnot (by decide)
  have hforward : ∀ span ∈ Region.forward, span.start ≤ span.stop := fun _ hspan => hspan
  have htaken : Body.TakenAs ⟨headParameters, .point 0⟩ (.parameter 0) [.keyword "!HEAD"] :=
    Body.takenAs_print hresolvable hforward (.parameter Nat.one_pos) (.parameter 0)
  have hgives : Gives (Body.expression ⟨headParameters, .point 0⟩ printed)
      (.operand (.parameter 0)) left :=
    Body.gives_expression_of_spelled (fun _ _ h => h) ((Expr.Spelled.operand htaken).loosen rfl)
      (by decide)
  refine ⟨parse_declaring (.last (writesParameter_commandEnd ?_)) ?_, by decide, ?_, ?_,
    Expr.written_print .., hgives, ?_⟩
  · exact .keyword rfl (by decide) (by decide)
  · exact ⟨List.forall_mem_singleton.mpr ⟨trivial, nofun⟩, List.pairwise_singleton ..⟩
  · exact .call (by decide) (List.forall_mem_singleton.mpr (.token _)) trivial
  · refine .call trivial (List.forall_mem_singleton.mpr (.token ?_))
    exact ⟨rfl, rfl, rfl, rfl, by decide, rfl, by decide, by decide⟩
  · rintro ⟨read, ⟨parsed, hparsed, _, hrest⟩, _⟩
    obtain ⟨other, hother, _, hleft⟩ := hgives
    rw [hother] at hparsed
    cases hparsed
    exact List.cons_ne_nil _ _ (hleft.symm.trans hrest)

end Definition

end CommandMacros

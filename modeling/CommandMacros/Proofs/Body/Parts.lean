import CommandMacros.Proofs.Body.Precedence
import CommandMacros.Proofs.Body.Reference

/-!
The parts of printed directives are read back: operands whatever follows them, expressions up to
what does not carry them on, and with them what stands between the keywords of a directive.
-/

namespace CommandMacros

/-- No parameter takes the name of the function. -/
def Parameters.Callable (parameters : List Parameter) (function : Builtin) : Prop :=
  find? parameters function.name = none

instance (parameters : List Parameter) (function : Builtin) :
    Decidable (Parameters.Callable parameters function) :=
  inferInstanceAs (Decidable (Parameters.find? parameters function.name = none))

/-- What a reader leaves is what stands after the tokens that it has taken. -/
theorem Gives.drop_taken {α : Type} {tokens rest : List Token} {value : α}
    {result : Except Fault (Parsed α tokens.length)} (h : Gives result value rest)
    (hrest : rest <:+ tokens) :
    ∃ read, result = .ok read ∧ read.value = value ∧ read.rest = rest ∧
      tokens.drop read.taken = rest ∧ rest.length + read.taken = tokens.length := by
  obtain ⟨read, hread, hvalue, rfl⟩ := h
  have hlength := read.rest_add_taken
  refine ⟨read, hread, hvalue, rfl, ?_, hlength⟩
  rw [List.suffix_iff_eq_drop.mp hrest, List.drop_eq_drop_iff]
  omega

theorem Gives.map {α β : Type} {bound : Nat} {result : Except Fault (Parsed α bound)} {value : α}
    {rest : List Token} (h : Gives result value rest) (f : α → β) :
    Gives (result.map (·.map f)) (f value) rest := by
  obtain ⟨parsed, rfl, rfl, rfl⟩ := h
  exact gives_ok.mpr ⟨rfl, rfl⟩

theorem Expr.each_and {ground : Ground} {condition : Operand → Prop} {e : Expr}
    (hwell : e.WellFormed ground) (h : e.Each condition) :
    e.Each fun leaf => leaf.WellFormed ground ∧ condition leaf := by
  induction e with
  | or left right ihleft ihright | and left right ihleft ihright
  | relation _ left right ihleft ihright => exact ⟨ihleft hwell.1 h.1, ihright hwell.2 h.2⟩
  | not inner ih => exact ih hwell h
  | operand leaf => exact ⟨hwell, h⟩

namespace Body

variable {scope : Scope} {region : Region}

/-- What reading back needs of a scope: every parameter can be referred to, and places end after
they begin. -/
structure Faithful (scope : Scope) (region : Region) : Prop where
  parameters : Parameters.Referable scope.parameters
  forward : ∀ span ∈ region, span.start ≤ span.stop

/-- The expression is well formed, and its printed form legible. -/
structure Readable (scope : Scope) (region : Region) (e : Expr) : Prop where
  wellFormed : e.WellFormed (scope.ground region)
  legible : e.Each (·.Legible scope.parameters (Parameters.Callable scope.parameters))

/-! ### Operands -/

/-- A token that an operand begins with, and neither an operator nor the end of something. -/
structure IsOperandStart (t : Token) : Prop where
  not_leftParen : t.isPunct .leftParen = false
  not_rightParen : t.isPunct .rightParen = false
  not_end : t.isEnd = false
  not_not : isNot t = false

theorem isIdentifier_of_isMacroId {t : Token} (h : t.isMacroId = true) : t.isIdentifier = true :=
  (Bool.and_eq_true_iff.mp (Bool.and_eq_true_iff.mp h).1).1

theorem isOperandStart_of_isMacroId {t : Token} (h : t.isMacroId = true) (hnot : isNot t = false) :
    IsOperandStart t :=
  have hname := isIdentifier_of_isMacroId h
  ⟨Token.isPunct_of_isIdentifier hname _, Token.isPunct_of_isIdentifier hname _,
    Token.isEnd_of_isIdentifier hname, hnot⟩

theorem ofName?_name (function : Builtin) : Builtin.ofName? function.name = some function := by
  cases function <;> decide

theorem isMacroId_name (function : Builtin) (span : Span) :
    (Token.word function.name span).isMacroId = true := by
  have hlong : IsLongKeyword function.name := by cases function <;> decide
  exact hlong.isMacroId (Token.abbreviates_word function.name span)

theorem isNot_name (function : Builtin) (span : Span) :
    isNot (.word function.name span) = false := by
  change isNot (.word function.name (.point 0)) = false
  cases function <;> decide

/-- A token that names no function begins no call. -/
theorem callStart?_of_not_function {t : Token} (h : t.namesFunction = false)
    (hmacroId : t.isMacroId = true) (rest : List Token) : callStart? t rest = none := by
  have hname : Builtin.ofName? t.text = none := by
    rw [Token.namesFunction, isIdentifier_of_isMacroId hmacroId, Bool.true_and,
      Option.isSome_eq_false_iff, Option.isNone_iff_eq_none] at h
    exact h
  have hnull : abbreviates t.text Builtin.null.name = false :=
    Bool.eq_false_iff.mpr (List.find?_eq_none.mp hname .null (by decide))
  rw [callStart?, hname, if_neg (Bool.eq_false_iff.mp hnull), ite_self]

theorem gives_call {function : Builtin} {arguments : List Operand} {span : Span}
    {t opening : Token} {inner rest : List Token} (hspan : span.start ≤ span.stop)
    (hcount : function.accepts arguments.length = true) (ht : t.span = span)
    (hopening : opening.isPunct .leftParen = true)
    (h : Gives (Body.arguments scope function span inner) (arguments, span) rest) :
    Gives (call scope function t (opening :: inner)) (arguments, span) rest := by
  have hthrough : span.through span = span := by rw [Span.through, Nat.max_eq_right hspan]
  rw [call, if_pos hopening, ht]
  refine h.bind fun listed hvalue hrest => ?_
  rw [hvalue]
  dsimp only
  rw [hthrough, checkArity, if_pos hcount]
  exact gives_ok.mpr ⟨rfl, hrest⟩

mutual

/-- A printed operand is read back, whatever follows it. -/
theorem gives_operand (hparameters : Parameters.Resolvable scope.parameters)
    (hforward : ∀ span ∈ region, span.start ≤ span.stop) (leaf : Operand)
    (hwell : leaf.WellFormed (scope.ground region))
    (hlegible : leaf.Legible scope.parameters (Parameters.Callable scope.parameters)) :
    ∃ t used, leaf.print scope.parameters = t :: used ∧ IsOperandStart t ∧
      ∀ rest, Gives (operand scope t (used ++ rest)) leaf rest := by
  match leaf with
  | .token t =>
    cases hlegible with
    | token ht =>
        refine ⟨t, [], rfl, ⟨ht.not_leftParen, ht.not_rightParen, ht.not_end, ht.not_not⟩,
          fun rest => ?_⟩
        rw [operand, if_neg (Bool.eq_false_iff.mp ht.not_bangAsterisk)]
        split
        · next hmacroId =>
            rw [ht.not_parameter hmacroId]
            dsimp only
            rw [List.nil_append, callStart?_of_not_function ht.not_function hmacroId]
            exact gives_ok.mpr ⟨rfl, rfl⟩
        · exact gives_ok.mpr ⟨rfl, rfl⟩
  | .parameter index =>
    cases hwell with
    | parameter hindex =>
        have hmacroId := hparameters.isMacroId_reference hindex
        have hnot := hparameters.isNot_reference hindex
        refine ⟨_, [], rfl, isOperandStart_of_isMacroId hmacroId hnot, fun rest => ?_⟩
        have hname := isIdentifier_of_isMacroId hmacroId
        rw [operand, if_neg (Bool.eq_false_iff.mp (Token.isPunct_of_isIdentifier hname _)),
          if_pos hmacroId, hparameters.find?_reference hindex]
        exact gives_ok.mpr ⟨rfl, rfl⟩
  | .allPositionals =>
    refine ⟨_, [], rfl, ⟨rfl, rfl, rfl, rfl⟩, fun rest => ?_⟩
    rw [operand, if_pos (Token.isPunct_sign .bangAsterisk _)]
    exact gives_ok.mpr ⟨rfl, rfl⟩
  | .call function arguments span =>
    cases hlegible with
    | call hfunction harguments =>
        cases hwell with
        | call hcount hwell hspan =>
            have hmacroId := isMacroId_name function span
            refine ⟨_, _, rfl, isOperandStart_of_isMacroId hmacroId (isNot_name function span),
              fun rest => ?_⟩
            have hname := isIdentifier_of_isMacroId hmacroId
            have hstart : callStart? (.word function.name span)
                (.sign .leftParen (.point 0) ::
                  (Operand.printArguments scope.parameters span arguments ++ rest)) =
                some function := ofName?_name function
            have hread := gives_call (t := .word function.name span) (hforward span hspan)
              hcount rfl (Token.isPunct_sign .leftParen (.point 0))
              (gives_arguments hparameters hforward function span arguments hwell harguments rest)
            rw [List.cons_append, operand,
              if_neg (Bool.eq_false_iff.mp (Token.isPunct_of_isIdentifier hname _)),
              if_pos hmacroId,
              show Parameters.find? scope.parameters (Token.word function.name span).text = none
                from hfunction]
            dsimp only
            rw [hstart]
            exact hread.map fun c => Operand.call function c.1 c.2

/-- Printed arguments are read back up to the parenthesis that closes them. -/
theorem gives_arguments (hparameters : Parameters.Resolvable scope.parameters)
    (hforward : ∀ span ∈ region, span.start ≤ span.stop) (function : Builtin) (span : Span)
    (list : List Operand)
    (hwell : ∀ leaf ∈ list, leaf.WellFormed (scope.ground region))
    (hlegible : ∀ leaf ∈ list,
      leaf.Legible scope.parameters (Parameters.Callable scope.parameters))
    (rest : List Token) :
    Gives (arguments scope function span
      (Operand.printArguments scope.parameters span list ++ rest)) (list, span) rest := by
  match list with
  | [] =>
    rw [Operand.printArguments, List.singleton_append, arguments,
      if_pos (Token.isPunct_sign .rightParen span)]
    exact gives_ok.mpr ⟨rfl, rfl⟩
  | [last] =>
    obtain ⟨t, used, hprint, hstart, hlast⟩ := gives_operand hparameters hforward last
      (hwell last List.mem_cons_self) (hlegible last List.mem_cons_self)
    rw [Operand.printArguments, hprint, List.cons_append, List.cons_append, List.append_assoc,
      arguments, if_neg (Bool.eq_false_iff.mp hstart.not_rightParen)]
    refine (hlast _).bind fun first hvalue hnext => ?_
    split
    · next hnil => exact absurd (hnext.symm.trans hnil) (List.cons_ne_nil _ _)
    · next u others hu =>
        obtain ⟨rfl, rfl⟩ := List.cons.inj (hnext.symm.trans hu)
        have hcomma : (Token.sign .rightParen span).isPunct .comma = false := rfl
        rw [if_neg (Bool.eq_false_iff.mp hcomma), if_pos (Token.isPunct_sign .rightParen span),
          hvalue]
        exact gives_pure.mpr ⟨rfl, rfl⟩
  | argument :: second :: others =>
    obtain ⟨t, used, hprint, hstart, hargument⟩ := gives_operand hparameters hforward argument
      (hwell argument List.mem_cons_self) (hlegible argument List.mem_cons_self)
    have hothers := gives_arguments hparameters hforward function span (second :: others)
      (List.forall_mem_cons.mp hwell).2 (List.forall_mem_cons.mp hlegible).2 rest
    rw [Operand.printArguments, hprint, List.cons_append, List.cons_append, List.append_assoc,
      arguments, if_neg (Bool.eq_false_iff.mp hstart.not_rightParen)]
    refine (hargument _).bind fun first hvalue hnext => ?_
    split
    · next hnil => exact absurd (hnext.symm.trans hnil) (List.cons_ne_nil _ _)
    · next u others hu =>
        obtain ⟨rfl, rfl⟩ := List.cons.inj (hnext.symm.trans hu)
        rw [if_pos (Token.isPunct_sign .comma (.point 0))]
        refine hothers.bind fun more hmore hrest => gives_pure.mpr ⟨?_, hrest⟩
        change (first.value :: more.value.1, more.value.2) = _
        rw [hvalue, hmore]

end

/-! ### Expressions -/

theorem takenAs_print (hparameters : Parameters.Resolvable scope.parameters)
    (hforward : ∀ span ∈ region, span.start ≤ span.stop) {leaf : Operand}
    (hwell : leaf.WellFormed (scope.ground region))
    (hlegible : leaf.Legible scope.parameters (Parameters.Callable scope.parameters)) :
    TakenAs scope leaf (leaf.print scope.parameters) := by
  obtain ⟨t, used, hprint, hstart, hgives⟩ :=
    gives_operand hparameters hforward leaf hwell hlegible
  rw [hprint]
  refine ⟨⟨t, used, rfl, hstart.not_not⟩, fun rest => ?_⟩
  rw [List.cons_append, group, if_neg (Bool.eq_false_iff.mp hstart.not_leftParen),
    hstart.not_rightParen, hstart.not_end, if_neg (by decide)]
  exact (hgives rest).bind fun _ hvalue hrest =>
    gives_pure.mpr ⟨congrArg Expr.operand hvalue, hrest⟩

/-- A printed expression is read back if nothing that follows carries it on. -/
theorem gives_print (hscope : Faithful scope region) {e : Expr} (h : Readable scope region e)
    {rest : List Token} (hrest : e.StopsBefore rest) :
    Gives (expression scope (e.print scope.parameters .disjunction ++ rest)) e rest := by
  have hspelled : e.Spelled (TakenAs scope) .disjunction (e.endsOpen .disjunction)
      (e.print scope.parameters .disjunction) :=
    (e.written_print scope.parameters .disjunction).spelled
      (fun _ h => takenAs_print hscope.parameters.toResolvable hscope.forward h.1 h.2)
      (Expr.each_and h.wellFormed h.legible)
  exact gives_expression_of_spelled (fun _ _ h => h) hspelled hrest

/-! ### The parts of directives -/

/-- The keywords that can follow an expression. -/
def boundaries : List String :=
  ["!THEN", "!ELSE", "!IFEND", "!TO", "!BY", "!DOEND"]

theorem stopsBefore_boundary (e : Expr) {keyword : String} (h : keyword ∈ boundaries)
    (rest : List Token) : e.StopsBefore (.keyword keyword :: rest) := by
  have hboundaries : ∀ k ∈ boundaries, ∀ isOpen, (Token.keyword k).carriesOn isOpen = false := by
    decide
  rintro t ⟨⟩
  exact hboundaries keyword h _

/-- The names of variables are names of the macro language that are neither reserved nor
parameters. -/
theorem gives_variableName_iff {directive : String} {name : Token} {rest : List Token} :
    Gives (variableName scope directive (name :: rest)) name.text rest ↔
      name.isMacroId = true ∧ isReserved name.text = false ∧
        Parameters.find? scope.parameters name.text = none := by
  rw [variableName, expect]
  by_cases hmacroId : name.isMacroId = true
  · rw [if_pos hmacroId]
    dsimp only [bind, Except.bind]
    by_cases hfree : (isReserved name.text ||
        (Parameters.find? scope.parameters name.text).isSome) = true
    · rw [show (Parsed.leaving name rest).value = name from rfl, if_pos hfree]
      refine iff_of_false not_gives_error ?_
      rintro ⟨_, hreserved, hfind⟩
      rw [hreserved, hfind] at hfree
      contradiction
    · rw [show (Parsed.leaving name rest).value = name from rfl, if_neg hfree]
      refine iff_of_true (gives_pure.mpr ⟨rfl, rfl⟩) ⟨hmacroId, ?_⟩
      simpa using hfree
  · rw [if_neg hmacroId]
    exact iff_of_false not_gives_error fun h => hmacroId h.1

section Parts

variable {name : String} (hname : IsVariableName (scope.ground region) name)

include hname

theorem gives_variableName (directive : String) (rest : List Token) :
    Gives (variableName scope directive (.word name (.point 0) :: rest)) name rest := by
  have hmacroId : (Token.word name (.point 0)).isMacroId = true := by
    rw [Token.isMacroId, Token.word, hname.isMarked]
    exact Nat.ble_eq.mpr hname.one_lt_length
  exact gives_variableName_iff.mpr ⟨hmacroId, hname.not_reserved, hname.not_parameter⟩

variable (hscope : Faithful scope region)

include hscope

theorem gives_assignment {value : Expr} (h : Readable scope region value) {rest : List Token}
    (hrest : value.StopsBefore rest) :
    Gives (assignment scope (.word name (.point 0) :: .sign .equals (.point 0) ::
      (value.print scope.parameters .disjunction ++ rest))) (.assign name value) rest := by
  rw [assignment]
  refine (gives_variableName hname "!LET" _).bind fun first hfirst hnext => ?_
  refine Gives.bind (gives_expect.mpr ⟨hnext, Token.isPunct_sign .equals _⟩)
    fun equals _ hnext => ?_
  have hvalue := gives_print hscope h hrest
  rw [← hnext] at hvalue
  refine hvalue.bind fun read hread hleft => gives_pure.mpr ⟨?_, hleft⟩
  change Directive.assign first.value read.value = _
  rw [hfirst, hread]

end Parts

section Heads

variable (hscope : Faithful scope region)

include hscope

theorem gives_conditionHead {condition : Expr} (h : Readable scope region condition)
    (rest : List Token) :
    Gives (conditionHead scope (condition.print scope.parameters .disjunction ++
      .keyword "!THEN" :: rest)) condition rest := by
  rw [conditionHead]
  refine (gives_print hscope h (stopsBefore_boundary _ (by decide) _)).bind
    fun read hread hnext => ?_
  refine Gives.bind (gives_expect.mpr ⟨hnext, Token.abbreviates_word "!THEN" _⟩)
    fun thenWord _ hleft => ?_
  exact gives_pure.mpr ⟨hread, hleft⟩

theorem gives_loopHead_list {list : Expr} (h : Readable scope region list) {rest : List Token}
    (hrest : list.StopsBefore rest) :
    Gives (loopHead scope (.keyword "!IN" ::
      (list.print scope.parameters .disjunction ++ rest))) (.list list) rest := by
  rw [loopHead, if_pos (by decide)]
  exact (gives_print hscope h hrest).bind fun read hread hleft =>
    gives_pure.mpr ⟨congrArg LoopHead.list hread, hleft⟩

theorem gives_loopStep {last : Expr} {step : Option Expr}
    (h : ∀ e ∈ step, Readable scope region e) {rest : List Token}
    (hrest : (step.getD last).StopsBefore rest)
    (hnext : step = none → ∀ t ∈ rest.head?, t.matchesKeyword "!BY" = false) :
    Gives (loopStep scope (printStep scope.parameters step ++ rest)) step rest := by
  cases step with
  | none =>
      cases rest with
      | nil => exact gives_ok.mpr ⟨rfl, rfl⟩
      | cons t rest =>
          rw [printStep, List.nil_append, loopStep,
            if_neg (Bool.eq_false_iff.mp (hnext rfl t rfl))]
          exact gives_ok.mpr ⟨rfl, rfl⟩
  | some e =>
      rw [printStep, List.cons_append, loopStep, if_pos (by decide)]
      exact (gives_print hscope (h e rfl) hrest).bind
        fun read hread hleft => gives_pure.mpr ⟨congrArg some hread, hleft⟩

theorem gives_loopHead_range {first last : Expr} {step : Option Expr}
    (hfirst : Readable scope region first) (hlast : Readable scope region last)
    (hstep : ∀ e ∈ step, Readable scope region e) {rest : List Token}
    (hrest : (step.getD last).StopsBefore rest)
    (hnext : step = none → ∀ t ∈ rest.head?, t.matchesKeyword "!BY" = false) :
    Gives (loopHead scope (.sign .equals (.point 0) ::
      (first.print scope.parameters .disjunction ++ .keyword "!TO" ::
        (last.print scope.parameters .disjunction ++
          (printStep scope.parameters step ++ rest))))) (.range first last step) rest := by
  have hlimit : last.StopsBefore (printStep scope.parameters step ++ rest) := by
    cases step with
    | none => exact hrest
    | some e => exact stopsBefore_boundary last (by decide) _
  rw [loopHead, if_neg (by decide), if_pos (by decide)]
  refine (gives_print hscope hfirst (stopsBefore_boundary _ (by decide) _)).bind
    fun lower hlower hleft => ?_
  refine Gives.bind (gives_expect.mpr ⟨hleft, by decide⟩) fun limit _ hleft => ?_
  have hupper := gives_print hscope hlast hlimit
  rw [← hleft] at hupper
  refine hupper.bind fun upper hvalue hleft => ?_
  have hgives := gives_loopStep hscope hstep hrest hnext
  rw [← hleft] at hgives
  refine hgives.bind fun increment hincrement hleft => gives_pure.mpr ⟨?_, hleft⟩
  change LoopHead.range lower.value upper.value increment.value = _
  rw [hlower, hvalue, hincrement]

end Heads

end Body

end CommandMacros

import CommandMacros.Proofs.Body.Parts

/-!
Printed bodies are read back. A block is read directive by directive: each is found at its first
token, takes the tokens that it was printed as, and leaves the rest to the block; the branches and
the bodies of loops are blocks themselves, which end where the directive that holds them goes on.
-/

namespace CommandMacros

namespace Body

variable {scope : Scope} {region : Region} {block : Block} {rest : List Token}

/-! ### Where blocks end -/

/-- What holds of the first token of either part holds of the first of both. -/
theorem forall_head_append {condition : Token → Prop} {tokens : List Token}
    (h : ∀ t ∈ tokens.head?, condition t) (hrest : ∀ t ∈ rest.head?, condition t) :
    ∀ t ∈ (tokens ++ rest).head?, condition t := by
  cases tokens with
  | nil => exact hrest
  | cons => exact h

/-- The block ends here: with the tokens, or at a keyword that ends it. -/
def EndsBlock (block : Block) (rest : List Token) : Prop :=
  ∀ t ∈ rest.head?, ∃ keyword ∈ block.terminators, t = .keyword keyword

theorem endsBlock_keyword {keyword : String} (h : keyword ∈ block.terminators)
    (rest : List Token) : EndsBlock block (.keyword keyword :: rest) := by
  rintro _ ⟨⟩
  exact ⟨keyword, h, rfl⟩

/-- The first branch ends at `!ELSE` or `!IFEND`, whichever comes. -/
theorem endsBlock_printElse (parameters : List Parameter) (inLoop : Bool)
    (elseBranch : Option (List Directive)) (rest : List Token) :
    EndsBlock (.thenBranch inLoop)
      (printElse parameters elseBranch ++ .keyword "!IFEND" :: rest) := by
  cases elseBranch with
  | none => exact endsBlock_keyword (.tail _ (.head _)) rest
  | some branch => exact endsBlock_keyword (.head _) _

theorem terminators_subset (block : Block) :
    block.terminators ⊆ ["!ELSE", "!IFEND", "!DOEND"] := by
  cases block <;> simp [Block.terminators]

theorem blockOf_of_endsBlock (scope : Scope) (h : EndsBlock block rest) :
    blockOf scope block rest = .empty := by
  have hlong : ∀ k ∈ ["!ELSE", "!IFEND", "!DOEND"], IsLongKeyword k := by decide
  cases rest with
  | nil => rfl
  | cons t rest =>
      obtain ⟨keyword, hkeyword, rfl⟩ := h t rfl
      have hself := Token.abbreviates_word keyword (.point 0)
      have hends : block.endsAt (.keyword keyword) = true := by
        rw [Block.endsAt, Bool.and_eq_true]
        refine ⟨(hlong keyword (terminators_subset block hkeyword)).isMacroId hself, ?_⟩
        exact List.any_eq_true.mpr ⟨keyword, hkeyword, hself⟩
      rw [blockOf_cons, blockAt, if_pos hends]

theorem endsAt_word {text : String}
    (h : ∀ terminator ∈ ["!ELSE", "!IFEND", "!DOEND"], abbreviates text terminator = false)
    (block : Block) (span : Span) : block.endsAt (.word text span) = false := by
  rw [Block.endsAt, Bool.and_eq_false_iff]
  refine .inr (List.any_eq_false.mpr fun terminator hterminator => Bool.eq_false_iff.mp ?_)
  exact h terminator (terminators_subset block hterminator)

theorem endsAt_of_matchesKeyword {t : Token} {keyword : String} (h : keyword ∈ directiveKeywords)
    (ht : t.matchesKeyword keyword = true) (block : Block) : block.endsAt t = false := by
  have hterminators : ∀ terminator ∈ ["!ELSE", "!IFEND", "!DOEND"], IsLongKeyword terminator ∧
      ∀ k ∈ directiveKeywords,
        (Text.asciiUpperChars k.toList).take 4 ≠ terminator.toList.take 4 := by decide
  have hsame := Text.sameIgnoringCase_iff.mp (Bool.and_eq_true_iff.mp ht).2
  rw [Block.endsAt, Bool.and_eq_false_iff]
  refine .inr (List.any_eq_false.mpr fun terminator hterminator hends => ?_)
  obtain ⟨hlong, hdiffers⟩ := hterminators terminator (terminators_subset block hterminator)
  have htake := hlong.take_eq (Bool.and_eq_true_iff.mp hends).2
  rw [hsame] at htake
  exact hdiffers keyword h htake

theorem endsAt_directiveKeyword {keyword : String} (h : keyword ∈ directiveKeywords)
    (block : Block) (span : Span) : block.endsAt (.word keyword span) = false :=
  have hself : (Token.word keyword span).matchesKeyword keyword = true :=
    Text.sameIgnoringCase_refl keyword
  endsAt_of_matchesKeyword h hself block

theorem endsAt_name (function : Builtin) (block : Block) (span : Span) :
    block.endsAt (.word function.name span) = false := by
  have hnames : ∀ terminator ∈ ["!ELSE", "!IFEND", "!DOEND"],
      abbreviates function.name terminator = false := by
    cases function <;> decide
  exact endsAt_word hnames block span

/-! ### One directive -/

theorem drop_add_length {tokens front rest : List Token} {taken : Nat}
    (h : tokens.drop taken = front ++ rest) : tokens.drop (taken + front.length) = rest := by
  rw [← List.drop_drop, h, List.drop_left]

/-- The printed directive is found at its first token, and takes all others and no more. -/
def Found (scope : Scope) (block : Block) (d : Directive) (rest : List Token) : Prop :=
  ∃ t used, d.print scope.parameters = t :: used ∧ block.endsAt t = false ∧
    step scope (fun inner skipped => blockOf scope inner ((used ++ rest).drop skipped))
      block.inLoop t (used ++ rest) = (.directive d, used.length)

/-- A block that does not end here is what begins here, and the block after that. -/
theorem blockOf_of_step {t : Token} {first : Step} {taken : Nat} (hends : block.endsAt t = false)
    (hstep : step scope (fun inner skipped => blockOf scope inner (rest.drop skipped)) block.inLoop
      t rest = (first, taken)) :
    blockOf scope block (t :: rest) =
      ⟨first.cons (blockOf scope block (rest.drop taken)).directives,
        1 + taken + (blockOf scope block (rest.drop taken)).taken⟩ := by
  rw [blockOf_cons, blockAt, if_neg (Bool.eq_false_iff.mp hends), hstep]

/-- After a directive the block goes on with the rest. -/
theorem blockOf_of_found {d : Directive} (h : Found scope block d rest) :
    blockOf scope block (d.print scope.parameters ++ rest) =
      ⟨d :: (blockOf scope block rest).directives,
        (d.print scope.parameters).length + (blockOf scope block rest).taken⟩ := by
  obtain ⟨t, used, hprint, hends, hstep⟩ := h
  rw [hprint, List.cons_append, blockOf_of_step hends hstep, List.drop_left, List.length_cons,
    Nat.add_comm used.length 1]
  rfl

/-- A reference stands for its parameter. -/
theorem step_parameter {t : Token} {index : Nat} (hmacroId : t.isMacroId = true)
    (hfind : Parameters.find? scope.parameters t.text = some index) (ahead : Ahead)
    (inLoop : Bool) : step scope ahead inLoop t rest = (.directive (.parameter index), 0) := by
  have hstar := Token.isPunct_of_isIdentifier (isIdentifier_of_isMacroId hmacroId) .bangAsterisk
  unfold step
  rw [hstar, if_neg (by decide), hmacroId, if_neg (by decide), hfind]

/-- What begins at a directive keyword. -/
def keywordStep (scope : Scope) (ahead : Ahead) (inLoop : Bool) (span : Span) (rest : List Token) :
    String → Step × Nat
  | "!IF" => recover (conditional scope ahead inLoop span rest)
  | "!DO" => recover (loop scope ahead span rest)
  | "!LET" => recover ((assignment scope rest).map fun read => (read.value, read.taken))
  | "!BREAK" =>
    if inLoop then (.directive .breakLoop, 0) else recover (.error (fault .breakOutsideLoop span))
  | "!ONEXPAND" => (.directive (.setExpand true), 0)
  | _ => (.directive (.setExpand false), 0)

theorem step_of_matchesKeyword (ahead : Ahead) (inLoop : Bool) {t : Token} {keyword : String}
    (h : keyword ∈ directiveKeywords) (ht : t.matchesKeyword keyword = true)
    (hfind : Parameters.find? scope.parameters t.text = none) :
    step scope ahead inLoop t rest = keywordStep scope ahead inLoop t.span rest keyword := by
  have hmacroId : t.isMacroId = true := Token.isMacroId_of_matchesKeyword ht h
  have hstar : t.isPunct .bangAsterisk = false :=
    Token.isPunct_of_isIdentifier (isIdentifier_of_isMacroId hmacroId) _
  unfold step
  rw [if_neg (Bool.eq_false_iff.mp hstar), hmacroId, if_neg (by decide), hfind]
  dsimp only
  rw [Token.asciiUpper_of_matchesKeyword ht h]
  simp only [directiveKeywords, List.mem_cons, List.not_mem_nil, or_false] at h
  rcases h with rfl | rfl | rfl | rfl | rfl | rfl <;> rfl

theorem step_keyword (hscope : Faithful scope region) (ahead : Ahead) (inLoop : Bool) (span : Span)
    {keyword : String} (h : keyword ∈ directiveKeywords) :
    step scope ahead inLoop (.word keyword span) rest =
      keywordStep scope ahead inLoop span rest keyword :=
  step_of_matchesKeyword ahead inLoop h (Text.sameIgnoringCase_refl keyword)
    (hscope.parameters.find?_keyword h)

/-- The printed tree is read back as a block, wherever the block ends. -/
def ReadBack (scope : Scope) (block : Block) (tree : List Directive) : Prop :=
  ∀ rest, EndsBlock block rest → blockOf scope block (printTree scope.parameters tree ++ rest) =
    ⟨tree, (printTree scope.parameters tree).length⟩

theorem recover_of_eq_ok (rest : List Token) {result : Except Fault (Directive × Nat)}
    {d : Directive} {used : List Token}
    (h : result = .ok (d, (used ++ rest).length - rest.length)) :
    recover result = (.directive d, used.length) := by
  rw [h, List.length_append, Nat.add_sub_cancel]
  rfl

/-! ### Directives that hold blocks -/

section Blocks

variable {inLoop : Bool} {span : Span} {condition : Expr} {tokens first : List Token}
  {thenBranch : List Directive} {next : Token} {following : List Token}

/-- An `!IF` whose first branch is not followed by `!ELSE`. -/
theorem conditional_of_then
    (hhead : Gives (conditionHead scope tokens) condition (first ++ next :: following))
    (hsuffix : first ++ next :: following <:+ tokens)
    (hthen : blockOf scope (.thenBranch inLoop) (first ++ next :: following) =
      ⟨thenBranch, first.length⟩)
    (hnext : next.abbreviates "!ELSE" = false) :
    conditional scope (fun inner skipped => blockOf scope inner (tokens.drop skipped)) inLoop span
      tokens = .ok (.cond condition thenBranch none, tokens.length - following.length) := by
  obtain ⟨read, hread, hvalue, -, hthenAt, hlength⟩ := hhead.drop_taken hsuffix
  rw [conditional, hread]
  dsimp only [bind, Except.bind]
  rw [hthenAt, hthen]
  dsimp only
  rw [drop_add_length hthenAt, hvalue]
  dsimp only
  rw [if_neg (Bool.eq_false_iff.mp hnext)]
  refine congrArg Except.ok (Prod.ext rfl ?_)
  rw [List.length_append, List.length_cons] at hlength
  dsimp only
  omega

/-- An `!IF` with both branches. -/
theorem conditional_of_else {second : List Token} {elseBranch : List Directive} {last : Token}
    {rest : List Token}
    (hhead : Gives (conditionHead scope tokens) condition
      (first ++ next :: (second ++ last :: rest)))
    (hsuffix : first ++ next :: (second ++ last :: rest) <:+ tokens)
    (hthen : blockOf scope (.thenBranch inLoop) (first ++ next :: (second ++ last :: rest)) =
      ⟨thenBranch, first.length⟩)
    (hnext : next.abbreviates "!ELSE" = true)
    (helse : blockOf scope (.elseBranch inLoop) (second ++ last :: rest) =
      ⟨elseBranch, second.length⟩) :
    conditional scope (fun inner skipped => blockOf scope inner (tokens.drop skipped)) inLoop span
      tokens = .ok (.cond condition thenBranch (some elseBranch), tokens.length - rest.length) := by
  obtain ⟨read, hread, hvalue, -, hthenAt, hlength⟩ := hhead.drop_taken hsuffix
  have hnextAt := drop_add_length hthenAt
  have helseAt : tokens.drop (read.taken + first.length + 1) = second ++ last :: rest := by
    rw [← List.drop_drop, hnextAt]
    rfl
  rw [conditional, hread]
  dsimp only [bind, Except.bind]
  rw [hthenAt, hthen]
  dsimp only
  rw [hnextAt, hvalue]
  dsimp only
  rw [if_pos hnext, helseAt, helse]
  dsimp only
  rw [List.drop_left]
  refine congrArg Except.ok (Prod.ext rfl ?_)
  simp only [List.length_append, List.length_cons] at hlength
  dsimp only
  omega

/-- A loop whose body is a block. -/
theorem loop_of_body {name : String} {head : LoopHead} {body : List Directive}
    {inner used : List Token} {last : Token} {rest : List Token}
    (hname : Gives (variableName scope "!DO" tokens) name inner) (hinner : inner <:+ tokens)
    (hhead : Gives (loopHead scope inner) head (used ++ last :: rest))
    (hsuffix : used ++ last :: rest <:+ inner)
    (hbody : blockOf scope .loop (used ++ last :: rest) = ⟨body, used.length⟩) :
    loop scope (fun block skipped => blockOf scope block (tokens.drop skipped)) span tokens =
      .ok (head.toDirective name body span, tokens.length - rest.length) := by
  obtain ⟨read, hread, hvalue, hrest, hinnerAt, hlength⟩ := hname.drop_taken hinner
  subst hrest
  obtain ⟨header, hheader, hheaderValue, -, hheaderAt, hheaderLength⟩ := hhead.drop_taken hsuffix
  have hbodyAt : tokens.drop (read.taken + header.taken) = used ++ last :: rest := by
    rw [← List.drop_drop, hinnerAt, hheaderAt]
  rw [loop, hread]
  dsimp only [bind, Except.bind]
  rw [hheader]
  dsimp only
  rw [hbodyAt, hbody]
  dsimp only
  rw [drop_add_length hbodyAt, hvalue, hheaderValue]
  refine congrArg Except.ok (Prod.ext rfl ?_)
  simp only [List.length_append, List.length_cons] at hheaderLength
  dsimp only
  omega

end Blocks

section Directives

variable (hscope : Faithful scope region)

include hscope

theorem conditional_print {inLoop : Bool} {span : Span} {condition : Expr}
    {thenBranch : List Directive} {elseBranch : Option (List Directive)}
    (hcondition : Readable scope region condition)
    (hthen : ReadBack scope (.thenBranch inLoop) thenBranch)
    (helse : ∀ branch ∈ elseBranch, ReadBack scope (.elseBranch inLoop) branch)
    {tokens : List Token}
    (htokens : tokens = condition.print scope.parameters .disjunction ++ .keyword "!THEN" ::
      (printTree scope.parameters thenBranch ++
        (printElse scope.parameters elseBranch ++ .keyword "!IFEND" :: rest))) :
    conditional scope (fun inner skipped => blockOf scope inner (tokens.drop skipped)) inLoop span
      tokens = .ok (.cond condition thenBranch elseBranch, tokens.length - rest.length) := by
  have hhead := gives_conditionHead hscope hcondition
    (printTree scope.parameters thenBranch ++
      (printElse scope.parameters elseBranch ++ .keyword "!IFEND" :: rest))
  rw [← htokens] at hhead
  have hsuffix : printTree scope.parameters thenBranch ++
      (printElse scope.parameters elseBranch ++ .keyword "!IFEND" :: rest) <:+ tokens := by
    rw [htokens]
    exact (List.suffix_cons ..).trans (List.suffix_append ..)
  have hfirst := hthen _ (endsBlock_printElse scope.parameters inLoop elseBranch rest)
  cases elseBranch with
  | none => exact conditional_of_then hhead hsuffix hfirst (by decide)
  | some branch =>
      exact conditional_of_else hhead hsuffix hfirst (Token.abbreviates_word "!ELSE" _)
        (helse branch rfl _ (endsBlock_keyword (.head _) rest))

omit hscope in
theorem loop_print {span : Span} {name : String} {head : LoopHead} {body : List Directive}
    (hname : IsVariableName (scope.ground region) name) (hbody : ReadBack scope .loop body)
    {tokens inner : List Token} (htokens : tokens = .word name (.point 0) :: inner)
    (hhead : Gives (loopHead scope inner) head
      (printTree scope.parameters body ++ .keyword "!DOEND" :: rest))
    (hinner : printTree scope.parameters body ++ .keyword "!DOEND" :: rest <:+ inner) :
    loop scope (fun block skipped => blockOf scope block (tokens.drop skipped)) span tokens =
      .ok (head.toDirective name body span, tokens.length - rest.length) := by
  have hvariable := gives_variableName hname "!DO" inner
  rw [← htokens] at hvariable
  refine loop_of_body hvariable ?_ hhead hinner (hbody _ (endsBlock_keyword (.head _) rest))
  rw [htokens]
  exact List.suffix_cons ..

theorem found_keyword (keyword : String) {d : Directive} {span : Span} {used : List Token}
    (hkeyword : keyword ∈ directiveKeywords)
    (hprint : d.print scope.parameters = .word keyword span :: used)
    (hstep : keywordStep scope
      (fun inner skipped => blockOf scope inner ((used ++ rest).drop skipped)) block.inLoop span
      (used ++ rest) keyword = (.directive d, used.length)) : Found scope block d rest :=
  ⟨_, used, hprint, endsAt_directiveKeyword hkeyword block span,
    (step_keyword hscope _ _ span hkeyword).trans hstep⟩

theorem found_cond {condition : Expr} {thenBranch : List Directive}
    {elseBranch : Option (List Directive)} (hcondition : Readable scope region condition)
    (hthen : ReadBack scope (.thenBranch block.inLoop) thenBranch)
    (helse : ∀ branch ∈ elseBranch, ReadBack scope (.elseBranch block.inLoop) branch)
    (rest : List Token) : Found scope block (.cond condition thenBranch elseBranch) rest := by
  refine found_keyword hscope "!IF" (by decide) rfl (recover_of_eq_ok rest ?_)
  refine conditional_print hscope hcondition hthen helse ?_
  simp only [List.append_assoc, List.cons_append, List.nil_append]

theorem found_doRange {name : String} {first last : Expr} {step : Option Expr}
    {body : List Directive} {span : Span} (hname : IsVariableName (scope.ground region) name)
    (hfirst : Readable scope region first) (hlast : Readable scope region last)
    (hstep : ∀ e ∈ step, Readable scope region e)
    (hstops : (step.getD last).StopsBefore (printTree scope.parameters body))
    (hnext : step = none →
      ∀ t ∈ (printTree scope.parameters body).head?, t.matchesKeyword "!BY" = false)
    (hbody : ReadBack scope .loop body) (rest : List Token) :
    Found scope block (.doRange name first last step body span) rest := by
  have hrest : (step.getD last).StopsBefore
      (printTree scope.parameters body ++ .keyword "!DOEND" :: rest) :=
    forall_head_append hstops (stopsBefore_boundary _ (by decide) rest)
  have hby : step = none → ∀ t ∈
      (printTree scope.parameters body ++ .keyword "!DOEND" :: rest).head?,
      t.matchesKeyword "!BY" = false := fun hnone =>
    forall_head_append (hnext hnone) (by
      rintro t ⟨⟩
      decide)
  refine found_keyword hscope "!DO" (by decide) rfl (recover_of_eq_ok rest ?_)
  refine loop_print hname hbody ?_ (gives_loopHead_range hscope hfirst hlast hstep hrest hby) ?_
  · simp only [List.append_assoc, List.cons_append, List.nil_append]
  · refine .trans ?_ (List.suffix_cons ..)
    refine .trans ?_ (List.suffix_append ..)
    refine .trans ?_ (List.suffix_cons ..)
    exact (List.suffix_append ..).trans (List.suffix_append ..)

theorem found_doIn {name : String} {list : Expr} {body : List Directive} {span : Span}
    (hname : IsVariableName (scope.ground region) name) (hlist : Readable scope region list)
    (hstops : list.StopsBefore (printTree scope.parameters body))
    (hbody : ReadBack scope .loop body) (rest : List Token) :
    Found scope block (.doIn name list body span) rest := by
  have hrest : list.StopsBefore (printTree scope.parameters body ++ .keyword "!DOEND" :: rest) :=
    forall_head_append hstops (stopsBefore_boundary _ (by decide) rest)
  refine found_keyword hscope "!DO" (by decide) rfl (recover_of_eq_ok rest ?_)
  refine loop_print hname hbody ?_ (gives_loopHead_list hscope hlist hrest) ?_
  · simp only [List.append_assoc, List.cons_append, List.nil_append]
  · exact (List.suffix_append ..).trans (List.suffix_cons ..)

theorem found_assign {name : String} {value : Expr}
    (hname : IsVariableName (scope.ground region) name) (hvalue : Readable scope region value)
    (hrest : value.StopsBefore rest) : Found scope block (.assign name value) rest := by
  have hread : Gives (assignment scope ((.word name (.point 0) :: .sign .equals (.point 0) ::
      value.print scope.parameters .disjunction) ++ rest)) (.assign name value) rest :=
    gives_assignment hname hscope hvalue hrest
  obtain ⟨read, hread, hvalue, -, -, hlength⟩ := hread.drop_taken (List.suffix_append ..)
  refine found_keyword hscope "!LET" (by decide) rfl (recover_of_eq_ok rest ?_)
  rw [hread]
  exact congrArg Except.ok (Prod.ext hvalue (Nat.eq_sub_of_add_eq' hlength))

omit hscope in
theorem step_name {function : Builtin} (hfunction : Parameters.Callable scope.parameters function)
    (hnext : nextIs (·.isPunct .leftParen) rest = true) (ahead : Ahead) (inLoop : Bool)
    (span : Span) : step scope ahead inLoop (.word function.name span) rest =
      recover ((call scope function (.word function.name span) rest).map fun read =>
        (.call function read.value.1 read.value.2, read.taken - 1)) := by
  have hkeyword : Text.asciiUpper function.name ∉ directiveKeywords := by
    cases function <;> decide
  have hfind : Parameters.find? scope.parameters (Token.word function.name span).text = none :=
    hfunction
  have hstart : callStart? (.word function.name span) rest = some function := by
    rw [callStart?, if_pos hnext]
    exact ofName?_name function
  have hstar : (Token.word function.name span).isPunct .bangAsterisk = false := rfl
  unfold step
  rw [if_neg (Bool.eq_false_iff.mp hstar), isMacroId_name, if_neg (by decide), hfind]
  dsimp only
  split
  case h_7 => rw [hstart]
  all_goals next h => exact absurd (h ▸ by decide) hkeyword

theorem found_call {function : Builtin} {arguments : List Operand} {span : Span}
    (hwell : (Operand.call function arguments span).WellFormed (scope.ground region))
    (hlegible : (Operand.call function arguments span).Legible scope.parameters
      (Parameters.Callable scope.parameters)) (rest : List Token) :
    Found scope block (.call function arguments span) rest := by
  cases hwell with
  | call hcount hwell hspan =>
      cases hlegible with
      | call hfunction hlegible =>
          obtain ⟨read, hread, hvalue, hrest⟩ := gives_call (t := .word function.name span)
            (hscope.forward span hspan) hcount rfl (Token.isPunct_sign .leftParen (.point 0))
            (gives_arguments hscope.parameters.toResolvable hscope.forward function span arguments
              hwell hlegible rest)
          refine ⟨_, _, rfl, endsAt_name function block span, ?_⟩
          refine (step_name hfunction rfl _ _ span).trans ?_
          have hlength := read.rest_add_taken
          simp only [hrest, List.length_cons, List.length_append] at hlength
          rw [List.cons_append, hread]
          change (Step.directive (.call function read.value.1 read.value.2), read.taken - 1) = _
          rw [hvalue]
          refine Prod.ext rfl ?_
          change read.taken - 1 =
            (Operand.printArguments scope.parameters span arguments).length + 1
          omega

theorem found_parameter {index : Nat} (hindex : index < scope.parameters.length)
    (hends : block.endsAt (Parameters.reference scope.parameters index) = false)
    (rest : List Token) : Found scope block (.parameter index) rest := by
  refine ⟨_, [], rfl, hends, ?_⟩
  exact step_parameter (hscope.parameters.isMacroId_reference hindex)
    (hscope.parameters.find?_reference hindex) _ _

theorem found_setExpand (enabled : Bool) (rest : List Token) :
    Found scope block (.setExpand enabled) rest := by
  cases enabled with
  | false => exact found_keyword hscope "!OFFEXPAND" (by decide) rfl rfl
  | true => exact found_keyword hscope "!ONEXPAND" (by decide) rfl rfl

theorem found_breakLoop (hloop : block.inLoop = true) (rest : List Token) :
    Found scope block .breakLoop rest := by
  refine found_keyword hscope "!BREAK" (by decide) rfl ?_
  rw [hloop]
  rfl

end Directives

theorem found_allPositionals (rest : List Token) : Found scope block .allPositionals rest :=
  ⟨_, [], rfl, rfl, rfl⟩

/-! ### Text -/

/-- A plain token that begins no call stands for itself. -/
theorem step_plain {t : Token} (hplain : t.IsPlain (scope.ground region))
    (hnull : t.abbreviates Builtin.null.name = false)
    (hcall : nextIs (·.isPunct .leftParen) rest = true → t.namesFunction = false)
    (ahead : Ahead) (inLoop : Bool) : step scope ahead inLoop t rest = (.literal t, 0) := by
  unfold step
  rw [if_neg (Bool.eq_false_iff.mp hplain.not_bangAsterisk)]
  split
  · rfl
  · next hmacroId =>
      have hmacroId : t.isMacroId = true := by simpa using hmacroId
      have hname := isIdentifier_of_isMacroId hmacroId
      have hstart : callStart? t rest = none := by
        by_cases hnext : nextIs (·.isPunct .leftParen) rest = true
        · exact callStart?_of_not_function (hcall hnext) hmacroId rest
        · have habbreviates : abbreviates t.text Builtin.null.name = false := by
            rw [Token.abbreviates, hname, Bool.true_and] at hnull
            exact hnull
          rw [callStart?, if_neg hnext, if_neg (Bool.eq_false_iff.mp habbreviates)]
      have hkeyword : Text.asciiUpper t.text ∉ directiveKeywords := by
        intro hmem
        have hsame : Text.sameIgnoringCase t.text (Text.asciiUpper t.text) = true := by
          rw [Text.sameIgnoringCase_iff, Text.asciiUpper, String.toList_ofList,
            Text.asciiUpperChars, Text.asciiUpperChars, List.map_map]
          exact List.map_congr_left fun c _ => (Text.toUpper_toUpper c).symm
        have hnot := hplain.not_keyword _ hmem
        rw [Token.matchesKeyword, hname, hsame] at hnot
        cases hnot
      rw [show Parameters.find? scope.parameters t.text = none from hplain.not_parameter hmacroId]
      dsimp only
      split
      case h_7 => rw [hstart]
      all_goals next h => exact absurd (h ▸ by decide) hkeyword

theorem consLiteral_of_not_literal {tree : List Directive} (t : Token)
    (h : ∀ d ∈ tree.head?, d.isLiteral = false) : consLiteral t tree = .literal [t] :: tree := by
  unfold consLiteral
  split
  · next tokens others => exact Bool.noConfusion (h (.literal tokens) rfl)
  · rfl

/-- The plain text of a block is one directive. -/
theorem blockOf_text {tokens : List Token} (hne : tokens ≠ [])
    (hplain : ∀ t ∈ tokens, t.IsPlain (scope.ground region)) (htext : LegibleText block tokens)
    (hparen : ∀ t ∈ rest.head?, t.isPunct .leftParen = false)
    (hnext : ∀ d ∈ (blockOf scope block rest).directives.head?, d.isLiteral = false) :
    blockOf scope block (tokens ++ rest) =
      ⟨.literal tokens :: (blockOf scope block rest).directives,
        tokens.length + (blockOf scope block rest).taken⟩ := by
  induction tokens with
  | nil => contradiction
  | cons t others ih =>
      have hstep (ahead : Ahead) :
          step scope ahead block.inLoop t (others ++ rest) = (.literal t, 0) := by
        refine step_plain (hplain t List.mem_cons_self) (htext.not_null t List.mem_cons_self) ?_ _ _
        intro hnextIs
        cases others with
        | nil =>
            obtain ⟨u, hu, hleft⟩ := (Option.any_eq_true _ _).mp hnextIs
            rw [hparen u hu] at hleft
            cases hleft
        | cons u others => exact htext.not_call t u ⟨[], others, rfl⟩ hnextIs
      rw [List.cons_append, blockOf_cons, blockAt,
        if_neg (Bool.eq_false_iff.mp (htext.not_terminator t List.mem_cons_self)), hstep]
      dsimp only [Step.cons]
      rw [List.drop_zero]
      cases others with
      | nil =>
          rw [List.nil_append, consLiteral_of_not_literal t hnext]
          rfl
      | cons u others =>
          have htail : LegibleText block (u :: others) :=
            ⟨(List.forall_mem_cons.mp htext.not_terminator).2,
              (List.forall_mem_cons.mp htext.not_null).2,
              fun v w hpair => htext.not_call v w (List.infix_cons hpair)⟩
          rw [ih (List.cons_ne_nil u others) (List.forall_mem_cons.mp hplain).2 htail]
          rw [consLiteral, List.length_cons, Nat.add_zero, Nat.add_comm 1, Nat.add_right_comm]
          rfl

/-! ### Trees -/

/-- Every directive but text begins with a token of its own, which is no parenthesis. -/
theorem head_print {parameters : List Parameter} {callable : Builtin → Prop} {d : Directive}
    (h : d.Legible parameters callable block) (hliteral : d.isLiteral = false) :
    ∃ t used, d.print parameters = t :: used ∧ t.isPunct .leftParen = false := by
  cases h with
  | literal => contradiction
  | @parameter _ index =>
      refine ⟨_, _, rfl, ?_⟩
      unfold Parameters.reference
      split <;> rfl
  | setExpand enabled => cases enabled <;> exact ⟨_, _, rfl, rfl⟩
  | _ => exact ⟨_, _, rfl, rfl⟩

theorem plain_of_wellFormed {ground : Ground} {inLoop : Bool} {tokens : List Token}
    (h : (Directive.literal tokens).WellFormed ground inLoop) :
    tokens ≠ [] ∧ ∀ t ∈ tokens, t.IsPlain ground := by
  cases h with
  | literal hne hplain => exact ⟨hne, hplain⟩

theorem exists_of_isLiteral {d : Directive} (h : d.isLiteral = true) :
    ∃ tokens, d = .literal tokens := by
  cases d with
  | literal tokens => exact ⟨tokens, rfl⟩
  | _ => contradiction

/-- Text in front of a block that is read back. -/
theorem readBack_literal {tokens : List Token} {others : List Directive} {callable : Builtin → Prop}
    (hwell : TreeWellFormed (scope.ground region) block.inLoop (.literal tokens :: others))
    (hlegible : TreeLegible scope.parameters callable block (.literal tokens :: others))
    (hback : ReadBack scope block others) : ReadBack scope block (.literal tokens :: others) := by
  intro rest hrest
  obtain ⟨hne, hplain⟩ := plain_of_wellFormed (hwell.directives _ List.mem_cons_self)
  have htext : LegibleText block tokens := by
    cases hlegible.directives _ List.mem_cons_self with
    | literal htext => exact htext
  have hnext : ∀ second ∈ others.head?, second.isLiteral = false := fun second hsecond =>
    Bool.eq_false_iff.mpr fun h => hwell.joined.1 second hsecond ⟨rfl, h⟩
  have hfirst : ∀ t ∈ (printTree scope.parameters others).head?, t.isPunct .leftParen = false := by
    cases others with
    | nil => nofun
    | cons second others =>
        have hsecond := hlegible.directives second (List.mem_cons_of_mem _ List.mem_cons_self)
        obtain ⟨t, used, hprint, ht⟩ := head_print hsecond (hnext second rfl)
        rw [printTree, hprint]
        rintro _ ⟨⟩
        exact ht
  have hend : ∀ t ∈ rest.head?, t.isPunct .leftParen = false := by
    intro t ht
    obtain ⟨keyword, _, rfl⟩ := hrest t ht
    rfl
  have hblock := hback rest hrest
  rw [printTree, Directive.print, List.append_assoc, List.length_append,
    blockOf_text hne hplain htext (forall_head_append hfirst hend) (by rw [hblock]; exact hnext),
    hblock]

/-- A directive in front of a block that is read back. -/
theorem readBack_cons {d : Directive} {others : List Directive}
    (hd : ∀ rest, EndsBlock block rest →
      Found scope block d (printTree scope.parameters others ++ rest))
    (hback : ReadBack scope block others) : ReadBack scope block (d :: others) := by
  intro rest hrest
  rw [printTree, List.append_assoc, List.length_append, blockOf_of_found (hd rest hrest),
    hback rest hrest]

/-- Where a block ends, so do the expressions in it. -/
theorem stopsBefore_of_endsBlock (e : Expr) (h : EndsBlock block rest) : e.StopsBefore rest := by
  cases rest with
  | nil => nofun
  | cons t rest =>
      obtain ⟨keyword, hkeyword, rfl⟩ := h t rfl
      have hboundaries : ["!ELSE", "!IFEND", "!DOEND"] ⊆ boundaries := by decide
      exact stopsBefore_boundary e (hboundaries (terminators_subset block hkeyword)) rest

mutual

theorem found_print (hscope : Faithful scope region) (d : Directive) {block : Block}
    {inLoop : Bool} {rest : List Token} (hloop : block.inLoop = inLoop)
    (hwell : d.WellFormed (scope.ground region) inLoop)
    (hlegible : d.Legible scope.parameters (Parameters.Callable scope.parameters) block)
    (hliteral : d.isLiteral = false)
    (hvalue : ∀ name value, d = .assign name value → value.StopsBefore rest) :
    Found scope block d rest := by
  match d with
  | .literal tokens => contradiction
  | .parameter index =>
    cases hwell with
    | parameter hindex =>
        cases hlegible with
        | parameter hends => exact found_parameter hscope hindex hends rest
  | .allPositionals => exact found_allPositionals rest
  | .call function arguments span =>
    cases hwell with
    | call hcount harguments hspan =>
        cases hlegible with
        | call hcall => exact found_call hscope (.call hcount harguments hspan) hcall rest
  | .cond condition thenBranch elseBranch =>
    cases hwell with
    | cond hcondition hthen hthenJoined helse helseJoined =>
        subst hloop
        cases hlegible with
        | cond hconditionLegible hthenLegible hthenValues helseLegible helseValues =>
            refine found_cond hscope ⟨hcondition, hconditionLegible⟩ ?_ ?_ rest
            · exact readBack_print hscope thenBranch ⟨hthen, hthenJoined⟩
                ⟨hthenLegible, hthenValues⟩
            · intro branch hbranch
              match elseBranch, hbranch with
              | some branch, rfl =>
                exact readBack_print hscope branch ⟨helse branch rfl, helseJoined branch rfl⟩
                  ⟨helseLegible branch rfl, helseValues branch rfl⟩
  | .doRange name first last step body span =>
    cases hwell with
    | doRange hname hfirst hlast hstep hbody hjoined =>
        cases hlegible with
        | doRange hfirstLegible hlastLegible hstepLegible hstops hnext hbodyLegible hvalues =>
            exact found_doRange hscope hname ⟨hfirst, hfirstLegible⟩ ⟨hlast, hlastLegible⟩
              (fun e he => ⟨hstep e he, hstepLegible e he⟩) hstops hnext
              (readBack_print hscope body ⟨hbody, hjoined⟩ ⟨hbodyLegible, hvalues⟩) rest
  | .doIn name list body span =>
    cases hwell with
    | doIn hname hlist hbody hjoined =>
        cases hlegible with
        | doIn hlistLegible hstops hbodyLegible hvalues =>
            exact found_doIn hscope hname ⟨hlist, hlistLegible⟩ hstops
              (readBack_print hscope body ⟨hbody, hjoined⟩ ⟨hbodyLegible, hvalues⟩) rest
  | .assign name value =>
    cases hwell with
    | assign hname hwell =>
        cases hlegible with
        | assign hlegible =>
            exact found_assign hscope hname ⟨hwell, hlegible⟩ (hvalue name value rfl)
  | .setExpand enabled => exact found_setExpand hscope enabled rest
  | .breakLoop =>
    cases hwell with
    | breakLoop => exact found_breakLoop hscope hloop rest
  | .invalid error span => nomatch hlegible

theorem readBack_print (hscope : Faithful scope region) (tree : List Directive) {block : Block}
    (hwell : TreeWellFormed (scope.ground region) block.inLoop tree)
    (hlegible : TreeLegible scope.parameters (Parameters.Callable scope.parameters) block tree) :
    ReadBack scope block tree := by
  match tree with
  | [] => exact fun rest hrest => blockOf_of_endsBlock scope hrest
  | d :: others =>
    obtain ⟨hd, hothers⟩ := List.forall_mem_cons.mp hwell.directives
    obtain ⟨hdLegible, hothersLegible⟩ := List.forall_mem_cons.mp hlegible.directives
    have hback : ReadBack scope block others :=
      readBack_print hscope others ⟨hothers, hwell.joined.2⟩ ⟨hothersLegible, hlegible.values.tail⟩
    cases hliteral : d.isLiteral with
    | true =>
        obtain ⟨tokens, rfl⟩ := exists_of_isLiteral hliteral
        exact readBack_literal hwell hlegible hback
    | false =>
        refine readBack_cons (fun rest hrest => ?_) hback
        refine found_print hscope d rfl hd hdLegible hliteral ?_
        rintro name value rfl
        exact forall_head_append hlegible.values.1 (stopsBefore_of_endsBlock value hrest)

end

end Body

/-! ### Bodies of definitions -/

namespace Definition

/-- The name of a keyword parameter is declared by a word without a mark that is not reserved. -/
theorem WritesRole.declares {t : Token} {p : Parameter} (h : WritesRole t p.role) {name : String}
    (hname : p.keyword? = some name) :
    name = Text.upper t.text ∧ t.isMacroId = false ∧ isReserved t.text = false := by
  rw [Parameter.keyword?_eq_some_iff.mp hname] at h
  cases h with
  | keyword _ hmark hreserved => exact ⟨rfl, hmark, hreserved⟩

/-- The keyword parameters of a definition are declared in it. -/
theorem exists_writesRole_of_parse {tokens : List Token} {d : Definition}
    (h : parse tokens = .ok d) {p : Parameter} (hp : p ∈ d.parameters) {name : String}
    (hname : p.keyword? = some name) : ∃ t ∈ tokens, WritesRole t p.role := by
  have hrole := Parameter.keyword?_eq_some_iff.mp hname
  obtain ⟨t, u, hpair, hnames⟩ := (parse_eq_ok_iff.mp h).1.names hp hrole
  rw [hrole, hnames.name_eq]
  exact ⟨t, hpair.subset List.mem_cons_self,
    .keyword hnames.isIdentifier hnames.isMacroId hnames.isReserved⟩

/-- The keyword parameters of a definition have stored names. -/
theorem isStoredName_of_parse {tokens : List Token} {d : Definition} (h : parse tokens = .ok d)
    (hspelled : ∀ t ∈ tokens, t.isIdentifier = true → Scan.Shape .identifier t.text.toList)
    {p : Parameter} (hp : p ∈ d.parameters) {name : String} (hname : p.keyword? = some name) :
    IsStoredName name := by
  obtain ⟨t, ht, hrole⟩ := exists_writesRole_of_parse h hp hname
  obtain ⟨rfl, _, _⟩ := hrole.declares hname
  exact isStoredName_upper (hspelled t ht hrole.isIdentifier)

/-- The keyword parameters of a definition in ASCII do not have reserved names. -/
theorem isReserved_of_parse {tokens : List Token} {d : Definition} (h : parse tokens = .ok d)
    (hascii : ∀ t ∈ tokens, t.isIdentifier = true → ∀ c ∈ t.text.toList, c.toNat < 128)
    {p : Parameter} (hp : p ∈ d.parameters) {name : String} (hname : p.keyword? = some name) :
    isReserved name = false := by
  obtain ⟨t, ht, hrole⟩ := exists_writesRole_of_parse h hp hname
  obtain ⟨rfl, _, hreserved⟩ := hrole.declares hname
  rw [isReserved_upper (.of_ascii (hascii t ht hrole.isIdentifier)), hreserved]

/-- A body over the parameters of a definition is read back from its printed form. -/
theorem compile_print {tokens : List Token} {d : Definition} {tree : List Directive}
    (hparse : parse tokens = .ok d)
    (hspelled : ∀ t ∈ tokens, t.isIdentifier = true → Scan.Shape .identifier t.text.toList)
    (hnames : ∀ p ∈ d.parameters, ∀ name, p.keyword? = some name →
      name ≠ "NOT" ∧ isReserved name = false)
    (hcount : d.parameters.length < 2 * Number.wordBound)
    (hwell : TreeWellFormed ⟨d.parameters, .forward⟩ false tree)
    (hlegible : TreeLegible d.parameters (Parameters.Callable d.parameters) .body tree) :
    Body.compile d.parameters (printTree d.parameters tree) = tree := by
  have hproper : Parameters.ProperlyNamed d.parameters :=
    ⟨fun _ hp _ => isStoredName_of_parse hparse hspelled hp,
      fun p hp name hname => (hnames p hp name hname).1,
      fun p hp name hname => (hnames p hp name hname).2⟩
  have hreferable : Parameters.Referable d.parameters :=
    Parameters.referable (parse_eq_ok_iff.mp hparse).2.ordered hproper hcount
  have hscope : Body.Faithful ⟨d.parameters, finishOf (printTree d.parameters tree)⟩ .forward :=
    ⟨hreferable, fun _ hspan => hspan⟩
  have hback : Body.ReadBack ⟨d.parameters, finishOf (printTree d.parameters tree)⟩ .body tree :=
    Body.readBack_print hscope tree hwell hlegible
  have hblock := hback [] nofun
  rw [List.append_nil] at hblock
  exact congrArg Body.Compiled.directives hblock

/-- The tokens of a definition without a body. -/
def declaring (declared : List Token) : List Token :=
  .word "DEFINE" (.point 0) :: .word "m" (.point 0) :: .sign .leftParen (.point 0) ::
    (declared ++ [.sign .rightParen (.point 0), .word "!ENDDEFINE" (.point 0)])

theorem parse_declaring {declared : List Token} {parameters : List Parameter}
    (h : WritesParameters declared parameters) (hvalid : Parameters.Valid parameters) :
    parse (declaring declared) = .ok { name := "m", span := .point 0, parameters, body := [] } := by
  have hbody : ∀ t ∈ ([] : List Token), t.matchesKeyword "!ENDDEFINE" = false :=
    List.forall_mem_nil _
  exact parse_eq_ok_iff.mpr ⟨writes_definition rfl h hbody, hvalid⟩

theorem shape_of_head {text : String}
    (h : (text.toList.head?.any fun c => c == '!' || Scan.isNameStart c) = true) :
    Scan.Shape .identifier text.toList := by
  obtain ⟨c, hc, hstart⟩ := (Option.any_eq_true _ _).mp h
  obtain ⟨cs, htext⟩ := List.head?_eq_some_iff.mp hc
  rw [htext]
  exact .identifier ((Bool.or_eq_true_iff.mp hstart).imp_left eq_of_beq)

theorem writesParameter_commandEnd {t : Token} {role : Role} (h : WritesRole t role) :
    WritesParameter [t, .word "!CMDEND" (.point 0)] { role, capture := .commandEnd } :=
  @WritesParameter.mk t none _ [.capture .commandEnd] _ h nofun
    (.cons (Token.abbreviates_word Clause.commandEnd.keyword (.point 0)) .commandEnd .nil)
    rfl rfl rfl

/-- A positional parameter and one called `K`. -/
def twoParameters : List Parameter :=
  [{ role := .positional, capture := .commandEnd },
    { role := .keyword "K", capture := .commandEnd }]

/-- `!DO !i !IN !1 !IF ~ !K = a !THEN !BREAK !IFEND !HEAD ( !i ) !DOEND` -/
def nestedBody : List Directive :=
  [.doIn "!i" (.operand (.parameter 0))
    [.cond
      (.not (.relation .equal (.operand (.parameter 1)) (.operand (.token (.word "a" (.point 0))))))
      [.breakLoop] none,
      .call .head [.token (.word "!i" (.point 0))] (.point 0)]
    (.point 0)]

theorem wellFormed_nestedBody : TreeWellFormed ⟨twoParameters, .forward⟩ false nestedBody := by
  have hname : IsVariableName ⟨twoParameters, .forward⟩ "!i" :=
    ⟨by decide, by decide, by decide, by decide⟩
  refine ⟨List.forall_mem_singleton.mpr ?_, nofun, trivial⟩
  refine .doIn hname (.parameter (by decide)) ?_ ?_ (Nat.le_refl 0)
  · refine List.forall_mem_cons.mpr ⟨.cond ?_ ?_ ⟨nofun, trivial⟩ nofun nofun, ?_⟩
    · exact ⟨.parameter (by decide), .token _⟩
    · exact List.forall_mem_singleton.mpr .breakLoop
    · refine List.forall_mem_singleton.mpr (.call (by decide) ?_ (Nat.le_refl 0))
      exact List.forall_mem_singleton.mpr (.token _)
  · refine ⟨?_, nofun, trivial⟩
    rintro _ ⟨⟩ ⟨⟨⟩, _⟩

theorem legible_nestedBody :
    TreeLegible twoParameters (Parameters.Callable twoParameters) .body nestedBody := by
  have hleaf : ∀ text ∈ ["a", "!i"], (Token.word text (.point 0)).IsLeaf twoParameters := by
    intro text htext
    have hall : ∀ text ∈ ["a", "!i"], Body.isNot (.word text (.point 0)) = false ∧
        Parameters.find? twoParameters text = none ∧
        (Token.word text (.point 0)).namesFunction = false := by decide
    obtain ⟨hnot, hparameter, hfunction⟩ := hall text htext
    exact ⟨rfl, rfl, rfl, rfl, hnot, rfl, fun _ => hparameter, hfunction⟩
  refine ⟨List.forall_mem_singleton.mpr (.doIn (.parameter 0) ?_ ?_ trivial), trivial⟩
  · rintro _ ⟨⟩
    decide
  · refine List.forall_mem_cons.mpr ⟨.cond ?_ ?_ trivial nofun nofun, ?_⟩
    · exact ⟨.parameter 1, .token (hleaf "a" (by decide))⟩
    · exact List.forall_mem_singleton.mpr .breakLoop
    · refine List.forall_mem_singleton.mpr (.call (.call (by decide) ?_))
      exact List.forall_mem_singleton.mpr (.token (hleaf "!i" (by decide)))

theorem compile_print_nested :
    Body.compile twoParameters (printTree twoParameters nestedBody) = nestedBody := by
  have hdeclared : WritesParameters
      ([.word "!POSITIONAL" (.point 0), .word "!CMDEND" (.point 0)] ++
        .sign .slash (.point 0) :: [.word "K" (.point 0), .word "!CMDEND" (.point 0)])
      twoParameters :=
    .cons (writesParameter_commandEnd (.positional (by decide)))
      (Token.isPunct_sign .slash (.point 0))
      (.last (writesParameter_commandEnd (.keyword rfl (by decide) (by decide))))
  have hvalid : Parameters.Valid twoParameters := by
    refine ⟨List.forall_mem_cons.mpr ⟨⟨trivial, nofun⟩, ?_⟩, ?_⟩
    · exact List.forall_mem_singleton.mpr ⟨trivial, nofun⟩
    · exact List.pairwise_pair.mpr ⟨by decide, by decide, nofun⟩
  have hall : ∀ t ∈ declaring
      ([.word "!POSITIONAL" (.point 0), .word "!CMDEND" (.point 0)] ++
        .sign .slash (.point 0) :: [.word "K" (.point 0), .word "!CMDEND" (.point 0)]),
      t.isIdentifier = true →
        (t.text.toList.head?.any fun c => c == '!' || Scan.isNameStart c) = true ∧
          (t.text.toList.all fun c => c.toNat < 128) = true := by decide
  have hnot : ∀ p ∈ twoParameters, p.keyword? ≠ some "NOT" := by decide
  have hparse := parse_declaring hdeclared hvalid
  refine compile_print hparse (fun t ht hname => shape_of_head (hall t ht hname).1) ?_ (by decide)
    wellFormed_nestedBody legible_nestedBody
  intro p hp name hname
  refine ⟨?_, isReserved_of_parse hparse (fun t ht hname c hc => ?_) hp hname⟩
  · rintro rfl
    exact hnot p hp hname
  · exact of_decide_eq_true (List.all_eq_true.mp (hall t ht hname).2 c hc)

/-- One parameter, which has the name of a function. -/
def headParameters : List Parameter :=
  [{ role := .keyword "HEAD", capture := .commandEnd }]

/-- `!HEAD ( x )` -/
def headCall : List Directive :=
  [.call .head [.token (.word "x" (.point 0))] (.point 0)]

/-- A parameter hides the function of its name, also where the function is called. -/
theorem function_name_hidden :
    parse (declaring [.word "HEAD" (.point 0), .word "!CMDEND" (.point 0)]) =
        .ok { name := "m", span := .point 0, parameters := headParameters, body := [] } ∧
      TreeWellFormed ⟨headParameters, .forward⟩ false headCall ∧
      TreeLegible headParameters (fun _ => True) .body headCall ∧
      Body.compile headParameters (printTree headParameters headCall) =
        [.parameter 0, .literal [.sign .leftParen (.point 0), .word "x" (.point 0),
          .sign .rightParen (.point 0)]] ∧
      Body.compile headParameters (printTree headParameters headCall) ≠ headCall := by
  have hvalid : Parameters.Valid headParameters :=
    ⟨List.forall_mem_singleton.mpr ⟨trivial, nofun⟩, List.pairwise_singleton ..⟩
  have hleaf : (Token.word "x" (.point 0)).IsLeaf headParameters :=
    ⟨rfl, rfl, rfl, rfl, by decide, rfl, by decide, by decide⟩
  refine ⟨parse_declaring (.last (writesParameter_commandEnd ?_)) hvalid, ⟨?_, nofun, trivial⟩,
    ⟨?_, trivial⟩, rfl, ?_⟩
  · exact .keyword rfl (by decide) (by decide)
  · refine List.forall_mem_singleton.mpr (.call (by decide) ?_ (Nat.le_refl 0))
    exact List.forall_mem_singleton.mpr (.token _)
  · refine List.forall_mem_singleton.mpr (.call (.call trivial ?_))
    exact List.forall_mem_singleton.mpr (.token hleaf)
  · intro h
    have hlength := congrArg List.length h
    contradiction

end Definition

end CommandMacros

import CommandMacros.Proofs.Body.WellFormed

/-!
Compiled bodies are well formed. A directive that fails is given up with all that was compiled
inside it, and its tokens are compiled again as part of the block around it; so the claim is made
for every kind of block at every place at once, and follows the tokens that are left.
-/

namespace CommandMacros

/-! ### Plain text -/

theorem Text.eq_bang_of_toUpper {c : Char} (h : c.toUpper = '!') : c = '!' := by
  by_cases hlower : 'a'.val ≤ c.val ∧ c.val ≤ 'z'.val
  · have hval := congrArg (·.val.toNat) ((dif_pos hlower).symm.trans h)
    dsimp only at hval
    rw [UInt32.toNat_add] at hval
    change 97 ≤ c.val.toNat ∧ c.val.toNat ≤ 122 at hlower
    change (c.val.toNat + 4294967264) % 2 ^ 32 = 33 at hval
    omega
  · exact (dif_neg hlower).symm.trans h

namespace Token

variable {t : Token} {keyword : String}

theorem asciiUpper_of_matchesKeyword (h : t.matchesKeyword keyword = true)
    (hkeyword : keyword ∈ directiveKeywords) : Text.asciiUpper t.text = keyword := by
  have hupper : ∀ k ∈ directiveKeywords, Text.asciiUpper k = k := by decide
  have hsame := Text.sameIgnoringCase_iff.mp (Bool.and_eq_true_iff.mp h).2
  rw [Text.asciiUpper, hsame]
  exact hupper keyword hkeyword

theorem isMacroId_of_matchesKeyword (h : t.matchesKeyword keyword = true)
    (hkeyword : keyword ∈ directiveKeywords) : t.isMacroId = true := by
  have hshape : ∀ k ∈ directiveKeywords, k.toList.head? = some '!' ∧ 1 < k.length := by decide
  obtain ⟨hhead, hlength⟩ := hshape keyword hkeyword
  have hupper := asciiUpper_of_matchesKeyword h hkeyword
  have hchars : t.text.toList.map Char.toUpper = keyword.toList := by
    rw [← hupper, Text.asciiUpper, Text.asciiUpperChars, String.toList_ofList]
  have hmarked : isMarked t.text = true := by
    rw [isMarked, String.front?_eq]
    rw [← hchars, List.head?_map] at hhead
    obtain ⟨c, hc, hbang⟩ := Option.map_eq_some_iff.mp hhead
    rw [hc, Text.eq_bang_of_toUpper hbang]
    rfl
  have hlong : 1 < t.text.length := by
    rwa [← String.length_toList, ← hchars, List.length_map, String.length_toList] at hlength
  rw [isMacroId, (Bool.and_eq_true_iff.mp h).1, hmarked]
  exact Nat.ble_eq.mpr hlong

/-- A token that is no name of the macro language is plain text. -/
theorem isPlain_of_not_isMacroId {ground : Ground} (hstar : t.isPunct .bangAsterisk = false)
    (h : t.isMacroId = false) (hspan : t.span ∈ ground.region) : t.IsPlain ground where
  not_bangAsterisk := hstar
  not_parameter hmarked := absurd hmarked (Bool.eq_false_iff.mp h)
  not_keyword keyword hkeyword := by
    rw [Bool.eq_false_iff]
    intro hmatches
    rw [isMacroId_of_matchesKeyword hmatches hkeyword] at h
    cases h
  span_mem := hspan

end Token

namespace Body

variable {region : Region} {scope : Scope}

/-! ### The parts of directives -/

section Parts

variable (hfinish : scope.finish ∈ region) {tokens : List Token} (h : Placed region tokens)

include hfinish h

theorem reads_variableName (directive : String) :
    Reads region (IsVariableName (scope.ground region)) (variableName scope directive tokens) := by
  rw [variableName]
  refine (reads_expect hfinish _ _ h).bind ?_
  rintro t ⟨⟨hmarked, hspan⟩, hrest⟩
  split
  · exact hspan
  · next hfree =>
      rw [Token.isMacroId, Bool.and_eq_true, Bool.and_eq_true, Nat.blt_eq] at hmarked
      rw [Bool.or_eq_true, not_or, Bool.not_eq_true, Bool.not_eq_true, Option.isSome_eq_false_iff,
        Option.isNone_iff_eq_none] at hfree
      exact ⟨⟨hmarked.1.2, hmarked.2, hfree.1, hfree.2⟩, hrest⟩

theorem reads_assignment (inLoop : Bool) :
    Reads region (fun d => d.WellFormed (scope.ground region) inLoop ∧ d.isLiteral = false)
      (assignment scope tokens) := by
  rw [assignment]
  refine (reads_variableName hfinish h "!LET").bind fun name hname => ?_
  refine (reads_expect hfinish _ _ hname.2).bind fun equals hequals => ?_
  refine (reads_expression hfinish hequals.2).bind fun value hvalue => ?_
  exact ⟨⟨.assign hname.1 hvalue.1, rfl⟩, hvalue.2⟩

theorem reads_loopStep :
    Reads region (fun step => ∀ expr ∈ step, expr.WellFormed (scope.ground region))
      (loopStep scope tokens) := by
  have hnone : ∀ expr ∈ (none : Option Expr), expr.WellFormed (scope.ground region) := by
    intro expr hexpr
    cases hexpr
  cases tokens with
  | nil => exact ⟨hnone, h⟩
  | cons t rest =>
      rw [loopStep]
      split
      · refine (reads_expression hfinish h.tail).bind fun step hstep => ⟨?_, hstep.2⟩
        rintro expr ⟨⟩
        exact hstep.1
      · exact ⟨hnone, h⟩

/-- What a loop runs over is well formed. -/
def LoopHead.WellFormed (ground : Ground) : LoopHead → Prop
  | .range first last step =>
    first.WellFormed ground ∧ last.WellFormed ground ∧ ∀ expr ∈ step, expr.WellFormed ground
  | .list items => items.WellFormed ground

theorem reads_loopHead :
    Reads region (LoopHead.WellFormed (scope.ground region)) (loopHead scope tokens) := by
  cases tokens with
  | nil => exact hfinish
  | cons t rest =>
      rw [loopHead]
      split
      · exact (reads_expression hfinish h.tail).bind fun list hlist => hlist
      split
      · refine (reads_expression hfinish h.tail).bind fun first hfirst => ?_
        refine (reads_expect hfinish _ _ hfirst.2).bind fun limit hlimit => ?_
        refine (reads_expression hfinish hlimit.2).bind fun last hlast => ?_
        refine (reads_loopStep hfinish hlast.2).bind fun step hstep => ?_
        exact ⟨⟨hfirst.1, hlast.1, hstep.1⟩, hstep.2⟩
      · exact h.head

theorem reads_conditionHead :
    Reads region (·.WellFormed (scope.ground region)) (conditionHead scope tokens) := by
  rw [conditionHead]
  refine (reads_expression hfinish h).bind fun condition hcondition => ?_
  refine (reads_expect hfinish _ _ hcondition.2).bind fun thenWord hthen => ?_
  exact ⟨hcondition.1, hthen.2⟩

end Parts

/-! ### Blocks -/

/-- Every block that is looked ahead to is well formed. -/
def Ahead.WellFormed (ground : Ground) (ahead : Ahead) : Prop :=
  ∀ block skipped, TreeWellFormed ground block.inLoop (ahead block skipped).directives

/-- What begins at a token is well formed. Plain text comes as a token, never as a directive. -/
def Step.WellFormed (ground : Ground) (inLoop : Bool) : Step → Prop
  | .literal t => t.IsPlain ground
  | .directive d => d.WellFormed ground inLoop ∧ d.isLiteral = false

section Blocks

variable (hfinish : scope.finish ∈ region) {ahead : Ahead}
  (hahead : ahead.WellFormed (scope.ground region)) {tokens : List Token}
  (h : Placed region tokens)

include hfinish hahead h

theorem yields_conditional (inLoop : Bool) {keyword : Span} (hkeyword : keyword ∈ region) :
    Yields region (fun r => r.1.WellFormed (scope.ground region) inLoop ∧ r.1.isLiteral = false)
      (conditional scope ahead inLoop keyword tokens) := by
  rw [conditional]
  refine (reads_conditionHead hfinish h).bind fun condition hcondition => ?_
  have hthen := hahead (.thenBranch inLoop) condition.taken
  dsimp only
  split
  · exact hkeyword
  split
  · next rest _ _ =>
      have helse := hahead (.elseBranch inLoop)
        (condition.taken + (ahead (.thenBranch inLoop) condition.taken).taken + 1)
      split
      · exact hkeyword
      · refine ⟨.cond hcondition.1 hthen.directives hthen.joined ?_ ?_, rfl⟩
        · rintro branch ⟨⟩
          exact helse.directives
        · rintro branch ⟨⟩
          exact helse.joined
  · refine ⟨.cond hcondition.1 hthen.directives hthen.joined ?_ ?_, rfl⟩
    · rintro branch ⟨⟩
    · rintro branch ⟨⟩

theorem yields_loop (inLoop : Bool) {keyword : Span} (hkeyword : keyword ∈ region) :
    Yields region (fun r => r.1.WellFormed (scope.ground region) inLoop ∧ r.1.isLiteral = false)
      (loop scope ahead keyword tokens) := by
  rw [loop]
  refine (reads_variableName hfinish h "!DO").bind fun name hname => ?_
  refine (reads_loopHead hfinish hname.2).bind fun head hhead => ?_
  have hbody := hahead .loop (name.taken + head.taken)
  dsimp only
  split
  · exact hkeyword
  · have hwell := hhead.1
    cases hvalue : head.value with
    | range first last step =>
        rw [hvalue] at hwell
        obtain ⟨hfirst, hlast, hstep⟩ := hwell
        exact ⟨.doRange hname.1 hfirst hlast hstep hbody.directives hbody.joined hkeyword, rfl⟩
    | list items =>
        rw [hvalue] at hwell
        exact ⟨.doIn hname.1 hwell hbody.directives hbody.joined hkeyword, rfl⟩

end Blocks

theorem recover_wellFormed {ground : Ground} {inLoop : Bool}
    {result : Except Fault (Directive × Nat)}
    (h : Yields ground.region (fun r => r.1.WellFormed ground inLoop ∧ r.1.isLiteral = false)
      result) : (recover result).1.WellFormed ground inLoop := by
  cases result with
  | ok r => exact h
  | error f => exact ⟨.invalid f.error h, rfl⟩

theorem step_wellFormed (hfinish : scope.finish ∈ region) {ahead : Ahead}
    (hahead : ahead.WellFormed (scope.ground region)) (inLoop : Bool) {t : Token}
    {rest : List Token} (h : Placed region (t :: rest)) :
    (step scope ahead inLoop t rest).1.WellFormed (scope.ground region) inLoop := by
  unfold step
  split
  · exact ⟨.allPositionals, rfl⟩
  next hstar =>
  have hstar := Bool.eq_false_iff.mpr hstar
  split
  · next hmarked =>
      exact Token.isPlain_of_not_isMacroId hstar (by simpa using hmarked) h.head
  split
  · next index hindex => exact ⟨.parameter (Parameters.find?_lt hindex), rfl⟩
  next hparameter =>
  split
  · exact recover_wellFormed (yields_conditional hfinish hahead h.tail inLoop h.head)
  · exact recover_wellFormed (yields_loop hfinish hahead h.tail inLoop h.head)
  · exact recover_wellFormed ((reads_assignment hfinish h.tail inLoop).map fun _ hread => hread.1)
  · split
    · next hloop =>
        subst hloop
        exact ⟨.breakLoop, rfl⟩
    · exact ⟨.invalid _ h.head, rfl⟩
  · exact ⟨.setExpand true, rfl⟩
  · exact ⟨.setExpand false, rfl⟩
  · next hif hdo hlet hbreak hon hoff =>
      split
      · next function _ =>
          refine recover_wellFormed ((reads_call function h).map fun _ hread => ?_)
          obtain ⟨⟨hcount, harguments, hspan⟩, _⟩ := hread
          exact ⟨.call hcount harguments hspan, rfl⟩
      · refine ⟨hstar, fun _ => hparameter, fun keyword hkeyword => ?_, h.head⟩
        rw [Bool.eq_false_iff]
        intro hmatches
        have hupper := Token.asciiUpper_of_matchesKeyword hmatches hkeyword
        simp only [directiveKeywords, List.mem_cons, List.not_mem_nil, or_false] at hkeyword
        rcases hkeyword with rfl | rfl | rfl | rfl | rfl | rfl
        · exact hif hupper
        · exact hdo hupper
        · exact hlet hupper
        · exact hbreak hupper
        · exact hon hupper
        · exact hoff hupper

/-! ### Bodies -/

theorem consLiteral_wellFormed {ground : Ground} {inLoop : Bool} {t : Token}
    {tree : List Directive} (ht : t.IsPlain ground) (h : TreeWellFormed ground inLoop tree) :
    TreeWellFormed ground inLoop (consLiteral t tree) := by
  obtain ⟨hdirectives, hjoined⟩ := h
  unfold consLiteral
  split
  · next tokens others =>
      obtain ⟨hfirst, hothers⟩ := List.forall_mem_cons.mp hdirectives
      cases hfirst with
      | literal hne hplain =>
          have hall : ∀ u ∈ t :: tokens, u.IsPlain ground := List.forall_mem_cons.mpr ⟨ht, hplain⟩
          exact ⟨List.forall_mem_cons.mpr ⟨.literal (List.cons_ne_nil t tokens) hall, hothers⟩,
            hjoined⟩
  · next hnot =>
      have hsingle : ∀ u ∈ [t], u.IsPlain ground := List.forall_mem_singleton.mpr ht
      refine ⟨List.forall_mem_cons.mpr ⟨.literal (List.cons_ne_nil t []) hsingle, hdirectives⟩,
        fun second hsecond => ?_, hjoined⟩
      rintro ⟨_, hliteral⟩
      obtain ⟨others, rfl⟩ := List.head?_eq_some_iff.mp hsecond
      cases second with
      | literal tokens => exact hnot tokens others rfl
      | _ => cases hliteral

theorem cons_wellFormed {ground : Ground} {inLoop : Bool} {first : Step} {tree : List Directive}
    (hfirst : first.WellFormed ground inLoop) (h : TreeWellFormed ground inLoop tree) :
    TreeWellFormed ground inLoop (first.cons tree) := by
  cases first with
  | literal t => exact consLiteral_wellFormed hfirst h
  | directive d =>
      obtain ⟨hwell, hliteral⟩ := hfirst
      refine ⟨List.forall_mem_cons.mpr ⟨hwell, h.directives⟩, fun second _ hboth => ?_, h.joined⟩
      rw [hboth.1] at hliteral
      cases hliteral

/-- Every block is well formed, whatever the tokens. -/
theorem blockOf_wellFormed (scope : Scope) (hfinish : scope.finish ∈ region) (block : Block)
    {tokens : List Token} (h : Placed region tokens) :
    TreeWellFormed (scope.ground region) block.inLoop (blockOf scope block tokens).directives := by
  -- The blocks looked ahead to begin later, and so follow from fewer tokens.
  induction hlength : tokens.length using Nat.strongRecOn generalizing block tokens with
  | _ n ih =>
    subst hlength
    cases tokens with
    | nil => exact ⟨List.forall_mem_nil _, trivial⟩
    | cons t rest =>
        have hahead : Ahead.WellFormed (scope.ground region)
            fun inner skipped => blockOf scope inner (rest.drop skipped) := by
          intro inner skipped
          refine ih _ ?_ inner (h.tail.drop skipped) rfl
          rw [List.length_drop, List.length_cons]
          omega
        rw [blockOf_cons, blockAt]
        split
        · exact ⟨List.forall_mem_nil _, trivial⟩
        · exact cons_wellFormed (step_wellFormed hfinish hahead block.inLoop h) (hahead block _)

/-- A compiled body is well formed over the parameters it was compiled under and every region that
its tokens lie in. -/
theorem compile_wellFormed (parameters : List Parameter) {tokens : List Token}
    (h : Placed region tokens) :
    TreeWellFormed ⟨parameters, region⟩ false (compile parameters tokens) :=
  blockOf_wellFormed ⟨parameters, finishOf tokens⟩ h.finishOf_mem .body h

end Body

end CommandMacros

import CommandMacros.Expansion.Substitute
import CommandMacros.Proofs.Body.ReadBack

/-!
Names inside nested blocks. A name that stands as text inside branches and loops, however deep,
gives the reference or the text that it is, and the blocks around it are compiled as they are around
any other such name: each block is read up to the keyword that closes it, and the directive that
holds it goes on from there. What a name must not do is end the block it stands in or carry on an
expression in front of it; names that the compiler takes for a shortened keyword do.
-/

namespace CommandMacros

/-- A token that does not carry on an expression or a call in front of it. -/
structure Token.Detached (t : Token) : Prop where
  carriesOn : t.carriesOn true = false
  not_by : t.matchesKeyword "!BY" = false
  not_leftParen : t.isPunct .leftParen = false

instance (t : Token) : Decidable t.Detached :=
  decidable_of_iff
    (t.carriesOn true = false ∧ t.matchesKeyword "!BY" = false ∧ t.isPunct .leftParen = false)
    ⟨fun h => ⟨h.1, h.2.1, h.2.2⟩, fun h => ⟨h.carriesOn, h.not_by, h.not_leftParen⟩⟩

namespace Body

variable {scope : Scope} {inLoop : Bool}

/-! ### Blocks and what surrounds them -/

/-- The block ends here: with the tokens, or at a keyword that ends it, which may be shortened. -/
def Ends (block : Block) (rest : List Token) : Prop :=
  ∀ t ∈ rest.head?, block.endsAt t = true

/-- The tokens are a whole block, wherever it ends. -/
def Fills (scope : Scope) (block : Block) (tokens : List Token) (tree : List Directive) : Prop :=
  ∀ rest, Ends block rest → blockOf scope block (tokens ++ rest) = ⟨tree, tokens.length⟩

/-- The tokens are the beginning of a block, whatever follows them, or if it is open whatever
follows them that does not carry on their last expression. -/
def LeadsIn (scope : Scope) (block : Block) (isOpen : Bool) (tokens : List Token)
    (steps : List Step) : Prop :=
  ∀ rest, (isOpen = true → ∀ t ∈ rest.head?, t.Detached) →
    blockOf scope block (tokens ++ rest) =
      ⟨steps.foldr Step.cons (blockOf scope block rest).directives,
        tokens.length + (blockOf scope block rest).taken⟩

/-- What stands before and after a block inside a directive that begins with the keyword, and the
directive by its block: the first branch of an `!IF` without `!ELSE`, either branch of one with it,
or the body of a loop. -/
inductive Opens (scope : Scope) (inLoop : Bool) :
    Block → Token → List Token → List Token → (List Directive → Directive) → Prop
  | thenAlone {keyword closing : Token} {head : List Token} {condition : Expr}
      (hkeyword : keyword.matchesKeyword "!IF" = true)
      (hhead : ∀ rest, Gives (conditionHead scope (head ++ rest)) condition rest)
      (hclosing : closing.abbreviates "!IFEND" = true) :
      Opens scope inLoop (.thenBranch inLoop) keyword head [closing]
        fun tree => .cond condition tree none
  | thenBranch {keyword elseWord closing : Token} {head other : List Token} {condition : Expr}
      {otherTree : List Directive} (hkeyword : keyword.matchesKeyword "!IF" = true)
      (hhead : ∀ rest, Gives (conditionHead scope (head ++ rest)) condition rest)
      (helse : elseWord.abbreviates "!ELSE" = true)
      (hother : Fills scope (.elseBranch inLoop) other otherTree)
      (hclosing : closing.abbreviates "!IFEND" = true) :
      Opens scope inLoop (.thenBranch inLoop) keyword head (elseWord :: (other ++ [closing]))
        fun tree => .cond condition tree (some otherTree)
  | elseBranch {keyword elseWord closing : Token} {head first : List Token} {condition : Expr}
      {firstTree : List Directive} (hkeyword : keyword.matchesKeyword "!IF" = true)
      (hhead : ∀ rest, Gives (conditionHead scope (head ++ rest)) condition rest)
      (hfirst : Fills scope (.thenBranch inLoop) first firstTree)
      (helse : elseWord.abbreviates "!ELSE" = true)
      (hclosing : closing.abbreviates "!IFEND" = true) :
      Opens scope inLoop (.elseBranch inLoop) keyword (head ++ (first ++ [elseWord])) [closing]
        fun tree => .cond condition firstTree (some tree)
  | loop {keyword index closing : Token} {head : List Token} {value : LoopHead}
      (hkeyword : keyword.matchesKeyword "!DO" = true)
      (hindex : ∀ rest, Gives (variableName scope "!DO" (index :: rest)) index.text rest)
      (hhead : ∀ rest, (∀ t ∈ rest.head?, t.Detached) →
        Gives (loopHead scope (head ++ rest)) value rest)
      (hclosing : closing.abbreviates "!DOEND" = true) :
      Opens scope inLoop .loop keyword (index :: head) [closing]
        fun tree => value.toDirective index.text tree keyword.span

/-- A place for the name inside blocks in blocks: what stands before it and after it, and the whole
by what the name gives. -/
inductive Nest (scope : Scope) (name : Token) :
    Block → Block → List Token → List Token → (Step → List Directive) → Prop
  | here {block : Block} {isOpen : Bool} {before after : List Token} {steps : List Step}
      {tree : List Directive} (hbefore : LeadsIn scope block isOpen before steps)
      (hname : isOpen = true → name.Detached) (hafter : Fills scope block after tree) :
      Nest scope name block block before after fun step => steps.foldr Step.cons (step.cons tree)
  | inside {block middle inner : Block} {isOpen : Bool} {keyword : Token}
      {before after head closing front back : List Token} {steps : List Step}
      {tree : List Directive} {wrap : List Directive → Directive} {whole : Step → List Directive}
      (hbefore : LeadsIn scope block isOpen before steps)
      (hopens : Opens scope block.inLoop middle keyword head closing wrap)
      (hfirst : middle = .loop → ∀ t ∈ (front ++ [name]).head?, t.Detached)
      (hinside : Nest scope name middle inner front back whole)
      (hafter : Fills scope block after tree) :
      Nest scope name block inner (before ++ keyword :: (head ++ front))
        (back ++ (closing ++ after)) fun step => steps.foldr Step.cons (wrap (whole step) :: tree)

/-! ### Text around names -/

theorem blockOf_of_ends {block : Block} {rest : List Token} (h : Ends block rest) :
    blockOf scope block rest = .empty := by
  cases rest with
  | nil => rfl
  | cons t rest => rw [blockOf_cons, blockAt, if_pos (h t rfl)]

/-- Ordinary words and signs lead in to whatever follows them. -/
theorem leadsIn_text (scope : Scope) (block : Block) {tokens : List Token}
    (h : ∀ t ∈ tokens, t.isMacroId = false ∧ t.isPunct .bangAsterisk = false) :
    LeadsIn scope block false tokens (tokens.map .literal) := by
  intro rest _
  induction tokens with
  | nil =>
      rw [List.nil_append, List.length_nil, Nat.zero_add]
      rfl
  | cons t tokens ih =>
      obtain ⟨⟨hname, hstar⟩, hothers⟩ := List.forall_mem_cons.mp h
      have hends : block.endsAt t = false := by
        rw [Block.endsAt, hname, Bool.false_and]
      have hstep (ahead : Ahead) : step scope ahead block.inLoop t (tokens ++ rest) =
          (.literal t, 0) := by
        rw [step, if_neg (Bool.eq_false_iff.mp hstar), hname, if_pos (by decide)]
      rw [List.cons_append, blockOf_of_step hends (hstep _), List.drop_zero, ih hothers,
        List.length_cons]
      refine congrArg (Compiled.mk _) ?_
      dsimp only
      omega

theorem LeadsIn.fills {block : Block} {tokens : List Token} {steps : List Step}
    (h : LeadsIn scope block false tokens steps) :
    Fills scope block tokens (steps.foldr Step.cons []) := by
  intro rest hrest
  rw [h rest nofun, blockOf_of_ends hrest]
  rfl

/-! ### Keywords around blocks -/

theorem ends_of_abbreviates {block : Block} {t : Token} {terminator : String}
    (h : terminator ∈ block.terminators) (ht : t.abbreviates terminator = true)
    (rest : List Token) : Ends block (t :: rest) := by
  have hlong : ∀ k ∈ ["!ELSE", "!IFEND", "!DOEND"], IsLongKeyword k := by decide
  rintro _ ⟨⟩
  rw [Block.endsAt, Bool.and_eq_true]
  refine ⟨(hlong terminator (terminators_subset block h)).isMacroId ht, ?_⟩
  exact List.any_eq_true.mpr ⟨terminator, h, ht⟩

/-- Whether an identifier carries on an expression does not depend on its case. -/
theorem carriesOn_congr {t u : Token} (ht : t.isIdentifier = true) (hu : u.isIdentifier = true)
    (h : Text.asciiUpperChars t.text.toList = Text.asciiUpperChars u.text.toList) (isOpen : Bool) :
    t.carriesOn isOpen = u.carriesOn isOpen := by
  have hmatches (keyword : String) : t.matchesKeyword keyword = u.matchesKeyword keyword := by
    simp only [Token.matchesKeyword, Text.sameIgnoringCase, ht, hu, h]
  have hpunct (p : Punct) : t.isPunct p = u.isPunct p := by
    rw [Token.isPunct_of_isIdentifier ht, Token.isPunct_of_isIdentifier hu]
  have hrelation : Relation.ofToken? t = Relation.ofToken? u := by
    rw [Relation.ofToken?, Relation.ofToken?, Token.kind_of_isIdentifier ht,
      Token.kind_of_isIdentifier hu]
    dsimp only
    rw [Relation.ofWord?, Relation.ofWord?, Text.asciiUpper, Text.asciiUpper,
      asciiUpperChars_unmarked h]
  simp only [Token.carriesOn, isOr, isAnd, hmatches, hpunct, hrelation]

/-- The keywords of directives carry nothing on. -/
theorem detached_of_matchesKeyword {t : Token} {keyword : String} (h : keyword ∈ directiveKeywords)
    (ht : t.matchesKeyword keyword = true) : t.Detached := by
  have hkeywords : ∀ k ∈ directiveKeywords, (Token.keyword k).Detached := by decide
  obtain ⟨hcarries, hby, _⟩ := hkeywords keyword h
  obtain ⟨hname, hsame⟩ := Bool.and_eq_true_iff.mp ht
  have hchars := Text.sameIgnoringCase_iff.mp hsame
  refine ⟨(carriesOn_congr hname rfl hchars true).trans hcarries, ?_,
    Token.isPunct_of_isIdentifier hname _⟩
  rw [Token.matchesKeyword, hname, Text.sameIgnoringCase, hchars]
  exact hby

/-! ### Directives around blocks -/

section Around

variable {inner : Block} {keyword : Token} {head closing : List Token}
  {wrap : List Directive → Directive}

theorem Opens.exists_keyword (h : Opens scope inLoop inner keyword head closing wrap) :
    ∃ text ∈ ["!IF", "!DO"], keyword.matchesKeyword text = true := by
  cases h with
  | thenAlone hkeyword | thenBranch hkeyword | elseBranch hkeyword =>
      exact ⟨"!IF", by decide, hkeyword⟩
  | loop hkeyword => exact ⟨"!DO", by decide, hkeyword⟩

theorem Opens.ends (h : Opens scope inLoop inner keyword head closing wrap)
    (following : List Token) : Ends inner (closing ++ following) := by
  cases h with
  | thenAlone _ _ hclosing => exact ends_of_abbreviates (.tail _ (.head _)) hclosing _
  | thenBranch _ _ helse => exact ends_of_abbreviates (.head _) helse _
  | elseBranch _ _ _ _ hclosing => exact ends_of_abbreviates (.head _) hclosing _
  | loop _ _ _ hclosing => exact ends_of_abbreviates (.head _) hclosing _

variable (hkeywords : ∀ text ∈ ["!IF", "!DO"], Parameters.find? scope.parameters text = none)

include hkeywords

theorem step_of_blockKeyword {ahead : Ahead} {text : String} {rest : List Token}
    (h : text ∈ ["!IF", "!DO"]) (hkeyword : keyword.matchesKeyword text = true) :
    step scope ahead inLoop keyword rest =
      keywordStep scope ahead inLoop keyword.span rest text := by
  have hdirective : ∀ text ∈ ["!IF", "!DO"], text ∈ directiveKeywords := by decide
  apply step_of_matchesKeyword ahead inLoop (hdirective text h) hkeyword
  rw [Parameters.find?_congr (Text.sameIgnoringCase_iff.mp (Bool.and_eq_true_iff.mp hkeyword).2)]
  exact hkeywords text h

/-- A directive is found at its keyword if its block is read up to the keyword that closes it. -/
theorem Opens.step_eq (h : Opens scope inLoop inner keyword head closing wrap)
    {inside following : List Token} {tree : List Directive}
    (hfirst : inner = .loop → ∀ t ∈ (inside ++ (closing ++ following)).head?, t.Detached)
    (hinside : blockOf scope inner (inside ++ (closing ++ following)) = ⟨tree, inside.length⟩) :
    step scope (fun block skipped =>
        blockOf scope block ((head ++ (inside ++ closing) ++ following).drop skipped))
      inLoop keyword (head ++ (inside ++ closing) ++ following) =
      (.directive (wrap tree), (head ++ (inside ++ closing)).length) := by
  have hnotElse {t : Token} (ht : t.abbreviates "!IFEND" = true) :
      t.abbreviates "!ELSE" = false := by
    have hlong : IsLongKeyword "!IFEND" ∧ IsLongKeyword "!ELSE" := by decide
    obtain ⟨hname, hshort⟩ := Bool.and_eq_true_iff.mp ht
    rw [Token.abbreviates, hname, hlong.1.unique hlong.2 (by decide) hshort]
    rfl
  cases h with
  | thenAlone hkeyword hhead hclosing =>
      rw [step_of_blockKeyword hkeywords (.head _) hkeyword]
      refine recover_of_eq_ok following ?_
      simp only [List.append_assoc, List.cons_append, List.nil_append] at hinside ⊢
      exact conditional_of_then (hhead _) (List.suffix_append ..) hinside (hnotElse hclosing)
  | thenBranch hkeyword hhead helse hother hclosing =>
      rw [step_of_blockKeyword hkeywords (.head _) hkeyword]
      refine recover_of_eq_ok following ?_
      simp only [List.append_assoc, List.cons_append, List.nil_append] at hinside ⊢
      refine conditional_of_else (hhead _) (List.suffix_append ..) hinside helse (hother _ ?_)
      exact ends_of_abbreviates (.head _) hclosing following
  | elseBranch hkeyword hhead hthen helse hclosing =>
      rw [step_of_blockKeyword hkeywords (.head _) hkeyword]
      refine recover_of_eq_ok following ?_
      simp only [List.append_assoc, List.cons_append, List.nil_append] at hinside ⊢
      refine conditional_of_else (hhead _) (List.suffix_append ..) (hthen _ ?_) helse hinside
      exact ends_of_abbreviates (.head _) helse _
  | loop hkeyword hindex hhead hclosing =>
      rw [step_of_blockKeyword hkeywords (.tail _ (.head _)) hkeyword]
      refine recover_of_eq_ok following ?_
      simp only [List.append_assoc, List.cons_append, List.nil_append] at hfirst hinside ⊢
      exact loop_of_body (hindex _) (List.suffix_cons ..) (hhead _ (hfirst trivial))
        (List.suffix_append ..) hinside

/-- The blocks around a name are read around what it gives. -/
theorem Nest.blockOf_eq {name : Token} {outer inner : Block} {front back : List Token}
    {whole : Step → List Directive} (h : Nest scope name outer inner front back whole)
    (hends : inner.endsAt name = false) {first : Step} {rest : List Token} (hrest : Ends outer rest)
    (hstep : ∀ ahead inLoop, step scope ahead inLoop name (back ++ rest) = (first, 0)) :
    blockOf scope outer (front ++ name :: (back ++ rest)) =
      ⟨whole first, (front ++ name :: back).length⟩ := by
  induction h generalizing rest with
  | @here block isOpen before after steps tree hbefore hname hafter =>
      have hnext : isOpen = true → ∀ t ∈ (name :: (after ++ rest)).head?, t.Detached := by
        rintro hopen _ ⟨⟩
        exact hname hopen
      rw [hbefore _ hnext, blockOf_of_step hends (hstep _ _), List.drop_zero, hafter rest hrest,
        List.length_append, List.length_cons]
      dsimp only
      rw [Nat.add_zero, Nat.add_comm 1]
  | @inside block middle inner isOpen keyword before after head closing front back steps tree wrap
      whole hbefore hopens hfirst _ hafter ih =>
      have hplace : ∀ ahead inLoop,
          step scope ahead inLoop name (back ++ (closing ++ (after ++ rest))) = (first, 0) := by
        simpa only [List.append_assoc] using hstep
      -- The block inside ends where the directive around it goes on.
      have hinside := ih hends (hopens.ends (after ++ rest)) hplace
      rw [← List.cons_append, ← List.append_assoc] at hinside
      have hhead : middle = .loop →
          ∀ t ∈ ((front ++ name :: back) ++ (closing ++ (after ++ rest))).head?, t.Detached := by
        cases front with
        | nil => exact hfirst
        | cons u front => exact hfirst
      have hdirective := hopens.step_eq hkeywords hhead hinside
      obtain ⟨text, htext, hkeyword⟩ := hopens.exists_keyword
      have hmem : ∀ text ∈ ["!IF", "!DO"], text ∈ directiveKeywords := by decide
      have hnext : isOpen = true → ∀ t ∈
          (keyword :: (head ++ ((front ++ name :: back) ++ closing) ++ (after ++ rest))).head?,
          t.Detached := by
        rintro _ _ ⟨⟩
        exact detached_of_matchesKeyword (hmem text htext) hkeyword
      have htokens : before ++ keyword :: (head ++ front) ++ name :: (back ++ (closing ++ after) ++
          rest) = before ++ keyword :: (head ++ ((front ++ name :: back) ++ closing) ++
            (after ++ rest)) := by
        simp only [List.append_assoc, List.cons_append]
      rw [htokens, hbefore _ hnext,
        blockOf_of_step (endsAt_of_matchesKeyword (hmem text htext) hkeyword block) hdirective,
        List.drop_left, hafter rest hrest]
      refine congrArg (Compiled.mk _) ?_
      simp only [List.length_append, List.length_cons]
      omega

end Around

/-! ### Names as text -/

/-- What a name gives where it stands as text before these tokens: the reference to its parameter,
or itself if it can be the name of a variable. -/
inductive Stands (parameters : List Parameter) (name : Token) (following : List Token) :
    Step → Prop
  | reference {index : Nat} (hmacroId : name.isMacroId = true)
      (hfind : Parameters.find? parameters name.text = some index) :
      Stands parameters name following (.directive (.parameter index))
  | text {finish : Span} {directive : String} {rest : List Token}
      (hname : Gives (variableName ⟨parameters, finish⟩ directive (name :: rest)) name.text rest)
      (hnull : name.abbreviates Builtin.null.name = false)
      (hcall : nextIs (·.isPunct .leftParen) following = true → name.namesFunction = false) :
      Stands parameters name following (.literal name)

/-- A name that is not reserved is no keyword. -/
theorem matchesKeyword_of_not_reserved {t : Token} (h : isReserved t.text = false)
    {keyword : String} (hkeyword : keyword ∈ directiveKeywords) :
    t.matchesKeyword keyword = false := by
  have hreserved : ∀ k ∈ directiveKeywords, isReserved k = true := by decide
  rw [Bool.eq_false_iff]
  intro ht
  have hsame := Text.sameIgnoringCase_iff.mp (Bool.and_eq_true_iff.mp ht).2
  rw [isReserved_congr hsame, hreserved keyword hkeyword] at h
  contradiction

theorem Stands.isMacroId {parameters : List Parameter} {name : Token} {following : List Token}
    {first : Step} (h : Stands parameters name following first) : name.isMacroId = true := by
  cases h with
  | reference hmacroId => exact hmacroId
  | text hname => exact (gives_variableName_iff.mp hname).1

/-- A name stands for what it gives, in a loop or not. -/
theorem Stands.step_eq {name : Token} {following : List Token} {first : Step}
    (h : Stands scope.parameters name following first) (ahead : Ahead) (inLoop : Bool) :
    step scope ahead inLoop name following = (first, 0) := by
  cases h with
  | reference hmacroId hfind => exact step_parameter hmacroId hfind ahead inLoop
  | text hname hnull hcall =>
      obtain ⟨hmacroId, hreserved, hfind⟩ := gives_variableName_iff.mp hname
      have hplain : name.IsPlain (scope.ground .everywhere) :=
        ⟨Token.isPunct_of_isIdentifier (isIdentifier_of_isMacroId hmacroId) _, fun _ => hfind,
          fun _ hkeyword => matchesKeyword_of_not_reserved hreserved hkeyword,
          Region.mem_everywhere _⟩
      exact step_plain hplain hnull hcall ahead inLoop

end Body

/-- A name that stands as text inside nested blocks gives its parameter or itself, and the blocks
around it are compiled around that, unless the name ends the block it stands in. Text that names a
variable is replaced by the variable's value. -/
theorem name_in_nested_blocks {parameters : List Parameter}
    (hkeywords : ∀ text ∈ ["!IF", "!DO"], Parameters.find? parameters text = none) {name : Token}
    {inner : Body.Block} {front back : List Token} {whole : Body.Step → List Directive}
    {first : Body.Step}
    (hnest : Body.Nest ⟨parameters, finishOf (front ++ name :: back)⟩ name .body inner front back
      whole)
    (hname : Body.Stands parameters name back first) (hends : inner.endsAt name = false) :
    Body.compile parameters (front ++ name :: back) = whole first ∧
      ∀ env eval scene value before after,
        scene.activation.locals.get? name.text = some value →
          Expansion.substituteOne env eval (.literal (before ++ name :: after)) scene =
            .ofTokens (before.flatMap (Expansion.literalTokens env scene) ++
              Emitted.inert (tokenizeAt value name.span) ++
              after.flatMap (Expansion.literalTokens env scene)) scene := by
  constructor
  · have hend : Body.Ends .body [] := nofun
    have hblock := hnest.blockOf_eq hkeywords hends hend (by
      rw [List.append_nil]
      exact hname.step_eq)
    rw [List.append_nil] at hblock
    exact congrArg Body.Compiled.directives hblock
  · intro env eval scene value before after hvalue
    have hliteral : Expansion.literalTokens env scene name =
        Emitted.inert (tokenizeAt value name.span) := by
      rw [Expansion.literalTokens, if_pos hname.isMacroId, hvalue]
    rw [Expansion.substituteOne, List.flatMap_append, List.flatMap_cons, hliteral,
      List.append_assoc]

namespace Body

/-- One parameter, whose name is a shortened `!ELSE`. -/
def shortParameters : List Parameter :=
  [{ role := .keyword "ELS", capture := .commandEnd }]

theorem referable_short : Parameters.Referable shortParameters := by
  have hstored : ∀ p ∈ shortParameters, ∀ name, p.keyword? = some name → IsStoredName name := by
    refine List.forall_mem_singleton.mpr ?_
    rintro _ ⟨⟩
    exact ⟨by decide, 'E', ['L', 'S'], rfl,
      Text.isCapital_of_toNat (.inr (by decide)) (.inl (by decide))⟩
  refine Parameters.referable (List.pairwise_singleton ..) ⟨hstored, ?_, ?_⟩ (by decide)
  · refine List.forall_mem_singleton.mpr ?_
    rintro _ ⟨⟩
    decide
  · refine List.forall_mem_singleton.mpr ?_
    rintro _ ⟨⟩
    decide

theorem faithful_short (finish : Span) : Faithful ⟨shortParameters, finish⟩ .forward :=
  ⟨referable_short, fun _ hspan => hspan⟩

theorem readable_word (finish : Span) :
    Readable ⟨shortParameters, finish⟩ .forward (.operand (.token (.keyword "a"))) := by
  have hleaf : (Token.keyword "a").IsLeaf shortParameters :=
    ⟨rfl, rfl, rfl, rfl, by decide, rfl, by decide, by decide⟩
  exact ⟨Operand.WellFormed.token _, Operand.Legible.token hleaf⟩

/-- `!IF a !THEN` -/
theorem gives_shortCondition (finish : Span) (rest : List Token) :
    Gives (conditionHead ⟨shortParameters, finish⟩
      ([.keyword "a", .keyword "!THEN"] ++ rest)) (.operand (.token (.keyword "a"))) rest :=
  gives_conditionHead (faithful_short finish) (readable_word finish) rest

theorem find?_blockKeyword_short :
    ∀ text ∈ ["!IF", "!DO"], Parameters.find? shortParameters text = none := by
  decide

/-- `!DO !i !IN a !IF a !THEN x !ELSE y … !IFEND !DOEND` -/
theorem nest_short (finish : Span) :
    Nest ⟨shortParameters, finish⟩ (.keyword "!els") .body (.elseBranch true)
      [.keyword "!DO", .keyword "!i", .keyword "!IN", .keyword "a", .keyword "!IF", .keyword "a",
        .keyword "!THEN", .keyword "x", .keyword "!ELSE", .keyword "y"]
      [.keyword "!IFEND", .keyword "!DOEND"]
      fun step => [.doIn "!i" (.operand (.token (.keyword "a")))
        [.cond (.operand (.token (.keyword "a"))) [.literal [.keyword "x"]]
          (some (consLiteral (.keyword "y") (step.cons [])))] (.point 0)] := by
  have hnone (block : Block) : LeadsIn ⟨shortParameters, finish⟩ block false [] [] :=
    leadsIn_text _ block nofun
  have hword (block : Block) (text : String) (htext : text ∈ ["x", "y"]) :
      LeadsIn ⟨shortParameters, finish⟩ block false [.keyword text] [.literal (.keyword text)] := by
    have hplain : ∀ text ∈ ["x", "y"], (Token.keyword text).isMacroId = false := by decide
    exact leadsIn_text _ block (List.forall_mem_singleton.mpr ⟨hplain text htext, rfl⟩)
  have hbranch : Opens ⟨shortParameters, finish⟩ true (.elseBranch true) (.keyword "!IF")
      ([.keyword "a", .keyword "!THEN"] ++ ([.keyword "x"] ++ [.keyword "!ELSE"]))
      [.keyword "!IFEND"] fun tree => .cond (.operand (.token (.keyword "a")))
        [.literal [.keyword "x"]] (some tree) :=
    .elseBranch (by decide) (gives_shortCondition finish) (hword _ "x" (by decide)).fills
      (by decide) (by decide)
  have hfree : Parameters.find? shortParameters "!i" = none := by decide
  have hloop : Opens ⟨shortParameters, finish⟩ false .loop (.keyword "!DO")
      (.keyword "!i" :: [.keyword "!IN", .keyword "a"]) [.keyword "!DOEND"]
      fun tree => LoopHead.toDirective "!i" tree (.point 0)
        (.list (.operand (.token (.keyword "a")))) := by
    refine .loop (by decide) (fun rest => ?_) (fun rest hrest => ?_) (by decide)
    · exact gives_variableName_iff.mpr ⟨by decide, by decide, hfree⟩
    · exact gives_loopHead_list (faithful_short finish) (readable_word finish)
        fun t ht => (hrest t ht).carriesOn
  have hinner : Nest ⟨shortParameters, finish⟩ (.keyword "!els") (.elseBranch true)
      (.elseBranch true) [.keyword "y"] []
      fun step => consLiteral (.keyword "y") (step.cons []) :=
    .here (hword _ "y" (by decide)) nofun (hnone _).fills
  have hmiddle := Nest.inside (hnone .loop) hbranch nofun hinner (hnone .loop).fills
  refine Nest.inside (hnone .body) hloop ?_ hmiddle (hnone .body).fills
  rintro _ _ ⟨⟩
  decide

/-- `!DO !i !IN a !IF a !THEN x !ELSE y !els !IFEND !DOEND`: a name that is a shortened `!ELSE`
stands in a branch that no `!ELSE` can follow. -/
theorem name_in_else_branch :
    (∃ d, Definition.parse (tokenize ("DEFINE m (els !CMDEND) !DO !i !IN a !IF a !THEN x " ++
        "!ELSE y !els !IFEND !DOEND !ENDDEFINE.")) = .ok d ∧ d.parameters = shortParameters) ∧
      compile shortParameters ([.keyword "!DO", .keyword "!i", .keyword "!IN", .keyword "a",
          .keyword "!IF", .keyword "a", .keyword "!THEN", .keyword "x", .keyword "!ELSE",
          .keyword "y"] ++ .keyword "!els" :: [.keyword "!IFEND", .keyword "!DOEND"]) =
        [.doIn "!i" (.operand (.token (.keyword "a")))
          [.cond (.operand (.token (.keyword "a"))) [.literal [.keyword "x"]]
            (some [.literal [.keyword "y"], .parameter 0])] (.point 0)] := by
  have hparameters : (Definition.parse (tokenize (
      "DEFINE m (els !CMDEND) !DO !i !IN a !IF a !THEN x " ++
        "!ELSE y !els !IFEND !DOEND !ENDDEFINE."))).toOption.map
          Definition.parameters = some shortParameters := by
    decide +kernel
  have hname : Stands shortParameters (.keyword "!els") [.keyword "!IFEND", .keyword "!DOEND"]
      (.directive (.parameter 0)) :=
    .reference (by decide) (by decide)
  exact ⟨Definition.exists_of_map hparameters,
    (name_in_nested_blocks find?_blockKeyword_short (nest_short _) hname (by decide)).1⟩

/-- A name that is a shortened `!ELSE` ends the branch that it stands in. -/
theorem short_name_ends_branch :
    (∃ d, Definition.parse (tokenize
        "DEFINE m (els !CMDEND) !IF a !THEN !els !IFEND !ENDDEFINE.") = .ok d ∧
      d.parameters = shortParameters) ∧
      Parameters.find? shortParameters "!els" = some 0 ∧
      compile shortParameters [.keyword "!IF", .keyword "a", .keyword "!THEN", .keyword "!els",
          .keyword "!IFEND"] =
        [.cond (.operand (.token (.keyword "a"))) [] (some [])] := by
  have hparameters : (Definition.parse (tokenize
      "DEFINE m (els !CMDEND) !IF a !THEN !els !IFEND !ENDDEFINE.")).toOption.map
        Definition.parameters = some shortParameters := by
    decide +kernel
  refine ⟨Definition.exists_of_map hparameters, by decide, ?_⟩
  rw [compile]
  generalize finishOf _ = finish
  have hnone (block : Block) : LeadsIn ⟨shortParameters, finish⟩ block false [] [] :=
    leadsIn_text _ block nofun
  have hbranch : Opens ⟨shortParameters, finish⟩ false (.elseBranch false) (.keyword "!IF")
      ([.keyword "a", .keyword "!THEN"] ++ ([] ++ [.keyword "!els"])) [.keyword "!IFEND"]
      fun tree => .cond (.operand (.token (.keyword "a"))) [] (some tree) :=
    .elseBranch (by decide) (gives_shortCondition finish) (hnone _).fills (by decide) (by decide)
  have hblock := (hnone (.elseBranch false)).fills _ (hbranch.ends [])
  have hstep := hbranch.step_eq find?_blockKeyword_short nofun hblock
  have hends : Block.body.endsAt (.keyword "!IF") = false := by decide
  exact congrArg Compiled.directives (blockOf_of_step hends hstep)

end Body

end CommandMacros

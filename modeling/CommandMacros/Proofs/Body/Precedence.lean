import CommandMacros.Proofs.Body.Print
import CommandMacros.Proofs.Recognition

/-!
Expressions are read with the precedence they are printed with. How an expression can be spelled is
a relation with one rule for each operator, whatever its spelling, and parentheses wherever they
are put; the reader of a level takes what is spelled at that level and stops where nothing carries
it on.
-/

namespace CommandMacros

/-! ### Operators -/

/-- A token that matches a keyword is a relation only if the keyword is one, marked or not. -/
theorem Relation.ofToken?_of_matchesKeyword {t : Token} {keyword : String}
    (h : t.matchesKeyword keyword = true) : ofToken? t = ofWord? (unmarked keyword) := by
  obtain ⟨hname, hsame⟩ := Bool.and_eq_true_iff.mp h
  have hupper := asciiUpperChars_unmarked (Text.sameIgnoringCase_iff.mp hsame)
  rw [ofToken?, Token.kind_of_isIdentifier hname]
  simp only [ofWord?, Text.asciiUpper, hupper]

namespace Relation

def word : Relation → String
  | equal => "EQ"
  | notEqual => "NE"
  | less => "LT"
  | greater => "GT"
  | lessEqual => "LE"
  | greaterEqual => "GE"

/-- The token is the sign of the relation, or its word, with or without a mark. -/
def SpelledBy (which : Relation) (t : Token) : Prop :=
  t.isPunct which.punct = true ∨ t.matchesKeyword which.word = true ∨
    t.matchesKeyword ("!" ++ which.word) = true

theorem ofToken?_of_spelledBy {which : Relation} {t : Token} (h : which.SpelledBy t) :
    ofToken? t = some which := by
  rcases h with h | h | h
  · rw [ofToken?, eq_of_beq h]
    cases which <;> rfl
  · rw [ofToken?_of_matchesKeyword h]
    cases which <;> decide
  · rw [ofToken?_of_matchesKeyword h]
    cases which <;> decide

end Relation

namespace Token

variable {t : Token}

theorem relation_of_isOr (h : Body.isOr t = true) : Relation.ofToken? t = none := by
  rcases Bool.or_eq_true_iff.mp h with h | h
  · exact Relation.ofToken?_of_matchesKeyword h
  · rw [Relation.ofToken?, eq_of_beq h]

theorem relation_of_isAnd (h : Body.isAnd t = true) : Relation.ofToken? t = none := by
  rcases Bool.or_eq_true_iff.mp h with h | h
  · exact Relation.ofToken?_of_matchesKeyword h
  · rw [Relation.ofToken?, eq_of_beq h]

theorem carriesOn_rightParen (h : t.isPunct .rightParen = true) (isOpen : Bool) :
    t.carriesOn isOpen = false := by
  rw [carriesOn, Body.isOr, Body.isAnd, matchesKeyword, matchesKeyword, isIdentifier_of_isPunct h,
    isPunct, isPunct, Relation.ofToken?, eq_of_beq h]
  exact Bool.and_false isOpen

theorem isAnd_of_isOr (h : Body.isOr t = true) : Body.isAnd t = false := by
  rw [Bool.eq_false_iff]
  intro hand
  rcases Bool.or_eq_true_iff.mp h with h | h <;> rcases Bool.or_eq_true_iff.mp hand with hand | hand
  · have hor := Text.sameIgnoringCase_iff.mp (Bool.and_eq_true_iff.mp h).2
    have hboth := hor.symm.trans (Text.sameIgnoringCase_iff.mp (Bool.and_eq_true_iff.mp hand).2)
    exact absurd hboth (by decide)
  · rw [isPunct_of_isIdentifier (Bool.and_eq_true_iff.mp h).1] at hand
    cases hand
  · rw [isPunct_of_isIdentifier (Bool.and_eq_true_iff.mp hand).1] at h
    cases h
  · exact absurd ((eq_of_beq h).symm.trans (eq_of_beq hand)) (by decide)

end Token

/-! ### Spellings -/

/-- The tokens spell the expression where one of the level is asked for. The flag says whether a
relation could still follow. -/
inductive Expr.Spelled (leaf : Operand → List Token → Prop) :
    Level → Bool → Expr → List Token → Prop
  | or {isOpen isOpen' : Bool} {left right : Expr} {before after : List Token} {t : Token}
      (hleft : Spelled leaf .disjunction isOpen left before) (ht : Body.isOr t = true)
      (hright : Spelled leaf .conjunction isOpen' right after) :
      Spelled leaf .disjunction isOpen' (.or left right) (before ++ t :: after)
  | and {isOpen isOpen' : Bool} {left right : Expr} {before after : List Token} {t : Token}
      (hleft : Spelled leaf .conjunction isOpen left before) (ht : Body.isAnd t = true)
      (hright : Spelled leaf .negation isOpen' right after) :
      Spelled leaf .conjunction isOpen' (.and left right) (before ++ t :: after)
  | not {isOpen : Bool} {inner : Expr} {tokens : List Token} {t : Token}
      (ht : Body.isNot t = true) (hinner : Spelled leaf .negation isOpen inner tokens) :
      Spelled leaf .negation isOpen (.not inner) (t :: tokens)
  | relation {isOpen isOpen' : Bool} {which : Relation} {left right : Expr}
      {before after : List Token} {t : Token} (hleft : Spelled leaf .group isOpen left before)
      (ht : Relation.ofToken? t = some which) (hright : Spelled leaf .group isOpen' right after) :
      Spelled leaf .comparison false (.relation which left right) (before ++ t :: after)
  | operand {operand : Operand} {tokens : List Token} (h : leaf operand tokens) :
      Spelled leaf .group true (.operand operand) tokens
  | enclosed {isOpen : Bool} {e : Expr} {tokens : List Token} {opening closing : Token}
      (hopening : opening.isPunct .leftParen = true) (h : Spelled leaf .disjunction isOpen e tokens)
      (hclosing : closing.isPunct .rightParen = true) :
      Spelled leaf .group true e (opening :: (tokens ++ [closing]))
  | ofConjunction {isOpen : Bool} {e : Expr} {tokens : List Token}
      (h : Spelled leaf .conjunction isOpen e tokens) : Spelled leaf .disjunction isOpen e tokens
  | ofNegation {isOpen : Bool} {e : Expr} {tokens : List Token}
      (h : Spelled leaf .negation isOpen e tokens) : Spelled leaf .conjunction isOpen e tokens
  | ofComparison {isOpen : Bool} {e : Expr} {tokens : List Token}
      (h : Spelled leaf .comparison isOpen e tokens) : Spelled leaf .negation isOpen e tokens
  | ofGroup {isOpen : Bool} {e : Expr} {tokens : List Token}
      (h : Spelled leaf .group isOpen e tokens) : Spelled leaf .comparison isOpen e tokens

/-- The tokens are the expression where one of the level is asked for: as it is printed, but with
any spelling of each operator. -/
inductive Expr.Written (parameters : List Parameter) : Expr → Level → List Token → Prop
  | or {left right : Expr} {before after : List Token} {t : Token}
      (hleft : Written parameters left .disjunction before) (ht : Body.isOr t = true)
      (hright : Written parameters right .conjunction after) (level : Level) :
      Written parameters (.or left right) level
        (enclose (Level.disjunction.isLooser level) (before ++ t :: after))
  | and {left right : Expr} {before after : List Token} {t : Token}
      (hleft : Written parameters left .conjunction before) (ht : Body.isAnd t = true)
      (hright : Written parameters right .negation after) (level : Level) :
      Written parameters (.and left right) level
        (enclose (Level.conjunction.isLooser level) (before ++ t :: after))
  | not {inner : Expr} {tokens : List Token} {t : Token} (ht : Body.isNot t = true)
      (hinner : Written parameters inner .negation tokens) (level : Level) :
      Written parameters (.not inner) level (enclose (Level.negation.isLooser level) (t :: tokens))
  | relation {which : Relation} {left right : Expr} {before after : List Token} {t : Token}
      (hleft : Written parameters left .group before) (ht : which.SpelledBy t)
      (hright : Written parameters right .group after) (level : Level) :
      Written parameters (.relation which left right) level
        (enclose (Level.comparison.isLooser level) (before ++ t :: after))
  | operand (leaf : Operand) (level : Level) :
      Written parameters (.operand leaf) level (leaf.print parameters)

namespace Expr

variable {leaf : Operand → List Token → Prop} {isOpen : Bool} {e : Expr} {tokens : List Token}

/-- A relation could follow every group. -/
theorem Spelled.isOpen_of_group (h : e.Spelled leaf .group isOpen tokens) : isOpen = true := by
  cases h <;> rfl

/-- What is spelled at a level is spelled at every looser one. -/
theorem Spelled.loosen {level asked : Level} (h : e.Spelled leaf level isOpen tokens)
    (hasked : level.isLooser asked = false) : e.Spelled leaf asked isOpen tokens := by
  -- The levels are gone through one by one, from the level of the spelling to the one asked for.
  have hcomparison (hrank : 3 ≤ level.rank) : e.Spelled leaf .comparison isOpen tokens := by
    cases level with
    | group => exact .ofGroup h
    | comparison => exact h
    | _ => exact absurd hrank (by decide)
  have hnegation (hrank : 2 ≤ level.rank) : e.Spelled leaf .negation isOpen tokens := by
    cases level with
    | group | comparison => exact .ofComparison (hcomparison (by decide))
    | negation => exact h
    | _ => exact absurd hrank (by decide)
  have hconjunction (hrank : 1 ≤ level.rank) : e.Spelled leaf .conjunction isOpen tokens := by
    cases level with
    | group | comparison | negation => exact .ofNegation (hnegation (by decide))
    | conjunction => exact h
    | disjunction => exact absurd hrank (by decide)
  have hrank : asked.rank ≤ level.rank := by
    rw [Level.isLooser, Bool.eq_false_iff, ne_eq, Nat.blt_eq] at hasked
    exact Nat.le_of_not_lt hasked
  cases asked with
  | group =>
      cases level with
      | group => exact h
      | _ => exact absurd hrank (by decide)
  | comparison => exact hcomparison hrank
  | negation => exact hnegation hrank
  | conjunction => exact hconjunction hrank
  | disjunction =>
      cases level with
      | disjunction => exact h
      | _ => exact .ofConjunction (hconjunction (by decide))

/-- Parentheses make any level of any other. -/
theorem Spelled.enclose {level : Level} (h : e.Spelled leaf level isOpen tokens) (asked : Level) :
    e.Spelled leaf asked (level.isLooser asked || isOpen)
      (Expr.enclose (level.isLooser asked) tokens) := by
  rw [Expr.enclose]
  split
  · next hlooser =>
      have hinner : e.Spelled leaf .disjunction isOpen tokens := h.loosen (by cases level <;> rfl)
      have hgroup := Spelled.enclosed (Token.isPunct_sign .leftParen (.point 0)) hinner
        (Token.isPunct_sign .rightParen (.point 0))
      rw [hlooser, Bool.true_or]
      exact hgroup.loosen (by cases asked <;> rfl)
  · next hlooser =>
      have htight := Bool.eq_false_iff.mpr hlooser
      rw [htight, Bool.false_or]
      exact h.loosen htight

/-- The printed form is one of the ways to write an expression. -/
theorem written_print (parameters : List Parameter) (e : Expr) (level : Level) :
    e.Written parameters level (e.print parameters level) := by
  induction e generalizing level with
  | or left right ihleft ihright => exact .or (ihleft .disjunction) rfl (ihright .conjunction) level
  | and left right ihleft ihright => exact .and (ihleft .conjunction) rfl (ihright .negation) level
  | not inner ih => exact .not rfl (ih .negation) level
  | relation which left right ihleft ihright =>
      have hwhich : which.SpelledBy (.sign which.punct (.point 0)) :=
        .inl (Token.isPunct_sign which.punct (.point 0))
      exact .relation (ihleft .group) hwhich (ihright .group) level
  | operand leaf => exact .operand leaf level

/-- What is written is spelled at its level. -/
theorem Written.spelled {parameters : List Parameter} {level : Level}
    {condition : Operand → Prop}
    (hleaf : ∀ operand, condition operand → leaf operand (operand.print parameters))
    (h : e.Written parameters level tokens) (heach : e.Each condition) :
    e.Spelled leaf level (e.endsOpen level) tokens := by
  induction h with
  | or _ ht _ level ihleft ihright =>
      exact (Spelled.or (ihleft heach.1) ht (ihright heach.2)).enclose level
  | and _ ht _ level ihleft ihright =>
      exact (Spelled.and (ihleft heach.1) ht (ihright heach.2)).enclose level
  | not ht _ level ih => exact (Spelled.not ht (ih heach)).enclose level
  | relation _ ht _ level ihleft ihright =>
      have hspelled := Spelled.relation (ihleft heach.1) (Relation.ofToken?_of_spelledBy ht)
        (ihright heach.2)
      have henclosed := hspelled.enclose level
      rwa [Bool.or_false] at henclosed
  | operand operand level =>
      exact (Spelled.operand (hleaf operand heach)).loosen (by cases level <;> rfl)

end Expr

/-! ### Reading -/

namespace Body

/-- The tokens begin with one that is no negation. -/
def StartsBare (tokens : List Token) : Prop :=
  ∃ t others, tokens = t :: others ∧ isNot t = false

/-- The operand is read from the tokens, whatever follows them. -/
structure TakenAs (scope : Scope) (operand : Operand) (tokens : List Token) : Prop where
  bare : StartsBare tokens
  gives (rest : List Token) : Gives (group scope (tokens ++ rest)) (.operand operand) rest

/-- Nothing that follows goes on with what is spelled at the level. A chain of disjunctions may
itself go on, but not its last part. -/
structure Stops (level : Level) (isOpen : Bool) (rest : List Token) : Prop where
  relation : level ≠ .group → isOpen = true → ∀ t ∈ rest.head?, Relation.ofToken? t = none
  conjunction : level = .disjunction → ∀ t ∈ rest.head?, isAnd t = false

namespace Stops

variable {isOpen : Bool} {t : Token} {rest : List Token}

theorem of_isOr (h : isOr t = true) : Stops .disjunction isOpen (t :: rest) where
  relation := by
    rintro _ _ _ ⟨⟩
    exact Token.relation_of_isOr h
  conjunction := by
    rintro _ _ ⟨⟩
    exact Token.isAnd_of_isOr h

theorem of_isAnd (h : isAnd t = true) : Stops .conjunction isOpen (t :: rest) where
  relation := by
    rintro _ _ _ ⟨⟩
    exact Token.relation_of_isAnd h
  conjunction := nofun

/-- A token that carries nothing on stops every level. -/
theorem of_carriesOn {level : Level} (h : ∀ t ∈ rest.head?, t.carriesOn isOpen = false) :
    Stops level isOpen rest where
  relation _ hopen t ht := by
    have hnone := (Bool.or_eq_false_iff.mp (h t ht)).2
    rw [hopen, Bool.true_and, Option.isSome_eq_false_iff, Option.isNone_iff_eq_none] at hnone
    exact hnone
  conjunction _ t ht := (Bool.or_eq_false_iff.mp (Bool.or_eq_false_iff.mp (h t ht)).1).2

end Stops

/-- The reader of a level takes the tokens and leaves the rest. In a chain of operators it goes on
from there, for the chain may be longer. -/
def Reaches (scope : Scope) (e : Expr) (tokens rest : List Token) : Level → Prop
  | .disjunction => ∃ parsed : Parsed Expr (tokens ++ rest).length,
      expression scope (tokens ++ rest) = disjunctionTail scope parsed ∧
        parsed.value = e ∧ parsed.rest = rest
  | .conjunction => ∃ parsed : Parsed Expr (tokens ++ rest).length,
      conjunction scope (tokens ++ rest) = conjunctionTail scope parsed ∧
        parsed.value = e ∧ parsed.rest = rest
  | .negation => Gives (negation scope (tokens ++ rest)) e rest
  | .comparison => StartsBare tokens ∧ Gives (comparison scope (tokens ++ rest)) e rest
  | .group => StartsBare tokens ∧ Gives (group scope (tokens ++ rest)) e rest

section Chains

variable {scope : Scope} {bound : Nat} {left : Parsed Expr bound} {e : Expr} {rest : List Token}

/-- A chain of disjunctions ends before a token that is no `!OR`. -/
theorem gives_disjunctionTail (hvalue : left.value = e) (hrest : left.rest = rest)
    (h : ∀ t ∈ rest.head?, isOr t = false) : Gives (disjunctionTail scope left) e rest := by
  rw [disjunctionTail]
  split
  · exact gives_ok.mpr ⟨hvalue, hrest⟩
  · next t others ht =>
      rw [hrest] at ht
      rw [ht] at h
      rw [if_neg (Bool.eq_false_iff.mp (h t rfl))]
      exact gives_ok.mpr ⟨hvalue, hrest⟩

/-- A chain of conjunctions ends before a token that is no `!AND`. -/
theorem gives_conjunctionTail (hvalue : left.value = e) (hrest : left.rest = rest)
    (h : ∀ t ∈ rest.head?, isAnd t = false) : Gives (conjunctionTail scope left) e rest := by
  rw [conjunctionTail]
  split
  · exact gives_ok.mpr ⟨hvalue, hrest⟩
  · next t others ht =>
      rw [hrest] at ht
      rw [ht] at h
      rw [if_neg (Bool.eq_false_iff.mp (h t rfl))]
      exact gives_ok.mpr ⟨hvalue, hrest⟩

/-- A chain of disjunctions goes on after an `!OR`. -/
theorem disjunctionTail_eq {t : Token} (h : left.rest = t :: rest) (ht : isOr t = true) :
    disjunctionTail scope left = (do
      let right ← conjunction scope rest
      disjunctionTail scope (left.afterToken h (right.map (.or left.value)).afterOne)) := by
  rw [disjunctionTail]
  split
  · next hnil => exact absurd (h.symm.trans hnil) (List.cons_ne_nil _ _)
  · next u others hu =>
      obtain ⟨rfl, rfl⟩ := List.cons.inj (h.symm.trans hu)
      rw [if_pos ht]

/-- A chain of conjunctions goes on after an `!AND`. -/
theorem conjunctionTail_eq {t : Token} (h : left.rest = t :: rest) (ht : isAnd t = true) :
    conjunctionTail scope left = (do
      let right ← negation scope rest
      conjunctionTail scope (left.afterToken h (right.map (.and left.value)).afterOne)) := by
  rw [conjunctionTail]
  split
  · next hnil => exact absurd (h.symm.trans hnil) (List.cons_ne_nil _ _)
  · next u others hu =>
      obtain ⟨rfl, rfl⟩ := List.cons.inj (h.symm.trans hu)
      rw [if_pos ht]

end Chains

section Levels

variable {scope : Scope} {leaf : Operand → List Token → Prop} {isOpen : Bool} {e : Expr}
  {tokens rest : List Token}

theorem Reaches.ofConjunction (h : Reaches scope e tokens rest .conjunction)
    (hrest : ∀ t ∈ rest.head?, isAnd t = false) : Reaches scope e tokens rest .disjunction := by
  obtain ⟨parsed, hread, hvalue, hleft⟩ := h
  have htail : Gives (conjunctionTail scope parsed) e rest :=
    gives_conjunctionTail hvalue hleft hrest
  obtain ⟨all, hall, hvalue, hleft⟩ := htail
  refine ⟨all, ?_, hvalue, hleft⟩
  rw [expression, hread, hall]
  rfl

theorem Reaches.ofNegation (h : Reaches scope e tokens rest .negation) :
    Reaches scope e tokens rest .conjunction := by
  obtain ⟨parsed, hread, hvalue, hleft⟩ := h
  refine ⟨parsed, ?_, hvalue, hleft⟩
  rw [conjunction, hread]
  rfl

theorem Reaches.ofComparison (h : Reaches scope e tokens rest .comparison) :
    Reaches scope e tokens rest .negation := by
  obtain ⟨⟨t, others, rfl, ht⟩, hgives⟩ := h
  rw [Reaches, List.cons_append, negation, if_neg (Bool.eq_false_iff.mp ht)]
  exact hgives

theorem Reaches.ofGroup (h : Reaches scope e tokens rest .group)
    (hrest : ∀ t ∈ rest.head?, Relation.ofToken? t = none) :
    Reaches scope e tokens rest .comparison := by
  obtain ⟨hbare, hgives⟩ := h
  refine ⟨hbare, ?_⟩
  rw [comparison]
  refine hgives.bind fun left hvalue hleft => ?_
  split
  · exact gives_pure.mpr ⟨hvalue, hleft⟩
  · next t others ht =>
      rw [hleft] at ht
      rw [ht] at hrest
      dsimp only
      rw [hrest t rfl]
      exact gives_pure.mpr ⟨hvalue, hleft⟩

/-- An expression is over where no operator carries it on. -/
theorem Reaches.gives_expression (h : Reaches scope e tokens rest .disjunction)
    (hrest : ∀ t ∈ rest.head?, t.carriesOn isOpen = false) :
    Gives (expression scope (tokens ++ rest)) e rest := by
  obtain ⟨parsed, hread, hvalue, hleft⟩ := h
  rw [hread]
  refine gives_disjunctionTail hvalue hleft fun t ht => ?_
  exact (Bool.or_eq_false_iff.mp (Bool.or_eq_false_iff.mp (hrest t ht)).1).1

/-- After the left side of an `!OR` the chain goes on with the right side. -/
theorem Reaches.or {left right : Expr} {before after : List Token} {t : Token}
    (hleft : Reaches scope left before (t :: (after ++ rest)) .disjunction)
    (ht : isOr t = true) (hright : Gives (conjunction scope (after ++ rest)) right rest) :
    Reaches scope (.or left right) (before ++ t :: after) rest .disjunction := by
  obtain ⟨first, hfirst, rfl, hnext⟩ := hleft
  obtain ⟨second, hsecond, rfl, hleft⟩ := hright
  rw [Reaches, List.append_assoc, List.cons_append, hfirst, disjunctionTail_eq hnext ht, hsecond]
  exact ⟨_, rfl, rfl, hleft⟩

/-- After the left side of an `!AND` the chain goes on with the right side. -/
theorem Reaches.and {left right : Expr} {before after : List Token} {t : Token}
    (hleft : Reaches scope left before (t :: (after ++ rest)) .conjunction)
    (ht : isAnd t = true) (hright : Gives (negation scope (after ++ rest)) right rest) :
    Reaches scope (.and left right) (before ++ t :: after) rest .conjunction := by
  obtain ⟨first, hfirst, rfl, hnext⟩ := hleft
  obtain ⟨second, hsecond, rfl, hleft⟩ := hright
  rw [Reaches, List.append_assoc, List.cons_append, hfirst, conjunctionTail_eq hnext ht, hsecond]
  exact ⟨_, rfl, rfl, hleft⟩

theorem Reaches.not {t : Token} (ht : isNot t = true)
    (h : Reaches scope e tokens rest .negation) :
    Reaches scope (.not e) (t :: tokens) rest .negation := by
  rw [Reaches, List.cons_append, negation, if_pos ht]
  exact Gives.bind h fun _ hvalue hleft => gives_pure.mpr ⟨congrArg Expr.not hvalue, hleft⟩

theorem Reaches.relation {which : Relation} {left right : Expr} {before after : List Token}
    {t : Token} (hleft : Reaches scope left before (t :: (after ++ rest)) .group)
    (ht : Relation.ofToken? t = some which) (hright : Reaches scope right after rest .group) :
    Reaches scope (.relation which left right) (before ++ t :: after) rest .comparison := by
  obtain ⟨⟨u, others, rfl, hu⟩, hgives⟩ := hleft
  refine ⟨⟨u, _, rfl, hu⟩, ?_⟩
  rw [List.append_assoc, List.cons_append, List.cons_append, comparison]
  refine hgives.bind fun first hvalue hnext => ?_
  split
  · next hnil => exact absurd (hnext.symm.trans hnil) (List.cons_ne_nil _ _)
  · next v _ hv =>
      obtain ⟨rfl, rfl⟩ := List.cons.inj (hnext.symm.trans hv)
      dsimp only
      rw [ht]
      refine hright.2.bind fun second hsecond hrest => gives_pure.mpr ⟨?_, hrest⟩
      rw [← hvalue, ← hsecond]
      rfl

theorem Reaches.enclosed {opening closing : Token} (hopening : opening.isPunct .leftParen = true)
    (h : Gives (expression scope (tokens ++ closing :: rest)) e (closing :: rest))
    (hclosing : closing.isPunct .rightParen = true) :
    Reaches scope e (opening :: (tokens ++ [closing])) rest .group := by
  have hbare : isNot opening = false := by
    rw [isNot, Token.matchesKeyword, Token.isIdentifier_of_isPunct hopening, Token.isPunct,
      eq_of_beq hopening]
    rfl
  refine ⟨⟨opening, _, rfl, hbare⟩, ?_⟩
  rw [List.cons_append, List.append_assoc, List.singleton_append, group, if_pos hopening]
  refine h.bind fun inner hvalue hnext => ?_
  refine Gives.bind (gives_expect.mpr ⟨hnext, hclosing⟩) fun last _ hleft => ?_
  exact gives_pure.mpr ⟨hvalue, hleft⟩

/-- Each level takes what is spelled at it. -/
theorem reaches_of_spelled (hleaf : ∀ operand tokens, leaf operand tokens →
      TakenAs scope operand tokens) {level : Level} (h : e.Spelled leaf level isOpen tokens)
    (hrest : Stops level isOpen rest) : Reaches scope e tokens rest level := by
  induction h generalizing rest with
  | or _ ht _ ihleft ihright =>
      obtain ⟨right, hread, hvalue, hleft⟩ := ihright ⟨fun _ => hrest.relation nofun, nofun⟩
      refine (ihleft (.of_isOr ht)).or ht ?_
      rw [hread]
      exact gives_conjunctionTail hvalue hleft (hrest.conjunction rfl)
  | and _ ht _ ihleft ihright =>
      exact (ihleft (.of_isAnd ht)).and ht (ihright ⟨fun _ => hrest.relation nofun, nofun⟩)
  | not ht _ ih => exact (ih hrest).not ht
  | relation _ ht _ ihleft ihright =>
      exact (ihleft ⟨fun h => absurd rfl h, nofun⟩).relation ht
        (ihright ⟨fun h => absurd rfl h, nofun⟩)
  | operand h => exact ⟨(hleaf _ _ h).bare, (hleaf _ _ h).gives rest⟩
  | @enclosed isOpen _ _ _ closing hopening _ hclosing ih =>
      have hstops : ∀ t ∈ (closing :: rest).head?, t.carriesOn isOpen = false := by
        rintro _ ⟨⟩
        exact Token.carriesOn_rightParen hclosing isOpen
      exact .enclosed hopening ((ih (.of_carriesOn hstops)).gives_expression hstops) hclosing
  | ofConjunction _ ih =>
      exact (ih ⟨fun _ => hrest.relation nofun, nofun⟩).ofConjunction (hrest.conjunction rfl)
  | ofNegation _ ih => exact (ih ⟨fun _ => hrest.relation nofun, nofun⟩).ofNegation
  | ofComparison _ ih => exact (ih ⟨fun _ => hrest.relation nofun, nofun⟩).ofComparison
  | ofGroup h ih =>
      refine (ih ⟨fun _ => hrest.relation nofun, nofun⟩).ofGroup ?_
      exact hrest.relation nofun h.isOpen_of_group

/-- A spelled expression is read as the expression that it spells. -/
theorem gives_expression_of_spelled (hleaf : ∀ operand tokens, leaf operand tokens →
      TakenAs scope operand tokens) (h : e.Spelled leaf .disjunction isOpen tokens)
    (hrest : ∀ t ∈ rest.head?, t.carriesOn isOpen = false) :
    Gives (expression scope (tokens ++ rest)) e rest :=
  (reaches_of_spelled hleaf h (.of_carriesOn hrest)).gives_expression hrest

end Levels

end Body

end CommandMacros

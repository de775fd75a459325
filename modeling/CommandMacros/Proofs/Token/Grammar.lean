import CommandMacros.Proofs.Token.Reread

/-!
The lexemes of command syntax as a relation. A text begins with a lexeme when one of the rules
below applies; the function that cuts lexemes off finds exactly these and calls everything else an
error. From the rules come the texts that the tokens of each kind can have.
-/

namespace CommandMacros.Scan

/-! ### Classes of characters -/

theorem isNameChar_of_isNameStart {c : Char} (h : isNameStart c = true) : isNameChar c = true := by
  simp only [isNameStart, Bool.or_eq_true] at h
  simp only [isNameChar, Bool.or_eq_true]
  rcases h with ((h | h) | h) | h
  · exact .inl (.inl (.inl (.inl (.inl (.inl h)))))
  · exact .inl (.inl (.inr h))
  · exact .inl (.inr h)
  · exact .inr h

theorem isNameChar_of_isDigit {c : Char} (h : c.isDigit = true) : isNameChar c = true := by
  simp only [isNameChar, Text.isNumeric_of_isDigit h, Bool.or_true, Bool.true_or]

theorem isDigit_of_isAlphabetic {c : Char} (h : Text.isAlphabetic c = true) :
    c.isDigit = false := by
  rw [Bool.eq_false_iff]
  intro hdigit
  simp only [Char.isDigit, Bool.and_eq_true, decide_eq_true_eq] at hdigit
  simp only [Text.isAlphabetic, Bool.or_eq_true, Bool.and_eq_true, Nat.ble_eq] at h
  change 48 ≤ c.val.toNat ∧ c.val.toNat ≤ 57 at hdigit
  rcases h with h | ⟨h, _⟩
  · rcases Bool.or_eq_true_iff.mp h with hupper | hlower
    · have hrange : 65 ≤ c.val.toNat ∧ c.val.toNat ≤ 90 := of_decide_eq_true hupper
      omega
    · obtain ⟨hlow, _⟩ := Bool.and_eq_true_iff.mp hlower
      have hlow : 97 ≤ c.val.toNat := of_decide_eq_true hlow
      omega
  · change 128 ≤ c.val.toNat at h
    omega

theorem isDigit_of_isNameStart {c : Char} (h : isNameStart c = true) : c.isDigit = false := by
  simp only [isNameStart, Bool.or_eq_true, beq_iff_eq] at h
  rcases h with ((h | rfl) | rfl) | rfl
  · exact isDigit_of_isAlphabetic h
  all_goals rfl

theorem ne_of_isNameStart {c d : Char} (h : isNameStart c = true) (hd : isNameStart d = false) :
    c ≠ d := by
  rintro rfl
  rw [h] at hd
  cases hd

theorem isDelimiter_iff {c : Char} : Quoted.isDelimiter c = true ↔ c = '\x27' ∨ c = '\x22' := by
  simp only [Quoted.isDelimiter, Quoted.apostrophe, Quoted.quotationMark, Bool.or_eq_true,
    beq_iff_eq]

theorem isDelimiter_of_isNameStart {c : Char} (h : isNameStart c = true) :
    Quoted.isDelimiter c = false := by
  rw [Bool.eq_false_iff]
  intro hdelimiter
  rcases isDelimiter_iff.mp hdelimiter with rfl | rfl
  · exact ne_of_isNameStart h (by decide) rfl
  · exact ne_of_isNameStart h (by decide) rfl

theorem isDelimiter_of_isDigit {c : Char} (h : c.isDigit = true) :
    Quoted.isDelimiter c = false := by
  rw [Bool.eq_false_iff]
  intro hdelimiter
  rcases isDelimiter_iff.mp hdelimiter with rfl | rfl
  · exact absurd h (by decide)
  · exact absurd h (by decide)

theorem isDigit_of_isBlank {c : Char} (h : Text.isBlank c = true) : c.isDigit = false := by
  rw [Bool.eq_false_iff]
  intro hdigit
  simp only [Char.isDigit, Bool.and_eq_true, decide_eq_true_eq] at hdigit
  change 48 ≤ c.val.toNat ∧ c.val.toNat ≤ 57 at hdigit
  obtain ⟨r, hr, hlow, hhigh⟩ := Text.inRanges_iff.mp h
  change r.1 ≤ c.val.toNat at hlow
  change c.val.toNat ≤ r.2 at hhigh
  have hclear : ∀ r ∈ Text.blankRanges, r.2 < 48 ∨ 57 < r.1 := by decide
  have := hclear r hr
  omega

/-- A character of a single punctuator begins no other lexeme, apart from signs and names with a
mark. -/
theorem classes_of_ofChar? {c : Char} {p : Punct} (h : Punct.ofChar? c = some p) :
    Quoted.isDelimiter c = false ∧ c.isDigit = false ∧ c ≠ '.' ∧ isNameStart c = false := by
  unfold Punct.ofChar? at h
  split at h <;> cases h <;> decide

/-- The first character of an operator of two is a punctuator by itself, and neither sign nor
mark, except in `!*`. -/
theorem ofChar?_of_ofPair? {c d : Char} {p : Punct} (h : Punct.ofPair? c d = some p) :
    (∃ q, Punct.ofChar? c = some q) ∧ c ≠ '-' ∧ c ≠ '_' ∧ isNameChar d = false := by
  unfold Punct.ofPair? at h
  split at h <;> cases h <;> exact ⟨⟨_, rfl⟩, by decide, by decide, by decide⟩

theorem right_of_ofPair? {c d : Char} {p : Punct} (h : Punct.ofPair? c d = some p) :
    d = '=' ∨ d = '>' ∨ d = '*' := by
  unfold Punct.ofPair? at h
  split at h <;> cases h <;> decide

theorem toList_spelling_of_ofChar? {c : Char} {p : Punct} (h : Punct.ofChar? c = some p) :
    p.spelling.toList = [c] := by
  unfold Punct.ofChar? at h
  split at h <;> cases h <;> decide

theorem length_spelling_of_ofPair? {c d : Char} {p : Punct} (h : Punct.ofPair? c d = some p) :
    p.spelling.toList.length = 2 := by
  unfold Punct.ofPair? at h
  split at h <;> cases h <;> decide

theorem isNameChar_of_ofChar? {c : Char} {p : Punct} (h : Punct.ofChar? c = some p)
    (hc : c ≠ '_') : isNameChar c = false := by
  unfold Punct.ofChar? at h
  split at h <;> cases h <;> first | decide | contradiction

/-! ### The rules -/

/-- The characters `c :: cs` begin with a lexeme that is no error. -/
inductive Lexes (afterOperand : Bool) (c : Char) (cs : List Char) : Lexeme → Prop
  | string {value taken rest : List Char} (hc : Quoted.isDelimiter c = true)
      (hrun : quotedRun c cs = (some value, taken, rest)) :
      Lexes afterOperand c cs ⟨.string (String.ofList value), c :: taken, rest⟩
  | number {value : Float} {taken rest : List Char}
      (hc : c.isDigit = true ∨ (c = '.' ∧ startsWith Char.isDigit cs = true))
      (hscan : scanNumber [] (c :: cs) = ⟨.number value, taken, rest⟩) :
      Lexes afterOperand c cs ⟨.number value, taken, rest⟩
  | signed {value : Float} {taken rest : List Char} (hc : c = '-') (hafter : afterOperand = false)
      (hdigit : startsWith Char.isDigit cs = true)
      (hscan : scanNumber ['-'] cs = ⟨.number value, taken, rest⟩) :
      Lexes afterOperand c cs ⟨.number value, taken, rest⟩
  | stop (hc : c = '.') (hcs : (cs.isEmpty || startsWith Text.isBlank cs) = true) :
      Lexes afterOperand c cs ⟨.endCommand, ['.'], cs⟩
  | dot (hc : c = '.') (hcs : (cs.isEmpty || startsWith Text.isBlank cs) = false)
      (hdigit : startsWith Char.isDigit cs = false) :
      Lexes afterOperand c cs ⟨.punct .dot, ['.'], cs⟩
  | name {taken rest : List Char}
      (hc : (c = '!' ∧ startsWith isNameChar cs = true) ∨ isNameStart c = true)
      (hscan : scanName c cs = ⟨.identifier, taken, rest⟩) :
      Lexes afterOperand c cs ⟨.identifier, taken, rest⟩
  | pair {p : Punct} {d : Char} {rest : List Char} (hcs : cs = d :: rest)
      (hpair : Punct.ofPair? c d = some p) : Lexes afterOperand c cs ⟨.punct p, [c, d], rest⟩
  | single {p : Punct} (hc : Punct.ofChar? c = some p)
      (hpair : ∀ d ∈ cs.head?, Punct.ofPair? c d = none)
      (hsign : ¬(c = '-' ∧ afterOperand = false ∧ startsWith Char.isDigit cs = true))
      (hmark : ¬(c = '!' ∧ startsWith isNameChar cs = true)) :
      Lexes afterOperand c cs ⟨.punct p, [c], cs⟩

section Rules

variable {afterOperand : Bool} {c : Char} {cs : List Char}

/-- What the rules allow is what is cut off. -/
theorem Lexes.lexeme_eq {next : Lexeme} (h : Lexes afterOperand c cs next) :
    lexeme afterOperand c cs = next := by
  cases h with
  | string hc hrun => rw [lexeme, if_pos hc, scanQuoted, hrun]
  | number hc hscan =>
      rw [← hscan]
      rcases hc with hc | ⟨rfl, hdigit⟩
      · rw [lexeme, if_neg (by rw [isDelimiter_of_isDigit hc]; decide), if_pos hc]
      · rw [lexeme, if_neg (by decide), if_neg (by decide), if_pos rfl, if_pos hdigit]
  | signed hc hafter hdigit hscan =>
      subst hc
      rw [lexeme, if_neg (by decide), if_neg (by decide), if_neg (by decide),
        if_pos ⟨rfl, hafter, hdigit⟩, hscan]
  | stop hc hcs =>
      subst hc
      have hdigit : startsWith Char.isDigit cs = false := by
        cases cs with
        | nil => rfl
        | cons d cs => exact isDigit_of_isBlank hcs
      rw [lexeme, if_neg (by decide), if_neg (by decide), if_pos rfl,
        if_neg (by rw [hdigit]; decide), scanPoint, if_pos hcs]
  | dot hc hcs hdigit =>
      subst hc
      rw [lexeme, if_neg (by decide), if_neg (by decide), if_pos rfl,
        if_neg (by rw [hdigit]; decide), scanPoint, if_neg (by rw [hcs]; decide)]
  | name hc hscan =>
      rw [← hscan]
      rcases hc with ⟨rfl, hname⟩ | hc
      · rw [lexeme, if_neg (by decide), if_neg (by decide), if_neg (by decide),
          if_neg (by rintro ⟨h, _⟩; exact absurd h (by decide)), if_pos ⟨rfl, hname⟩]
      · have hpoint : c ≠ '.' := ne_of_isNameStart hc (by decide)
        have hdash : c ≠ '-' := ne_of_isNameStart hc (by decide)
        have hmark : c ≠ '!' := ne_of_isNameStart hc (by decide)
        rw [lexeme, if_neg (by rw [isDelimiter_of_isNameStart hc]; decide),
          if_neg (by rw [isDigit_of_isNameStart hc]; decide), if_neg hpoint,
          if_neg fun h => hdash h.1, if_neg fun h => hmark h.1, if_pos hc]
  | pair hcs hpair =>
      subst hcs
      obtain ⟨⟨q, hq⟩, hdash, _, hname⟩ := ofChar?_of_ofPair? hpair
      obtain ⟨hdelimiter, hdigit, hpoint, hstart⟩ := classes_of_ofChar? hq
      rw [lexeme, if_neg (by rw [hdelimiter]; decide), if_neg (by rw [hdigit]; decide),
        if_neg hpoint, if_neg fun h => hdash h.1,
        if_neg fun h => absurd h.2 (Bool.eq_false_iff.mp hname),
        if_neg (by rw [hstart]; decide), scanPunct, hpair]
  | single hc hpair hsign hmark =>
      obtain ⟨hdelimiter, hdigit, hpoint, hstart⟩ := classes_of_ofChar? hc
      rw [lexeme, if_neg (by rw [hdelimiter]; decide), if_neg (by rw [hdigit]; decide),
        if_neg hpoint, if_neg hsign, if_neg hmark, if_neg (by rw [hstart]; decide)]
      cases cs with
      | nil => rw [scanPunct, scanSingle, hc]
      | cons d cs => rw [scanPunct, hpair d rfl, scanSingle, hc]

theorem lexes_scanSingle (hpair : ∀ d ∈ cs.head?, Punct.ofPair? c d = none)
    (hsign : ¬(c = '-' ∧ afterOperand = false ∧ startsWith Char.isDigit cs = true))
    (hmark : ¬(c = '!' ∧ startsWith isNameChar cs = true))
    (h : ∀ message, (scanSingle c cs).kind ≠ .error message) :
    Lexes afterOperand c cs (scanSingle c cs) := by
  unfold scanSingle at h ⊢
  split
  · next hc => exact .single hc hpair hsign hmark
  · next hc =>
      rw [hc] at h
      exact absurd rfl (h _)

theorem lexes_scanPunct
    (hsign : ¬(c = '-' ∧ afterOperand = false ∧ startsWith Char.isDigit cs = true))
    (hmark : ¬(c = '!' ∧ startsWith isNameChar cs = true))
    (h : ∀ message, (scanPunct c cs).kind ≠ .error message) :
    Lexes afterOperand c cs (scanPunct c cs) := by
  cases cs with
  | nil => exact lexes_scanSingle (fun _ hd => nomatch hd) hsign hmark h
  | cons d rest =>
      cases hpair : Punct.ofPair? c d with
      | some p =>
          rw [scanPunct, hpair]
          exact .pair rfl hpair
      | none =>
          have hpairs : ∀ d' ∈ (d :: rest).head?, Punct.ofPair? c d' = none := by
            rintro d' ⟨⟩
            exact hpair
          rw [scanPunct, hpair] at h ⊢
          exact lexes_scanSingle hpairs hsign hmark h

/-- What is cut off is an error, or the rules allow it. -/
theorem lexes_lexeme (h : ∀ message, (lexeme afterOperand c cs).kind ≠ .error message) :
    Lexes afterOperand c cs (lexeme afterOperand c cs) := by
  unfold lexeme at h ⊢
  split
  · next hc =>
      rw [if_pos hc] at h
      unfold scanQuoted at h ⊢
      split
      · next hrun => exact .string hc hrun
      · next hrun =>
          rw [hrun] at h
          exact absurd rfl (h _)
  next hdelimiter =>
  rw [if_neg hdelimiter] at h
  split
  · next hc => exact .number (.inl hc) rfl
  next hdigit =>
  rw [if_neg hdigit] at h
  split
  · next hc =>
      split
      · next hnumber => exact .number (.inr ⟨hc, hnumber⟩) rfl
      · next hnumber =>
          unfold scanPoint
          split
          · next hstop => exact .stop hc hstop
          · next hstop =>
              exact .dot hc (Bool.eq_false_iff.mpr hstop) (Bool.eq_false_iff.mpr hnumber)
  next hpoint =>
  rw [if_neg hpoint] at h
  split
  · next hsign => exact .signed hsign.1 hsign.2.1 hsign.2.2 rfl
  next hsign =>
  rw [if_neg hsign] at h
  split
  · next hmark => exact .name (.inl hmark) rfl
  next hmark =>
  rw [if_neg hmark] at h
  split
  · next hstart => exact .name (.inr hstart) rfl
  next hstart =>
  rw [if_neg hstart] at h
  exact lexes_scanPunct hsign hmark h

/-! ### What the rules say of a lexeme and of what follows it -/

variable {next : Lexeme}

theorem Lexes.taken_append (h : Lexes afterOperand c cs next) :
    ∃ ds, next.taken = c :: ds ∧ ds ++ next.rest = cs := by
  have happend := lexeme_append afterOperand c cs
  have hne := lexeme_taken_ne_nil afterOperand c cs
  rw [h.lexeme_eq] at happend hne
  obtain ⟨d, ds, htaken⟩ := List.exists_cons_of_ne_nil hne
  rw [htaken] at happend
  obtain ⟨rfl, hrest⟩ := List.cons.inj happend
  exact ⟨ds, htaken, hrest⟩

/-- A point that ends no command has something right behind it. -/
theorem Lexes.rest_of_dot (h : Lexes afterOperand c cs next) (hkind : next.kind = .punct .dot) :
    startsWith Text.isBlank next.rest = false := by
  cases h with
  | dot _ hcs _ => exact (Bool.or_eq_false_iff.mp hcs).2
  | pair _ hpair =>
      cases hkind
      exact absurd (length_spelling_of_ofPair? hpair) (by decide)
  | single hc =>
      cases hkind
      exact absurd (List.singleton_inj.mp (toList_spelling_of_ofChar? hc)).symm
        (classes_of_ofChar? hc).2.2.1
  | string | number | signed | stop | name => cases hkind

theorem Lexes.rest_of_endCommand (h : Lexes afterOperand c cs next)
    (hkind : next.kind = .endCommand) :
    (next.rest.isEmpty || startsWith Text.isBlank next.rest) = true := by
  cases h with
  | stop _ hcs => exact hcs
  | string | number | signed | dot | name | pair | single => cases hkind

/-- After a name there is a dot or no character of names. -/
theorem Lexes.rest_of_identifier (h : Lexes afterOperand c cs next)
    (hkind : next.kind = .identifier) {d : Char} {rest : List Char}
    (hrest : next.rest = d :: rest) : d = '.' ∨ isNameChar d = false := by
  cases h with
  | name _ hscan => exact scanName_rest c cs (by rw [hscan]; exact hrest)
  | string | number | signed | stop | dot | pair | single => cases hkind

/-- A mark is a name only before characters of names. -/
theorem Lexes.rest_of_mark (h : Lexes afterOperand c cs next) (hkind : next.kind = .identifier)
    (htaken : next.taken = ['!']) : startsWith isNameChar next.rest = true := by
  obtain ⟨ds, hds, hrest⟩ := h.taken_append
  rw [htaken] at hds
  obtain ⟨rfl, rfl⟩ := List.cons.inj hds
  cases h with
  | name hc =>
      rcases hc with ⟨_, hname⟩ | hstart
      · rw [← hrest] at hname
        exact hname
      · exact absurd hstart (by decide)
  | string | number | signed | stop | dot | pair | single => cases hkind

/-- A mark that is no name has no character of names behind it. -/
theorem Lexes.rest_of_bang (h : Lexes afterOperand c cs next) (hkind : next.kind = .punct .bang) :
    startsWith isNameChar next.rest = false := by
  cases h with
  | pair _ hpair =>
      cases hkind
      exact absurd (length_spelling_of_ofPair? hpair) (by decide)
  | single hc _ _ hmark =>
      cases hkind
      have hc : '!' = c := List.singleton_inj.mp (toList_spelling_of_ofChar? hc)
      exact Bool.eq_false_iff.mpr fun hname => hmark ⟨hc.symm, hname⟩
  | string | number | signed | stop | dot | name => cases hkind

/-- A `-` that is an operator has no digit right behind it, unless it follows an operand. -/
theorem Lexes.rest_of_dash (h : Lexes false c cs next) (hkind : next.kind = .punct .dash) :
    startsWith Char.isDigit next.rest = false := by
  cases h with
  | pair _ hpair =>
      cases hkind
      exact absurd (length_spelling_of_ofPair? hpair) (by decide)
  | single hc _ hsign _ =>
      cases hkind
      have hc : '-' = c := List.singleton_inj.mp (toList_spelling_of_ofChar? hc)
      exact Bool.eq_false_iff.mpr fun hdigit => hsign ⟨hc.symm, rfl, hdigit⟩
  | string | number | signed | stop | dot | name => cases hkind

end Rules

/-! ### The texts of tokens -/

/-- A token of the kind can be spelled with the characters. -/
inductive Shape : TokenKind → List Char → Prop
  | identifier {c : Char} {cs : List Char} (hc : c = '!' ∨ isNameStart c = true) :
      Shape .identifier (c :: cs)
  | number {value : Float} {c : Char} {cs : List Char}
      (hc : c.isDigit = true ∨ c = '.' ∨ c = '-') : Shape (.number value) (c :: cs)
  | string {value : String} {c : Char} {cs : List Char} (hc : Quoted.isDelimiter c = true) :
      Shape (.string value) (c :: cs)
  | stop : Shape .endCommand ['.']
  | dot : Shape (.punct .dot) ['.']
  | single {p : Punct} {c : Char} (hc : Punct.ofChar? c = some p) : Shape (.punct p) [c]
  | pair {p : Punct} {c d : Char} (hpair : Punct.ofPair? c d = some p) : Shape (.punct p) [c, d]

namespace Shape

variable {cs : List Char}

theorem ne_nil {kind : TokenKind} (h : Shape kind cs) : cs ≠ [] := by
  cases h <;> exact List.cons_ne_nil _ _

theorem eq_of_endCommand (h : Shape .endCommand cs) : cs = ['.'] := by
  cases h
  rfl

/-- A punctuator whose canonical spelling is one character has no other. -/
theorem eq_of_punct {p : Punct} (h : Shape (.punct p) cs) (hp : p.spelling.toList.length = 1) :
    cs = p.spelling.toList := by
  cases h with
  | dot => decide
  | single hc => exact (toList_spelling_of_ofChar? hc).symm
  | pair hpair => exact absurd (hp.symm.trans (length_spelling_of_ofPair? hpair)) (by decide)

end Shape

theorem Lexes.shape {afterOperand : Bool} {c : Char} {cs : List Char} {next : Lexeme}
    (h : Lexes afterOperand c cs next) : Shape next.kind next.taken := by
  obtain ⟨ds, htaken, _⟩ := h.taken_append
  rw [htaken]
  cases h with
  | string hc => exact .string hc
  | number hc => exact .number (hc.imp_right fun h => .inl h.1)
  | signed hc => exact .number (.inr (.inr hc))
  | stop =>
      rw [← htaken]
      exact .stop
  | dot =>
      rw [← htaken]
      exact .dot
  | name hc => exact .identifier (hc.imp_left fun h => h.1)
  | pair _ hpair =>
      rw [← htaken]
      exact .pair hpair
  | single hc =>
      rw [← htaken]
      exact .single hc

end CommandMacros.Scan

import CommandMacros.Proofs.Token.Grammar
import CommandMacros.Token.Render

/-!
Tokens written out and read again. Scanning what was written gives back the tokens, kind for kind
and text for text, unless two neighbours fuse: written next to each other they read as other tokens.
Which neighbours do that is a short list, and the written tokens are read back exactly when no two
neighbours are on it.
-/

namespace CommandMacros

namespace Token

/-- What a token is apart from its place. -/
def spelling (t : Token) : TokenKind × String := (t.kind, t.text)

/-- Whether a `-` after the token is an operator. -/
def isOperand (t : Token) : Bool :=
  match t.kind with
  | .identifier => !isMarked t.text
  | .number _ | .string _ | .punct .rightParen => true
  | _ => false

/-- Whether the two neighbours read as other tokens once they are written out. A `-` may be a sign
unless the token before it is an operand. -/
def fuses (afterOperand : Bool) (t u : Token) : Bool :=
  match t.kind, u.kind with
  | .punct .dot, .punct .dot | .endCommand, .endCommand => true
  | .identifier, .punct .dot => t.text == "!"
  | .identifier, .punct .underscore => true
  | .punct .bang, .punct .underscore | .punct .bang, .endCommand => true
  | .punct .bang, .identifier => !isMarked u.text
  | .punct .bang, .number _ => Scan.startsWith (fun c => c.isDigit || c == '.') u.text.toList
  | .punct .dash, .number _ => !afterOperand && Scan.startsWith Char.isDigit u.text.toList
  | _, _ => false

/-- Whether no two neighbours fuse. -/
def unfused (afterOperand : Bool) : List Token → Bool
  | [] => true
  | t :: us => us.head?.all (fun u => !fuses afterOperand t u) && unfused t.isOperand us

/-- What is written after the token `t` for the tokens that follow it. -/
def following (t : Token) : List Token → List Char
  | [] => []
  | u :: us =>
    if needsSpace t u then ' ' :: (u.text.toList ++ following u us)
    else u.text.toList ++ following u us

theorem toList_render (t : Token) (us : List Token) :
    (render (t :: us)).toList = t.text.toList ++ following t us := by
  induction us generalizing t with
  | nil => simp [render, pieces, following]
  | cons u us ih =>
      have hrest := ih u
      rw [render, String.toList_join] at hrest ⊢
      rw [pieces, following]
      split
      · rw [List.flatMap_cons, List.flatMap_cons, hrest]
        rfl
      · rw [List.flatMap_cons, hrest]

theorem needsSpace_words {t u : Token} (ht : t.isWord = true) (hu : u.isWord = true) :
    needsSpace t u = true := by
  unfold isWord at ht hu
  split at ht <;> split at hu <;> simp_all [needsSpace, isEnd, isWord]

theorem needsSpace_of_dot {t u : Token} (hu : u.kind = .punct .dot) : needsSpace t u = true := by
  simp [needsSpace, isEnd, hu]

theorem following_of_space {t u : Token} (h : needsSpace t u = true) (us : List Token) :
    following t (u :: us) = ' ' :: (u.text.toList ++ following u us) := by
  rw [following, if_pos h]

theorem following_of_tight {t u : Token} (h : needsSpace t u = false) (us : List Token) :
    following t (u :: us) = u.text.toList ++ following u us := by
  rw [following, if_neg (by rw [h]; decide)]

end Token

namespace Scan

open Token

variable {afterOperand : Bool} {t u : Token} {us : List Token}

theorem startsWith_following_of_space (p : Char → Bool) (h : needsSpace t u = true) :
    startsWith p (following t (u :: us)) = p ' ' := by
  rw [following_of_space h, startsWith_cons]

theorem startsWith_following_of_tight (p : Char → Bool) (h : needsSpace t u = false)
    (hu : Shape u.kind u.text.toList) :
    startsWith p (following t (u :: us)) = startsWith p u.text.toList := by
  rw [following_of_tight h, startsWith_append_of_ne_nil hu.ne_nil]

theorem isMarked_eq (text : String) : isMarked text = (text.toList.head? == some '!') := by
  rw [isMarked, String.front?_eq]

theorem Shape.startsWith_of_unmarked {text : String} (h : Shape .identifier text.toList)
    (hmark : isMarked text = false) : startsWith isNameChar text.toList = true := by
  rw [isMarked_eq] at hmark
  generalize text.toList = cs at h hmark
  cases h with
  | identifier hc =>
      rcases hc with rfl | hc
      · cases hmark
      · exact isNameChar_of_isNameStart hc

theorem startsWith_mono {p q : Char → Bool} (hpq : ∀ c, p c = true → q c = true) {cs : List Char}
    (h : startsWith p cs = true) : startsWith q cs = true := by
  cases cs with
  | nil => cases h
  | cons c cs => exact hpq c h

/-! ### Neighbours that fuse -/

/-- The first of two neighbours that fuse is not cut off again. -/
theorem Lexes.not_fuses {c : Char} {cs : List Char} {next : Lexeme}
    (h : Lexes afterOperand c cs next) (hkind : next.kind = t.kind)
    (htaken : next.taken = t.text.toList) (hrest : next.rest = following t (u :: us))
    (hu : Shape u.kind u.text.toList) : fuses afterOperand t u = false := by
  have hshape : Shape t.kind t.text.toList := hkind ▸ htaken ▸ h.shape
  rw [Bool.eq_false_iff]
  intro hfuses
  unfold fuses at hfuses
  split at hfuses
  · next ht hukind =>
      have hspace : needsSpace t u = true := needsSpace_of_dot hukind
      have hblank := h.rest_of_dot (hkind.trans ht)
      rw [hrest, startsWith_following_of_space _ hspace] at hblank
      exact absurd hblank (by decide)
  · next ht hukind =>
      have htight : needsSpace t u = false := by simp [needsSpace, isEnd, hukind]
      have hblank := h.rest_of_endCommand (hkind.trans ht)
      rw [hukind] at hu
      rw [hrest, following_of_tight htight, hu.eq_of_endCommand] at hblank
      change Text.isBlank '.' = true at hblank
      exact absurd hblank (by decide)
  · next ht hukind =>
      have hspace : needsSpace t u = true := needsSpace_of_dot hukind
      have hname := h.rest_of_mark (hkind.trans ht) (by rw [htaken, beq_iff_eq.mp hfuses]; decide)
      rw [hrest, startsWith_following_of_space _ hspace] at hname
      exact absurd hname (by decide)
  · next ht hukind =>
      have htight : needsSpace t u = false := by simp [needsSpace, isEnd, isWord, ht, hukind]
      rw [hukind] at hu
      rw [following_of_tight htight, hu.eq_of_punct (by decide)] at hrest
      exact absurd (h.rest_of_identifier (hkind.trans ht) hrest) (by decide)
  · next ht hukind =>
      have htext : u.text.toList = ['_'] := (hukind ▸ hu).eq_of_punct (by decide)
      have htight : needsSpace t u = false := by
        simp only [needsSpace, isEnd, ht, hukind, htext, (ht ▸ hshape).eq_of_punct (by decide)]
        decide
      have hname := h.rest_of_bang (hkind.trans ht)
      rw [hrest, startsWith_following_of_tight _ htight hu, htext] at hname
      exact absurd hname (by decide)
  · next ht hukind =>
      have htext : u.text.toList = ['.'] := (hukind ▸ hu).eq_of_endCommand
      have htight : needsSpace t u = false := by simp [needsSpace, isEnd, hukind]
      have hname := h.rest_of_bang (hkind.trans ht)
      rw [hrest, startsWith_following_of_tight _ htight hu, htext] at hname
      exact absurd hname (by decide)
  · next ht hukind =>
      have htight : needsSpace t u = false := by simp [needsSpace, isEnd, isWord, ht, hukind]
      have hstart := (hukind ▸ hu).startsWith_of_unmarked (by simpa using hfuses)
      have hname := h.rest_of_bang (hkind.trans ht)
      rw [hrest, startsWith_following_of_tight _ htight hu, hstart] at hname
      cases hname
  · next ht hukind =>
      have htight : needsSpace t u = false := by simp [needsSpace, isEnd, isWord, ht, hukind]
      have hstart : startsWith isNameChar u.text.toList = true := by
        refine startsWith_mono (fun c hc => ?_) hfuses
        rcases Bool.or_eq_true_iff.mp hc with hdigit | hpoint
        · exact isNameChar_of_isDigit hdigit
        · rw [beq_iff_eq.mp hpoint]
          decide
      have hname := h.rest_of_bang (hkind.trans ht)
      rw [hrest, startsWith_following_of_tight _ htight hu, hstart] at hname
      cases hname
  · next ht hukind =>
      have htight : needsSpace t u = false := by simp [needsSpace, isEnd, isWord, ht, hukind]
      obtain ⟨hafter, hdigit⟩ := Bool.and_eq_true_iff.mp hfuses
      obtain rfl : afterOperand = false := by simpa using hafter
      have hnumber := h.rest_of_dash (hkind.trans ht)
      rw [hrest, startsWith_following_of_tight _ htight hu, hdigit] at hnumber
      cases hnumber
  · cases hfuses

/-! ### Neighbours that do not fuse -/

/-- What can stand behind a word: nothing, a blank, the end of the command or a punctuator. -/
inductive AfterWord : List Char → Prop
  | nothing : AfterWord []
  | blank (cs : List Char) : AfterWord (' ' :: cs)
  | stop {cs : List Char} (hcs : cs = [] ∨ ∃ ds, cs = ' ' :: ds) : AfterWord ('.' :: cs)
  | punct {c : Char} {p : Punct} (hc : Punct.ofChar? c = some p) (cs : List Char) :
      AfterWord (c :: cs)

namespace AfterWord

variable {after : List Char}

theorem head?_ne {delimiter : Char} (h : AfterWord after)
    (hdelimiter : Quoted.isDelimiter delimiter = true) : after.head? ≠ some delimiter := by
  rintro hhead
  cases h with
  | nothing => cases hhead
  | blank | stop =>
      cases hhead
      exact absurd hdelimiter (by decide)
  | punct hc =>
      cases hhead
      rw [(classes_of_ofChar? hc).1] at hdelimiter
      cases hdelimiter

theorem endsNumber_cons {c : Char} (hdigit : c.isDigit = false) (hpoint : c ≠ '.')
    (he : c ≠ 'e') (hE : c ≠ 'E') (cs : List Char) : EndsNumber (c :: cs) := by
  refine ⟨hdigit, ?_, ?_⟩
  · unfold fractionPart
    split
    · next heq => exact absurd (List.cons.inj heq).1 hpoint
    · rfl
  · simp [exponentPart, he, hE]

theorem endsNumber (h : AfterWord after) : EndsNumber after := by
  cases h with
  | nothing => exact ⟨rfl, rfl, rfl⟩
  | blank cs => exact endsNumber_cons (by decide) (by decide) (by decide) (by decide) cs
  | stop hcs => rcases hcs with rfl | ⟨ds, rfl⟩ <;> exact ⟨rfl, rfl, rfl⟩
  | punct hc cs =>
      obtain ⟨_, hdigit, hpoint, hstart⟩ := classes_of_ofChar? hc
      refine endsNumber_cons hdigit hpoint ?_ ?_ cs
      · rintro rfl
        exact absurd hstart (by decide)
      · rintro rfl
        exact absurd hstart (by decide)

theorem endsName (h : AfterWord after) (hunderscore : after.head? ≠ some '_') :
    EndsName after := by
  intro c hc
  cases h with
  | nothing => cases hc
  | blank cs => cases hc
  | stop hcs =>
      rcases hcs with rfl | ⟨ds, rfl⟩ <;> exact List.mem_singleton.mp hc
  | punct hd cs =>
      have hname := isNameChar_of_ofChar? hd fun h => hunderscore (congrArg some h)
      rw [List.takeWhile_cons_of_neg (by rw [hname]; decide)] at hc
      cases hc

end AfterWord

theorem unfused_cons : unfused afterOperand (t :: us) = true ↔
    (∀ u ∈ us.head?, fuses afterOperand t u = false) ∧ unfused t.isOperand us = true := by
  rw [unfused, Bool.and_eq_true, Option.all_eq_true]
  simp only [Bool.not_eq_true', Option.mem_def]

theorem following_of_end (ht : t.kind = .endCommand)
    (hus : ∀ u ∈ us.head?, fuses afterOperand t u = false) :
    following t us = [] ∨ ∃ ds, following t us = ' ' :: ds := by
  cases us with
  | nil => exact .inl rfl
  | cons u us =>
      have hu : u.kind ≠ .endCommand := by
        intro hukind
        have hfuses := hus u rfl
        simp [fuses, ht, hukind] at hfuses
      have hspace : needsSpace t u = true := by simp [needsSpace, isEnd, ht]
      exact .inr ⟨_, following_of_space hspace us⟩

theorem afterWord_following (ht : t.isWord = true) (hus : ∀ u ∈ us, Shape u.kind u.text.toList)
    (hunfused : unfused afterOperand us = true) : AfterWord (following t us) := by
  cases us with
  | nil => exact .nothing
  | cons u us =>
      cases hspace : needsSpace t u with
      | true =>
          rw [following_of_space hspace]
          exact .blank _
      | false =>
          have hu := hus u List.mem_cons_self
          rw [following_of_tight hspace]
          generalize hkind : u.kind = kind, htext : u.text.toList = text at hu ⊢
          cases hu with
          | identifier | number | string =>
              rw [needsSpace_words ht (by rw [isWord, hkind])] at hspace
              cases hspace
          | dot =>
              rw [needsSpace_of_dot hkind] at hspace
              cases hspace
          | stop => exact .stop (following_of_end hkind (unfused_cons.mp hunfused).1)
          | single hc => exact .punct hc _
          | pair hpair =>
              obtain ⟨⟨q, hq⟩, _⟩ := ofChar?_of_ofPair? hpair
              exact .punct hq _

/-! ### Reading one token back -/

section Reread

variable {position : Nat} {afterName : Bool} {c : Char} {cs : List Char}

/-- If no blank is in front, the first token begins with the first character. -/
theorem scan_of_not_blank (position : Nat) (afterOperand : Bool)
    (hcs : (cs.isEmpty || startsWith Text.isBlank cs) = false) :
    ∃ u us, scan position afterOperand cs = u :: us ∧ u.text.toList.head? = cs.head? := by
  cases cs with
  | nil => cases hcs
  | cons d ds =>
      have hd : Text.isBlank d = false := hcs
      have hhead : (lexeme afterOperand d ds).taken.head? = some d := by
        have happend := lexeme_append afterOperand d ds
        obtain ⟨e, es, htaken⟩ := List.exists_cons_of_ne_nil (lexeme_taken_ne_nil afterOperand d ds)
        rw [htaken] at happend ⊢
        exact congrArg some (List.cons.inj happend).1
      rw [scan, if_neg (by rw [hd]; decide)]
      exact ⟨_, _, rfl, by rw [Lexeme.toToken, String.toList_ofList]; exact hhead⟩

/-- What follows a mark that has no name after it: the end of the command, or a dot. -/
theorem scan_after_mark (position : Nat) (afterOperand : Bool)
    (hname : startsWith isNameChar cs = true) (hnil : nameText cs = []) :
    ∃ u us, scan position afterOperand cs = u :: us ∧
      (u.kind = .endCommand ∨ u.kind = .punct .dot) := by
  have hdots := endsName_of_nameText_eq_nil hnil
  cases cs with
  | nil => cases hname
  | cons d ds =>
      have hd : isNameChar d = true := hname
      have hrun : (d :: ds).takeWhile isNameChar = d :: ds.takeWhile isNameChar :=
        List.takeWhile_cons_of_pos hd
      have hfirst : d ∈ (d :: ds).takeWhile isNameChar := by
        rw [hrun]
        exact List.mem_cons_self
      obtain rfl : d = '.' := hdots d hfirst
      have hdigit : startsWith Char.isDigit ds = false := by
        rw [Bool.eq_false_iff]
        intro hdigit
        cases ds with
        | nil => cases hdigit
        | cons e es =>
            have he : e.isDigit = true := hdigit
            have hsecond : e ∈ ('.' :: e :: es).takeWhile isNameChar := by
              rw [hrun, List.takeWhile_cons_of_pos (isNameChar_of_isDigit he)]
              exact List.mem_cons_of_mem _ List.mem_cons_self
            rw [hdots e hsecond] at he
            exact absurd he (by decide)
      have hlexeme : lexeme afterOperand '.' ds = scanPoint ds := by
        rw [lexeme, if_neg (by decide), if_neg (by decide), if_pos rfl,
          if_neg (by rw [hdigit]; decide)]
      rw [scan, if_neg (by decide), hlexeme]
      refine ⟨_, _, rfl, ?_⟩
      unfold Lexeme.toToken scanPoint
      split
      · exact .inl rfl
      · exact .inr rfl

theorem Shape.eq_underscore {kind : TokenKind} (h : Shape kind ('_' :: cs)) :
    kind = .punct .underscore := by
  cases h with
  | identifier hc => exact absurd hc (by decide)
  | number hc => exact absurd hc (by decide)
  | string hc => exact absurd hc (by decide)
  | single hc =>
      obtain rfl := Option.some.inj hc
      rfl
  | pair hpair => exact absurd rfl (ofChar?_of_ofPair? hpair).2.2.1

theorem Lexes.name_reread (hc : (c = '!' ∧ startsWith isNameChar cs = true) ∨ isNameStart c = true)
    (ht : t.kind = .identifier) (htext : t.text.toList = c :: nameText cs)
    (hscan : us = scan position afterName (scanName c cs).rest)
    (hshape : ∀ u ∈ us, Shape u.kind u.text.toList)
    (hunfused : unfused afterOperand (t :: us) = true) :
    Lexes afterOperand c (nameText cs ++ following t us)
      ⟨.identifier, c :: nameText cs, following t us⟩ := by
  obtain ⟨hhead, htail⟩ := unfused_cons.mp hunfused
  have hafter : AfterWord (following t us) := afterWord_following (by rw [isWord, ht]) hshape htail
  have hunderscore : (following t us).head? ≠ some '_' := by
    cases us with
    | nil => exact nofun
    | cons u us =>
        cases hspace : needsSpace t u with
        | true =>
            rw [following_of_space hspace]
            exact nofun
        | false =>
            have hu := hshape u List.mem_cons_self
            have hfuses := hhead u rfl
            rw [following_of_tight hspace]
            intro hfront
            obtain ⟨d, ds, hds⟩ := List.exists_cons_of_ne_nil hu.ne_nil
            rw [hds] at hu hfront
            obtain rfl : d = '_' := Option.some.inj hfront
            simp [fuses, ht, hu.eq_underscore] at hfuses
  refine .name ?_ (scanName_reread c cs (hafter.endsName hunderscore))
  rcases hc with ⟨rfl, hname⟩ | hc
  · refine .inl ⟨rfl, ?_⟩
    by_cases hnil : nameText cs = []
    · have hrest : (scanName '!' cs).rest = cs := by
        have happend := scanName_append '!' cs
        rw [scanName_taken, hnil] at happend
        exact (List.cons.inj happend).2
      rw [hrest] at hscan
      obtain ⟨u, us, hus, hend | hdot⟩ := scan_after_mark position afterName hname hnil
      · rw [hscan, hus] at hshape ⊢
        have htight : needsSpace t u = false := by simp [needsSpace, isEnd, hend]
        have hu := hshape u List.mem_cons_self
        have hutext : u.text.toList = ['.'] := (hend ▸ hu).eq_of_endCommand
        rw [hnil, List.nil_append, startsWith_following_of_tight _ htight hu, hutext]
        decide
      · rw [hscan, hus] at hhead
        have hfuses := hhead u rfl
        have hmark : t.text = "!" := String.toList_inj.mp (by rw [htext, hnil]; decide)
        simp [fuses, ht, hdot, hmark] at hfuses
    · rw [startsWith_append_of_ne_nil hnil]
      obtain ⟨d, ds, hds⟩ := List.exists_cons_of_ne_nil hnil
      have hd : d ∈ nameText cs := by
        rw [hds]
        exact List.mem_cons_self
      rw [hds]
      exact isNameChar_of_mem_nameText hd
  · exact .inr hc

theorem needsSpace_after_dot (ht : t.kind = .punct .dot) (htext : t.text.toList = ['.'])
    (hu : u.kind ≠ .punct .dot) : needsSpace t u = false := by
  have hpair : ∀ d, Punct.ofPair? '.' d = none := by
    intro d
    cases hpair : Punct.ofPair? '.' d with
    | none => rfl
    | some p =>
        obtain ⟨⟨q, hq⟩, _⟩ := ofChar?_of_ofPair? hpair
        cases hq
  cases hkind : u.kind with
  | punct p =>
      have hp : p ≠ .dot := fun hp => hu (by rw [hkind, hp])
      cases hhead : u.text.toList.head? with
      | none => simp [needsSpace, isEnd, ht, hkind, hhead]
      | some d => simp [needsSpace, isEnd, ht, hkind, htext, hhead, hpair]
  | endCommand => simp [needsSpace, isEnd, hkind]
  | identifier | number | string | error => simp [needsSpace, isEnd, isWord, ht, hkind]

/-- A dot has the same character behind it again, unless that is a dot too. -/
theorem Lexes.dot_reread (hcs : (cs.isEmpty || startsWith Text.isBlank cs) = false)
    (hdigit : startsWith Char.isDigit cs = false)
    (ht : t.kind = .punct .dot) (htext : t.text.toList = ['.'])
    (hscan : us = scan position afterName cs)
    (hunfused : unfused afterOperand (t :: us) = true) :
    Lexes afterOperand '.' (following t us) ⟨.punct .dot, ['.'], following t us⟩ := by
  obtain ⟨u, us, hus, hhead⟩ := scan_of_not_blank position afterName hcs
  rw [hus] at hscan
  subst hscan
  have hu : u.kind ≠ .punct .dot := by
    intro hukind
    have hfuses := (unfused_cons.mp hunfused).1 u rfl
    simp [fuses, ht, hukind] at hfuses
  rw [following_of_tight (needsSpace_after_dot ht htext hu)]
  -- Only the first character behind the dot counts, and that is the one that was there.
  cases cs with
  | nil => cases hcs
  | cons d ds =>
      obtain ⟨es, hes⟩ := List.head?_eq_some_iff.mp hhead
      rw [hes]
      exact .dot rfl hcs hdigit

/-- A punctuator of one character before other characters. -/
theorem Lexes.single_before {p : Punct} (hc : Punct.ofChar? c = some p) {d : Char} {ds : List Char}
    (hpair : Punct.ofPair? c d = none)
    (hsign : c = '-' → afterOperand = false → d.isDigit = false)
    (hmark : c = '!' → isNameChar d = false) :
    Lexes afterOperand c (d :: ds) ⟨.punct p, [c], d :: ds⟩ := by
  refine .single hc ?_ ?_ ?_
  · rintro d' ⟨⟩
    exact hpair
  · rintro ⟨hdash, hafter, hdigit⟩
    rw [startsWith_cons, hsign hdash hafter] at hdigit
    cases hdigit
  · rintro ⟨hbang, hname⟩
    rw [startsWith_cons, hmark hbang] at hname
    cases hname

theorem ofPair?_of_tight {p q : Punct} {d : Char} {ds : List Char} (ht : t.kind = .punct p)
    (htext : t.text.toList = [c]) (hu : u.kind = .punct q) (hq : q ≠ .dot)
    (hutext : u.text.toList = d :: ds) (htight : needsSpace t u = false) :
    Punct.ofPair? c d = none := by
  simpa [needsSpace, isEnd, ht, hu, hq, htext, hutext] using htight

theorem ofPair?_eq_none {d : Char} (heq : d ≠ '=') (hgreater : d ≠ '>') (hstar : d ≠ '*') :
    Punct.ofPair? c d = none := by
  cases hpair : Punct.ofPair? c d with
  | none => rfl
  | some p =>
      rcases right_of_ofPair? hpair with h | h | h
      · exact absurd h heq
      · exact absurd h hgreater
      · exact absurd h hstar

/-- No punctuator goes on with such a character. -/
theorem Lexes.single_before_plain {p : Punct} (hc : Punct.ofChar? c = some p) {d : Char}
    (hd : d ≠ '=' ∧ d ≠ '>' ∧ d ≠ '*' ∧ isNameChar d = false) (ds : List Char) :
    Lexes afterOperand c (d :: ds) ⟨.punct p, [c], d :: ds⟩ := by
  obtain ⟨heq, hgreater, hstar, hname⟩ := hd
  refine single_before hc (ofPair?_eq_none heq hgreater hstar) (fun _ _ => ?_) fun _ => hname
  rw [Bool.eq_false_iff]
  intro hdigit
  rw [isNameChar_of_isDigit hdigit] at hname
  cases hname

/-- A punctuator of one character is read back, unless it fuses with what follows. -/
theorem Lexes.single_reread {p : Punct} (hc : Punct.ofChar? c = some p) (ht : t.kind = .punct p)
    (htext : t.text.toList = [c]) (hshape : ∀ u ∈ us, Shape u.kind u.text.toList)
    (hunfused : unfused afterOperand (t :: us) = true) :
    Lexes afterOperand c (following t us) ⟨.punct p, [c], following t us⟩ := by
  have hbang : c = '!' → t.kind = .punct .bang := by
    rintro rfl
    rw [ht, Option.some.inj hc]
  have hdash : c = '-' → t.kind = .punct .dash := by
    rintro rfl
    rw [ht, Option.some.inj hc]
  cases us with
  | nil => exact .single hc (fun _ hd => nomatch hd) (fun h => nomatch h.2.2) (fun h => nomatch h.2)
  | cons u us =>
      have hfuses := (unfused_cons.mp hunfused).1 u rfl
      have hu := hshape u List.mem_cons_self
      cases hspace : needsSpace t u with
      | true =>
          rw [following_of_space hspace]
          exact single_before_plain hc (by decide) _
      | false =>
          rw [following_of_tight hspace]
          generalize hkind : u.kind = kind, hutext : u.text.toList = text at hu ⊢
          cases hu with
          | @identifier d ds hd =>
              rcases hd with rfl | hd
              · exact single_before_plain hc (by decide) _
              refine single_before hc ?_ (fun _ _ => isDigit_of_isNameStart hd) fun hmark => ?_
              · exact ofPair?_eq_none (ne_of_isNameStart hd (by decide))
                  (ne_of_isNameStart hd (by decide)) (ne_of_isNameStart hd (by decide))
              · have hne : d ≠ '!' := ne_of_isNameStart hd (by decide)
                simp [fuses, hbang hmark, hkind, isMarked_eq, hutext, hne] at hfuses
          | @number value d ds hd =>
              rcases hd with hd | rfl | rfl
              · refine single_before hc (ofPair?_eq_none ?_ ?_ ?_) (fun hsign hafter => ?_)
                  fun hmark => ?_
                · rintro rfl
                  exact absurd hd (by decide)
                · rintro rfl
                  exact absurd hd (by decide)
                · rintro rfl
                  exact absurd hd (by decide)
                · simp [fuses, hdash hsign, hkind, hafter, hutext, startsWith_cons, hd] at hfuses
                · simp [fuses, hbang hmark, hkind, hutext, startsWith_cons, hd] at hfuses
              · refine single_before hc (ofPair?_eq_none (by decide) (by decide) (by decide))
                  (fun _ _ => by decide) fun hmark => ?_
                simp [fuses, hbang hmark, hkind, hutext, startsWith_cons] at hfuses
              · exact single_before_plain hc (by decide) _
          | string hd =>
              rcases isDelimiter_iff.mp hd with rfl | rfl
              · exact single_before_plain hc (by decide) _
              · exact single_before_plain hc (by decide) _
          | stop =>
              refine single_before hc (ofPair?_eq_none (by decide) (by decide) (by decide))
                (fun _ _ => by decide) fun hmark => ?_
              simp [fuses, hbang hmark, hkind] at hfuses
          | dot =>
              rw [needsSpace_of_dot hkind] at hspace
              cases hspace
          | @single q d hd =>
              obtain ⟨_, hdigit, hpoint, _⟩ := classes_of_ofChar? hd
              have hq : q ≠ .dot := by
                rintro rfl
                exact hpoint (List.singleton_inj.mp (toList_spelling_of_ofChar? hd)).symm
              refine single_before hc (ofPair?_of_tight ht htext hkind hq hutext hspace)
                (fun _ _ => hdigit) fun hmark => isNameChar_of_ofChar? hd ?_
              rintro rfl
              obtain rfl : .underscore = q := Option.some.inj hd
              simp [fuses, hbang hmark, hkind] at hfuses
          | @pair q d e hpair =>
              obtain ⟨⟨r, hr⟩, _, hunderscore, _⟩ := ofChar?_of_ofPair? hpair
              have hq : q ≠ .dot := by
                rintro rfl
                exact absurd (length_spelling_of_ofPair? hpair) (by decide)
              exact single_before hc (ofPair?_of_tight ht htext hkind hq hutext hspace)
                (fun _ _ => (classes_of_ofChar? hr).2.1)
                fun _ => isNameChar_of_ofChar? hr hunderscore

/-- A token that does not fuse with the next one is read back. -/
theorem Lexes.reread {next : Lexeme} (h : Lexes afterOperand c cs next) (ht : t.kind = next.kind)
    (htext : t.text.toList = next.taken) (hscan : us = scan position afterName next.rest)
    (hshape : ∀ u ∈ us, Shape u.kind u.text.toList)
    (hunfused : unfused afterOperand (t :: us) = true) :
    ∃ ds, next.taken = c :: ds ∧
      Lexes afterOperand c (ds ++ following t us) ⟨next.kind, next.taken, following t us⟩ := by
  have hword : t.isWord = true → AfterWord (following t us) :=
    fun hword => afterWord_following hword hshape (unfused_cons.mp hunfused).2
  obtain ⟨ds, htaken, _⟩ := h.taken_append
  refine ⟨ds, htaken, ?_⟩
  cases h with
  | string hc hrun =>
      obtain rfl := (List.cons.inj htaken).2
      have hafter := (hword (by rw [isWord, ht])).head?_ne hc
      exact .string hc (quotedRun_reread hrun hafter)
  | number hc hnumber =>
      have hread := scanNumber_reread [] (c :: cs) (hword (by rw [isWord, ht])).endsNumber
      have hdigits := scanNumber_taken [] (c :: cs)
      rw [hnumber] at hread hdigits
      have hds : numberText (c :: cs) = c :: ds := hdigits.symm.trans htaken
      rw [hds] at hread
      refine .number (hc.imp_right ?_) hread
      rintro ⟨rfl, hdigit⟩
      have hstart := numberText_point hdigit hds
      rw [startsWith_append_of_ne_nil fun hnil => by rw [hnil] at hstart; cases hstart]
      exact ⟨rfl, hstart⟩
  | signed hc hafter hdigit hnumber =>
      have hread := scanNumber_reread ['-'] cs (hword (by rw [isWord, ht])).endsNumber
      have hdigits := scanNumber_taken ['-'] cs
      rw [hnumber] at hread hdigits
      obtain rfl : ds = numberText cs := (List.cons.inj (htaken.symm.trans hdigits)).2
      have hstart := startsWith_numberText hdigit
      refine .signed hc hafter ?_ hread
      rwa [startsWith_append_of_ne_nil fun hnil => by rw [hnil] at hstart; cases hstart]
  | stop hc =>
      obtain rfl := (List.cons.inj htaken).2
      refine .stop hc ?_
      rcases following_of_end ht (unfused_cons.mp hunfused).1 with hnil | ⟨es, hes⟩
      · rw [hnil]
        decide
      · rw [hes]
        rfl
  | dot hc hcs hdigit =>
      subst hc
      obtain rfl := (List.cons.inj htaken).2
      exact dot_reread hcs hdigit ht htext hscan hunfused
  | name hc hname =>
      obtain rfl : ds = nameText cs := by
        have hfirst := scanName_taken c cs
        rw [hname] at hfirst
        exact (List.cons.inj (htaken.symm.trans hfirst)).2
      have hrest : us = scan position afterName (scanName c cs).rest := by
        rw [hname]
        exact hscan
      exact htaken ▸ name_reread hc ht (htext.trans htaken) hrest hshape hunfused
  | pair hcs hpair =>
      obtain rfl := (List.cons.inj htaken).2
      exact .pair rfl hpair
  | single hc =>
      obtain rfl := (List.cons.inj htaken).2
      exact single_reread hc ht htext hshape hunfused

end Reread

/-! ### Reading all tokens back -/

section Spellings

variable {position : Nat} {c : Char} {cs : List Char}

/-- The tokens of the characters without their places. -/
def spellings (afterOperand : Bool) (cs : List Char) : List (TokenKind × String) :=
  (scan 0 afterOperand cs).map spelling

theorem map_spelling_scan (position : Nat) (afterOperand : Bool) (cs : List Char) :
    (scan position afterOperand cs).map spelling = spellings afterOperand cs := by
  suffices h : ∀ other, (scan position afterOperand cs).map spelling =
      (scan other afterOperand cs).map spelling from h 0
  fun_induction scan position afterOperand cs with
  | case1 => intro other; rw [scan]
  | case2 position afterOperand c cs hblank ih =>
      intro other
      rw [scan, if_pos hblank]
      exact ih _
  | case3 position afterOperand c cs hblank next ih =>
      intro other
      rw [scan, if_neg hblank, List.map_cons, List.map_cons]
      exact congrArg _ (ih _)

theorem spellings_nil (afterOperand : Bool) : spellings afterOperand [] = [] := by
  rw [spellings, scan, List.map_nil]

theorem spellings_blank (hc : Text.isBlank c = true) :
    spellings afterOperand (c :: cs) = spellings afterOperand cs := by
  rw [spellings, scan, if_pos hc, map_spelling_scan]

theorem spellings_cons (hc : Text.isBlank c = false) :
    spellings afterOperand (c :: cs) =
      ((lexeme afterOperand c cs).kind, String.ofList (lexeme afterOperand c cs).taken) ::
        spellings (lexeme afterOperand c cs).isOperand (lexeme afterOperand c cs).rest := by
  rw [spellings, scan, if_neg (by rw [hc]; decide), List.map_cons, map_spelling_scan]
  rfl

theorem spellings_following (t : Token) (us : List Token) :
    spellings afterOperand (following t us) = spellings afterOperand (render us).toList := by
  cases us with
  | nil => rfl
  | cons u us =>
      rw [toList_render]
      cases hspace : needsSpace t u with
      | true => rw [following_of_space hspace, spellings_blank (by decide)]
      | false => rw [following_of_tight hspace]

theorem isOperand_toToken (next : Lexeme) (position : Nat) :
    (next.toToken position).isOperand = next.isOperand := by
  simp only [Token.isOperand, Lexeme.isOperand, Lexeme.toToken, isMarked_eq, String.toList_ofList]
  rfl

theorem lexes_of_isError {next : Lexeme} (hnext : lexeme afterOperand c cs = next)
    (herror : (next.toToken position).isError = false) : Lexes afterOperand c cs next := by
  rw [← hnext] at herror ⊢
  refine lexes_lexeme fun message hkind => ?_
  rw [Token.isError, Lexeme.toToken, hkind] at herror
  cases herror

theorem shape_of_mem_scan (herror : ∀ t ∈ scan position afterOperand cs, t.isError = false)
    {t : Token} (ht : t ∈ scan position afterOperand cs) : Shape t.kind t.text.toList := by
  fun_induction scan position afterOperand cs with
  | case1 => cases ht
  | case2 position afterOperand c cs hblank ih => exact ih herror ht
  | case3 position afterOperand c cs hblank next ih =>
      rcases List.mem_cons.mp ht with rfl | ht
      · have hlexes : Lexes afterOperand c cs next :=
          lexes_of_isError rfl (herror _ List.mem_cons_self)
        rw [Lexeme.toToken, String.toList_ofList]
        exact hlexes.shape
      · exact ih (fun u hu => herror u (List.mem_cons_of_mem _ hu)) ht

/-- Tokens are read back when the first is cut off again and the others are read back. -/
theorem spellings_render_cons {next : Lexeme} {ds : List Char} (hc : Text.isBlank c = false)
    (htaken : next.taken = c :: ds) (ht : next.toToken position = t) (us : List Token) :
    spellings afterOperand (render (t :: us)).toList = (t :: us).map spelling ↔
      lexeme afterOperand c (ds ++ following t us) = ⟨next.kind, next.taken, following t us⟩ ∧
        spellings t.isOperand (render us).toList = us.map spelling := by
  have htext : t.text.toList = c :: ds := by
    rw [← ht, ← htaken, Lexeme.toToken, String.toList_ofList]
  have hspelling : t.spelling = (next.kind, String.ofList next.taken) := by
    rw [← ht]
    rfl
  have happend := lexeme_append afterOperand c (ds ++ following t us)
  rw [toList_render, htext, List.cons_append, spellings_cons hc, List.map_cons, List.cons.injEq,
    hspelling, ← ht, isOperand_toToken, ht]
  constructor
  · rintro ⟨hfirst, hothers⟩
    have hkind : (lexeme afterOperand c (ds ++ following t us)).kind = next.kind :=
      congrArg Prod.fst hfirst
    have hsame : (lexeme afterOperand c (ds ++ following t us)).taken = next.taken :=
      String.ofList_injective (congrArg Prod.snd hfirst)
    have hrest : (lexeme afterOperand c (ds ++ following t us)).rest = following t us := by
      rw [hsame, htaken, List.cons_append] at happend
      exact List.append_cancel_left (List.cons.inj happend).2
    generalize lexeme afterOperand c (ds ++ following t us) = again at hkind hsame hrest hothers ⊢
    obtain ⟨kind, taken, rest⟩ := again
    subst hkind hsame hrest
    exact ⟨rfl, (spellings_following t us).symm.trans hothers⟩
  · rintro ⟨hagain, hothers⟩
    rw [hagain]
    exact ⟨rfl, (spellings_following t us).trans hothers⟩

/-- Written out and read again, the tokens of a text are the same exactly when no two neighbours
fuse. -/
theorem spellings_render_iff (position : Nat) (afterOperand : Bool) (cs : List Char)
    (herror : ∀ t ∈ scan position afterOperand cs, t.isError = false) :
    spellings afterOperand (render (scan position afterOperand cs)).toList =
        (scan position afterOperand cs).map spelling ↔
      unfused afterOperand (scan position afterOperand cs) = true := by
  fun_induction scan position afterOperand cs with
  | case1 position afterOperand => exact ⟨fun _ => rfl, fun _ => spellings_nil afterOperand⟩
  | case2 position afterOperand c cs hblank ih => exact ih herror
  | case3 position afterOperand c cs hblank next ih =>
      have hothers : ∀ t ∈ scan (position + byteLength next.taken) next.isOperand next.rest,
          t.isError = false := fun t ht => herror t (List.mem_cons_of_mem _ ht)
      have hlexes : Lexes afterOperand c cs next :=
        lexes_of_isError rfl (herror _ List.mem_cons_self)
      have hshape : ∀ u ∈ scan (position + byteLength next.taken) next.isOperand next.rest,
          Shape u.kind u.text.toList := fun u hu => shape_of_mem_scan hothers hu
      obtain ⟨ds, htaken, _⟩ := hlexes.taken_append
      rw [spellings_render_cons (Bool.eq_false_iff.mpr hblank) htaken rfl, isOperand_toToken,
        ih hothers]
      constructor
      · rintro ⟨hagain, hunfused⟩
        have hread : Lexes afterOperand c _ _ :=
          lexes_of_isError hagain (herror _ List.mem_cons_self)
        refine unfused_cons.mpr ⟨fun u hu => ?_, ?_⟩
        · obtain ⟨us, hus⟩ := List.head?_eq_some_iff.mp hu
          rw [hus] at hread hshape
          exact hread.not_fuses rfl String.toList_ofList.symm rfl (hshape u List.mem_cons_self)
        · rw [isOperand_toToken]
          exact hunfused
      · intro hunfused
        obtain ⟨ds', htaken', hread⟩ := hlexes.reread rfl String.toList_ofList rfl hshape hunfused
        obtain rfl : ds' = ds := (List.cons.inj (htaken'.symm.trans htaken)).2
        have htail := (unfused_cons.mp hunfused).2
        rw [isOperand_toToken] at htail
        exact ⟨hread.lexeme_eq, htail⟩

end Spellings

end Scan

/-- No two neighbours fuse, wherever they stand. -/
theorem Token.unfused_iff {afterOperand : Bool} {tokens : List Token} :
    unfused afterOperand tokens = true ↔ ∀ before t u after, tokens = before ++ t :: u :: after →
      fuses (before.getLast?.elim afterOperand isOperand) t u = false := by
  induction tokens generalizing afterOperand with
  | nil => simp [unfused]
  | cons s tokens ih =>
      rw [Scan.unfused_cons, ih]
      constructor
      · rintro ⟨hfirst, hothers⟩ before t u after heq
        cases before with
        | nil =>
            obtain ⟨rfl, rfl⟩ := List.cons.inj heq
            exact hfirst u rfl
        | cons r before =>
            obtain ⟨rfl, rfl⟩ := List.cons.inj heq
            have hother := hothers before t u after rfl
            cases before with
            | nil => exact hother
            | cons q before => rwa [List.getLast?_cons_cons]
      · intro h
        refine ⟨fun u hu => ?_, fun before t u after heq => ?_⟩
        · obtain ⟨after, rfl⟩ := List.head?_eq_some_iff.mp hu
          exact h [] s u after rfl
        · have hother := h (s :: before) t u after (congrArg _ heq)
          cases before with
          | nil => exact hother
          | cons q before => rwa [List.getLast?_cons_cons] at hother

theorem Token.unfused_false_iff {tokens : List Token} :
    unfused false tokens = true ↔ ∀ before t u after, tokens = before ++ t :: u :: after →
      fuses (before.getLast?.any isOperand) t u = false := by
  have hany : ∀ last : Option Token, last.any isOperand = last.elim false isOperand := by
    rintro (_ | t) <;> rfl
  simp only [unfused_iff, hany]

/-- The tokens of a text without errors, written out and scanned again, are the same, kind for kind
and text for text, if and only if no two neighbours fuse: two dots; two ends; the name `!` and a
dot; a name and an underscore; the mark `!` and an underscore, an end, a name without a mark, or a
number that begins with a digit or a point; a `-` that follows no operand and a number that begins
with a digit. -/
theorem tokenize_render_iff (source : String)
    (herror : ∀ t ∈ tokenize source, t.isError = false) :
    (tokenize (Token.render (tokenize source))).map Token.spelling =
        (tokenize source).map Token.spelling ↔
      ∀ before t u after, tokenize source = before ++ t :: u :: after →
        Token.fuses (before.getLast?.any Token.isOperand) t u = false := by
  rw [← Token.unfused_false_iff]
  exact Scan.spellings_render_iff 0 false source.toList herror

/-- A `-` after an operand, a sign, a doubled delimiter and an end are read back; a `-` between an
operator and a number is not. -/
theorem tokenize_render_minus :
    let good := "!f(x)- 5 .5 -1.e 'it''s'. <>!*"
    let bad := "x = - 5"
    (∀ t ∈ tokenize good, t.isError = false) ∧ (∀ t ∈ tokenize bad, t.isError = false) ∧
      (tokenize (Token.render (tokenize good))).map Token.spelling =
        (tokenize good).map Token.spelling ∧
      (tokenize (Token.render (tokenize bad))).map Token.spelling ≠
        (tokenize bad).map Token.spelling := by
  intro good bad
  have hgood : ∀ t ∈ tokenize good, t.isError = false := by decide +kernel
  have hbad : ∀ t ∈ tokenize bad, t.isError = false := by decide +kernel
  have hunfused : Token.unfused false (tokenize good) = true := by decide +kernel
  have hfused : Token.unfused false (tokenize bad) ≠ true := by decide +kernel
  refine ⟨hgood, hbad, ?_, fun hsame => hfused ?_⟩
  · exact (tokenize_render_iff good hgood).mpr (Token.unfused_false_iff.mp hunfused)
  · exact Token.unfused_false_iff.mpr ((tokenize_render_iff bad hbad).mp hsame)

end CommandMacros

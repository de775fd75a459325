import CommandMacros.Proofs.Token.Place

/-!
Scanning loses nothing. The characters of a text spell its tokens, one after the other, with blanks
around them: every token has characters of its own, stands where its span says, and ends on its
line; what belongs to no token is a blank.
-/

namespace CommandMacros.Scan

/-! ### Lexemes end on their line -/

theorem newline_notMem_takeWhile {p : Char → Bool} (hp : p '\n' = false) (cs : List Char) :
    '\n' ∉ cs.takeWhile p := by
  intro hmem
  have hall := List.all_eq_true.mp (List.all_takeWhile (p := p) (l := cs)) '\n' hmem
  rw [hp] at hall
  cases hall

theorem newline_notMem_singleton {c : Char} (hc : c ≠ '\n') : '\n' ∉ [c] :=
  List.not_mem_cons_of_ne_of_not_mem hc.symm List.not_mem_nil

theorem newline_notMem_append {xs ys : List Char} (hxs : '\n' ∉ xs) (hys : '\n' ∉ ys) :
    '\n' ∉ xs ++ ys :=
  fun hmem => (List.mem_append.mp hmem).elim hxs hys

theorem newline_notMem_quotedRun {delimiter : Char} (hdelimiter : delimiter ≠ '\n')
    (cs : List Char) : '\n' ∉ (quotedRun delimiter cs).2.1 := by
  fun_induction quotedRun delimiter cs with
  | case1 => exact List.not_mem_nil
  | case2 => exact List.not_mem_nil
  | case3 => exact newline_notMem_singleton hdelimiter
  | case4 c hnewline hother => exact newline_notMem_singleton hnewline
  | case5 => exact List.not_mem_nil
  | case6 rest value taken left hrun hnewline ih =>
      rw [hrun] at ih
      exact List.not_mem_cons_of_ne_of_not_mem hdelimiter.symm
        (List.not_mem_cons_of_ne_of_not_mem hdelimiter.symm ih)
  | case7 => exact newline_notMem_singleton hdelimiter
  | case8 c d rest hnewline hother value taken left hrun ih =>
      rw [hrun] at ih
      exact List.not_mem_cons_of_ne_of_not_mem (Ne.symm hnewline) ih

theorem newline_notMem_digitRun (cs : List Char) : '\n' ∉ (digitRun cs).1 :=
  newline_notMem_takeWhile (by decide) cs

theorem newline_notMem_fractionPart (cs : List Char) : '\n' ∉ (fractionPart cs).1 := by
  unfold fractionPart
  split
  · next rest =>
      split
      · exact List.not_mem_nil
      · exact newline_notMem_digitRun rest
  · exact List.not_mem_nil

theorem newline_notMem_fractionText {digits : List Char} (h : '\n' ∉ digits) :
    '\n' ∉ fractionText digits := by
  unfold fractionText
  split
  · exact List.not_mem_nil
  · exact List.not_mem_cons_of_ne_of_not_mem (by decide) h

theorem newline_notMem_exponentSign (cs : List Char) : '\n' ∉ (exponentSign cs).1 := by
  unfold exponentSign
  split
  · split
    · next hsign =>
        refine newline_notMem_singleton ?_
        rcases hsign with rfl | rfl <;> decide
    · exact List.not_mem_nil
  · exact List.not_mem_nil

theorem newline_notMem_exponentPart (cs : List Char) :
    '\n' ∉ (exponentPart cs).1.1 ++ (exponentPart cs).1.2.1 ++ (exponentPart cs).1.2.2 := by
  unfold exponentPart
  split
  · next c rest =>
      dsimp only
      split
      · next hmark =>
          refine newline_notMem_append (newline_notMem_append (newline_notMem_singleton ?_)
            (newline_notMem_exponentSign rest)) (newline_notMem_digitRun _)
          rcases hmark.1 with rfl | rfl <;> decide
      · exact List.not_mem_nil
  · exact List.not_mem_nil

theorem newline_notMem_scanNumber {sign : List Char} (hsign : '\n' ∉ sign) (cs : List Char) :
    '\n' ∉ (scanNumber sign cs).taken := by
  have hexponent := newline_notMem_exponentPart (fractionPart (digitRun cs).2).2
  simp only [scanNumber]
  simp only [List.append_assoc] at hexponent ⊢
  refine newline_notMem_append hsign (newline_notMem_append (newline_notMem_digitRun cs) ?_)
  exact newline_notMem_append
    (newline_notMem_fractionText (newline_notMem_fractionPart (digitRun cs).2)) hexponent

theorem newline_notMem_scanName {c : Char} (hc : c ≠ '\n') (cs : List Char) :
    '\n' ∉ (scanName c cs).taken := by
  have hrun : '\n' ∉ cs.takeWhile isNameChar := newline_notMem_takeWhile (by decide) cs
  refine List.not_mem_cons_of_ne_of_not_mem hc.symm fun hmem => hrun ?_
  rw [← splitTrailingDots_append (cs.takeWhile isNameChar)]
  exact List.mem_append_left _ hmem

theorem newline_notMem_scanSingle {c : Char} (hc : c ≠ '\n') (cs : List Char) :
    '\n' ∉ (scanSingle c cs).taken := by
  unfold scanSingle
  split
  · exact newline_notMem_singleton hc
  · exact newline_notMem_singleton hc

theorem newline_notMem_scanPunct {c : Char} (hc : c ≠ '\n') (cs : List Char) :
    '\n' ∉ (scanPunct c cs).taken := by
  unfold scanPunct
  split
  · next d rest =>
      split
      · next p hpair =>
          refine List.not_mem_cons_of_ne_of_not_mem hc.symm (newline_notMem_singleton ?_)
          rintro rfl
          unfold Punct.ofPair? at hpair
          split at hpair <;> simp_all
      · exact newline_notMem_scanSingle hc _
  · exact newline_notMem_scanSingle hc _

/-- No lexeme goes on past the end of its line. -/
theorem newline_notMem_lexeme {c : Char} (hc : c ≠ '\n') (afterOperand : Bool) (cs : List Char) :
    '\n' ∉ (lexeme afterOperand c cs).taken := by
  unfold lexeme
  split
  · have hrun := newline_notMem_quotedRun hc cs
    unfold scanQuoted
    split
    · next hquoted =>
        rw [hquoted] at hrun
        exact List.not_mem_cons_of_ne_of_not_mem hc.symm hrun
    · next hquoted =>
        rw [hquoted] at hrun
        exact List.not_mem_cons_of_ne_of_not_mem hc.symm hrun
  split
  · exact newline_notMem_scanNumber List.not_mem_nil _
  split
  · split
    · exact newline_notMem_scanNumber List.not_mem_nil _
    · exact newline_notMem_singleton (by decide)
  split
  · exact newline_notMem_scanNumber (newline_notMem_singleton (by decide)) _
  split
  · exact newline_notMem_scanName hc cs
  split
  · exact newline_notMem_scanName hc cs
  · exact newline_notMem_scanPunct hc cs

/-! ### Texts and their tokens -/

/-- The characters, the first of which stands at byte `position`, are the texts of the tokens with
blanks around them. -/
inductive Spells : Nat → List Char → List Token → Prop
  | nil (position : Nat) : Spells position [] []
  | blank {position : Nat} {c : Char} {cs : List Char} {tokens : List Token}
      (hc : Text.isBlank c = true) (h : Spells (position + c.utf8Size) cs tokens) :
      Spells position (c :: cs) tokens
  | token {position : Nat} {kind : TokenKind} {taken rest : List Char} {tokens : List Token}
      (hne : taken ≠ []) (hline : '\n' ∉ taken)
      (h : Spells (position + byteLength taken) rest tokens) :
      Spells position (taken ++ rest)
        (⟨kind, String.ofList taken, ⟨position, position + byteLength taken⟩⟩ :: tokens)

theorem spells_scan (position : Nat) (afterOperand : Bool) (cs : List Char) :
    Spells position cs (scan position afterOperand cs) := by
  fun_induction scan position afterOperand cs with
  | case1 position => exact .nil position
  | case2 position afterOperand c cs hblank ih => exact .blank hblank ih
  | case3 position afterOperand c cs hblank next ih =>
      have hc : c ≠ '\n' := by
        rintro rfl
        exact hblank (by decide)
      rw [← lexeme_append afterOperand c cs]
      exact .token (lexeme_taken_ne_nil afterOperand c cs)
        (newline_notMem_lexeme hc afterOperand cs) ih

namespace Spells

variable {position : Nat} {cs : List Char} {tokens : List Token}

/-- A token stands in the characters where its span says. -/
theorem place (h : Spells position cs tokens) {t : Token} (ht : t ∈ tokens) :
    ∃ front back, cs = front ++ t.text.toList ++ back ∧ t.text.toList ≠ [] ∧
      t.span = ⟨position + byteLength front,
        position + byteLength front + byteLength t.text.toList⟩ := by
  induction h with
  | nil => cases ht
  | @blank position c cs tokens hc h ih =>
      obtain ⟨front, back, rfl, hne, hspan⟩ := ih ht
      refine ⟨c :: front, back, rfl, hne, ?_⟩
      rw [hspan, byteLength_cons, Nat.add_assoc position]
  | @token position kind taken rest tokens hne hline h ih =>
      rcases List.mem_cons.mp ht with rfl | ht
      · exact ⟨[], rest, by rw [String.toList_ofList]; rfl, by rwa [String.toList_ofList],
          by rw [String.toList_ofList]; rfl⟩
      · obtain ⟨front, back, rfl, hne, hspan⟩ := ih ht
        refine ⟨taken ++ front, back, ?_, hne, ?_⟩
        · simp only [List.append_assoc]
        · rw [hspan, byteLength_append, Nat.add_assoc position]

theorem newline_notMem (h : Spells position cs tokens) {t : Token} (ht : t ∈ tokens) :
    '\n' ∉ t.text.toList := by
  induction h with
  | nil => cases ht
  | blank _ _ ih => exact ih ht
  | token _ hline _ ih =>
      rcases List.mem_cons.mp ht with rfl | ht
      · rwa [String.toList_ofList]
      · exact ih ht

theorem position_le (h : Spells position cs tokens) {t : Token} (ht : t ∈ tokens) :
    position ≤ t.span.start := by
  obtain ⟨front, back, _, _, hspan⟩ := h.place ht
  rw [hspan]
  exact Nat.le_add_right _ _

/-- The tokens stand one after the other. -/
theorem pairwise (h : Spells position cs tokens) :
    tokens.Pairwise fun t u => t.span.stop ≤ u.span.start := by
  induction h with
  | nil => exact .nil
  | blank _ _ ih => exact ih
  | token _ _ h ih => exact .cons (fun u hu => h.position_le hu) ih

/-- A character that belongs to no token is a blank. -/
theorem isBlank_of_outside (h : Spells position cs tokens) {front back : List Char} {c : Char}
    (hcs : cs = front ++ c :: back)
    (houtside : ∀ t ∈ tokens, position + byteLength front < t.span.start ∨
      t.span.stop ≤ position + byteLength front) :
    Text.isBlank c = true := by
  induction h generalizing front with
  | nil => exact absurd hcs.symm (by simp)
  | blank hblank h ih =>
      cases front with
      | nil =>
          obtain ⟨rfl, _⟩ := List.cons.inj hcs
          exact hblank
      | cons d front =>
          obtain ⟨rfl, hrest⟩ := List.cons.inj hcs
          refine ih hrest fun t ht => ?_
          rw [Nat.add_assoc, ← byteLength_cons]
          exact houtside t ht
  | @token position kind taken rest tokens hne hline h ih =>
      -- The token ends before the character, so what it leaves holds the character.
      have hstop : byteLength taken ≤ byteLength front := by
        have hfirst := houtside _ List.mem_cons_self
        simp only at hfirst
        omega
      obtain ⟨front', rfl, hrest⟩ | ⟨taken', rfl, hrest⟩ := List.append_eq_append_iff.mp hcs
      · refine ih hrest fun t ht => ?_
        have hother := houtside t (List.mem_cons_of_mem _ ht)
        rwa [byteLength_append, ← Nat.add_assoc] at hother
      · rw [byteLength_append] at hstop
        cases taken' with
        | nil =>
            have hfirst : rest = [] ++ c :: back := hrest.symm
            refine ih hfirst fun t ht => ?_
            have hother := houtside t (List.mem_cons_of_mem _ ht)
            rwa [List.append_nil]
        | cons d taken' =>
            have := byteLength_pos (List.cons_ne_nil d taken')
            omega

/-- Every token takes a character at least. -/
theorem length_le (h : Spells position cs tokens) : tokens.length ≤ cs.length := by
  induction h with
  | nil => exact Nat.le_refl _
  | blank _ _ ih => exact Nat.le_succ_of_le ih
  | token hne _ _ ih =>
      have htaken := List.length_pos_iff.mpr hne
      rw [List.length_append, List.length_cons]
      omega

/-- The characters are recovered by putting the blanks between the texts of the tokens. -/
theorem interleave (h : Spells position cs tokens) :
    ∃ (gaps : List (List Char)) (last : List Char), gaps.length = tokens.length ∧
      (∀ gap ∈ last :: gaps, ∀ c ∈ gap, Text.isBlank c = true) ∧
      cs = (List.zipWith (fun gap t => gap ++ t.text.toList) gaps tokens).flatten ++ last := by
  induction h with
  | nil => exact ⟨[], [], rfl, by simp, rfl⟩
  | @blank position c cs tokens hc h ih =>
      obtain ⟨gaps, last, hlength, hblank, rfl⟩ := ih
      cases tokens with
      | nil =>
          obtain rfl := List.length_eq_zero_iff.mp hlength
          refine ⟨[], c :: last, rfl, ?_, rfl⟩
          intro gap hgap d hd
          obtain rfl := List.mem_singleton.mp hgap
          rcases List.mem_cons.mp hd with rfl | hd
          · exact hc
          · exact hblank last List.mem_cons_self d hd
      | cons t tokens =>
          obtain ⟨gap, gaps, rfl⟩ := List.exists_cons_of_length_eq_add_one hlength
          refine ⟨(c :: gap) :: gaps, last, hlength, ?_, rfl⟩
          intro other hother d hd
          rcases List.mem_cons.mp hother with rfl | hother
          · exact hblank _ List.mem_cons_self d hd
          rcases List.mem_cons.mp hother with rfl | hother
          · rcases List.mem_cons.mp hd with rfl | hd
            · exact hc
            · exact hblank gap (List.mem_cons_of_mem _ List.mem_cons_self) d hd
          · exact hblank other (List.mem_cons_of_mem _ (List.mem_cons_of_mem _ hother)) d hd
  | @token position kind taken rest tokens hne hline h ih =>
      obtain ⟨gaps, last, hlength, hblank, rfl⟩ := ih
      refine ⟨[] :: gaps, last, by simp [hlength], ?_, ?_⟩
      · intro other hother d hd
        rcases List.mem_cons.mp hother with rfl | hother
        · exact hblank _ List.mem_cons_self d hd
        rcases List.mem_cons.mp hother with rfl | hother
        · cases hd
        · exact hblank other (List.mem_cons_of_mem _ hother) d hd
      · simp

end Spells

end CommandMacros.Scan

namespace CommandMacros

theorem spells_tokenize (source : String) : Scan.Spells 0 source.toList (tokenize source) :=
  Scan.spells_scan 0 false source.toList

/-- The span of every token of a source lies within it. -/
theorem within_of_mem_tokenize {source : String} {t : Token} (ht : t ∈ tokenize source) :
    t.span.Within source := by
  obtain ⟨front, back, hsource, _, hspan⟩ := (spells_tokenize source).place ht
  simp only [Nat.zero_add] at hspan
  rw [hspan]
  have hstart : source.toList = front ++ (t.text.toList ++ back) := by
    rw [hsource, List.append_assoc]
  refine ⟨Nat.le_add_right _ _, .of_append hstart, ?_⟩
  · rw [← Scan.byteLength_append]
    exact .of_append hsource

/-- Scanning is lossless and always gets on. Every token has a span with something in it, which lies
within the source, and its text is the slice of the source there, all on one line; the spans are
disjoint and in order; every character outside of them is a blank, so that the source is recovered
from the texts of the tokens and the blanks between them. -/
theorem tokenize_lossless (source : String) :
    let tokens := tokenize source
    (∀ t ∈ tokens, t.span.Within source ∧ t.span.start < t.span.stop ∧
      String.Pos.Raw.extract source ⟨t.span.start⟩ ⟨t.span.stop⟩ = t.text ∧
      '\n' ∉ t.text.toList) ∧
    tokens.Pairwise (fun t u => t.span.stop ≤ u.span.start) ∧
    (∀ front c back, source.toList = front ++ c :: back →
      (∀ t ∈ tokens, Scan.byteLength front < t.span.start ∨
        t.span.stop ≤ Scan.byteLength front) → Text.isBlank c = true) ∧
    tokens.length ≤ source.toList.length ∧
    ∃ (gaps : List (List Char)) (last : List Char), gaps.length = tokens.length ∧
      (∀ gap ∈ last :: gaps, ∀ c ∈ gap, Text.isBlank c = true) ∧
      source.toList =
        (List.zipWith (fun gap t => gap ++ t.text.toList) gaps tokens).flatten ++ last := by
  intro tokens
  have hspells : Scan.Spells 0 source.toList tokens := spells_tokenize source
  refine ⟨fun t ht => ?_, hspells.pairwise, fun front c back hsource houtside => ?_,
    hspells.length_le, hspells.interleave⟩
  · obtain ⟨front, back, hsource, hne, hspan⟩ := hspells.place ht
    have hslice := extract_eq hne hsource
    have hpos := Scan.byteLength_pos hne
    rw [Nat.zero_add] at hspan
    rw [String.ofList_toList] at hslice
    refine ⟨within_of_mem_tokenize ht, ?_, ?_, hspells.newline_notMem ht⟩
    · rw [hspan]
      exact Nat.lt_add_of_pos_right hpos
    · rw [hspan]
      exact hslice
  · refine hspells.isBlank_of_outside hsource fun t ht => ?_
    rw [Nat.zero_add]
    exact houtside t ht

/-- A string after letters of two bytes and dots, and the line feed before it. -/
theorem tokenize_lossless_accents :
    let source := "é\n!é.. 'ñ''s'"
    let quoted : Token := ⟨.string "ñ's", "'ñ''s'", ⟨9, 16⟩⟩
    quoted ∈ tokenize source ∧ quoted.span.Within source ∧
      String.Pos.Raw.extract source ⟨9⟩ ⟨16⟩ = quoted.text ∧
      source.toList = ['é'] ++ '\n' :: "!é.. 'ñ''s'".toList ∧ Text.isBlank '\n' = true := by
  intro source quoted
  have htokens : tokenize source =
      [⟨.identifier, "é", ⟨0, 2⟩⟩, ⟨.identifier, "!é", ⟨3, 6⟩⟩, ⟨.punct .dot, ".", ⟨6, 7⟩⟩,
        ⟨.endCommand, ".", ⟨7, 8⟩⟩, quoted] := by
    decide +kernel
  have hmem : quoted ∈ tokenize source := by
    rw [htokens]
    decide
  have hsource : source.toList = ['é'] ++ '\n' :: "!é.. 'ñ''s'".toList := by decide
  obtain ⟨hplaces, _, hblanks, _⟩ := tokenize_lossless source
  obtain ⟨hwithin, _, hslice, _⟩ := hplaces quoted hmem
  refine ⟨hmem, hwithin, hslice, hsource, hblanks ['é'] '\n' _ hsource ?_⟩
  rw [htokens]
  decide

end CommandMacros

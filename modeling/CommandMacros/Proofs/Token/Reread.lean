import CommandMacros.Token.Scan

/-!
Lexemes read again before other characters. Which lexeme a text begins with depends on what follows
the lexeme; these are the conditions under which each kind of lexeme is cut off again when other
characters stand behind it.
-/

namespace CommandMacros.Scan

/-! ### Runs of characters -/

theorem takeWhile_append_of_stop {p : Char → Bool} {xs ys : List Char} (hxs : ∀ c ∈ xs, p c = true)
    (hys : startsWith p ys = false) : (xs ++ ys).takeWhile p = xs := by
  rw [List.takeWhile_append_of_pos hxs]
  cases ys with
  | nil => rw [List.takeWhile_nil, List.append_nil]
  | cons d ys =>
      rw [startsWith, List.head?_cons, Option.any_some] at hys
      rw [List.takeWhile_cons_of_neg (by rw [hys]; decide), List.append_nil]

theorem dropWhile_append_of_stop {p : Char → Bool} {xs ys : List Char} (hxs : ∀ c ∈ xs, p c = true)
    (hys : startsWith p ys = false) : (xs ++ ys).dropWhile p = ys := by
  rw [List.dropWhile_append_of_pos hxs]
  cases ys with
  | nil => rfl
  | cons d ys =>
      rw [startsWith, List.head?_cons, Option.any_some] at hys
      rw [List.dropWhile_cons_of_neg (by rw [hys]; decide)]

theorem of_mem_takeWhile {p : Char → Bool} {c : Char} {cs : List Char} (h : c ∈ cs.takeWhile p) :
    p c = true :=
  List.all_eq_true.mp List.all_takeWhile c h

theorem startsWith_dropWhile (p : Char → Bool) (cs : List Char) :
    startsWith p (cs.dropWhile p) = false := by
  induction cs with
  | nil => rfl
  | cons c cs ih =>
      by_cases hc : p c = true
      · rw [List.dropWhile_cons_of_pos hc]
        exact ih
      · rw [List.dropWhile_cons_of_neg hc]
        exact Bool.eq_false_iff.mpr hc

theorem startsWith_cons (p : Char → Bool) (c : Char) (cs : List Char) :
    startsWith p (c :: cs) = p c :=
  rfl

theorem startsWith_append_of_ne_nil {p : Char → Bool} {xs : List Char} (h : xs ≠ [])
    (ys : List Char) : startsWith p (xs ++ ys) = startsWith p xs := by
  cases xs with
  | nil => exact absurd rfl h
  | cons c xs => rfl

/-! ### Quoted strings -/

section Quoted

variable {delimiter : Char} {after : List Char}

theorem quotedRun_close (hdelimiter : delimiter ≠ '\n') (hafter : after.head? ≠ some delimiter) :
    quotedRun delimiter (delimiter :: after) = (some [], [delimiter], after) := by
  cases after with
  | nil => rw [quotedRun, if_neg hdelimiter, if_pos rfl]
  | cons d after =>
      have hd : d ≠ delimiter := fun hd => hafter (congrArg some hd)
      rw [quotedRun, if_neg hdelimiter, if_pos rfl, if_neg hd]

theorem quotedRun_doubled (hdelimiter : delimiter ≠ '\n') (rest : List Char) :
    quotedRun delimiter (delimiter :: delimiter :: rest) =
      ((quotedRun delimiter rest).1.map (delimiter :: ·),
        delimiter :: delimiter :: (quotedRun delimiter rest).2.1,
        (quotedRun delimiter rest).2.2) := by
  rw [quotedRun, if_neg hdelimiter, if_pos rfl, if_pos rfl]

theorem quotedRun_char {c : Char} (hnewline : c ≠ '\n') (hother : c ≠ delimiter)
    (rest : List Char) :
    quotedRun delimiter (c :: rest) =
      ((quotedRun delimiter rest).1.map (c :: ·), c :: (quotedRun delimiter rest).2.1,
        (quotedRun delimiter rest).2.2) := by
  cases rest with
  | nil => simp only [quotedRun, if_neg hnewline, if_neg hother, Option.map_none]
  | cons d rest => rw [quotedRun, if_neg hnewline, if_neg hother]

/-- A closed string ends at its delimiter, unless another one follows. -/
theorem quotedRun_reread {cs value taken left : List Char}
    (h : quotedRun delimiter cs = (some value, taken, left))
    (hafter : after.head? ≠ some delimiter) :
    quotedRun delimiter (taken ++ after) = (some value, taken, after) := by
  fun_induction quotedRun delimiter cs generalizing value taken left with
  | case1 | case2 | case4 | case5 => cases h
  | case3 hnewline =>
      cases h
      exact quotedRun_close hnewline hafter
  | case6 rest inner taken left hrun hnewline ih =>
      cases inner with
      | none => cases h
      | some inner =>
          cases h
          rw [List.cons_append, List.cons_append, quotedRun_doubled hnewline, ih hrun]
          rfl
  | case7 d rest hother hnewline =>
      cases h
      exact quotedRun_close hnewline hafter
  | case8 c d rest hnewline hother inner taken left hrun ih =>
      cases inner with
      | none => cases h
      | some inner =>
          cases h
          rw [List.cons_append, quotedRun_char hnewline hother, ih hrun]
          rfl

end Quoted

/-! ### Numbers -/

/-- Nothing that would go on with a number: no digit, no exponent, no point before a digit. -/
structure EndsNumber (after : List Char) : Prop where
  digit : startsWith Char.isDigit after = false
  fraction : fractionPart after = ([], after)
  exponent : exponentPart after = (([], [], []), after)

section Numbers

variable {after : List Char}

theorem isDigit_of_mem_digitRun {c : Char} {cs : List Char} (h : c ∈ (digitRun cs).1) :
    c.isDigit = true :=
  of_mem_takeWhile h

theorem digitRun_append_of_stop {digits : List Char} (hdigits : ∀ c ∈ digits, c.isDigit = true)
    (hafter : startsWith Char.isDigit after = false) :
    digitRun (digits ++ after) = (digits, after) := by
  rw [digitRun, takeWhile_append_of_stop hdigits hafter, dropWhile_append_of_stop hdigits hafter]

theorem isDigit_of_mem_fractionPart {c : Char} {cs : List Char} (h : c ∈ (fractionPart cs).1) :
    c.isDigit = true := by
  unfold fractionPart at h
  split at h
  · split at h
    · cases h
    · exact isDigit_of_mem_digitRun h
  · cases h

theorem fractionPart_reread {digits : List Char} (hdigits : ∀ c ∈ digits, c.isDigit = true)
    (hdigit : startsWith Char.isDigit after = false)
    (hfraction : fractionPart after = ([], after)) :
    fractionPart (fractionText digits ++ after) = (digits, after) := by
  by_cases hnil : digits = []
  · rw [fractionText, if_pos hnil, hnil]
    exact hfraction
  · rw [fractionText, if_neg hnil, List.cons_append, fractionPart,
      digitRun_append_of_stop hdigits hdigit, if_neg hnil]

/-- How an exponent is written. -/
def exponentText (exponent : List Char × List Char × List Char) : List Char :=
  exponent.1 ++ exponent.2.1 ++ exponent.2.2

/-- An exponent is missing, or it is a mark, perhaps a sign, and digits. -/
theorem exponentPart_cases (cs : List Char) :
    (exponentPart cs).1 = ([], [], []) ∨
      ∃ mark sign digits, (exponentPart cs).1 = ([mark], sign, digits) ∧
        (mark = 'e' ∨ mark = 'E') ∧ (sign = [] ∨ sign = ['+'] ∨ sign = ['-']) ∧
        digits ≠ [] ∧ ∀ c ∈ digits, c.isDigit = true := by
  unfold exponentPart
  split
  · next c rest =>
      dsimp only
      split
      · next h =>
          refine .inr ⟨c, _, _, rfl, h.1, ?_, h.2, fun _ => isDigit_of_mem_digitRun⟩
          unfold exponentSign
          split
          · next d _ =>
              split
              · next hsign =>
                  rcases hsign with rfl | rfl
                  · exact .inr (.inl rfl)
                  · exact .inr (.inr rfl)
              · exact .inl rfl
          · exact .inl rfl
      · exact .inl rfl
  · exact .inl rfl

theorem exponentSign_digits {digits : List Char} (hne : digits ≠ [])
    (hdigits : ∀ c ∈ digits, c.isDigit = true) (after : List Char) :
    exponentSign (digits ++ after) = ([], digits ++ after) := by
  cases digits with
  | nil => exact absurd rfl hne
  | cons c digits =>
      have hc := hdigits c List.mem_cons_self
      refine if_neg ?_
      rintro (rfl | rfl)
      · exact absurd hc (by decide)
      · exact absurd hc (by decide)

theorem exponentPart_reread (cs : List Char) (hdigit : startsWith Char.isDigit after = false)
    (hexponent : exponentPart after = (([], [], []), after)) :
    exponentPart (exponentText (exponentPart cs).1 ++ after) = ((exponentPart cs).1, after) := by
  rcases exponentPart_cases cs with hnone | ⟨mark, sign, digits, hsome, hmark, hsign, hne, hdigits⟩
  · rw [hnone]
    exact hexponent
  · have hread : exponentSign (sign ++ (digits ++ after)) = (sign, digits ++ after) := by
      rcases hsign with rfl | rfl | rfl
      · exact exponentSign_digits hne hdigits after
      · rfl
      · rfl
    rw [hsome, exponentText, List.append_assoc, List.append_assoc, List.singleton_append,
      exponentPart, hread]
    dsimp only
    rw [digitRun_append_of_stop hdigits hdigit, if_pos ⟨hmark, hne⟩]

/-- An exponent does not go on with the digits or the fraction before it. -/
theorem exponentText_ends (cs : List Char) (hafter : EndsNumber after) :
    startsWith Char.isDigit (exponentText (exponentPart cs).1 ++ after) = false ∧
      fractionPart (exponentText (exponentPart cs).1 ++ after) =
        ([], exponentText (exponentPart cs).1 ++ after) := by
  rcases exponentPart_cases cs with hnone | ⟨mark, sign, digits, hsome, hmark, _⟩
  · rw [hnone]
    exact ⟨hafter.digit, hafter.fraction⟩
  · rw [hsome]
    rcases hmark with rfl | rfl
    · exact ⟨rfl, rfl⟩
    · exact ⟨rfl, rfl⟩

theorem fractionText_ends (digits : List Char) (hafter : startsWith Char.isDigit after = false) :
    startsWith Char.isDigit (fractionText digits ++ after) = false := by
  unfold fractionText
  split
  · exact hafter
  · rfl

/-- The characters of a number after its sign. -/
def numberText (cs : List Char) : List Char :=
  let whole := digitRun cs
  let fraction := fractionPart whole.2
  whole.1 ++ (fractionText fraction.1 ++ exponentText (exponentPart fraction.2).1)

theorem scanNumber_taken (sign cs : List Char) :
    (scanNumber sign cs).taken = sign ++ numberText cs := by
  simp only [scanNumber, numberText, exponentText, List.append_assoc]

theorem scanNumber_reread (sign cs : List Char) (hafter : EndsNumber after) :
    scanNumber sign (numberText cs ++ after) = { scanNumber sign cs with rest := after } := by
  obtain ⟨hdigit, hfraction⟩ := exponentText_ends (fractionPart (digitRun cs).2).2 hafter
  have hdigits : ∀ c ∈ (digitRun cs).1, c.isDigit = true := fun _ => isDigit_of_mem_digitRun
  have hfractions : ∀ c ∈ (fractionPart (digitRun cs).2).1, c.isDigit = true :=
    fun _ => isDigit_of_mem_fractionPart
  have hwhole := digitRun_append_of_stop hdigits
    (fractionText_ends (fractionPart (digitRun cs).2).1 hdigit)
  have hpart := fractionPart_reread hfractions hdigit hfraction
  have hexponent := exponentPart_reread (fractionPart (digitRun cs).2).2 hafter.digit
    hafter.exponent
  simp only [scanNumber, numberText, List.append_assoc, hwhole, hpart, hexponent]

theorem startsWith_digitRun {cs : List Char} (h : startsWith Char.isDigit cs = true)
    (ds : List Char) : startsWith Char.isDigit ((digitRun cs).1 ++ ds) = true := by
  cases cs with
  | nil => cases h
  | cons c cs =>
      have hc : c.isDigit = true := h
      rw [digitRun, List.takeWhile_cons_of_pos hc]
      exact hc

theorem startsWith_numberText {cs : List Char} (h : startsWith Char.isDigit cs = true) :
    startsWith Char.isDigit (numberText cs) = true :=
  startsWith_digitRun h _

/-- A number that begins with a point goes on with a digit. -/
theorem numberText_point {cs ds : List Char} (h : startsWith Char.isDigit cs = true)
    (hds : numberText ('.' :: cs) = '.' :: ds) : startsWith Char.isDigit ds = true := by
  have hne := digitRun_ne_nil h
  have hwhole : digitRun ('.' :: cs) = ([], '.' :: cs) := rfl
  have hfraction : fractionPart ('.' :: cs) = digitRun cs := if_neg hne
  simp only [numberText, hwhole, hfraction, fractionText, if_neg hne, List.nil_append,
    List.cons_append, List.cons.injEq, true_and] at hds
  rw [← hds]
  exact startsWith_digitRun h _

end Numbers

/-! ### Names -/

/-- Nothing that would go on with a name: all characters of names in front are dots. -/
def EndsName (after : List Char) : Prop :=
  ∀ c ∈ after.takeWhile isNameChar, c = '.'

/-- The characters of a name after the first. -/
def nameText (cs : List Char) : List Char :=
  (splitTrailingDots (cs.takeWhile isNameChar)).1

theorem splitTrailingDots_append_dots {name dots : List Char} (hname : name.getLast? ≠ some '.')
    (hdots : ∀ c ∈ dots, c = '.') : splitTrailingDots (name ++ dots) = (name, dots) := by
  have hreverse : ∀ c ∈ dots.reverse, (c == '.') = true :=
    fun c hc => beq_iff_eq.mpr (hdots c (List.mem_reverse.mp hc))
  have hstop : startsWith (· == '.') name.reverse = false := by
    rw [startsWith, List.head?_reverse]
    cases hlast : name.getLast? with
    | none => rfl
    | some c =>
        rw [Option.any_some, beq_eq_false_iff_ne]
        rintro rfl
        exact hname hlast
  have hall : dots.reverse = dots := by
    rw [List.eq_replicate_of_mem hdots, List.reverse_replicate]
  rw [splitTrailingDots, List.reverse_append, takeWhile_append_of_stop hreverse hstop,
    dropWhile_append_of_stop hreverse hstop, List.reverse_reverse, hall]

theorem getLast?_nameText (cs : List Char) : (nameText cs).getLast? ≠ some '.' := by
  rw [nameText, splitTrailingDots, List.getLast?_reverse]
  intro hlast
  have hstop := startsWith_dropWhile (· == '.') (cs.takeWhile isNameChar).reverse
  rw [startsWith, hlast] at hstop
  cases hstop

theorem isNameChar_of_mem_nameText {c : Char} {cs : List Char} (h : c ∈ nameText cs) :
    isNameChar c = true := by
  have hrun : c ∈ cs.takeWhile isNameChar := by
    rw [← splitTrailingDots_append (cs.takeWhile isNameChar)]
    exact List.mem_append_left _ h
  exact of_mem_takeWhile hrun

/-- If a name has no more than its first character, there are only dots after it. -/
theorem endsName_of_nameText_eq_nil {cs : List Char} (h : nameText cs = []) : EndsName cs := by
  intro c hc
  rw [nameText] at h
  rw [← splitTrailingDots_append (cs.takeWhile isNameChar), h, List.nil_append] at hc
  exact beq_iff_eq.mp (of_mem_takeWhile (p := (· == '.')) hc)

theorem scanName_taken (c : Char) (cs : List Char) : (scanName c cs).taken = c :: nameText cs :=
  rfl

theorem scanName_reread (c : Char) (cs : List Char) {after : List Char} (hafter : EndsName after) :
    scanName c (nameText cs ++ after) = { scanName c cs with rest := after } := by
  have hname : ∀ d ∈ nameText cs, isNameChar d = true := fun _ => isNameChar_of_mem_nameText
  simp only [scanName, List.takeWhile_append_of_pos hname, List.dropWhile_append_of_pos hname,
    splitTrailingDots_append_dots (getLast?_nameText cs) hafter, List.takeWhile_append_dropWhile]
  rfl

/-- After a name there is a dot or no character of names. -/
theorem scanName_rest (c : Char) (cs : List Char) {d : Char} {rest : List Char}
    (h : (scanName c cs).rest = d :: rest) : d = '.' ∨ isNameChar d = false := by
  simp only [scanName, splitTrailingDots] at h
  cases hdots : (cs.takeWhile isNameChar).reverse.takeWhile (· == '.') with
  | nil =>
      have hstop := startsWith_dropWhile isNameChar cs
      rw [hdots, List.nil_append] at h
      rw [h] at hstop
      exact .inr hstop
  | cons x dots =>
      have hx : x ∈ (cs.takeWhile isNameChar).reverse.takeWhile (· == '.') := by
        rw [hdots]
        exact List.mem_cons_self
      have hxdot := of_mem_takeWhile hx
      rw [hdots] at h
      obtain ⟨rfl, _⟩ := List.cons.inj h
      exact .inl (beq_iff_eq.mp hxdot)

end CommandMacros.Scan

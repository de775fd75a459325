import CommandMacros.Proofs.Token.Place
import CommandMacros.Proofs.Token.RoundTrip
import CommandMacros.Proofs.Unplaced.Basic

/-!
Texts joined at a line end. No lexeme goes over a line end, and a line end after a lexeme is the
same to it as the end of the text. So the tokens of two texts with a line end between them are those
of the first and then those of the second, read after whatever token the first one ends with.
-/

namespace CommandMacros

namespace Scan

/-- The lexeme with more characters left after it. -/
def Lexeme.before (lexeme : Lexeme) (more : List Char) : Lexeme :=
  { lexeme with rest := lexeme.rest ++ more }

/-! ### Runs of characters -/

section Runs

variable (cs more : List Char)

theorem takeWhile_line {p : Char → Bool} (hp : p '\n' = false) :
    (cs ++ '\n' :: more).takeWhile p = cs.takeWhile p := by
  induction cs with
  | nil => exact List.takeWhile_cons_of_neg (Bool.eq_false_iff.mp hp)
  | cons c cs ih => rw [List.cons_append, List.takeWhile_cons, List.takeWhile_cons, ih]

theorem dropWhile_line {p : Char → Bool} (hp : p '\n' = false) :
    (cs ++ '\n' :: more).dropWhile p = cs.dropWhile p ++ '\n' :: more := by
  induction cs with
  | nil => exact List.dropWhile_cons_of_neg (Bool.eq_false_iff.mp hp)
  | cons c cs ih =>
      rw [List.cons_append, List.dropWhile_cons, List.dropWhile_cons, ih]
      split <;> rfl

theorem startsWith_line {p : Char → Bool} (hp : p '\n' = false) :
    startsWith p (cs ++ '\n' :: more) = startsWith p cs := by
  cases cs with
  | nil => exact hp
  | cons c cs => rfl

theorem digitRun_line :
    digitRun (cs ++ '\n' :: more) = ((digitRun cs).1, (digitRun cs).2 ++ '\n' :: more) := by
  rw [digitRun, takeWhile_line cs more (by decide), dropWhile_line cs more (by decide)]
  rfl

theorem fractionPart_line :
    fractionPart (cs ++ '\n' :: more) =
      ((fractionPart cs).1, (fractionPart cs).2 ++ '\n' :: more) := by
  cases cs with
  | nil => rfl
  | cons c rest =>
      by_cases hpoint : c = '.'
      · subst hpoint
        simp only [List.cons_append, fractionPart, digitRun_line]
        split <;> rfl
      · have hother (left : List Char) : fractionPart (c :: left) = ([], c :: left) := by
          unfold fractionPart
          split
          · next h => exact absurd (List.cons.inj h).1 hpoint
          · rfl
        rw [List.cons_append, hother, hother]
        rfl

theorem exponentSign_line :
    exponentSign (cs ++ '\n' :: more) =
      ((exponentSign cs).1, (exponentSign cs).2 ++ '\n' :: more) := by
  cases cs with
  | nil => rfl
  | cons c rest =>
      rw [List.cons_append, exponentSign, exponentSign]
      split <;> rfl

theorem exponentPart_line :
    exponentPart (cs ++ '\n' :: more) =
      ((exponentPart cs).1, (exponentPart cs).2 ++ '\n' :: more) := by
  cases cs with
  | nil => rfl
  | cons c rest =>
      simp only [List.cons_append, exponentPart, exponentSign_line, digitRun_line]
      split <;> rfl

/-! ### Lexemes -/

theorem scanNumber_line (sign : List Char) :
    scanNumber sign (cs ++ '\n' :: more) = (scanNumber sign cs).before ('\n' :: more) := by
  simp only [scanNumber, digitRun_line, fractionPart_line, exponentPart_line]
  rfl

theorem scanName_line (c : Char) :
    scanName c (cs ++ '\n' :: more) = (scanName c cs).before ('\n' :: more) := by
  have hname : isNameChar '\n' = false := by decide
  simp only [scanName, takeWhile_line cs more hname, dropWhile_line cs more hname, Lexeme.before,
    List.append_assoc]

theorem scanPunct_line (c : Char) :
    scanPunct c (cs ++ '\n' :: more) = (scanPunct c cs).before ('\n' :: more) := by
  have hsingle (left : List Char) :
      scanSingle c (left ++ '\n' :: more) = (scanSingle c left).before ('\n' :: more) := by
    rw [scanSingle, scanSingle]
    cases Punct.ofChar? c <;> rfl
  cases cs with
  | nil =>
      cases hpair : Punct.ofPair? c '\n' with
      | some p =>
          have hright := right_of_ofPair? hpair
          exact absurd hright (by decide)
      | none =>
          rw [List.nil_append, scanPunct, hpair]
          exact hsingle []
  | cons d rest =>
      rw [List.cons_append, scanPunct, scanPunct]
      cases Punct.ofPair? c d with
      | some p => rfl
      | none => exact hsingle (d :: rest)

theorem scanPoint_line :
    scanPoint (cs ++ '\n' :: more) = (scanPoint cs).before ('\n' :: more) := by
  cases cs with
  | nil => rfl
  | cons c rest => rfl

theorem quotedRun_newline (delimiter : Char) :
    quotedRun delimiter ('\n' :: more) = (none, [], '\n' :: more) := by
  cases more with
  | nil => rw [quotedRun, if_pos rfl]
  | cons c rest => rw [quotedRun, if_pos rfl]

theorem quotedRun_line {delimiter : Char} (hdelimiter : delimiter ≠ '\n') :
    quotedRun delimiter (cs ++ '\n' :: more) =
      ((quotedRun delimiter cs).1, (quotedRun delimiter cs).2.1,
        (quotedRun delimiter cs).2.2 ++ '\n' :: more) := by
  have hline := quotedRun_newline more delimiter
  fun_induction quotedRun delimiter cs with
  | case1 => exact hline
  | case2 => exact quotedRun_newline ('\n' :: more) delimiter
  | case3 =>
      rw [List.singleton_append, quotedRun, if_neg hdelimiter, if_pos rfl, if_neg hdelimiter.symm]
      rfl
  | case4 c hnewline hother =>
      rw [List.singleton_append, quotedRun, if_neg hnewline, if_neg hother, hline]
      rfl
  | case5 d rest => exact quotedRun_newline (d :: (rest ++ '\n' :: more)) delimiter
  | case6 rest value taken left hrun _ ih =>
      rw [hrun] at ih
      rw [List.cons_append, List.cons_append, quotedRun, if_neg hdelimiter, if_pos rfl, if_pos rfl,
        ih]
  | case7 d rest hother =>
      rw [List.cons_append, List.cons_append, quotedRun, if_neg hdelimiter, if_pos rfl,
        if_neg hother]
  | case8 c d rest hnewline hother value taken left hrun ih =>
      rw [hrun, List.cons_append] at ih
      rw [List.cons_append, List.cons_append, quotedRun, if_neg hnewline, if_neg hother, ih]

theorem scanQuoted_line {delimiter : Char} (hdelimiter : delimiter ≠ '\n') :
    scanQuoted delimiter (cs ++ '\n' :: more) =
      (scanQuoted delimiter cs).before ('\n' :: more) := by
  rw [scanQuoted, scanQuoted, quotedRun_line cs more hdelimiter]
  obtain ⟨value, taken, rest⟩ := quotedRun delimiter cs
  cases value <;> rfl

theorem lexeme_line (afterOperand : Bool) (c : Char) :
    lexeme afterOperand c (cs ++ '\n' :: more) =
      (lexeme afterOperand c cs).before ('\n' :: more) := by
  have hdigit : startsWith Char.isDigit (cs ++ '\n' :: more) = startsWith Char.isDigit cs :=
    startsWith_line cs more (by decide)
  have hname : startsWith isNameChar (cs ++ '\n' :: more) = startsWith isNameChar cs :=
    startsWith_line cs more (by decide)
  have hnumber := scanNumber_line (c :: cs) more []
  rw [lexeme, lexeme, hdigit, hname]
  split
  · next hquoted =>
      refine scanQuoted_line cs more ?_
      rintro rfl
      exact absurd hquoted (by decide)
  split
  · exact hnumber
  split
  · split
    · exact hnumber
    · exact scanPoint_line cs more
  split
  · exact scanNumber_line cs more ['-']
  split
  · exact scanName_line cs more c
  split
  · exact scanName_line cs more c
  · exact scanPunct_line cs more c

end Runs

/-! ### Tokens -/

theorem scan_blank {c : Char} (hblank : Text.isBlank c = true) (position : Nat)
    (afterOperand : Bool) (cs : List Char) :
    scan position afterOperand (c :: cs) = scan (position + c.utf8Size) afterOperand cs := by
  rw [scan, if_pos hblank]

theorem scan_lexeme {c : Char} (hblank : ¬Text.isBlank c = true) (position : Nat)
    (afterOperand : Bool) (cs : List Char) :
    scan position afterOperand (c :: cs) =
      let next := lexeme afterOperand c cs
      next.toToken position ::
        scan (position + byteLength next.taken) next.isOperand next.rest := by
  rw [scan, if_neg hblank]

theorem scan_line (position : Nat) (afterOperand : Bool) (cs more : List Char) :
    let tokens := scan position afterOperand cs
    scan position afterOperand (cs ++ '\n' :: more) =
      tokens ++ scan (position + byteLength cs) (tokens.getLast?.elim afterOperand Token.isOperand)
        ('\n' :: more) := by
  fun_induction scan position afterOperand cs with
  | case1 position afterOperand => rfl
  | case2 position afterOperand c cs hblank ih =>
      rw [List.cons_append, scan_blank hblank, byteLength, ← Nat.add_assoc]
      exact ih
  | case3 position afterOperand c cs hblank next ih =>
      have hlength : byteLength next.taken + byteLength next.rest = byteLength (c :: cs) := by
        rw [← byteLength_append, lexeme_append]
      have hlast (others : List Token) :
          (next.toToken position :: others).getLast?.elim afterOperand Token.isOperand =
            others.getLast?.elim next.isOperand Token.isOperand := by
        rw [List.getLast?_cons]
        cases others.getLast? with
        | none => exact isOperand_toToken next position
        | some t => rfl
      dsimp only at ih ⊢
      rw [List.cons_append, scan_lexeme hblank, lexeme_line, hlast, ← hlength, ← Nat.add_assoc]
      exact congrArg (next.toToken position :: ·) ih

theorem scan_unplaced (position other : Nat) (afterOperand : Bool) (cs : List Char) :
    (scan position afterOperand cs).map Token.unplaced =
      (scan other afterOperand cs).map Token.unplaced := by
  have hspelling : Token.unplaced = (fun s => ⟨s.1, s.2, .point 0⟩) ∘ Token.spelling := rfl
  rw [hspelling, ← List.map_map, ← List.map_map, map_spelling_scan, map_spelling_scan]

end Scan

/-- The tokens of a text that goes on after a line end. If the text ends in no operand, those after
the line end are the same up to places as where they begin the text. -/
theorem tokenize_line {first : String} (h : ∀ t ∈ (tokenize first).getLast?, t.isEnd = true)
    (second : String) :
    ∃ following, tokenize (first ++ "\n" ++ second) = tokenize first ++ following ∧
      following.map Token.unplaced = (tokenize second).map Token.unplaced := by
  have hchars : (first ++ "\n" ++ second).toList = first.toList ++ '\n' :: second.toList := by
    rw [String.toList_append, String.toList_append, List.append_assoc]
    rfl
  have hoperand : (tokenize first).getLast?.elim false Token.isOperand = false := by
    cases hlast : (tokenize first).getLast? with
    | none => rfl
    | some t =>
        have hend := h t hlast
        rw [Token.isEnd] at hend
        split at hend
        · next hkind => rw [Option.elim_some, Token.isOperand, hkind]
        · cases hend
  have hline : Text.isBlank '\n' = true := by decide
  let position := Scan.byteLength first.toList + '\n'.utf8Size
  refine ⟨Scan.scan position false second.toList, ?_, Scan.scan_unplaced position 0 false _⟩
  rw [tokenize, hchars, Scan.scan_line, Nat.zero_add]
  change tokenize first ++ Scan.scan _ ((tokenize first).getLast?.elim false Token.isOperand) _ = _
  rw [hoperand, Scan.scan_blank hline]

end CommandMacros

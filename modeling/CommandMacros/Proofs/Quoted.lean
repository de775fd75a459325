import CommandMacros.Expansion.Substitute
import CommandMacros.Proofs.Token.Lossless
import CommandMacros.Proofs.Token.Seam

/-!
What a quoted string is. There is one form for it: the value between two delimiters, with every
delimiter inside written twice, and blanks around the whole. Unquoting reads this form, quoting
writes it, and the scanner takes it for one token as long as it stands on one line.
-/

namespace CommandMacros

/-! ### Blanks at the ends -/

namespace Text

/-- All of the characters are blanks. -/
def AllBlank (cs : List Char) : Prop :=
  ∀ c ∈ cs, isBlank c = true

variable {front back : List Char}

theorem trimChars_append (hfront : AllBlank front) (hback : AllBlank back) (cs : List Char) :
    trimChars (front ++ (cs ++ back)) = trimChars cs := by
  have hdrop : trimChars (front ++ (cs ++ back)) = trimChars (cs ++ back) := by
    rw [trimChars, dropBlanks, dropBlanks, List.dropWhile_append_of_pos hfront]
    rfl
  rw [hdrop]
  clear hdrop
  induction back generalizing cs with
  | nil => rw [List.append_nil]
  | cons c back ih =>
      obtain ⟨hc, hback⟩ := List.forall_mem_cons.mp hback
      rw [← List.singleton_append, ← List.append_assoc, ih hback, trimChars_concat hc]

theorem allBlank_takeWhile (cs : List Char) : AllBlank (cs.takeWhile isBlank) :=
  fun _ hc => Scan.of_mem_takeWhile hc

/-- Only blanks are left out, and only at the ends. -/
theorem exists_trimChars (cs : List Char) :
    ∃ front back, AllBlank front ∧ AllBlank back ∧ cs = front ++ (trimChars cs ++ back) := by
  let left := dropBlanks cs
  refine ⟨cs.takeWhile isBlank, (left.reverse.takeWhile isBlank).reverse, allBlank_takeWhile cs,
    fun c hc => allBlank_takeWhile left.reverse c (List.mem_reverse.mp hc), ?_⟩
  have hleft : trimChars cs ++ (left.reverse.takeWhile isBlank).reverse = left := by
    rw [trimChars, ← List.reverse_append]
    change (left.reverse.takeWhile isBlank ++ left.reverse.dropWhile isBlank).reverse = left
    rw [List.takeWhile_append_dropWhile, List.reverse_reverse]
  rw [hleft]
  exact List.takeWhile_append_dropWhile.symm

/-- Characters that neither begin nor end with a blank stay as they are. -/
theorem trimChars_of_ends {c d : Char} (hc : isBlank c = false) (hd : isBlank d = false)
    (cs : List Char) : trimChars (c :: (cs ++ [d])) = c :: (cs ++ [d]) := by
  rw [trimChars_cons _ hc, List.reverse_append, List.reverse_singleton, List.singleton_append,
    dropBlanks, List.dropWhile_cons_of_neg (by rw [hd]; decide), List.reverse_cons,
    List.reverse_reverse]

end Text

/-! ### The form of a quoted string -/

namespace Quoted

/-- The characters with every delimiter written twice. -/
def escaped (delimiter : Char) (value : List Char) : List Char :=
  value.flatMap fun c => if c = delimiter then [delimiter, delimiter] else [c]

/-- The value between two delimiters. -/
def enclosed (delimiter : Char) (value : List Char) : List Char :=
  delimiter :: (escaped delimiter value ++ [delimiter])

/-- The characters are a quoted string of this value with nothing but blanks around it. -/
def Writes (cs value : List Char) : Prop :=
  ∃ front delimiter back, Text.AllBlank front ∧ isDelimiter delimiter = true ∧
    Text.AllBlank back ∧ cs = front ++ (enclosed delimiter value ++ back)

variable {delimiter : Char} {cs value rest : List Char}

theorem escaped_delimiter (delimiter : Char) (value : List Char) :
    escaped delimiter (delimiter :: value) =
      delimiter :: delimiter :: escaped delimiter value := by
  rw [escaped, List.flatMap_cons, if_pos rfl]
  rfl

theorem escaped_other {c : Char} (h : c ≠ delimiter) (value : List Char) :
    escaped delimiter (c :: value) = c :: escaped delimiter value := by
  rw [escaped, List.flatMap_cons, if_neg h]
  rfl

theorem mem_escaped_iff {c : Char} : c ∈ escaped delimiter value ↔ c ∈ value := by
  induction value with
  | nil => exact Iff.rfl
  | cons d value ih =>
      by_cases hd : d = delimiter
      · subst hd
        rw [escaped_delimiter, List.mem_cons, List.mem_cons, List.mem_cons, ih, or_self_left]
      · rw [escaped_other hd, List.mem_cons, List.mem_cons, ih]

theorem isBlank_of_isDelimiter (h : isDelimiter delimiter = true) :
    Text.isBlank delimiter = false := by
  rcases Scan.isDelimiter_iff.mp h with rfl | rfl <;> decide

theorem ne_newline_of_isDelimiter (h : isDelimiter delimiter = true) : delimiter ≠ '\n' := by
  rcases Scan.isDelimiter_iff.mp h with rfl | rfl <;> decide

theorem trimChars_enclosed (h : isDelimiter delimiter = true) (value : List Char) :
    Text.trimChars (enclosed delimiter value) = enclosed delimiter value :=
  Text.trimChars_of_ends (isBlank_of_isDelimiter h) (isBlank_of_isDelimiter h) _

theorem newline_mem_enclosed_iff (h : isDelimiter delimiter = true) :
    '\n' ∈ enclosed delimiter value ↔ '\n' ∈ value := by
  have hne : '\n' ≠ delimiter := (ne_newline_of_isDelimiter h).symm
  simp only [enclosed, List.mem_cons, List.mem_append, mem_escaped_iff, hne, List.not_mem_nil,
    false_or, or_false]

/-! ### Unquoting -/

theorem closeAtEnd?_other {c : Char} (h : c ≠ delimiter) (rest : List Char) :
    closeAtEnd? delimiter (c :: rest) = (closeAtEnd? delimiter rest).map (c :: ·) := by
  cases rest with
  | nil => exact if_neg h
  | cons d rest => rw [closeAtEnd?, if_neg h]

theorem closeAtEnd?_escaped (delimiter : Char) (value : List Char) :
    closeAtEnd? delimiter (escaped delimiter value ++ [delimiter]) = some value := by
  induction value with
  | nil => exact if_pos rfl
  | cons c value ih =>
      by_cases hc : c = delimiter
      · subst hc
        rw [escaped_delimiter, List.cons_append, List.cons_append, closeAtEnd?, if_pos rfl,
          if_pos rfl, ih, Option.map_some]
      · rw [escaped_other hc, List.cons_append, closeAtEnd?_other hc, ih, Option.map_some]

theorem eq_escaped_of_closeAtEnd? (h : closeAtEnd? delimiter cs = some value) :
    cs = escaped delimiter value ++ [delimiter] := by
  fun_induction closeAtEnd? delimiter cs generalizing value with
  | case1 | case3 | case5 => cases h
  | case2 =>
      cases h
      rfl
  | case4 rest ih =>
      obtain ⟨inner, hinner, rfl⟩ := Option.map_eq_some_iff.mp h
      rw [escaped_delimiter, List.cons_append, List.cons_append, ← ih hinner]
  | case6 c d rest hc ih =>
      obtain ⟨inner, hinner, rfl⟩ := Option.map_eq_some_iff.mp h
      rw [escaped_other hc, List.cons_append, ← ih hinner]

/-- Unquoting reads the form, and nothing else. -/
theorem unquoteChars?_eq_some_iff : unquoteChars? cs = some value ↔ Writes cs value := by
  constructor
  · intro h
    obtain ⟨front, back, hfront, hback, hcs⟩ := Text.exists_trimChars cs
    rw [unquoteChars?] at h
    split at h
    · cases h
    · next delimiter rest htrim =>
        split at h
        · next hdelimiter =>
            rw [htrim, eq_escaped_of_closeAtEnd? h] at hcs
            exact ⟨front, delimiter, back, hfront, hdelimiter, hback, hcs⟩
        · cases h
  · rintro ⟨front, delimiter, back, hfront, hdelimiter, hback, rfl⟩
    rw [unquoteChars?, Text.trimChars_append hfront hback, trimChars_enclosed hdelimiter, enclosed]
    exact (if_pos hdelimiter).trans (closeAtEnd?_escaped delimiter value)

theorem tryUnquote_eq_some_iff {text value : String} :
    tryUnquote text = some value ↔ Writes text.toList value.toList := by
  rw [tryUnquote_eq, ← unquoteChars?_eq_some_iff, Option.map_eq_some_iff]
  constructor
  · rintro ⟨chars, hchars, rfl⟩
    rw [String.toList_ofList]
    exact hchars
  · intro h
    exact ⟨value.toList, h, String.ofList_toList⟩

/-- Where the form is, the end of its line can only be in the value. -/
theorem newline_mem_trim_iff {text : String} (h : Writes text.toList value) :
    '\n' ∈ (Text.trim text).toList ↔ '\n' ∈ value := by
  obtain ⟨front, delimiter, back, hfront, hdelimiter, hback, hchars⟩ := h
  rw [Text.trim, String.toList_ofList, hchars, Text.trimChars_append hfront hback,
    trimChars_enclosed hdelimiter, newline_mem_enclosed_iff hdelimiter]

/-! ### Quoting -/

/-- Text that is no quoted string is put between apostrophes. -/
theorem quote_of_none {text : String} (h : tryUnquote text = none) :
    quote text = String.ofList (enclosed apostrophe text.toList) := by
  rw [quote, h]
  rfl

theorem quote_of_some {text value : String} (h : tryUnquote text = some value) :
    quote text = text := by
  rw [quote, h]
  rfl

/-- What was quoted is a quoted string, of the value that the text has. -/
theorem tryUnquote_quote (text : String) : tryUnquote (quote text) = some (unquote text) := by
  cases h : tryUnquote text with
  | some value => rw [quote_of_some h, h, unquote, h, Option.getD_some]
  | none =>
      rw [quote_of_none h, unquote, h, Option.getD_none, tryUnquote_eq_some_iff,
        String.toList_ofList]
      refine ⟨[], apostrophe, [], List.forall_mem_nil _, by decide, List.forall_mem_nil _, ?_⟩
      rw [List.nil_append, List.append_nil]

theorem quote_quote (text : String) : quote (quote text) = quote text :=
  quote_of_some (tryUnquote_quote text)

/-- Quoting brings in no line end. -/
theorem newline_notMem_quote {text : String} (h : '\n' ∉ text.toList) :
    '\n' ∉ (quote text).toList := by
  cases htext : tryUnquote text with
  | some value => rwa [quote_of_some htext]
  | none =>
      rw [quote_of_none htext, String.toList_ofList, newline_mem_enclosed_iff (by decide)]
      exact h

end Quoted

/-! ### Scanning -/

namespace Scan

variable {delimiter : Char} {cs value taken rest front : List Char}

theorem quotedRun_escaped (hdelimiter : delimiter ≠ '\n') (hvalue : '\n' ∉ value)
    (hrest : rest.head? ≠ some delimiter) :
    quotedRun delimiter (Quoted.escaped delimiter value ++ [delimiter] ++ rest) =
      (some value, Quoted.escaped delimiter value ++ [delimiter], rest) := by
  induction value with
  | nil => exact quotedRun_close hdelimiter hrest
  | cons c value ih =>
      obtain ⟨hc, hvalue⟩ := not_or.mp (mt List.mem_cons.mpr hvalue)
      by_cases hsame : c = delimiter
      · subst hsame
        rw [Quoted.escaped_delimiter, List.cons_append, List.cons_append, List.cons_append,
          List.cons_append, quotedRun_doubled hdelimiter, ih hvalue]
        rfl
      · rw [Quoted.escaped_other hsame, List.cons_append, List.cons_append,
          quotedRun_char (Ne.symm hc) hsame, ih hvalue]
        rfl

theorem taken_of_quotedRun (h : quotedRun delimiter cs = (some value, taken, rest)) :
    taken = Quoted.escaped delimiter value ++ [delimiter] := by
  fun_induction quotedRun delimiter cs generalizing value taken rest with
  | case1 | case2 | case4 | case5 => cases h
  | case3 | case7 =>
      cases h
      rfl
  | case6 others inner taken left hrun hnewline ih =>
      cases inner with
      | none => cases h
      | some inner =>
          cases h
          rw [ih hrun, Quoted.escaped_delimiter]
          rfl
  | case8 c d others hnewline hother inner taken left hrun ih =>
      cases inner with
      | none => cases h
      | some inner =>
          cases h
          rw [ih hrun, Quoted.escaped_other hother]
          rfl

theorem scan_blanks (hfront : Text.AllBlank front) (position : Nat) (afterOperand : Bool)
    (cs : List Char) :
    scan position afterOperand (front ++ cs) =
      scan (position + byteLength front) afterOperand cs := by
  induction front generalizing position with
  | nil => rfl
  | cons c front ih =>
      obtain ⟨hc, hfront⟩ := List.forall_mem_cons.mp hfront
      rw [List.cons_append, scan_blank hc, ih hfront, byteLength_cons, Nat.add_assoc]

theorem scan_eq_nil_iff {position : Nat} {afterOperand : Bool} :
    scan position afterOperand cs = [] ↔ Text.AllBlank cs := by
  constructor
  · intro h
    fun_induction scan position afterOperand cs with
    | case1 => exact List.forall_mem_nil _
    | case2 position afterOperand c cs hblank ih => exact List.forall_mem_cons.mpr ⟨hblank, ih h⟩
    | case3 => cases h
  · intro h
    rw [← List.append_nil cs, scan_blanks h, scan]

theorem Lexes.enclosed_of_string {afterOperand : Bool} {c : Char} {next : Lexeme} {value : String}
    (h : Lexes afterOperand c cs next) (hkind : next.kind = .string value) :
    Quoted.isDelimiter c = true ∧ c :: cs = Quoted.enclosed c value.toList ++ next.rest ∧
      '\n' ∉ value.toList := by
  cases h with
  | @string chars taken rest hc hrun =>
      cases hkind
      have htaken := taken_of_quotedRun hrun
      have happend := quotedRun_append c cs
      have hnewline := newline_notMem_quotedRun (Quoted.ne_newline_of_isDelimiter hc) cs
      rw [hrun] at happend hnewline
      subst htaken
      rw [String.toList_ofList]
      refine ⟨hc, congrArg (c :: ·) happend.symm, fun hmem => hnewline ?_⟩
      exact List.mem_append_left _ (Quoted.mem_escaped_iff.mpr hmem)
  | number | signed | stop | dot | name | pair | single => cases hkind

theorem lexes_enclosed {back : List Char} (hdelimiter : Quoted.isDelimiter delimiter = true)
    (hback : Text.AllBlank back) (hvalue : '\n' ∉ value) (afterOperand : Bool) :
    Lexes afterOperand delimiter (Quoted.escaped delimiter value ++ [delimiter] ++ back)
      ⟨.string (String.ofList value), Quoted.enclosed delimiter value, back⟩ := by
  have hhead : back.head? ≠ some delimiter := by
    intro hhead
    have hblank := hback delimiter (List.mem_of_head? hhead)
    rw [Quoted.isBlank_of_isDelimiter hdelimiter] at hblank
    cases hblank
  exact .string hdelimiter
    (quotedRun_escaped (Quoted.ne_newline_of_isDelimiter hdelimiter) hvalue hhead)

/-- The form on one line is one token, and only the form is. -/
theorem scan_eq_string_iff {position : Nat} {afterOperand : Bool} {value : String} :
    (∃ t, scan position afterOperand cs = [t] ∧ t.kind = .string value) ↔
      Quoted.Writes cs value.toList ∧ '\n' ∉ value.toList := by
  constructor
  · rintro ⟨t, hscan, hkind⟩
    fun_induction scan position afterOperand cs with
    | case1 => cases hscan
    | case2 position afterOperand c cs hblank ih =>
        obtain ⟨⟨front, delimiter, back, hfront, hdelimiter, hback, hcs⟩, hnewline⟩ := ih hscan
        refine ⟨⟨c :: front, delimiter, back, List.forall_mem_cons.mpr ⟨hblank, hfront⟩,
          hdelimiter, hback, ?_⟩, hnewline⟩
        rw [hcs, List.cons_append]
    | case3 position afterOperand c cs hblank next ih =>
        obtain ⟨rfl, hrest⟩ := List.cons.inj hscan
        have hlexes : Lexes afterOperand c cs next := by
          refine lexes_lexeme fun message herror => ?_
          cases hkind.symm.trans herror
        obtain ⟨hdelimiter, hcs, hnewline⟩ := hlexes.enclosed_of_string hkind
        refine ⟨⟨[], c, next.rest, List.forall_mem_nil _, hdelimiter, ?_, hcs⟩, hnewline⟩
        exact scan_eq_nil_iff.mp hrest
  · rintro ⟨⟨front, delimiter, back, hfront, hdelimiter, hback, rfl⟩, hnewline⟩
    have hblank : ¬Text.isBlank delimiter = true :=
      Bool.eq_false_iff.mp (Quoted.isBlank_of_isDelimiter hdelimiter)
    have hlexeme := (lexes_enclosed hdelimiter hback hnewline afterOperand).lexeme_eq
    rw [scan_blanks hfront, Quoted.enclosed, List.cons_append, scan_lexeme hblank, hlexeme]
    refine ⟨_, congrArg (_ :: ·) (scan_eq_nil_iff.mpr hback), ?_⟩
    exact congrArg TokenKind.string String.ofList_toList

end Scan

theorem tokenize_eq_string_iff {text value : String} :
    (∃ t, tokenize text = [t] ∧ t.kind = .string value) ↔
      Quoted.tryUnquote text = some value ∧ '\n' ∉ (Text.trim text).toList := by
  rw [Quoted.tryUnquote_eq_some_iff]
  refine Scan.scan_eq_string_iff.trans (and_congr_right fun hwrites => ?_)
  exact not_congr (Quoted.newline_mem_trim_iff hwrites).symm

/-- A quoted text on one line is one token. -/
theorem tokenize_quote {text : String} (h : '\n' ∉ text.toList) :
    ∃ t, tokenize (Quoted.quote text) = [t] ∧ t.kind = .string (Quoted.unquote text) := by
  refine tokenize_eq_string_iff.mpr ⟨Quoted.tryUnquote_quote text, fun hmem => ?_⟩
  obtain ⟨front, back, -, -, hchars⟩ := Text.exists_trimChars (Quoted.quote text).toList
  refine Quoted.newline_notMem_quote h ?_
  rw [Text.trim, String.toList_ofList] at hmem
  rw [hchars]
  exact List.mem_append_right _ (List.mem_append_left _ hmem)

/-- A `!QUOTE` in a body gives one token, the string of what it was given. -/
theorem Expansion.substituteOne_quote (env : Environment) {eval : Evaluator} {operand : Operand}
    {scene next : Scene} {text : String} (htext : '\n' ∉ text.toList)
    (hoperand : operandText eval operand scene = .ok text next) (span : Span) :
    ∃ spelling, substituteOne env eval (.call .quote [operand] span) scene =
      .ofTokens [⟨⟨.string (Quoted.unquote text), spelling, span⟩, false⟩] next := by
  have hoperands : operandTexts eval [operand] scene = .ok [text] next := by
    change EStateM.bind (operandText eval operand) _ scene = _
    rw [EStateM.bind, hoperand]
    rfl
  have hcall : callText eval .quote [operand] span scene = .ok (Quoted.quote text) next := by
    change EStateM.bind (operandTexts eval [operand]) _ scene = _
    rw [EStateM.bind, hoperands]
    rfl
  obtain ⟨t, ht, hkind⟩ := tokenize_quote htext
  refine ⟨t.text, ?_⟩
  rw [substituteOne, orFail, hcall, ← hkind]
  change Emission.ofTokens (Emitted.inert (tokenizeAt (Quoted.quote text) span)) next = _
  rw [tokenizeAt, ht]
  rfl

/-- The scanner, unquoting and quoting mean the same by a quoted string. A text is one string token
exactly if it can be unquoted, to the value of the token, and stands on one line. What was quoted
can be unquoted, to the value the text had, and is not quoted again; so on one line it is one token,
also where the result of a `!QUOTE` stands in an expansion. -/
theorem scanner_agrees_with_quoting :
    (∀ text value, (∃ t, tokenize text = [t] ∧ t.kind = .string value) ↔
      Quoted.tryUnquote text = some value ∧ '\n' ∉ (Text.trim text).toList) ∧
    (∀ text, Quoted.tryUnquote (Quoted.quote text) = some (Quoted.unquote text) ∧
      Quoted.quote (Quoted.quote text) = Quoted.quote text) ∧
    ∀ text, '\n' ∉ text.toList →
      (∃ t, tokenize (Quoted.quote text) = [t] ∧ t.kind = .string (Quoted.unquote text)) ∧
      ∀ env eval operand scene next span, Expansion.operandText eval operand scene = .ok text next →
        ∃ spelling, Expansion.substituteOne env eval (.call .quote [operand] span) scene =
          .ofTokens [⟨⟨.string (Quoted.unquote text), spelling, span⟩, false⟩] next := by
  refine ⟨fun _ _ => tokenize_eq_string_iff, fun text => ?_, fun text htext => ?_⟩
  · exact ⟨Quoted.tryUnquote_quote text, Quoted.quote_quote text⟩
  · refine ⟨tokenize_quote htext, fun env eval operand scene next span hoperand => ?_⟩
    exact Expansion.substituteOne_quote env htext hoperand span

/-- A text with an apostrophe is quoted to one token, a quoted one stays as it is, and one that goes
over a line end is no token. -/
theorem apostrophe_quoted :
    Quoted.quote "it's" = "'it''s'" ∧ '\n' ∉ "it's".toList ∧
      (∃ t, tokenize "'it''s'" = [t] ∧ t.kind = .string "it's") ∧
      (∃ t, tokenize " \"it's\" " = [t] ∧ t.kind = .string "it's") ∧
      ¬∃ t, tokenize "'it\n'" = [t] ∧ t.kind = .string "it\n" := by
  obtain ⟨hiff, -, hline⟩ := scanner_agrees_with_quoting
  have hquote : Quoted.quote "it's" = "'it''s'" := by decide +kernel
  have hnewline : '\n' ∉ "it's".toList := by decide
  have htoken := (hline "it's" hnewline).1
  rw [hquote] at htoken
  refine ⟨hquote, hnewline, htoken, (hiff _ _).mpr ?_, fun h => ?_⟩
  · decide +kernel
  · exact ((hiff _ _).mp h).2 (by decide +kernel)

end CommandMacros

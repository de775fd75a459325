import CommandMacros.Builtin.Apply
import CommandMacros.Proofs.Token.Grammar

/-!
Functions that count characters. `!INDEX`, `!SUBSTR` and `!LENGTH` count from the same end and in
the same unit: where `!INDEX` finds a text, `!SUBSTR` cuts it out again if it is given the length
that `!LENGTH` tells, and nowhere before. Two substrings that meet make up the text.
-/

namespace CommandMacros

/-! ### Texts and their parts -/

namespace Text

variable {needle cs : List Char}

/-- The first occurrence is where the characters can be cut out, and nowhere before. -/
theorem isFirst_of_firstOccurrence? {n : Nat} (h : firstOccurrence? needle cs = some n) :
    needle <+: cs.drop n ∧ ∀ m < n, ¬needle <+: cs.drop m := by
  induction cs generalizing n with
  | nil =>
      rw [firstOccurrence?] at h
      split at h
      · next hempty =>
          cases h
          rw [List.isEmpty_iff.mp hempty]
          exact ⟨List.nil_prefix, fun m hm => absurd hm (Nat.not_lt_zero m)⟩
      · cases h
  | cons c cs ih =>
      rw [firstOccurrence?] at h
      split at h
      · next hfront =>
          cases h
          exact ⟨List.isPrefixOf_iff_prefix.mp hfront, fun m hm => absurd hm (Nat.not_lt_zero m)⟩
      · next hfront =>
          obtain ⟨k, hk, rfl⟩ := Option.map_eq_some_iff.mp h
          obtain ⟨hfirst, hbefore⟩ := ih hk
          refine ⟨hfirst, fun m hm => ?_⟩
          cases m with
          | zero => exact fun hprefix => hfront (List.isPrefixOf_iff_prefix.mpr hprefix)
          | succ m => exact hbefore m (Nat.lt_of_succ_lt_succ hm)

theorem isBlank_of_isDigit {c : Char} (h : c.isDigit = true) : isBlank c = false := by
  rw [Bool.eq_false_iff]
  intro hblank
  rw [Scan.isDigit_of_isBlank hblank] at h
  cases h

theorem dropBlanks_of_no_blank (h : ∀ c ∈ cs, isBlank c = false) : dropBlanks cs = cs := by
  cases cs with
  | nil => rfl
  | cons c cs =>
      exact List.dropWhile_cons_of_neg (Bool.eq_false_iff.mp (h c List.mem_cons_self))

theorem trimChars_of_no_blank (h : ∀ c ∈ cs, isBlank c = false) : trimChars cs = cs := by
  have hreverse : ∀ c ∈ cs.reverse, isBlank c = false := fun c hc => h c (List.mem_reverse.mp hc)
  rw [trimChars, dropBlanks_of_no_blank h, dropBlanks_of_no_blank hreverse, List.reverse_reverse]

end Text

namespace Builtin

/-- A substring with a length is the needle exactly if the needle stands there. -/
theorem substring_eq_iff {text needle : String} {start : Nat} :
    substring text start (some needle.length) = needle ↔
      needle.toList <+: text.toList.drop (start - 1) := by
  rw [List.prefix_iff_eq_take, String.length_toList, eq_comm, ← String.toList_inj]
  change _ = (String.ofList _).toList ↔ _
  rw [String.toList_ofList]

/-- Substrings that meet make up the text. -/
theorem substring_append (text : String) (count : Nat) :
    substring text 1 (some count) ++ substring text (count + 1) none = text := by
  rw [← String.toList_inj, String.toList_append]
  change (String.ofList _).toList ++ (String.ofList _).toList = _
  rw [String.toList_ofList, String.toList_ofList]
  exact List.take_append_drop count text.toList

theorem length_substring (text : String) (count : Nat) :
    (substring text 1 (some count)).length = min count text.length := by
  change (String.ofList _).length = _
  rw [String.length_ofList, List.length_take, List.drop_zero, String.length_toList]

/-! ### Numbers as arguments -/

section Arguments

variable {n : Nat}

/-- Numbers that are written alike are the same. -/
theorem eq_of_repr_eq {m : Nat} (h : m.repr = n.repr) : m = n := by
  have hread := Number.readDigits?_repr m
  rw [h, Number.readDigits?_repr n] at hread
  exact (Option.some.inj hread).symm

/-- The digits of a number are no quoted string. -/
theorem unquote_repr (n : Nat) : Quoted.unquote n.repr = n.repr := by
  have hfront : n.repr.toList.head?.any Quoted.canOpen = false := by
    cases hdigits : n.repr.toList with
    | nil => rfl
    | cons c cs =>
        have hdigit : c.isDigit = true :=
          Number.isDigit_of_mem_repr (hdigits ▸ List.mem_cons_self)
        rw [List.head?_cons, Option.any_some, Quoted.canOpen, Scan.isDelimiter_of_isDigit hdigit,
          Text.isBlank_of_isDigit hdigit]
        rfl
  rw [Quoted.unquote, Quoted.tryUnquote_eq, Quoted.unquoteChars?_of_not_canOpen hfront]
  rfl

/-- A number in decimal is taken for this number. -/
theorem integer?_repr (h : n < Number.wordBound) : integer? n.repr = some (n : Int) := by
  have hblank : ∀ c ∈ n.repr.toList, Text.isBlank c = false := fun c hc =>
    Text.isBlank_of_isDigit (Number.isDigit_of_mem_repr hc)
  rw [integer?, unquote_repr, Text.trimChars_of_no_blank hblank, Number.readSigned?_repr h]

theorem substringStart_repr (hpositive : 1 ≤ n) (h : n < Number.wordBound) :
    substringStart n.repr = .ok n := by
  unfold substringStart
  rw [integer?_repr h]
  exact if_pos (by omega)

theorem substringCount_repr (h : n < Number.wordBound) :
    substringCount (some n.repr) = .ok (some n) := by
  unfold substringCount
  dsimp only
  rw [integer?_repr h]
  exact if_pos (by omega)

end Arguments

/-! ### Results -/

section Results

variable {σ : Type} (eval : String → σ → String × σ) (state : σ)

theorem apply_index (text needle : String) :
    apply eval .index [text, needle] state = (.ok (indexOf text needle).repr, state) :=
  rfl

theorem apply_length (text : String) :
    apply eval .length [text] state = (.ok text.length.repr, state) :=
  rfl

theorem apply_substr (text : String) {start count : Nat} (hpositive : 1 ≤ start)
    (hstart : start < Number.wordBound) (hcount : count < Number.wordBound) :
    apply eval .substr [text, start.repr, count.repr] state =
      (.ok (substring text start (some count)), state) := by
  have hcompute : compute .substr [text, start.repr, count.repr] =
      .ok (substring text start (some count)) := by
    change (do
      let start ← substringStart start.repr
      let count ← substringCount (some count.repr)
      return substring text start count : Except CallError String) = _
    rw [substringStart_repr hpositive hstart, substringCount_repr hcount]
    rfl
  rw [apply_of_ne_eval eval (by decide), hcompute]

theorem apply_substr_rest (text : String) {start : Nat} (hpositive : 1 ≤ start)
    (hstart : start < Number.wordBound) :
    apply eval .substr [text, start.repr] state = (.ok (substring text start none), state) := by
  have hcompute : compute .substr [text, start.repr] = .ok (substring text start none) := by
    change (do
      let start ← substringStart start.repr
      let count ← substringCount none
      return substring text start count : Except CallError String) = _
    rw [substringStart_repr hpositive hstart]
    rfl
  rw [apply_of_ne_eval eval (by decide), hcompute]

end Results

theorem indexOf_eq_zero_iff {text needle : String} :
    indexOf text needle = 0 ↔ ¬needle.toList <:+: text.toList := by
  rw [← Text.isSome_firstOccurrence?_iff, indexOf, Text.indexOf?_eq_firstOccurrence?]
  cases Text.firstOccurrence? needle.toList text.toList with
  | none => simp
  | some n => simp

/-- The index of a text that occurs is one more than the number of characters before it. -/
theorem exists_indexOf_eq {text needle : String} (h : needle.toList <:+: text.toList) :
    ∃ n, indexOf text needle = n + 1 ∧ needle.toList <+: text.toList.drop n ∧
      ∀ m < n, ¬needle.toList <+: text.toList.drop m := by
  obtain ⟨n, hn⟩ := Option.isSome_iff_exists.mp (Text.isSome_firstOccurrence?_iff.mpr h)
  refine ⟨n, ?_, Text.isFirst_of_firstOccurrence? hn⟩
  rw [indexOf, Text.indexOf?_eq_firstOccurrence?, hn]

/-- Only the empty text has an index behind the last character. -/
theorem indexOf_le {text needle : String} (h : needle.toList <:+: text.toList) :
    indexOf text needle ≤ max 1 text.length := by
  obtain ⟨n, hindex, hfirst, hbefore⟩ := exists_indexOf_eq h
  have hlength := hfirst.length_le
  rw [List.length_drop, String.length_toList, String.length_toList] at hlength
  rw [hindex]
  cases n with
  | zero => omega
  | succ n =>
      have hneedle : needle.toList ≠ [] := fun hnil =>
        hbefore 0 (Nat.succ_pos n) (hnil ▸ List.nil_prefix)
      have hpositive := List.length_pos_iff.mpr hneedle
      rw [String.length_toList] at hpositive
      omega

end Builtin

/-- `!INDEX`, `!SUBSTR` and `!LENGTH` count alike, with numbers given in decimal. The index of a
text is 0 exactly if it does not occur; else it is the first place where a substring of its length
is the text. A text in memory has fewer characters than `wordBound`, so that its places can be
arguments. The first characters and those after them make up the text, and are as many as were asked
for, or all. -/
theorem counting_functions_agree {σ : Type} (eval : String → σ → String × σ) (state : σ)
    (text : String) :
    (∀ needle,
      (Builtin.apply eval .index [text, needle] state = (.ok "0", state) ↔
        ¬needle.toList <:+: text.toList) ∧
      (text.length < Number.wordBound → needle.toList <:+: text.toList →
        ∃ (i : Nat) (length : String), 1 ≤ i ∧
          Builtin.apply eval .index [text, needle] state = (.ok i.repr, state) ∧
          Builtin.apply eval .length [needle] state = (.ok length, state) ∧
          Builtin.apply eval .substr [text, i.repr, length] state = (.ok needle, state) ∧
          ∀ j : Nat, 1 ≤ j → j < i → ∃ other : String, other ≠ needle ∧
            Builtin.apply eval .substr [text, j.repr, length] state = (.ok other, state))) ∧
    ∀ k : Nat, k + 1 < Number.wordBound →
      ∃ (front back : String) (length : Nat),
        Builtin.apply eval .substr [text, "1", k.repr] state = (.ok front, state) ∧
        Builtin.apply eval .substr [text, (k + 1).repr] state = (.ok back, state) ∧
        front ++ back = text ∧
        Builtin.apply eval .length [text] state = (.ok length.repr, state) ∧
        Builtin.apply eval .length [front] state = (.ok (min k length).repr, state) := by
  have hword : 1 < Number.wordBound := by decide
  have hone : (1 : Nat).repr = "1" := by decide
  refine ⟨fun needle => ⟨?_, fun htext hoccurs => ?_⟩, fun k hk => ?_⟩
  · rw [Builtin.apply_index, ← Builtin.indexOf_eq_zero_iff]
    constructor
    · intro hresult
      have hzero : (Builtin.indexOf text needle).repr = (0 : Nat).repr := by
        injection hresult with hok
        exact Except.ok.inj hok
      exact Builtin.eq_of_repr_eq hzero
    · intro hindex
      rw [hindex]
      rfl
  · obtain ⟨n, hindex, hfirst, hbefore⟩ := Builtin.exists_indexOf_eq hoccurs
    have hbound := Builtin.indexOf_le hoccurs
    have hneedle := hoccurs.length_le
    rw [String.length_toList, String.length_toList] at hneedle
    refine ⟨n + 1, needle.length.repr, Nat.le_add_left 1 n, by rw [Builtin.apply_index, hindex],
      Builtin.apply_length .., ?_, fun j hj hlt => ?_⟩
    · rw [Builtin.apply_substr _ _ _ (Nat.le_add_left 1 n) (by omega) (by omega),
        Builtin.substring_eq_iff.mpr hfirst]
    · refine ⟨_, fun hcut => ?_, Builtin.apply_substr _ _ _ hj (by omega) (by omega)⟩
      exact hbefore (j - 1) (by omega) (Builtin.substring_eq_iff.mp hcut)
  · have hfront := Builtin.apply_substr eval state text (Nat.le_refl 1) hword
      (Nat.lt_of_succ_lt hk)
    rw [hone] at hfront
    refine ⟨_, _, text.length, hfront,
      Builtin.apply_substr_rest eval state text (Nat.le_add_left 1 k) hk,
      Builtin.substring_append text k, Builtin.apply_length .., ?_⟩
    rw [Builtin.apply_length, Builtin.length_substring]

/-- A text among characters of several bytes is found at its place, and cut out there. -/
theorem needle_after_accents :
    let eval : String → Unit → String × Unit := fun text state => (text, state)
    "äöüö".length < Number.wordBound ∧ "ö".toList <:+: "äöüö".toList ∧
      Builtin.indexOf "äöüö" "ö" = 2 ∧
      (∃ i length, 1 ≤ i ∧ Builtin.apply eval .index ["äöüö", "ö"] () = (.ok i.repr, ()) ∧
        Builtin.apply eval .length ["ö"] () = (.ok length, ()) ∧
        Builtin.apply eval .substr ["äöüö", i.repr, length] () = (.ok "ö", ()) ∧
        ∀ j, 1 ≤ j → j < i → ∃ other, other ≠ "ö" ∧
          Builtin.apply eval .substr ["äöüö", j.repr, length] () = (.ok other, ())) ∧
      3 + 1 < Number.wordBound ∧
      ∃ front back, Builtin.apply eval .substr ["äöüö", "1", (3 : Nat).repr] () = (.ok front, ()) ∧
        Builtin.apply eval .substr ["äöüö", (3 + 1 : Nat).repr] () = (.ok back, ()) ∧
        front ++ back = "äöüö" := by
  intro eval
  have htext : "äöüö".length < Number.wordBound := by decide
  have hoccurs : "ö".toList <:+: "äöüö".toList := ⟨['ä'], ['ü', 'ö'], by decide⟩
  have hbound : 3 + 1 < Number.wordBound := by decide
  obtain ⟨hneedle, hparts⟩ := counting_functions_agree eval () "äöüö"
  obtain ⟨front, back, -, hfront, hback, happend, -⟩ := hparts 3 hbound
  exact ⟨htext, hoccurs, by decide +kernel, (hneedle "ö").2 htext hoccurs, hbound, front, back,
    hfront, hback, happend⟩

end CommandMacros

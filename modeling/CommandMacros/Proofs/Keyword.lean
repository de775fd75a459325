import CommandMacros.Proofs.Body.Compile

/-!
Texts that spell keywords. A shortened keyword still has the first four characters of the full one,
so that keywords which differ there are never confused.
-/

namespace CommandMacros

namespace Token

variable {t : Token}

theorem kind_of_isIdentifier (h : t.isIdentifier = true) : t.kind = .identifier := by
  unfold isIdentifier at h
  split at h
  · assumption
  · contradiction

theorem isPunct_of_isIdentifier (h : t.isIdentifier = true) (p : Punct) : t.isPunct p = false := by
  rw [isPunct, kind_of_isIdentifier h]
  rfl

theorem isEnd_of_isIdentifier (h : t.isIdentifier = true) : t.isEnd = false := by
  rw [isEnd, kind_of_isIdentifier h]

theorem isIdentifier_of_isPunct {p : Punct} (h : t.isPunct p = true) : t.isIdentifier = false := by
  rw [isIdentifier, eq_of_beq h]

theorem isIdentifier_of_abbreviates {keyword : String} (h : t.abbreviates keyword = true) :
    t.isIdentifier = true :=
  (Bool.and_eq_true_iff.mp h).1

/-- The identifier that is spelled so. -/
def word (text : String) (span : Span) : Token := ⟨.identifier, text, span⟩

/-- The punctuator in its usual spelling. -/
def sign (p : Punct) (span : Span) : Token := ⟨.punct p, p.spelling, span⟩

theorem isPunct_sign (p : Punct) (span : Span) : (sign p span).isPunct p = true :=
  beq_self_eq_true _

/-- A keyword is spelled by itself. -/
theorem abbreviates_word (keyword : String) (span : Span) :
    (word keyword span).abbreviates keyword = true := by
  rw [Token.abbreviates, Bool.and_eq_true]
  refine ⟨rfl, Bool.and_eq_true_iff.mpr ⟨Nat.ble_eq.mpr (Nat.min_le_right _ _), ?_⟩⟩
  exact List.isPrefixOf_iff_prefix.mpr List.prefix_rfl

end Token

/-- The upper case of no character outside ASCII is in ASCII. -/
theorem Text.utf8Size_of_toUpper {c : Char} (h : c.toUpper.toNat < 128) : c.utf8Size = 1 := by
  rw [Char.utf8Size_eq_one_iff, UInt32.le_iff_toNat_le]
  change c.val.toNat ≤ 127
  by_cases hlower : 'a'.val ≤ c.val ∧ c.val ≤ 'z'.val
  · change 97 ≤ c.val.toNat ∧ c.val.toNat ≤ 122 at hlower
    omega
  · rw [show c.toUpper = c from dif_neg hlower] at h
    exact Nat.le_of_lt_succ h

theorem Scan.byteLength_of_asciiUpper {cs front : List Char} (hfront : ∀ c ∈ front, c.toNat < 128)
    (h : Text.asciiUpperChars cs <+: front) : Scan.byteLength cs = cs.length := by
  induction cs generalizing front with
  | nil => rfl
  | cons c cs ih =>
      obtain ⟨front, rfl, hrest⟩ := List.cons_prefix_iff.mp h
      obtain ⟨hc, hothers⟩ := List.forall_mem_cons.mp hfront
      rw [Scan.byteLength, Text.utf8Size_of_toUpper hc, ih hothers hrest, List.length_cons,
        Nat.add_comm]

/-- A keyword that can be shortened: a mark and at least three letters, in upper case and ASCII. -/
structure IsLongKeyword (keyword : String) : Prop where
  head : keyword.toList.head? = some '!'
  ascii : ∀ c ∈ keyword.toList, c.toNat < 128
  upper : Text.asciiUpperChars keyword.toList = keyword.toList
  long : 4 ≤ keyword.toList.length

instance (keyword : String) : Decidable (IsLongKeyword keyword) :=
  decidable_of_iff
    (keyword.toList.head? = some '!' ∧ (keyword.toList.all fun c => c.toNat < 128) = true ∧
      Text.asciiUpperChars keyword.toList = keyword.toList ∧ 4 ≤ keyword.toList.length)
    ⟨fun h => ⟨h.1, fun c hc => of_decide_eq_true (List.all_eq_true.mp h.2.1 c hc), h.2.2.1,
        h.2.2.2⟩,
      fun h => ⟨h.head, List.all_eq_true.mpr fun c hc => decide_eq_true (h.ascii c hc), h.upper,
        h.long⟩⟩

namespace IsLongKeyword

variable {keyword text : String}

theorem asciiUpper_prefix (hkeyword : IsLongKeyword keyword)
    (h : abbreviates text keyword = true) :
    Text.asciiUpperChars text.toList <+: keyword.toList := by
  have hfront := List.isPrefixOf_iff_prefix.mp (Bool.and_eq_true_iff.mp h).2
  rwa [hkeyword.upper] at hfront

theorem four_le_length (hkeyword : IsLongKeyword keyword) (h : abbreviates text keyword = true) :
    4 ≤ text.toList.length := by
  have hbytes := Nat.le_of_ble_eq_true (Bool.and_eq_true_iff.mp h).1
  have hfull : Scan.byteLength keyword.toList = keyword.toList.length :=
    Scan.byteLength_of_asciiUpper hkeyword.ascii ⟨[], by rw [hkeyword.upper, List.append_nil]⟩
  have hlong := hkeyword.long
  rw [Scan.byteLength_of_asciiUpper hkeyword.ascii (hkeyword.asciiUpper_prefix h), hfull] at hbytes
  omega

/-- A shortened keyword has the first four characters of the full one. -/
theorem take_eq (hkeyword : IsLongKeyword keyword) (h : abbreviates text keyword = true) :
    (Text.asciiUpperChars text.toList).take 4 = keyword.toList.take 4 := by
  have hlength : 4 ≤ (Text.asciiUpperChars text.toList).length := by
    rw [Text.asciiUpperChars, List.length_map]
    exact hkeyword.four_le_length h
  obtain ⟨others, hothers⟩ := hkeyword.asciiUpper_prefix h
  rw [← hothers, List.take_append_of_le_length hlength]

/-- Keywords that begin differently have no shortened form in common. -/
theorem unique {other : String} (hkeyword : IsLongKeyword keyword) (hother : IsLongKeyword other)
    (hne : keyword.toList.take 4 ≠ other.toList.take 4) (h : abbreviates text keyword = true) :
    abbreviates text other = false := by
  rw [Bool.eq_false_iff]
  intro habbreviates
  exact hne ((hkeyword.take_eq h).symm.trans (hother.take_eq habbreviates))

theorem text_eq (hkeyword : IsLongKeyword keyword) (h : abbreviates text keyword = true) :
    ∃ c cs, text.toList = '!' :: c :: cs := by
  have hfront := hkeyword.asciiUpper_prefix h
  have hlength := hkeyword.four_le_length h
  obtain ⟨rest, hrest⟩ := List.head?_eq_some_iff.mp hkeyword.head
  match hchars : text.toList with
  | [] | [_] =>
    rw [hchars] at hlength
    simp at hlength
  | c :: d :: cs =>
    rw [hchars, hrest] at hfront
    have hc : c.toUpper = '!' := (List.cons_prefix_cons.mp hfront).1
    exact ⟨d, cs, by rw [Text.eq_bang_of_toUpper hc]⟩

/-- What begins like such a keyword is a name of the macro language. -/
theorem isMacroId (hkeyword : IsLongKeyword keyword) {t : Token}
    (h : t.abbreviates keyword = true) : t.isMacroId = true := by
  obtain ⟨hname, habbreviates⟩ := Bool.and_eq_true_iff.mp h
  obtain ⟨c, cs, htext⟩ := hkeyword.text_eq habbreviates
  have hmarked : Token.isMarked t.text = true := by
    rw [Token.isMarked, String.front?_eq, htext]
    rfl
  have hlength : 1 < t.text.length := by
    rw [← String.length_toList, htext, List.length_cons, List.length_cons]
    omega
  rw [Token.isMacroId, hname, hmarked]
  exact Nat.ble_eq.mpr hlength

end IsLongKeyword

/-! ### Marks -/

theorem toList_unmarked (text : String) : (unmarked text).toList =
    if text.toList.head? = some '!' then text.toList.tail else text.toList := by
  unfold unmarked
  split
  · next rest htext =>
      rw [htext, String.toList_ofList]
      rfl
  · next hnot =>
      rw [if_neg]
      intro hhead
      obtain ⟨rest, hrest⟩ := List.head?_eq_some_iff.mp hhead
      exact hnot rest hrest

/-- A mark in front does not hide the case of what follows it. -/
theorem asciiUpperChars_unmarked {text other : String}
    (h : Text.asciiUpperChars text.toList = Text.asciiUpperChars other.toList) :
    Text.asciiUpperChars (unmarked text).toList = Text.asciiUpperChars (unmarked other).toList := by
  have hhead (text : String) :
      (Text.asciiUpperChars text.toList).head? = some '!' ↔ text.toList.head? = some '!' := by
    rw [Text.asciiUpperChars, List.head?_map, Option.map_eq_some_iff]
    refine ⟨?_, fun hbang => ⟨'!', hbang, rfl⟩⟩
    rintro ⟨c, hc, hupper⟩
    rw [hc, Text.eq_bang_of_toUpper hupper]
  have htail (text : String) :
      Text.asciiUpperChars text.toList.tail = (Text.asciiUpperChars text.toList).tail :=
    List.map_tail
  simp only [toList_unmarked, apply_ite Text.asciiUpperChars, htail, ← hhead, h]

end CommandMacros

import CommandMacros.Proofs.Body.Print
import CommandMacros.Proofs.Definition.Accepted

/-!
References to parameters. The parameters of a definition can all be referred to: numbers go to the
positional ones, which come first, and names are stored in upper case and differ, so that a name
goes to its own parameter. No reference is taken for a negation, and no directive keyword for a
reference.
-/

namespace CommandMacros

/-! ### Upper case -/

namespace Text

/-- Characters other than small ASCII letters are in upper case already. -/
theorem toUpper_eq_self {c : Char} (h : c.toNat < 97 ∨ 123 ≤ c.toNat) : c.toUpper = c := by
  refine dif_neg ?_
  change ¬(97 ≤ c.val.toNat ∧ c.val.toNat ≤ 122)
  change c.val.toNat < 97 ∨ 123 ≤ c.val.toNat at h
  omega

/-- Small ASCII letters are 32 places after the capital ones. -/
theorem toNat_toUpper {c : Char} (h : ¬(c.toNat < 97 ∨ 123 ≤ c.toNat)) :
    c.toUpper.toNat = c.toNat - 32 := by
  change ¬(c.val.toNat < 97 ∨ 123 ≤ c.val.toNat) at h
  have hlower : 'a'.val ≤ c.val ∧ c.val ≤ 'z'.val := by
    change 97 ≤ c.val.toNat ∧ c.val.toNat ≤ 122
    omega
  rw [show c.toUpper = _ from dif_pos hlower]
  change (c.val + ('A'.val - 'a'.val)).toNat = c.val.toNat - 32
  rw [UInt32.toNat_add]
  change (c.val.toNat + 4294967264) % 2 ^ 32 = c.val.toNat - 32
  omega

theorem toUpper_toUpper (c : Char) : c.toUpper.toUpper = c.toUpper := by
  by_cases h : c.toNat < 97 ∨ 123 ≤ c.toNat
  · rw [toUpper_eq_self h, toUpper_eq_self h]
  · have hupper := toNat_toUpper h
    exact toUpper_eq_self (.inl (by omega))

theorem isDigit_iff {c : Char} : c.isDigit = true ↔ 48 ≤ c.toNat ∧ c.toNat ≤ 57 := by
  simp only [Char.isDigit, Bool.and_eq_true, decide_eq_true_eq]
  exact Iff.rfl

/-- Digits have no case. -/
theorem isDigit_toUpper (c : Char) : c.toUpper.isDigit = c.isDigit := by
  by_cases h : c.toNat < 97 ∨ 123 ≤ c.toNat
  · rw [toUpper_eq_self h]
  · have hupper := toNat_toUpper h
    rw [Bool.eq_iff_iff, isDigit_iff, isDigit_iff]
    omega

/-- What the upper case of a character can hold where a number could begin: no small ASCII letter,
and neither a digit nor a sign. -/
structure IsCapital (c : Char) : Prop where
  toUpper : c.toUpper = c
  isDigit : c.isDigit = false
  ne_plus : c ≠ '+'

theorem isCapital_of_toNat {c : Char} (hlow : c.toNat < 43 ∨ 58 ≤ c.toNat)
    (hletter : c.toNat < 97 ∨ 123 ≤ c.toNat) : IsCapital c where
  toUpper := toUpper_eq_self hletter
  isDigit := by
    rw [Bool.eq_false_iff]
    intro hdigit
    have hrange := isDigit_iff.mp hdigit
    omega
  ne_plus := by
    rintro rfl
    exact absurd hlow (by decide)

theorem isCapital_ofNat {n : Nat} (hlow : 58 ≤ n) (hletter : n < 97 ∨ 123 ≤ n) :
    IsCapital (Char.ofNat n) := by
  by_cases hvalid : n.isValidChar
  · rw [Char.ofNat, dif_pos hvalid]
    exact isCapital_of_toNat (.inr hlow) hletter
  · rw [Char.ofNat, dif_neg hvalid]
    exact isCapital_of_toNat (.inl (by decide)) (.inl (by decide))

theorem ofNat_ne_bang {n : Nat} (h : 58 ≤ n) : Char.ofNat n ≠ '!' := by
  by_cases hvalid : n.isValidChar
  · rw [Char.ofNat, dif_pos hvalid]
    intro hbang
    have hpoint : n = 33 := congrArg Char.toNat hbang
    omega
  · rw [Char.ofNat, dif_neg hvalid]
    decide

/-- The upper case of a character outside ASCII comes after the digits and has no small ASCII
letters. -/
theorem exists_of_mem_upperChar {c : Char} (hc : 128 ≤ c.toNat) :
    upperChar c ≠ [] ∧
      ∀ d ∈ upperChar c, ∃ n, d = Char.ofNat n ∧ 58 ≤ n ∧ (n < 97 ∨ 123 ≤ n) := by
  have hexpansions : ∀ e ∈ upperExpansions,
      e.2 ≠ [] ∧ ∀ n ∈ e.2, 58 ≤ n ∧ (n < 97 ∨ 123 ≤ n) := by decide
  have hruns : ∀ run ∈ upperRuns, 58 ≤ run.target ∧
      (run.target + (run.last - run.first) < 97 ∨ 123 ≤ run.target) := by decide +kernel
  rw [upperChar, if_neg (Nat.not_lt.mpr hc)]
  split
  · next points hpoints =>
      obtain ⟨before, after, hentries, _⟩ := List.lookup_eq_some_iff.mp hpoints
      have hmem : (c.toNat, points) ∈ upperExpansions := by
        rw [hentries]
        exact List.mem_append_right _ List.mem_cons_self
      obtain ⟨hne, hall⟩ := hexpansions _ hmem
      refine ⟨fun hnil => hne (List.map_eq_nil_iff.mp hnil), fun d hd => ?_⟩
      obtain ⟨n, hn, rfl⟩ := List.mem_map.mp hd
      exact ⟨n, rfl, hall n hn⟩
  · split
    · next point hpoint =>
        obtain ⟨run, hrun, happly⟩ := List.exists_of_findSome?_eq_some hpoint
        obtain ⟨hlow, hletter⟩ := hruns run hrun
        rw [ CaseRun.apply?, Option.ite_none_right_eq_some] at happly
        obtain ⟨⟨hfirst, hlast, _⟩, hpoint⟩ := happly
        cases hpoint
        refine ⟨List.cons_ne_nil _ _, List.forall_mem_singleton.mpr ⟨_, rfl, ?_, ?_⟩⟩
        · omega
        · omega
    · refine ⟨List.cons_ne_nil _ _, List.forall_mem_singleton.mpr ⟨c.toNat, ?_, ?_, ?_⟩⟩
      · exact (Char.ofNat_toNat c).symm
      · omega
      · omega

theorem upperChar_of_not_ascii {c : Char} (hc : 128 ≤ c.toNat) :
    upperChar c ≠ [] ∧ ∀ d ∈ upperChar c, IsCapital d := by
  obtain ⟨hne, hall⟩ := exists_of_mem_upperChar hc
  refine ⟨hne, fun d hd => ?_⟩
  obtain ⟨n, rfl, hlow, hletter⟩ := hall d hd
  exact isCapital_ofNat hlow hletter

/-- Upper case has no small ASCII letters left. -/
theorem asciiUpperChars_upperChars (cs : List Char) :
    asciiUpperChars (upperChars cs) = upperChars cs := by
  refine (List.map_congr_left fun d hd => ?_).trans (List.map_id _)
  obtain ⟨c, _, hd⟩ := List.mem_flatMap.mp hd
  by_cases hc : c.toNat < 128
  · rw [upperChar, if_pos hc] at hd
    rw [List.mem_singleton.mp hd]
    exact toUpper_toUpper c
  · exact ((upperChar_of_not_ascii (Nat.not_lt.mp hc)).2 d hd).toUpper

theorem upperChars_of_ascii {cs : List Char} (h : ∀ c ∈ cs, c.toNat < 128) :
    upperChars cs = asciiUpperChars cs := by
  induction cs with
  | nil => rfl
  | cons c cs ih =>
      obtain ⟨hc, hothers⟩ := List.forall_mem_cons.mp h
      rw [upperChars, List.flatMap_cons, upperChar, if_pos hc]
      exact congrArg (List.cons c.toUpper) (ih hothers)

/-- A character that begins a name still cannot begin a number in upper case. -/
theorem isCapital_toUpper {c : Char} (hc : c = '!' ∨ Scan.isNameStart c = true) :
    IsCapital c.toUpper := by
  by_cases h : c.toNat < 97 ∨ 123 ≤ c.toNat
  · refine ⟨toUpper_toUpper c, ?_, ?_⟩
    · rw [toUpper_eq_self h]
      rcases hc with rfl | hc
      · decide
      · exact Scan.isDigit_of_isNameStart hc
    · rw [toUpper_eq_self h]
      rcases hc with rfl | hc
      · decide
      · exact Scan.ne_of_isNameStart hc (by decide)
  · have hupper := toNat_toUpper h
    exact isCapital_of_toNat (.inr (by omega)) (.inl (by omega))

/-- The upper case of a name begins with a character that cannot begin a number. -/
theorem exists_upperChars_eq {cs : List Char} (h : Scan.Shape .identifier cs) :
    ∃ d ds, upperChars cs = d :: ds ∧ IsCapital d := by
  cases h with
  | @identifier c cs hc =>
      rw [upperChars, List.flatMap_cons]
      by_cases hascii : c.toNat < 128
      · rw [upperChar, if_pos hascii]
        exact ⟨_, _, rfl, isCapital_toUpper hc⟩
      · obtain ⟨hne, hall⟩ := upperChar_of_not_ascii (Nat.not_lt.mp hascii)
        obtain ⟨d, ds, hd⟩ := List.exists_cons_of_ne_nil hne
        rw [hd] at hall ⊢
        exact ⟨d, _, rfl, hall d List.mem_cons_self⟩

/-- Upper case neither adds a mark nor takes one away. -/
theorem isMarked_upper (text : String) : Token.isMarked (upper text) = Token.isMarked text := by
  rw [Scan.isMarked_eq, Scan.isMarked_eq, upper, String.toList_ofList, Bool.eq_iff_iff,
    beq_iff_eq, beq_iff_eq]
  cases text.toList with
  | nil => rfl
  | cons c cs =>
      rw [upperChars, List.flatMap_cons, List.head?_cons, Option.some.injEq]
      by_cases hascii : c.toNat < 128
      · rw [upperChar, if_pos hascii, List.singleton_append, List.head?_cons, Option.some.injEq]
        refine ⟨eq_bang_of_toUpper, ?_⟩
        rintro rfl
        rfl
      · obtain ⟨hne, hall⟩ := exists_of_mem_upperChar (Nat.not_lt.mp hascii)
        obtain ⟨d, ds, hd⟩ := List.exists_cons_of_ne_nil hne
        rw [hd, List.cons_append, List.head?_cons, Option.some.injEq]
        rw [hd] at hall
        constructor
        · rintro rfl
          obtain ⟨n, hbang, hlow, -⟩ := hall '!' List.mem_cons_self
          exact absurd hbang.symm (ofNat_ne_bang hlow)
        · rintro rfl
          exact absurd (by decide) hascii

/-- Upper case changes nothing but the ASCII letters of the text. -/
def FoldsInAscii (text : String) : Prop :=
  upper text = asciiUpper text

instance (text : String) : Decidable (FoldsInAscii text) :=
  inferInstanceAs (Decidable (upper text = asciiUpper text))

theorem FoldsInAscii.of_ascii {text : String} (h : ∀ c ∈ text.toList, c.toNat < 128) :
    FoldsInAscii text :=
  congrArg String.ofList (upperChars_of_ascii h)

theorem sameIgnoringCase_upper_iff {text : String} :
    sameIgnoringCase (upper text) text = true ↔ FoldsInAscii text := by
  rw [sameIgnoringCase_iff, FoldsInAscii, upper, asciiUpper, String.toList_ofList,
    asciiUpperChars_upperChars]
  exact ⟨congrArg String.ofList, fun h => String.ofList_injective h⟩

end Text

/-! ### Numbers -/

/-- What begins with neither a digit nor a sign is no number. -/
theorem Number.readUnsigned?_of_isCapital {c : Char} (hc : Text.IsCapital c) (cs : List Char) :
    readUnsigned? (c :: cs) = none := by
  have hread : readDigits? (c :: cs) = none := by
    refine if_neg fun h => ?_
    rw [List.all_cons, hc.isDigit] at h
    exact Bool.noConfusion h.2
  unfold readUnsigned?
  split
  · next rest hplus => exact absurd (List.cons.inj hplus).1 hc.ne_plus
  · exact congrArg (Option.filter _) hread

theorem Number.readDigits?_asciiUpperChars (cs : List Char) :
    readDigits? (Text.asciiUpperChars cs) = readDigits? cs := by
  have hall : (Text.asciiUpperChars cs).all Char.isDigit = cs.all Char.isDigit := by
    rw [Text.asciiUpperChars, List.all_map]
    exact congrArg cs.all (funext Text.isDigit_toUpper)
  by_cases hdigits : cs.all Char.isDigit = true
  · have hself : Text.asciiUpperChars cs = cs := by
      refine (List.map_congr_left fun c hc => Text.toUpper_eq_self ?_).trans (List.map_id cs)
      have hrange := Text.isDigit_iff.mp (List.all_eq_true.mp hdigits c hc)
      omega
    rw [hself]
  · rw [readDigits?, readDigits?, if_neg fun h => hdigits (hall ▸ h.2), if_neg fun h => hdigits h.2]

/-- The case of letters does not matter to numbers. -/
theorem Number.readUnsigned?_asciiUpperChars (cs : List Char) :
    readUnsigned? (Text.asciiUpperChars cs) = readUnsigned? cs := by
  have hplus {c : Char} (hc : c ≠ '+') : c.toUpper ≠ '+' := by
    by_cases h : c.toNat < 97 ∨ 123 ≤ c.toNat
    · rwa [Text.toUpper_eq_self h]
    · intro hupper
      have hnat := Text.toNat_toUpper h
      rw [hupper] at hnat
      change 43 = c.toNat - 32 at hnat
      omega
  match cs with
  | [] => rfl
  | c :: cs =>
    by_cases hc : c = '+'
    · subst hc
      exact congrArg (Option.filter _) (readDigits?_asciiUpperChars cs)
    · have hread := readDigits?_asciiUpperChars (c :: cs)
      unfold readUnsigned?
      split
      · next rest h => exact absurd (List.cons.inj h).1 (hplus hc)
      · split
        · next rest h => exact absurd (List.cons.inj h).1 hc
        · exact congrArg (Option.filter _) hread

/-! ### Reserved words -/

/-- Words are reserved or not in any case. -/
theorem isReserved_congr {text other : String}
    (h : Text.asciiUpperChars text.toList = Text.asciiUpperChars other.toList) :
    isReserved text = isReserved other := by
  simp only [isReserved, Text.sameIgnoringCase, asciiUpperChars_unmarked h]

/-- Upper case does not turn a word into a reserved one by changing ASCII letters alone. -/
theorem isReserved_upper {text : String} (h : Text.FoldsInAscii text) :
    isReserved (Text.upper text) = isReserved text :=
  isReserved_congr (Text.sameIgnoringCase_iff.mp (Text.sameIgnoringCase_upper_iff.mpr h))

-- Not so elsewhere: the upper case of the dotless `ı` is `I`.
example : isReserved "ıf" = false ∧ isReserved (Text.upper "ıf") = true := by decide +kernel

/-! ### References -/

/-- A name as it is stored for a keyword parameter. -/
structure IsStoredName (name : String) : Prop where
  upper : Text.asciiUpperChars name.toList = name.toList
  head : ∃ c cs, name.toList = c :: cs ∧ Text.IsCapital c

theorem isStoredName_upper {text : String} (h : Scan.Shape .identifier text.toList) :
    IsStoredName (Text.upper text) where
  upper := by
    rw [Text.upper, String.toList_ofList]
    exact Text.asciiUpperChars_upperChars _
  head := by
    rw [Text.upper, String.toList_ofList]
    exact Text.exists_upperChars_eq h

theorem Parameter.isPositional_eq_isNone (p : Parameter) : p.isPositional = p.keyword?.isNone := by
  rw [isPositional, keyword?]
  cases p.role with
  | keyword name => rfl
  | positional => rfl

theorem Parameter.exists_keyword?_of_not_positional {p : Parameter} (h : p.isPositional = false) :
    ∃ name, p.keyword? = some name := by
  rw [isPositional_eq_isNone] at h
  exact Option.isSome_iff_exists.mp (Option.isNone_eq_false_iff.mp h)

theorem Parameter.keyword?_eq_some_iff {p : Parameter} {name : String} :
    p.keyword? = some name ↔ p.role = .keyword name := by
  rw [keyword?]
  cases p.role with
  | keyword other => rw [Option.some.injEq, Role.keyword.injEq]
  | positional => simp

namespace Parameters

variable {parameters : List Parameter}

/-- What an expression needs of parameters to refer to them. -/
structure Resolvable (parameters : List Parameter) : Prop where
  find?_reference {index : Nat} (h : index < parameters.length) :
    find? parameters (reference parameters index).text = some index
  isMacroId_reference {index : Nat} (h : index < parameters.length) :
    (reference parameters index).isMacroId = true
  isNot_reference {index : Nat} (h : index < parameters.length) :
    Body.isNot (reference parameters index) = false

/-- What a body needs of parameters to refer to them: no directive is taken for one. -/
structure Referable (parameters : List Parameter) : Prop extends Resolvable parameters where
  find?_keyword {keyword : String} (h : keyword ∈ directiveKeywords) :
    find? parameters keyword = none

/-- Positional parameters come first, and so their numbers are their places. -/
theorem lt_positionalCount (hordered : parameters.Pairwise Parameter.Precedes) {index : Nat}
    (hindex : index < parameters.length) (hp : parameters[index].isPositional = true) :
    index < positionalCount parameters := by
  have hfront : ∀ p ∈ parameters.take (index + 1), p.isPositional = true := by
    intro p hmem
    obtain ⟨i, hi, rfl⟩ := List.mem_iff_getElem.mp hmem
    rw [List.getElem_take]
    rw [List.length_take] at hi
    rcases Nat.lt_or_eq_of_le (Nat.le_of_lt_succ (Nat.lt_of_lt_of_le hi (Nat.min_le_left _ _)))
      with hlt | rfl
    · exact (List.pairwise_iff_getElem.mp hordered i index (by omega) hindex hlt).positional hp
    · exact hp
  calc index < (parameters.take (index + 1)).length := by
        rw [List.length_take]
        omega
    _ = (parameters.take (index + 1)).countP Parameter.isPositional :=
        (List.countP_eq_length.mpr hfront).symm
    _ ≤ positionalCount parameters := (List.take_sublist _ _).countP_le

theorem reference_positional {index : Nat} (hindex : index < parameters.length)
    (hp : parameters[index].keyword? = none) :
    reference parameters index = .word ("!" ++ (index + 1).repr) (.point 0) := by
  rw [reference, List.getElem?_eq_getElem hindex, Option.bind_some, hp]

theorem reference_keyword {index : Nat} (hindex : index < parameters.length) {name : String}
    (hp : parameters[index].keyword? = some name) :
    reference parameters index = .word ("!" ++ name) (.point 0) := by
  rw [reference, List.getElem?_eq_getElem hindex, Option.bind_some, hp]

/-- A reference is read as a number if it can be, and else as a name. -/
theorem find?_mark (text : String) : find? parameters ("!" ++ text) =
    (Number.readUnsigned? text.toList).elim (findKeyword? parameters text) fun n =>
      if 1 ≤ n ∧ n ≤ positionalCount parameters then some (n - 1) else none := by
  rw [find?]
  split
  · next name hname =>
      rw [String.toList_append] at hname
      obtain rfl : text.toList = name := (List.cons.inj hname).2
      rw [String.ofList_toList]
      cases Number.readUnsigned? text.toList <;> rfl
  · next hnot => exact absurd String.toList_append (hnot text.toList)

theorem find?_of_number {text : String} {n : Nat}
    (h : Number.readUnsigned? text.toList = some n) (hpos : 1 ≤ n)
    (hn : n ≤ positionalCount parameters) : find? parameters ("!" ++ text) = some (n - 1) := by
  rw [find?_mark, h]
  exact if_pos ⟨hpos, hn⟩

theorem find?_of_name {text : String} (h : Number.readUnsigned? text.toList = none) :
    find? parameters ("!" ++ text) = findKeyword? parameters text := by
  rw [find?_mark, h, Option.elim_none]

theorem findKeyword?_congr {name other : String}
    (h : Text.asciiUpperChars name.toList = Text.asciiUpperChars other.toList) :
    findKeyword? parameters name = findKeyword? parameters other := by
  simp only [findKeyword?, Text.sameIgnoringCase, h]

/-- What has no mark refers to nothing. -/
theorem find?_of_no_mark {text : String} {c : Char} {cs : List Char} (htext : text.toList = c :: cs)
    (hc : c ≠ '!') : find? parameters text = none := by
  unfold find?
  split
  · next name hname =>
      rw [htext] at hname
      exact absurd (List.cons.inj hname).1 hc
  · rfl

/-- References go to the same parameter in any case. -/
theorem find?_congr {reference other : String}
    (h : Text.asciiUpperChars reference.toList = Text.asciiUpperChars other.toList) :
    find? parameters reference = find? parameters other := by
  cases hreference : reference.toList with
  | nil =>
      rw [hreference] at h
      rw [find?, find?, hreference, List.map_eq_nil_iff.mp h.symm]
  | cons c cs =>
      rw [hreference] at h
      obtain ⟨d, ds, hother, hd, hrest⟩ := List.map_eq_cons_iff.mp h.symm
      by_cases hc : c = '!'
      · subst hc
        obtain rfl := Text.eq_bang_of_toUpper hd
        have hmark {text : String} {cs : List Char} (htext : text.toList = '!' :: cs) :
            text = "!" ++ String.ofList cs := by
          apply String.toList_injective
          rw [htext, String.toList_append, String.toList_ofList, String.toList_ofList]
          rfl
        have hnumber : Number.readUnsigned? ds = Number.readUnsigned? cs := by
          rw [← Number.readUnsigned?_asciiUpperChars, ← Number.readUnsigned?_asciiUpperChars cs]
          exact congrArg Number.readUnsigned? hrest
        have hname : findKeyword? parameters (String.ofList ds) =
            findKeyword? parameters (String.ofList cs) := by
          apply findKeyword?_congr
          rw [String.toList_ofList, String.toList_ofList]
          exact hrest
        rw [hmark hreference, hmark hother, find?_mark, find?_mark, String.toList_ofList,
          String.toList_ofList, hnumber, hname]
      · have hne : d ≠ '!' := by
          rintro rfl
          exact hc (Text.eq_bang_of_toUpper hd.symm)
        rw [find?_of_no_mark hreference hc, find?_of_no_mark hother hne]

/-- The names of the parameters are stored names that are neither `NOT` nor reserved. -/
structure ProperlyNamed (parameters : List Parameter) : Prop where
  stored : ∀ p ∈ parameters, ∀ name, p.keyword? = some name → IsStoredName name
  ne_not : ∀ p ∈ parameters, ∀ name, p.keyword? = some name → name ≠ "NOT"
  not_reserved : ∀ p ∈ parameters, ∀ name, p.keyword? = some name → isReserved name = false

theorem findKeyword?_name (hordered : parameters.Pairwise Parameter.Precedes)
    (hstored : ∀ p ∈ parameters, ∀ name, p.keyword? = some name → IsStoredName name) {index : Nat}
    (hindex : index < parameters.length) {name : String}
    (hp : parameters[index].keyword? = some name) : findKeyword? parameters name = some index := by
  refine List.findIdx?_eq_some_iff_getElem.mpr ⟨hindex, ?_, fun j hj => ?_⟩
  · rw [hp]
    exact Text.sameIgnoringCase_refl name
  · have hjlength : j < parameters.length := Nat.lt_trans hj hindex
    have hprecedes := List.pairwise_iff_getElem.mp hordered j index hjlength hindex hj
    intro hany
    cases hother : parameters[j].keyword? with
    | none =>
        rw [hother] at hany
        cases hany
    | some other =>
        rw [hother] at hany
        have hsame := Text.sameIgnoringCase_iff.mp hany
        rw [(hstored _ (List.getElem_mem hjlength) _ hother).upper,
          (hstored _ (List.getElem_mem hindex) _ hp).upper] at hsame
        rw [← String.toList_inj.mp hsame] at hp
        exact hprecedes.keyword other hother hp

theorem find?_reserved
    (hstored : ∀ p ∈ parameters, ∀ name, p.keyword? = some name → IsStoredName name)
    (hfree : ∀ p ∈ parameters, ∀ name, p.keyword? = some name → isReserved name = false)
    {word : String} (hword : word ∈ reservedWords) : find? parameters ("!" ++ word) = none := by
  have hreserved : ∀ word ∈ reservedWords, Number.readUnsigned? word.toList = none ∧
      Text.asciiUpperChars word.toList = word.toList ∧ isReserved word = true := by decide +kernel
  obtain ⟨hnumber, hupper, hword⟩ := hreserved word hword
  rw [find?_of_name hnumber, findKeyword?, List.findIdx?_eq_none_iff]
  intro p hp
  rw [Bool.eq_false_iff]
  intro hany
  obtain ⟨name, hname, hsame⟩ := (Option.any_eq_true _ _).mp hany
  have hchars := Text.sameIgnoringCase_iff.mp hsame
  rw [(hstored p hp name hname).upper, hupper] at hchars
  have hname := hfree p hp name hname
  rw [String.toList_inj.mp hchars, hword] at hname
  cases hname

/-- A mark and a text make up a name of the macro language. -/
theorem isMacroId_word {text : String} (h : text.toList ≠ []) (span : Span) :
    (Token.word ("!" ++ text) span).isMacroId = true := by
  have hlength : 1 < ("!" ++ text).length := by
    have hpos := List.length_pos_iff.mpr h
    rw [← String.length_toList, String.toList_append, List.length_append]
    exact Nat.lt_add_of_pos_right hpos
  have hmarked : Token.isMarked ("!" ++ text) = true := by
    rw [Token.isMarked, String.front?_eq, String.toList_append]
    rfl
  rw [Token.isMacroId, Token.word, hmarked]
  exact Nat.ble_eq.mpr hlength

theorem isNot_word {text : String} (h : Text.asciiUpperChars text.toList ≠ "NOT".toList)
    (span : Span) : Body.isNot (Token.word ("!" ++ text) span) = false := by
  rw [Bool.eq_false_iff]
  intro hnot
  rcases Bool.or_eq_true_iff.mp hnot with hnot | hnot
  · have hchars := Text.sameIgnoringCase_iff.mp (Bool.and_eq_true_iff.mp hnot).2
    rw [Token.word, String.toList_append] at hchars
    exact h (List.cons.inj hchars).2
  · cases hnot

/-- The number of a parameter does not negate. -/
theorem isNot_number (n : Nat) (span : Span) :
    Body.isNot (Token.word ("!" ++ n.repr) span) = false := by
  refine isNot_word ?_ span
  intro hchars
  obtain ⟨c, cs, hdigits, hc, _⟩ := List.map_eq_cons_iff.mp hchars
  have hmem : c ∈ n.repr.toList := by
    rw [hdigits]
    exact List.mem_cons_self
  have hdigit := Number.isDigit_of_mem_repr hmem
  rw [← Text.isDigit_toUpper, hc] at hdigit
  contradiction

/-- The parameters of a definition can be referred to in expressions. -/
theorem resolvable (hordered : parameters.Pairwise Parameter.Precedes)
    (hstored : ∀ p ∈ parameters, ∀ name, p.keyword? = some name → IsStoredName name)
    (hnot : ∀ p ∈ parameters, ∀ name, p.keyword? = some name → name ≠ "NOT")
    (hcount : parameters.length < 2 * Number.wordBound) : Resolvable parameters where
  find?_reference {index} hindex := by
    cases hp : parameters[index].keyword? with
    | none =>
        have hpositional : parameters[index].isPositional = true := by
          rw [Parameter.isPositional_eq_isNone, hp, Option.isNone_none]
        have hplace := lt_positionalCount hordered hindex hpositional
        have hread : Number.readUnsigned? (index + 1).repr.toList = some (index + 1) :=
          Number.readUnsigned?_repr (by omega)
        rw [reference_positional hindex hp]
        exact find?_of_number hread (Nat.succ_pos index) hplace
    | some name =>
        obtain ⟨c, cs, hchars, hc⟩ := (hstored _ (List.getElem_mem hindex) _ hp).head
        have hread : Number.readUnsigned? name.toList = none := by
          rw [hchars]
          exact Number.readUnsigned?_of_isCapital hc cs
        rw [reference_keyword hindex hp]
        exact (find?_of_name hread).trans (findKeyword?_name hordered hstored hindex hp)
  isMacroId_reference {index} hindex := by
    cases hp : parameters[index].keyword? with
    | none =>
        rw [reference_positional hindex hp]
        exact isMacroId_word (Number.toList_repr_ne_nil (index + 1)) _
    | some name =>
        obtain ⟨c, cs, hchars, _⟩ := (hstored _ (List.getElem_mem hindex) _ hp).head
        rw [reference_keyword hindex hp]
        refine isMacroId_word ?_ _
        rw [hchars]
        exact List.cons_ne_nil c cs
  isNot_reference {index} hindex := by
    cases hp : parameters[index].keyword? with
    | none =>
        rw [reference_positional hindex hp]
        exact isNot_number (index + 1) _
    | some name =>
        rw [reference_keyword hindex hp]
        refine isNot_word ?_ _
        rw [(hstored _ (List.getElem_mem hindex) _ hp).upper]
        exact fun h => hnot _ (List.getElem_mem hindex) _ hp (String.toList_inj.mp h)

/-- The parameters of a definition can be referred to. -/
theorem referable (hordered : parameters.Pairwise Parameter.Precedes)
    (hnames : ProperlyNamed parameters) (hcount : parameters.length < 2 * Number.wordBound) :
    Referable parameters where
  toResolvable := resolvable hordered hnames.stored hnames.ne_not hcount
  find?_keyword {keyword} hkeyword := by
    have hreserved : ∀ k ∈ directiveKeywords, ∃ word ∈ reservedWords, k = "!" ++ word := by decide
    obtain ⟨word, hword, rfl⟩ := hreserved keyword hkeyword
    exact find?_reserved hnames.stored hnames.not_reserved hword

end Parameters

end CommandMacros

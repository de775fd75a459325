import CommandMacros.Number.Decimal

/-!
Integers as they are written in names and arguments: digits with an optional sign, inside the range
of a machine word.
-/

namespace CommandMacros.Number

/-- The value of a nonempty string of decimal digits. -/
def readDigits? (cs : List Char) : Option Nat :=
  if cs ≠ [] ∧ cs.all Char.isDigit = true then some (digitsValue cs) else none

/-- A natural number below `2 ^ 64`, with an optional `+`. -/
def readUnsigned? (cs : List Char) : Option Nat :=
  let digits :=
    match cs with
    | '+' :: rest => rest
    | _ => cs
  (readDigits? digits).filter (· < 2 * wordBound)

/-- An integer from `-2 ^ 63` to `2 ^ 63 - 1`, with an optional sign. -/
def readSigned? (cs : List Char) : Option Int :=
  match cs with
  | '-' :: rest => ((readDigits? rest).filter (· ≤ wordBound)).map fun n => -(n : Int)
  | '+' :: rest => ((readDigits? rest).filter (· < wordBound)).map Int.ofNat
  | _ => ((readDigits? cs).filter (· < wordBound)).map Int.ofNat

theorem isDigit_of_mem_repr {n : Nat} {c : Char} (h : c ∈ n.repr.toList) : c.isDigit = true := by
  rw [Nat.repr_eq_ofList_toDigits, String.toList_ofList] at h
  exact Nat.isDigit_of_mem_toDigits (by decide) (by decide) h

theorem toList_repr_ne_nil (n : Nat) : n.repr.toList ≠ [] := by
  rw [Nat.repr_eq_ofList_toDigits, String.toList_ofList]
  exact Nat.toDigits_ne_nil

/-- The digits of a number have its value. -/
theorem readDigits?_repr (n : Nat) : readDigits? n.repr.toList = some n := by
  have hvalue : digitsValue n.repr.toList = n := by
    rw [digitsValue_eq_foldl, Nat.repr_eq_ofList_toDigits, String.toList_ofList]
    exact Nat.ofDigitChars_eq_foldl.symm.trans Nat.ofDigitChars_ten_toDigits
  have hdigits : n.repr.toList.all Char.isDigit = true :=
    List.all_eq_true.mpr fun _ hc => isDigit_of_mem_repr hc
  rw [readDigits?, if_pos ⟨toList_repr_ne_nil n, hdigits⟩, hvalue]

/-- A number is read as it is printed. -/
theorem readUnsigned?_repr {n : Nat} (h : n < 2 * wordBound) :
    readUnsigned? n.repr.toList = some n := by
  have hunsigned : readUnsigned? n.repr.toList =
      (readDigits? n.repr.toList).filter (· < 2 * wordBound) := by
    unfold readUnsigned?
    split
    · next rest hplus =>
        have hdigit : '+'.isDigit = true := isDigit_of_mem_repr (hplus ▸ List.mem_cons_self)
        cases hdigit
    · rfl
  rw [hunsigned, readDigits?_repr, Option.filter_some, if_pos (decide_eq_true h)]

theorem readSigned?_repr {n : Nat} (h : n < wordBound) :
    readSigned? n.repr.toList = some (n : Int) := by
  have hsigned : readSigned? n.repr.toList =
      ((readDigits? n.repr.toList).filter (· < wordBound)).map Int.ofNat := by
    unfold readSigned?
    split
    · next rest hminus =>
        have hdigit : '-'.isDigit = true := isDigit_of_mem_repr (hminus ▸ List.mem_cons_self)
        cases hdigit
    · next rest hplus =>
        have hdigit : '+'.isDigit = true := isDigit_of_mem_repr (hplus ▸ List.mem_cons_self)
        cases hdigit
    · rfl
  rw [hsigned, readDigits?_repr, Option.filter_some, if_pos (decide_eq_true h)]
  rfl

end CommandMacros.Number

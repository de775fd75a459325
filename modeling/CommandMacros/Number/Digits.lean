/-!
The value of a string of decimal digits. Neighbouring digits are joined in pairs, which halves the
number of digits and squares the base, until one digit is left: of many digits most are then
multiplied as long numbers, and not one by one.
-/

namespace CommandMacros.Number

def digitValue (c : Char) : Nat :=
  c.toNat - '0'.toNat

/-- Joins digits in pairs, the lowest digit first. -/
def joinPairs (base : Nat) : List Nat → List Nat
  | low :: high :: rest => (low + base * high) :: joinPairs base rest
  | digits => digits

/-- The value of digits to a base, the lowest digit first. The fuel is as large as the number of
digits. -/
def lowFirstValue : (fuel : Nat) → (base : Nat) → List Nat → Nat
  | _, _, [] => 0
  | _, _, [digit] => digit
  | 0, _, _ => 0
  | fuel + 1, base, digits => lowFirstValue fuel (base * base) (joinPairs base digits)

/-- The value of a string of decimal digits. -/
def digitsValue (digits : List Char) : Nat :=
  lowFirstValue digits.length 10 (digits.map digitValue).reverse

theorem length_joinPairs_le (base : Nat) (digits : List Nat) :
    (joinPairs base digits).length ≤ digits.length := by
  fun_induction joinPairs base digits with
  | case1 low high rest ih =>
      simp only [List.length_cons]
      omega
  | case2 digits _ => exact Nat.le_refl _

/-- Joining pairs keeps the value. -/
theorem foldr_joinPairs (base : Nat) (digits : List Nat) :
    (joinPairs base digits).foldr (fun d v => d + base * base * v) 0 =
      digits.foldr (fun d v => d + base * v) 0 := by
  fun_induction joinPairs base digits with
  | case1 low high rest ih =>
      rw [List.foldr_cons, ih, List.foldr_cons, List.foldr_cons, Nat.mul_add, Nat.mul_assoc,
        Nat.add_assoc]
  | case2 digits h =>
      match digits, h with
      | [], _ => rfl
      | [d], _ => rfl
      | d :: e :: rest, h => exact absurd rfl (h d e rest)

theorem lowFirstValue_eq_foldr (fuel base : Nat) (digits : List Nat) (h : digits.length ≤ fuel) :
    lowFirstValue fuel base digits = digits.foldr (fun d v => d + base * v) 0 := by
  induction fuel generalizing base digits with
  | zero =>
      have hnil : digits = [] := List.eq_nil_of_length_eq_zero (Nat.le_zero.mp h)
      rw [hnil, lowFirstValue, List.foldr_nil]
  | succ fuel ih =>
      match digits, h with
      | [], _ => rw [lowFirstValue, List.foldr_nil]
      | [d], _ => simp [lowFirstValue]
      | d :: e :: rest, h =>
          have hlength : (joinPairs base (d :: e :: rest)).length ≤ fuel := by
            have := length_joinPairs_le base rest
            simp only [joinPairs, List.length_cons] at h ⊢
            omega
          rw [lowFirstValue, ih _ _ hlength, foldr_joinPairs]
          · simp
          · simp

/-- The value is what reading the digits from the front gives. -/
theorem digitsValue_eq_foldl (digits : List Char) :
    digitsValue digits = digits.foldl (fun n c => 10 * n + digitValue c) 0 := by
  rw [digitsValue, lowFirstValue_eq_foldr _ _ _ (by simp), List.foldr_reverse, List.foldl_map]
  simp only [Nat.add_comm]

end CommandMacros.Number

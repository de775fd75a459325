import CommandMacros.Text.Ranges

/-!
Blanks: the characters with the property White_Space of Unicode 16, and the removal of blanks at the
two ends of a text.
-/

namespace CommandMacros.Text

/-- The code points with the property White_Space. -/
def blankRanges : List (Nat × Nat) :=
  [(0x9, 0xd), (0x20, 0x20), (0x85, 0x85), (0xa0, 0xa0), (0x1680, 0x1680), (0x2000, 0x200a),
    (0x2028, 0x2029), (0x202f, 0x202f), (0x205f, 0x205f), (0x3000, 0x3000)]

def isBlank (c : Char) : Bool :=
  inRanges blankRanges c.toNat

/-- The characters without the blanks in front. -/
def dropBlanks (cs : List Char) : List Char :=
  cs.dropWhile isBlank

/-- The characters without the blanks at either end. -/
def trimChars (cs : List Char) : List Char :=
  (dropBlanks (dropBlanks cs).reverse).reverse

/-- A character that is no blank stays in front. -/
theorem trimChars_cons {c : Char} (cs : List Char) (h : isBlank c = false) :
    trimChars (c :: cs) = c :: (dropBlanks cs.reverse).reverse := by
  have hdrop : dropBlanks (c :: cs) = c :: cs := by
    rw [dropBlanks, List.dropWhile_cons, h]
    rfl
  have hlast : [c].dropWhile isBlank = [c] := by
    rw [List.dropWhile_cons, h]
    rfl
  rw [trimChars, hdrop, List.reverse_cons, dropBlanks, List.dropWhile_append, hlast]
  cases hleft : cs.reverse.dropWhile isBlank with
  | nil =>
      simp only [dropBlanks, hleft]
      rfl
  | cons d ds =>
      simp only [dropBlanks, hleft, List.isEmpty_cons, Bool.false_eq_true, if_false,
        List.reverse_append, List.reverse_cons, List.reverse_nil, List.nil_append,
        List.cons_append]

/-- A blank at the end is left out. -/
theorem trimChars_concat {c : Char} (h : isBlank c = true) (cs : List Char) :
    trimChars (cs ++ [c]) = trimChars cs := by
  have hblank (rest : List Char) : (c :: rest).dropWhile isBlank = rest.dropWhile isBlank := by
    rw [List.dropWhile_cons, if_pos h]
  simp only [trimChars, dropBlanks, List.dropWhile_append, hblank]
  cases cs.dropWhile isBlank with
  | nil => rfl
  | cons d ds =>
      rw [List.isEmpty_cons, if_neg Bool.false_ne_true, List.reverse_append]
      exact congrArg List.reverse (hblank _)

/-- The text without the blanks at either end. -/
def trim (s : String) : String :=
  String.ofList (trimChars s.toList)

end CommandMacros.Text

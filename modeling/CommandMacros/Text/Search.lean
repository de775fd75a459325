/-!
Searching in text. To look for a text, the fingerprint of as many characters as it has is carried
along, and only where it is the same are the characters themselves compared. A text with many near
misses is so searched in one pass.
-/

namespace CommandMacros.Text

/-- The number of characters before the first occurrence of `needle`. -/
def firstOccurrence? (needle : List Char) : List Char → Option Nat
  | [] => if needle.isEmpty then some 0 else none
  | c :: cs =>
    if needle.isPrefixOf (c :: cs) then some 0 else (firstOccurrence? needle cs).map (· + 1)

/-! ### Fingerprints -/

/-- The base in which characters are the digits of a fingerprint. -/
def fingerprintBase : UInt64 := 0x100000001b3

def characterDigit (c : Char) : UInt64 :=
  c.val.toUInt64

/-- The fingerprint after one more character. -/
def addCharacter (fingerprint : UInt64) (c : Char) : UInt64 :=
  fingerprint * fingerprintBase + characterDigit c

def fingerprint (cs : List Char) : UInt64 :=
  cs.foldl addCharacter 0

/-- The weight that a digit has before `count` others. -/
def weight : (count : Nat) → UInt64
  | 0 => 1
  | count + 1 => fingerprintBase * weight count

/-- The fingerprint when the first character, of weight `lead`, leaves and another one comes in. -/
def roll (lead fingerprint : UInt64) (leaving entering : Char) : UInt64 :=
  addCharacter (fingerprint - characterDigit leaving * lead) entering

/-- What is looked for: its characters, their fingerprint, and the weight of the first of them. -/
structure Pattern where
  characters : List Char
  target : UInt64
  lead : UInt64

def Pattern.ofCharacters (characters : List Char) : Pattern :=
  ⟨characters, fingerprint characters, weight (characters.length - 1)⟩

/-- Searches from `position` on. The characters from there are `cs`; those of them that the
fingerprint `window` does not cover are `ahead`. -/
def Pattern.search (pattern : Pattern) (position : Nat) (window : UInt64) (cs : List Char) :
    (ahead : List Char) → Option Nat
  | [] => if pattern.characters.isPrefixOf cs then some position else none
  | entering :: ahead =>
    if window == pattern.target && pattern.characters.isPrefixOf cs then
      some position
    else
      match cs with
      | [] => none
      | leaving :: cs =>
        pattern.search (position + 1) (roll pattern.lead window leaving entering) cs ahead

/-- The number of characters before the first occurrence of `needle`. -/
def indexOf? (needle cs : List Char) : Option Nat :=
  let pattern := Pattern.ofCharacters needle
  let count := needle.length
  pattern.search 0 (fingerprint (cs.take count)) cs (cs.drop count)

theorem foldl_addCharacter (start : UInt64) (cs : List Char) :
    cs.foldl addCharacter start = start * weight cs.length + fingerprint cs := by
  induction cs generalizing start with
  | nil => simp [fingerprint, weight]
  | cons c cs ih =>
      have hfirst : fingerprint (c :: cs) = addCharacter 0 c * weight cs.length + fingerprint cs :=
        ih (addCharacter 0 c)
      rw [List.foldl_cons, ih, hfirst]
      simp only [addCharacter, List.length_cons, weight]
      grind

/-- Rolling is right. -/
theorem roll_fingerprint (leaving entering : Char) (cs : List Char) :
    roll (weight cs.length) (fingerprint (leaving :: cs)) leaving entering =
      fingerprint (cs ++ [entering]) := by
  have hfirst : fingerprint (leaving :: cs) =
      addCharacter 0 leaving * weight cs.length + fingerprint cs := by
    rw [fingerprint, List.foldl_cons, foldl_addCharacter]
  have hlast : fingerprint (cs ++ [entering]) = addCharacter (fingerprint cs) entering := by
    simp [fingerprint]
  rw [hlast, hfirst, roll]
  simp only [addCharacter]
  grind

theorem firstOccurrence?_eq_none_of_length_lt {needle cs : List Char}
    (h : cs.length < needle.length) : firstOccurrence? needle cs = none := by
  induction cs with
  | nil =>
      cases needle with
      | nil => simp at h
      | cons => rfl
  | cons c cs ih =>
      have hfront : needle.isPrefixOf (c :: cs) = false := by
        rw [Bool.eq_false_iff]
        intro hfront
        have := (List.isPrefixOf_iff_prefix.mp hfront).length_le
        omega
      rw [firstOccurrence?, hfront, ih (by simp only [List.length_cons] at h; omega)]
      rfl

/-- Where the characters are the same, so are the fingerprints. -/
theorem fingerprint_take_of_isPrefixOf {needle cs : List Char}
    (h : needle.isPrefixOf cs = true) : fingerprint (cs.take needle.length) = fingerprint needle := by
  rw [← List.prefix_iff_eq_take.mp (List.isPrefixOf_iff_prefix.mp h)]

theorem search_eq (needle : List Char) (position : Nat) (cs ahead : List Char)
    (hahead : cs.drop needle.length = ahead) :
    (Pattern.ofCharacters needle).search position (fingerprint (cs.take needle.length)) cs ahead =
      (firstOccurrence? needle cs).map (position + ·) := by
  induction ahead generalizing position cs with
  | nil =>
      have hlength : cs.length ≤ needle.length := List.drop_eq_nil_iff.mp hahead
      simp only [Pattern.search, Pattern.ofCharacters]
      cases cs with
      | nil => cases needle <;> simp [firstOccurrence?]
      | cons c cs =>
          rw [firstOccurrence?, firstOccurrence?_eq_none_of_length_lt hlength]
          split <;> rfl
  | cons entering ahead ih =>
      cases cs with
      | nil => simp at hahead
      | cons c cs =>
          rw [firstOccurrence?]
          simp only [Pattern.search, Pattern.ofCharacters]
          by_cases hfront : needle.isPrefixOf (c :: cs) = true
          · simp [hfront, fingerprint_take_of_isPrefixOf hfront]
          · simp only [hfront, Bool.and_false, Bool.false_eq_true, if_false]
            cases needle with
            | nil => simp at hfront
            | cons n needle =>
                rw [List.length_cons, List.drop_succ_cons] at hahead
                have hcount : (cs.take needle.length).length = needle.length := by
                  have := congrArg List.length hahead
                  rw [List.length_drop, List.length_cons] at this
                  rw [List.length_take]
                  omega
                have hnext : cs.take (needle.length + 1) = cs.take needle.length ++ [entering] := by
                  rw [List.take_add, hahead]
                  rfl
                have hroll := roll_fingerprint c entering (cs.take needle.length)
                rw [hcount, ← hnext] at hroll
                have hrest : cs.drop (n :: needle).length = ahead := by
                  rw [List.length_cons, List.drop_add_one_eq_tail_drop, hahead, List.tail_cons]
                have hih := ih (position + 1) cs hrest
                rw [List.length_cons] at hih
                rw [List.length_cons, Nat.add_sub_cancel, List.take_succ_cons, hroll]
                refine hih.trans ?_
                rw [Option.map_map]
                congr 1
                funext n
                simp only [Function.comp_apply]
                omega

/-- Searching by fingerprints finds the first occurrence. -/
theorem indexOf?_eq_firstOccurrence? (needle cs : List Char) :
    indexOf? needle cs = firstOccurrence? needle cs := by
  rw [indexOf?, search_eq needle 0 cs _ rfl]
  simp

/-- Whether `needle` occurs in the text. -/
def contains (text needle : String) : Bool :=
  (indexOf? needle.toList text.toList).isSome

theorem isSome_firstOccurrence?_iff {needle cs : List Char} :
    (firstOccurrence? needle cs).isSome = true ↔ needle <:+: cs := by
  induction cs with
  | nil =>
      rw [firstOccurrence?, List.infix_nil]
      cases needle <;> simp
  | cons c cs ih =>
      rw [firstOccurrence?, List.infix_cons_iff, ← List.isPrefixOf_iff_prefix, ← ih]
      split
      · next hfront => simp [hfront]
      · next hfront => simp [hfront]

theorem contains_iff {text needle : String} :
    contains text needle = true ↔ needle.toList <:+: text.toList := by
  rw [contains, indexOf?_eq_firstOccurrence?, isSome_firstOccurrence?_iff]

/-- What follows `front` in a text that begins with it. -/
def stripFront? : (front cs : List Char) → Option (List Char)
  | [], cs => some cs
  | _ :: _, [] => none
  | a :: front, c :: cs => if a = c then stripFront? front cs else none

/-- What comes before `ending` in a text that ends with it. -/
def stripEnd? (ending cs : List Char) : Option (List Char) :=
  (stripFront? ending.reverse cs.reverse).map List.reverse

/-- The lines of a text, without their line feeds. A line feed at the end of the text begins no
further line. -/
def splitLines : List Char → List (List Char)
  | [] => []
  | c :: cs =>
    if c = '\n' then
      [] :: splitLines cs
    else
      match splitLines cs with
      | [] => [[c]]
      | line :: lines => (c :: line) :: lines

/-- A line without a carriage return at its end. -/
def dropReturn (line : List Char) : List Char :=
  (stripEnd? ['\r'] line).getD line

/-- The lines of a text, each ended by a line feed or by a carriage return and a line feed. -/
def lines (text : String) : List String :=
  (splitLines text.toList).map fun line => String.ofList (dropReturn line)

end CommandMacros.Text

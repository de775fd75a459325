import CommandMacros.Text.Position
import CommandMacros.Token.Scan

/-!
Places in a source text. A byte offset is a boundary when the bytes before it are a front of the
text's characters; a span lies within a source when it is a range between two boundaries. What
stands between two boundaries is what slicing the text there gives.
-/

namespace CommandMacros

namespace Scan

@[simp] theorem byteLength_nil : byteLength [] = 0 :=
  rfl

@[simp] theorem byteLength_cons (c : Char) (cs : List Char) :
    byteLength (c :: cs) = c.utf8Size + byteLength cs :=
  rfl

@[simp] theorem byteLength_append (xs ys : List Char) :
    byteLength (xs ++ ys) = byteLength xs + byteLength ys := by
  induction xs with
  | nil => simp only [List.nil_append, byteLength_nil, Nat.zero_add]
  | cons c xs ih => simp only [List.cons_append, byteLength_cons, ih, Nat.add_assoc]

theorem byteLength_pos {cs : List Char} (h : cs ≠ []) : 0 < byteLength cs := by
  cases cs with
  | nil => exact absurd rfl h
  | cons c cs => exact Nat.add_pos_left c.utf8Size_pos _

theorem utf8ByteSize_ofList (cs : List Char) : (String.ofList cs).utf8ByteSize = byteLength cs := by
  induction cs with
  | nil => rfl
  | cons c cs ih =>
      have hcons : String.ofList (c :: cs) = String.singleton c ++ String.ofList cs := by
        rw [String.singleton_eq_ofList, ← String.ofList_append]
        rfl
      rw [hcons, String.utf8ByteSize_append, String.utf8ByteSize_singleton, ih, byteLength_cons]

theorem byteLength_toList (s : String) : byteLength s.toList = s.utf8ByteSize := by
  rw [← utf8ByteSize_ofList, String.ofList_toList]

end Scan

/-- The bytes before the offset are a front of the characters of the text. -/
def IsBoundary (source : String) (offset : Nat) : Prop :=
  (⟨offset⟩ : String.Pos.Raw).IsValid source

theorem isBoundary_iff {source : String} {offset : Nat} :
    IsBoundary source offset ↔
      ∃ front back, source.toList = front ++ back ∧ offset = Scan.byteLength front := by
  rw [IsBoundary, String.Pos.Raw.isValid_iff_exists_append]
  constructor
  · rintro ⟨front, back, hsource, hoffset⟩
    refine ⟨front.toList, back.toList, ?_, ?_⟩
    · rw [hsource, String.toList_append]
    · rw [Scan.byteLength_toList]
      exact congrArg String.Pos.Raw.byteIdx hoffset
  · rintro ⟨front, back, hsource, hoffset⟩
    refine ⟨String.ofList front, String.ofList back, ?_, ?_⟩
    · rw [← String.ofList_append, ← hsource, String.ofList_toList]
    · rw [String.Pos.Raw.ext_iff, String.byteIdx_rawEndPos, Scan.utf8ByteSize_ofList]
      exact hoffset

namespace IsBoundary

variable {source : String} {front back : List Char}

theorem of_append (h : source.toList = front ++ back) :
    IsBoundary source (Scan.byteLength front) :=
  isBoundary_iff.mpr ⟨front, back, h, rfl⟩

theorem zero (source : String) : IsBoundary source 0 :=
  isBoundary_iff.mpr ⟨[], source.toList, rfl, rfl⟩

theorem le_utf8ByteSize {offset : Nat} (h : IsBoundary source offset) :
    offset ≤ source.utf8ByteSize := by
  obtain ⟨front, back, hsource, rfl⟩ := isBoundary_iff.mp h
  rw [← Scan.byteLength_toList, hsource, Scan.byteLength_append]
  exact Nat.le_add_right _ _

end IsBoundary

/-- A range of bytes between two boundaries of the source. -/
structure Span.Within (source : String) (span : Span) : Prop where
  ordered : span.start ≤ span.stop
  start_isBoundary : IsBoundary source span.start
  stop_isBoundary : IsBoundary source span.stop

namespace Span.Within

variable {source : String} {span other : Span}

theorem stop_le (h : span.Within source) : span.stop ≤ source.utf8ByteSize :=
  h.stop_isBoundary.le_utf8ByteSize

theorem point {offset : Nat} (h : IsBoundary source offset) : (Span.point offset).Within source :=
  ⟨Nat.le_refl _, h, h⟩

theorem after (h : span.Within source) : span.after.Within source :=
  point h.stop_isBoundary

theorem through (h : span.Within source) (hother : other.Within source) :
    (span.through other).Within source where
  ordered := Nat.le_max_left _ _
  start_isBoundary := h.start_isBoundary
  stop_isBoundary := by
    rw [Span.through]
    rcases Nat.le_total span.start other.stop with hle | hle
    · rw [Nat.max_eq_right hle]
      exact hother.stop_isBoundary
    · rw [Nat.max_eq_left hle]
      exact h.start_isBoundary

end Span.Within

/-! ### What stands between two boundaries -/

section Slices

open Scan String.Pos.Raw

theorem raw_add_char (offset : Nat) (c : Char) :
    (⟨offset⟩ : String.Pos.Raw) + c = ⟨offset + c.utf8Size⟩ :=
  rfl

theorem raw_ne_of_cons (offset : Nat) (c : Char) (cs : List Char) :
    (⟨offset⟩ : String.Pos.Raw) ≠ ⟨offset + byteLength (c :: cs)⟩ := by
  intro h
  have hindex : offset = offset + byteLength (c :: cs) := congrArg String.Pos.Raw.byteIdx h
  have hpos : 0 < byteLength (c :: cs) := byteLength_pos (List.cons_ne_nil c cs)
  omega

theorem extract_upTo (middle back : List Char) (offset : Nat) :
    extract.go₂ (middle ++ back) ⟨offset⟩ ⟨offset + byteLength middle⟩ = middle := by
  induction middle generalizing offset with
  | nil =>
      cases back with
      | nil => rfl
      | cons c back => exact if_pos rfl
  | cons c middle ih =>
      refine (if_neg (raw_ne_of_cons offset c middle)).trans (congrArg (c :: ·) ?_)
      rw [raw_add_char, byteLength_cons, ← Nat.add_assoc]
      exact ih (offset + c.utf8Size)

theorem extract_from (front rest : List Char) (offset : Nat) (stop : String.Pos.Raw) :
    extract.go₁ (front ++ rest) ⟨offset⟩ ⟨offset + byteLength front⟩ stop =
      extract.go₂ rest ⟨offset + byteLength front⟩ stop := by
  induction front generalizing offset with
  | nil =>
      cases rest with
      | nil => rfl
      | cons c rest => exact if_pos rfl
  | cons c front ih =>
      refine (if_neg (raw_ne_of_cons offset c front)).trans ?_
      rw [raw_add_char, byteLength_cons, ← Nat.add_assoc]
      exact ih (offset + c.utf8Size)

/-- Slicing a source at a range of bytes gives the characters that stand there. -/
theorem extract_eq {source : String} {front middle back : List Char}
    (hmiddle : middle ≠ []) (h : source.toList = front ++ middle ++ back) :
    extract source ⟨byteLength front⟩ ⟨byteLength front + byteLength middle⟩ =
      String.ofList middle := by
  have hpos : 0 < byteLength middle := byteLength_pos hmiddle
  have hrange : ¬byteLength front ≥ byteLength front + byteLength middle := by omega
  have hfrom := extract_from front (middle ++ back) 0 ⟨byteLength front + byteLength middle⟩
  rw [Nat.zero_add] at hfrom
  refine (if_neg hrange).trans (congrArg String.ofList ?_)
  rw [h, List.append_assoc]
  exact hfrom.trans (extract_upTo middle back (byteLength front))

/-- The bytes of the characters in front are taken first. -/
theorem takeBytes_add (front back : List Char) (offset : Nat) :
    Text.takeBytes (byteLength front + offset) (front ++ back) =
      front ++ Text.takeBytes offset back := by
  induction front with
  | nil => rw [byteLength_nil, Nat.zero_add, List.nil_append, List.nil_append]
  | cons c front ih =>
      have hfits : c.utf8Size ≤ c.utf8Size + byteLength front + offset := by omega
      rw [List.cons_append, Text.takeBytes, byteLength_cons, if_pos hfits, Nat.add_assoc,
        Nat.add_sub_cancel_left, ih, List.cons_append]

theorem takeBytes_append (front back : List Char) :
    Text.takeBytes (byteLength front) (front ++ back) = front := by
  have hnone : Text.takeBytes 0 back = [] := by
    cases back with
    | nil => rfl
    | cons c back => exact if_neg (Nat.not_le.mpr c.utf8Size_pos)
  have hall := takeBytes_add front back 0
  rwa [Nat.add_zero, hnone, List.append_nil] at hall

/-- The line of a boundary counts the line feeds before it. -/
theorem lineAt_eq {source : String} {front back : List Char} (h : source.toList = front ++ back) :
    Text.lineAt source (byteLength front) = front.count '\n' + 1 := by
  rw [Text.lineAt, h, takeBytes_append]

/-- A place in what follows is on as many lines more as there are line feeds in front. -/
theorem lineAt_add (front back : List Char) (offset : Nat) :
    Text.lineAt (String.ofList (front ++ back)) (byteLength front + offset) =
      front.count '\n' + Text.lineAt (String.ofList back) offset := by
  rw [Text.lineAt, Text.lineAt, String.toList_ofList, String.toList_ofList, takeBytes_add,
    List.count_append, Nat.add_assoc]

end Slices

end CommandMacros

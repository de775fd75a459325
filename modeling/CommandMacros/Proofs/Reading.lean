import CommandMacros.Parsed
import CommandMacros.Proofs.Token.Place

/-!
Places that readers keep to. A region is a set of places which holds whatever readers make of the
places of their tokens; a reading keeps to a region when all it leaves behind, a failure included,
lies in it.
-/

namespace CommandMacros

/-- A set of places that is closed under what is made of places: the beginning of the source, the
end of a place, and the range between two of them. -/
structure Region where
  contains : Span → Prop
  zero : contains (.point 0)
  after {span : Span} (h : contains span) : contains span.after
  through {first last : Span} (hfirst : contains first) (hlast : contains last) :
    contains (first.through last)

instance : Membership Span Region where
  mem region span := region.contains span

namespace Region

/-- All places. -/
def everywhere : Region where
  contains _ := True
  zero := trivial
  after _ := trivial
  through _ _ := trivial

theorem mem_everywhere (span : Span) : span ∈ everywhere :=
  trivial

/-- The places within a source. -/
def within (source : String) : Region where
  contains span := span.Within source
  zero := .point (.zero source)
  after h := h.after
  through hfirst hlast := hfirst.through hlast

end Region

/-- Every token lies in the region. -/
def Placed (region : Region) (tokens : List Token) : Prop :=
  ∀ t ∈ tokens, t.span ∈ region

namespace Placed

variable {region : Region} {t : Token} {tokens others : List Token}

theorem nil (region : Region) : Placed region [] :=
  fun _ ht => nomatch ht

theorem cons (ht : t.span ∈ region) (h : Placed region tokens) : Placed region (t :: tokens) :=
  List.forall_mem_cons.mpr ⟨ht, h⟩

theorem head (h : Placed region (t :: tokens)) : t.span ∈ region :=
  h t List.mem_cons_self

theorem tail (h : Placed region (t :: tokens)) : Placed region tokens :=
  (List.forall_mem_cons.mp h).2

theorem append (h : Placed region tokens) (hothers : Placed region others) :
    Placed region (tokens ++ others) :=
  List.forall_mem_append.mpr ⟨h, hothers⟩

theorem of_subset (h : Placed region tokens) (hsubset : others ⊆ tokens) : Placed region others :=
  fun t ht => h t (hsubset ht)

theorem drop (h : Placed region tokens) (n : Nat) : Placed region (tokens.drop n) :=
  h.of_subset (List.drop_subset n tokens)

theorem finishOf_mem (h : Placed region tokens) : finishOf tokens ∈ region := by
  unfold finishOf
  split
  · next t hlast => exact region.after (h t (List.mem_of_getLast? hlast))
  · exact region.zero

end Placed

theorem spanAt_mem {region : Region} {finish : Span} (hfinish : finish ∈ region)
    {tokens : List Token} (h : Placed region tokens) : spanAt finish tokens ∈ region := by
  cases tokens with
  | nil => exact hfinish
  | cons t rest => exact h.head

/-- The computation gives something that satisfies the condition, or fails at a place in the
region. -/
def Yields {α : Type} (region : Region) (condition : α → Prop) : Except Fault α → Prop
  | .ok value => condition value
  | .error f => f.span ∈ region

/-- The reading gives a value that satisfies the condition and leaves tokens in the region, or fails
at a place in it. -/
def Reads {α : Type} {bound : Nat} (region : Region) (condition : α → Prop) :
    Except Fault (Parsed α bound) → Prop :=
  Yields region fun parsed => condition parsed.value ∧ Placed region parsed.rest

section Combinators

variable {α β : Type} {region : Region}

theorem Yields.bind {condition : α → Prop} {next : β → Prop} {result : Except Fault α}
    {rest : α → Except Fault β} (h : Yields region condition result)
    (hrest : ∀ value, condition value → Yields region next (rest value)) :
    Yields region next (result >>= rest) := by
  cases result with
  | ok value => exact hrest value h
  | error f => exact h

theorem Yields.map {condition : α → Prop} {next : β → Prop} {result : Except Fault α} {f : α → β}
    (h : Yields region condition result) (hf : ∀ value, condition value → next (f value)) :
    Yields region next (result.map f) := by
  cases result with
  | ok value => exact hf value h
  | error f => exact h

theorem Yields.mono {condition next : α → Prop} {result : Except Fault α}
    (h : Yields region condition result) (hnext : ∀ value, condition value → next value) :
    Yields region next result := by
  cases result with
  | ok value => exact hnext value h
  | error f => exact h

theorem yields_everywhere (result : Except Fault α) :
    Yields .everywhere (fun _ => True) result := by
  cases result with
  | ok value => trivial
  | error f => exact Region.mem_everywhere f.span

/-- What is expected is one of the tokens, and others of them are left. -/
theorem yields_expect {finish : Span} (hfinish : finish ∈ region) (test : Token → Bool)
    (error : MacroError) {tokens : List Token} (htokens : Placed region tokens) :
    Yields region (fun parsed =>
      test parsed.value = true ∧ parsed.value ∈ tokens ∧ parsed.rest ⊆ tokens)
      (expect finish test error tokens) := by
  cases tokens with
  | nil => exact hfinish
  | cons t rest =>
      rw [expect]
      split
      · next htest => exact ⟨htest, List.mem_cons_self, List.subset_cons_self t rest⟩
      · exact htokens.head

theorem reads_expect {finish : Span} (hfinish : finish ∈ region) (test : Token → Bool)
    (error : MacroError) {tokens : List Token} (htokens : Placed region tokens) :
    Reads region (fun t => test t = true ∧ t.span ∈ region) (expect finish test error tokens) := by
  refine (yields_expect hfinish test error htokens).mono ?_
  rintro parsed ⟨htest, hmem, hrest⟩
  exact ⟨⟨htest, htokens _ hmem⟩, htokens.of_subset hrest⟩

end Combinators

end CommandMacros

import CommandMacros.TestCase.Category

/-!
Which categories are selected, and which requests are reported. What is selected depends only on
which requests there are, not on their order or on how often one is made. What is reported does
depend on the order: a request is called not found when it adds nothing to those before it, also if
there are categories it asks for.
-/

namespace CommandMacros.Categories

variable {α : Type}

/-- A request asks for the category, or for one above it. -/
def AskedFor (requests : List String) (name : String) : Prop :=
  ∃ request ∈ requests, covers (trimSlashes request) name = true

instance (requests : List String) (name : String) : Decidable (AskedFor requests name) :=
  inferInstanceAs (Decidable (∃ request ∈ requests, covers (trimSlashes request) name = true))

/-- All the categories that the request asks for are asked for by others. -/
def AddsNothing (categories : Categories α) (others : List String) (request : String) : Prop :=
  ∀ name ∈ categories.names, covers (trimSlashes request) name = true → AskedFor others name

instance (categories : Categories α) (others : List String) (request : String) :
    Decidable (categories.AddsNothing others request) :=
  inferInstanceAs (Decidable (∀ name ∈ categories.names,
    covers (trimSlashes request) name = true → AskedFor others name))

/-! ### Choosing names -/

/-- What one request adds to the chosen names. -/
def further (names chosen : List String) (request : String) : List String :=
  names.filter fun name => covers request name && !chosen.contains name

theorem mem_further_iff {names chosen : List String} {request name : String} :
    name ∈ further names chosen request ↔
      name ∈ names ∧ covers request name = true ∧ name ∉ chosen := by
  rw [further, List.mem_filter, Bool.and_eq_true, Bool.not_eq_true', List.contains_eq_mem,
    decide_eq_false_iff_not]

/-- The names a request covers are chosen once it has been made, whoever added them. -/
theorem mem_choose_iff {names chosen requests : List String} {name : String} :
    name ∈ (choose names chosen requests).1 ↔
      name ∈ chosen ∨ name ∈ names ∧ ∃ request ∈ requests, covers request name = true := by
  induction requests generalizing chosen with
  | nil => simp [choose]
  | cons request others ih =>
      have hothers := @ih (chosen ++ further names chosen request)
      rw [List.mem_append, mem_further_iff] at hothers
      refine hothers.trans ?_
      simp only [List.mem_cons, exists_eq_or_imp]
      by_cases hchosen : name ∈ chosen
      · simp only [hchosen, true_or]
      · simp only [hchosen, not_false_eq_true, and_true, false_or, and_or_left]

/-- The last request is idle if it adds nothing to what the others chose. -/
theorem idle_choose_concat (names chosen requests : List String) (request : String) :
    (choose names chosen (requests ++ [request])).2 =
      (choose names chosen requests).2 ++
        if (further names (choose names chosen requests).1 request).isEmpty then [request]
        else [] := by
  induction requests generalizing chosen with
  | nil => rfl
  | cons other requests ih =>
      have hrest := ih (chosen ++ further names chosen other)
      change (if (further names chosen other).isEmpty then _ else _) =
        (if (further names chosen other).isEmpty then _ else _) ++ _
      cases (further names chosen other).isEmpty with
      | true => exact congrArg (other :: ·) hrest
      | false => exact hrest

/-! ### Selections -/

section Selections

variable (categories : Categories α) (requests : List String)

theorem idle_select :
    (categories.select requests).idle =
      (choose categories.names [] (requests.map trimSlashes)).2 := by
  cases requests with
  | nil => rfl
  | cons request others => rfl

theorem mem_chosen_iff {name : String} (hname : name ∈ categories.names) :
    name ∈ (choose categories.names [] (requests.map trimSlashes)).1 ↔ AskedFor requests name := by
  rw [mem_choose_iff]
  constructor
  · rintro (hnil | ⟨-, trimmed, htrimmed, hcovers⟩)
    · cases hnil
    · obtain ⟨request, hrequest, rfl⟩ := List.mem_map.mp htrimmed
      exact ⟨request, hrequest, hcovers⟩
  · rintro ⟨request, hrequest, hcovers⟩
    exact .inr ⟨hname, trimSlashes request, List.mem_map_of_mem hrequest, hcovers⟩

/-- The categories that are asked for, in their order. -/
theorem selected_select (h : requests ≠ []) :
    (categories.select requests).selected =
      ⟨categories.entries.filter fun entry => AskedFor requests entry.1⟩ := by
  rw [select, if_neg (by rwa [List.isEmpty_iff])]
  refine congrArg Categories.mk (List.filter_congr fun entry hentry => ?_)
  obtain ⟨name, values⟩ := entry
  have hname : name ∈ categories.names := List.mem_map_of_mem hentry
  change List.contains _ name = decide (AskedFor requests name)
  rw [List.contains_eq_mem, decide_eq_decide]
  exact mem_chosen_iff categories requests hname

theorem idle_concat (request : String) :
    (categories.select (requests ++ [request])).idle =
      (categories.select requests).idle ++
        if categories.AddsNothing requests request then [trimSlashes request] else [] := by
  have hempty : (further categories.names
      (choose categories.names [] (requests.map trimSlashes)).1 (trimSlashes request)).isEmpty ↔
        categories.AddsNothing requests request := by
    rw [List.isEmpty_iff, List.eq_nil_iff_forall_not_mem]
    refine forall_congr' fun name => ?_
    rw [mem_further_iff, not_and, not_and]
    refine forall_congr' fun hname => forall_congr' fun _ => ?_
    rw [Decidable.not_not, mem_chosen_iff categories requests hname]
  rw [idle_select, idle_select, List.map_append, List.map_singleton, idle_choose_concat]
  simp only [hempty]

end Selections

/-- What is selected are the categories that some request asks for, all of them without a request,
whatever the order of the requests and however often they are made. A request is called not found
exactly if it adds nothing to those before it. So it is if it asks for no category at all; and if it
asks for some, it is called not found when others asked for all of them before. -/
theorem selection_of_requests (categories : Categories α) (requests : List String) :
    (categories.select []).selected = categories ∧
    (requests ≠ [] → (categories.select requests).selected =
      ⟨categories.entries.filter fun entry => AskedFor requests entry.1⟩) ∧
    (∀ others, (∀ request, request ∈ requests ↔ request ∈ others) →
      (categories.select others).selected = (categories.select requests).selected) ∧
    (categories.select []).idle = [] ∧
    ∀ request, (categories.select (requests ++ [request])).idle =
      (categories.select requests).idle ++
        if categories.AddsNothing requests request then [trimSlashes request] else [] := by
  refine ⟨rfl, selected_select categories requests, fun others hsame => ?_, rfl,
    idle_concat categories requests⟩
  have hnil : requests = [] ↔ others = [] := by
    simp only [List.eq_nil_iff_forall_not_mem, hsame]
  by_cases hrequests : requests = []
  · rw [hrequests, hnil.mp hrequests]
  · rw [selected_select categories requests hrequests,
      selected_select categories others (mt hnil.mpr hrequests)]
    have hasked : AskedFor others = AskedFor requests := by
      funext name
      simp only [AskedFor, hsame]
    simp only [hasked]

/-- Two tests below a directory, and one beside it. -/
def nestedNames : Categories Unit :=
  ⟨[("limits", [()]), ("limits/deep", [()]), ("loops", [()])]⟩

/-- A request for what lies below an earlier one adds nothing, and the selection is that of the
earlier one alone. -/
theorem selection_of_nested_requests :
    let requests := ["/limits/", "limits/deep"]
    requests ≠ [] ∧ (∀ request, request ∈ requests ↔ request ∈ requests.reverse) ∧
      (nestedNames.select requests).selected = ⟨[("limits", [()]), ("limits/deep", [()])]⟩ ∧
      (nestedNames.select requests.reverse).selected = (nestedNames.select requests).selected ∧
      (nestedNames.select (requests ++ ["loop"])).idle =
        (nestedNames.select requests).idle ++ ["loop"] := by
  intro requests
  obtain ⟨-, hselected, hsame, -, hidle⟩ := selection_of_requests nestedNames requests
  have hne : requests ≠ [] := nofun
  have hreverse : ∀ request, request ∈ requests ↔ request ∈ requests.reverse := fun request =>
    List.mem_reverse.symm
  have hadds : nestedNames.AddsNothing requests "loop" := by decide +kernel
  refine ⟨hne, hreverse, (hselected hne).trans ?_, hsame _ hreverse, ?_⟩
  · exact congrArg Categories.mk (by decide +kernel)
  · rw [hidle, if_pos hadds]
    exact congrArg _ (by decide +kernel)

/-- The second request is called not found, although there is the category it asks for. -/
theorem found_request_called_notFound :
    (nestedNames.select ["limits", "limits/deep"]).idle = ["limits/deep"] ∧
      "limits/deep" ∈ nestedNames.names ∧
      covers (trimSlashes "limits/deep") "limits/deep" = true := by
  decide +kernel

end CommandMacros.Categories

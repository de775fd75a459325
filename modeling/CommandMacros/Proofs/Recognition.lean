import CommandMacros.Parsed

/-!
What readers recognise. A reading gives a value and leaves tokens; of readers in a row, the next one
sees of the one before it no more than that. So what each of them gives, said exactly, says exactly
what they give together.
-/

namespace CommandMacros

/-- The reading succeeds with this value and leaves these tokens. -/
def Gives {α : Type} {bound : Nat} (result : Except Fault (Parsed α bound)) (value : α)
    (rest : List Token) : Prop :=
  ∃ parsed, result = .ok parsed ∧ parsed.value = value ∧ parsed.rest = rest

section Combinators

variable {α β : Type} {bound width : Nat} {value : α} {other : β} {rest : List Token}

@[simp] theorem gives_ok {parsed : Parsed α bound} :
    Gives (.ok parsed) value rest ↔ parsed.value = value ∧ parsed.rest = rest := by
  constructor
  · rintro ⟨_, ⟨⟩, hvalue, hrest⟩
    exact ⟨hvalue, hrest⟩
  · rintro ⟨hvalue, hrest⟩
    exact ⟨parsed, rfl, hvalue, hrest⟩

@[simp] theorem gives_pure {parsed : Parsed α bound} :
    Gives (pure parsed) value rest ↔ parsed.value = value ∧ parsed.rest = rest :=
  gives_ok

@[simp] theorem not_gives_error {f : Fault} :
    ¬Gives (.error f : Except Fault (Parsed α bound)) value rest := by
  rintro ⟨_, ⟨⟩, _⟩

/-- The next reader goes on from what the one before it gives. -/
theorem Gives.bind {result : Except Fault (Parsed α bound)}
    {next : Parsed α bound → Except Fault (Parsed β width)} {left : List Token}
    (h : Gives result value left)
    (hnext : ∀ parsed, parsed.value = value → parsed.rest = left → Gives (next parsed) other rest) :
    Gives (result >>= next) other rest := by
  obtain ⟨parsed, rfl, hvalue, hrest⟩ := h
  exact hnext parsed hvalue hrest

/-- What comes of a reader and what follows it, if that depends only on what the reader gives. -/
theorem bind_iff {γ : Type} (accepts : Except Fault γ → Prop) (herror : ∀ f, ¬accepts (.error f))
    {result : Except Fault (Parsed α bound)} {next : Parsed α bound → Except Fault γ}
    {first : α → List Token → Prop} (second : α → List Token → Prop)
    (hfirst : ∀ value left, Gives result value left ↔ first value left)
    (hnext : ∀ parsed, first parsed.value parsed.rest →
      (accepts (next parsed) ↔ second parsed.value parsed.rest)) :
    accepts (result >>= next) ↔ ∃ value left, first value left ∧ second value left := by
  cases result with
  | error f =>
      constructor
      · exact fun h => absurd h (herror f)
      · rintro ⟨value, left, h, _⟩
        exact absurd ((hfirst value left).mpr h) not_gives_error
  | ok parsed =>
      have hparsed : first parsed.value parsed.rest := (hfirst _ _).mp (gives_ok.mpr ⟨rfl, rfl⟩)
      constructor
      · exact fun h => ⟨parsed.value, parsed.rest, hparsed, (hnext parsed hparsed).mp h⟩
      · rintro ⟨value, left, h, hsecond⟩
        obtain ⟨rfl, rfl⟩ := gives_ok.mp ((hfirst value left).mpr h)
        exact (hnext parsed hparsed).mpr hsecond

/-- What two readers give in a row. -/
theorem gives_bind {result : Except Fault (Parsed α bound)}
    {next : Parsed α bound → Except Fault (Parsed β width)} {first : α → List Token → Prop}
    (second : α → List Token → Prop)
    (hfirst : ∀ value left, Gives result value left ↔ first value left)
    (hnext : ∀ parsed, first parsed.value parsed.rest →
      (Gives (next parsed) other rest ↔ second parsed.value parsed.rest)) :
    Gives (result >>= next) other rest ↔ ∃ value left, first value left ∧ second value left :=
  bind_iff (Gives · other rest) (fun _ => not_gives_error) second hfirst hnext

/-- A reading that is only counted differently gives the same. -/
theorem gives_bind_pure {result : Except Fault (Parsed α bound)}
    {f : Parsed α bound → Parsed α width}
    (hf : ∀ parsed, (f parsed).value = parsed.value ∧ (f parsed).rest = parsed.rest) :
    Gives (result >>= fun parsed => pure (f parsed)) value rest ↔ Gives result value rest := by
  cases result with
  | error fault => exact iff_of_false not_gives_error not_gives_error
  | ok parsed =>
      refine gives_pure.trans (Iff.trans ?_ gives_ok.symm)
      rw [(hf parsed).1, (hf parsed).2]

/-- A computation after a reader that succeeds if the reader gives something fitting. -/
theorem bind_eq_ok_iff {γ : Type} {result : Except Fault (Parsed α bound)}
    {next : Parsed α bound → Except Fault γ} {outcome : γ} {first : α → List Token → Prop}
    (second : α → List Token → Prop)
    (hfirst : ∀ value left, Gives result value left ↔ first value left)
    (hnext : ∀ parsed, first parsed.value parsed.rest →
      (next parsed = .ok outcome ↔ second parsed.value parsed.rest)) :
    result >>= next = .ok outcome ↔ ∃ value left, first value left ∧ second value left :=
  bind_iff (· = .ok outcome) (fun _ => nofun) second hfirst hnext

/-- Exactly one token is expected, and it satisfies the test. -/
theorem gives_expect {finish : Span} {test : Token → Bool} {error : MacroError}
    {tokens : List Token} {t : Token} :
    Gives (expect finish test error tokens) t rest ↔ tokens = t :: rest ∧ test t = true := by
  cases tokens with
  | nil => simp [expect]
  | cons u others =>
      rw [expect]
      split
      · next htest =>
          rw [gives_ok]
          constructor
          · rintro ⟨rfl, rfl⟩
            exact ⟨rfl, htest⟩
          · rintro ⟨⟨⟩, _⟩
            exact ⟨rfl, rfl⟩
      · next htest =>
          constructor
          · exact fun h => absurd h not_gives_error
          · rintro ⟨⟨⟩, h⟩
            exact absurd h htest

end Combinators

end CommandMacros

import CommandMacros.Diagnostic

/-!
Reading from a list of tokens. A reader gives what it has read, the number of tokens it took and the
tokens left. These are fewer than before, so that a loop of readers comes to an end.
-/

namespace CommandMacros

/-- An error at a place. -/
structure Fault where
  error : MacroError
  span : Span
deriving DecidableEq

/-- The error as a diagnostic. -/
def Fault.toDiagnostic (fault : Fault) : Diagnostic :=
  { error := fault.error, span := some fault.span }

/-- Something read from `bound` tokens: how many of them it took, at least one, and the others. -/
structure Parsed (α : Type) (bound : Nat) where
  value : α
  rest : List Token
  taken : Nat
  taken_pos : 0 < taken
  rest_add_taken : rest.length + taken = bound

namespace Parsed

variable {α β : Type} {bound : Nat}

theorem shorter (parsed : Parsed α bound) : parsed.rest.length < bound := by
  have := parsed.taken_pos
  have := parsed.rest_add_taken
  omega

/-- A reading of one token, after which `rest` is left. -/
def leaving (value : α) (rest : List Token) : Parsed α (rest.length + 1) :=
  ⟨value, rest, 1, Nat.one_pos, rfl⟩

def map (f : α → β) (parsed : Parsed α bound) : Parsed β bound :=
  ⟨f parsed.value, parsed.rest, parsed.taken, parsed.taken_pos, parsed.rest_add_taken⟩

/-- The same reading with one token more in front. -/
def afterOne (parsed : Parsed α bound) : Parsed α (bound + 1) :=
  ⟨parsed.value, parsed.rest, parsed.taken + 1, Nat.succ_pos _,
    congrArg Nat.succ parsed.rest_add_taken⟩

theorem andMaybe_taken_pos (first : Parsed β bound) (next : Parsed α (first.rest.length + 1)) :
    0 < first.taken + next.taken - 1 := by
  have := first.taken_pos
  have := next.taken_pos
  omega

theorem andMaybe_rest_add_taken (first : Parsed β bound)
    (next : Parsed α (first.rest.length + 1)) :
    next.rest.length + (first.taken + next.taken - 1) = bound := by
  have := first.rest_add_taken
  have := next.taken_pos
  have := next.rest_add_taken
  omega

/-- A reading that goes on where another one ends, and may take no token. -/
def andMaybe (first : Parsed β bound) (next : Parsed α (first.rest.length + 1)) :
    Parsed α bound :=
  ⟨next.value, next.rest, first.taken + next.taken - 1, andMaybe_taken_pos first next,
    andMaybe_rest_add_taken first next⟩

/-- A reading that goes on where another one ends. -/
def andThen (first : Parsed β bound) (next : Parsed α first.rest.length) : Parsed α bound :=
  first.andMaybe next.afterOne

theorem rest_lt_of_rest_eq {first : Parsed β bound} {t : Token} {rest : List Token}
    (h : first.rest = t :: rest) : rest.length < first.rest.length := by
  rw [h]
  exact Nat.lt_succ_self _

theorem rest_succ_le_of_rest_eq {first : Parsed β bound} {t : Token} {rest : List Token}
    (h : first.rest = t :: rest) : rest.length + 1 ≤ bound :=
  Nat.le_trans (rest_lt_of_rest_eq h) (Nat.le_of_lt first.shorter)

theorem afterToken_rest_add_taken {first : Parsed β bound} {t : Token} {rest : List Token}
    (h : first.rest = t :: rest) (next : Parsed α (rest.length + 1)) :
    next.rest.length + (first.taken + next.taken) = bound := by
  have hfirst := first.rest_add_taken
  have := next.rest_add_taken
  rw [h, List.length_cons] at hfirst
  omega

/-- A reading that goes on after the token that follows another one, and may take no token. -/
def afterToken (first : Parsed β bound) {t : Token} {rest : List Token}
    (h : first.rest = t :: rest) (next : Parsed α (rest.length + 1)) : Parsed α bound :=
  ⟨next.value, next.rest, first.taken + next.taken, Nat.add_pos_left first.taken_pos _,
    afterToken_rest_add_taken h next⟩

/-- A reading that also takes the token that follows it. -/
def throughToken (first : Parsed β bound) {t : Token} {rest : List Token}
    (h : first.rest = t :: rest) (value : α) : Parsed α bound :=
  first.afterToken h (.leaving value rest)

end Parsed

/-- The place of the first token, or `finish` when there is none. -/
def spanAt (finish : Span) : List Token → Span
  | [] => finish
  | t :: _ => t.span

/-- The empty place just after the last token. -/
def finishOf (tokens : List Token) : Span :=
  match tokens.getLast? with
  | some t => t.span.after
  | none => .point 0

/-- Reads a token that satisfies the test. -/
def expect (finish : Span) (test : Token → Bool) (error : MacroError) (tokens : List Token) :
    Except Fault (Parsed Token tokens.length) :=
  match tokens with
  | [] => .error ⟨error, finish⟩
  | t :: rest => if test t then .ok (.leaving t rest) else .error ⟨error, t.span⟩

/-- Whether the first token satisfies the test. -/
def nextIs (test : Token → Bool) (tokens : List Token) : Bool :=
  tokens.head?.any test

end CommandMacros

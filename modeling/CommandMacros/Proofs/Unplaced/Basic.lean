import CommandMacros.Definition.Basic
import CommandMacros.Emitted
import CommandMacros.Parsed

/-!
Things without their places. Each kind of thing that has a place in the source, or parts that have
one, is set to the same place; two things differ in their places at most when they are equal then.
Reading tokens looks at no place, so that it gives the same thing up to places wherever the tokens
stand, and fails alike.
-/

namespace CommandMacros

/-- The token at no place in particular. -/
def Token.unplaced (t : Token) : Token :=
  { t with span := .point 0 }

def Emitted.unplaced (e : Emitted) : Emitted :=
  { e with token := e.token.unplaced }

mutual

def Operand.unplaced : Operand → Operand
  | .token t => .token t.unplaced
  | .parameter index => .parameter index
  | .allPositionals => .allPositionals
  | .call function arguments _ => .call function (unplacedAll arguments) (.point 0)

def Operand.unplacedAll : List Operand → List Operand
  | [] => []
  | operand :: others => operand.unplaced :: unplacedAll others

end

def Expr.unplaced : Expr → Expr
  | .or left right => .or left.unplaced right.unplaced
  | .and left right => .and left.unplaced right.unplaced
  | .not inner => .not inner.unplaced
  | .relation kind left right => .relation kind left.unplaced right.unplaced
  | .operand leaf => .operand leaf.unplaced

mutual

def Directive.unplaced : Directive → Directive
  | .literal tokens => .literal (tokens.map Token.unplaced)
  | .parameter index => .parameter index
  | .allPositionals => .allPositionals
  | .call function arguments _ => .call function (Operand.unplacedAll arguments) (.point 0)
  | .cond condition thenBranch elseBranch =>
    .cond condition.unplaced (unplacedAll thenBranch) (unplacedBranch elseBranch)
  | .doRange variableName first last step body _ =>
    .doRange variableName first.unplaced last.unplaced (step.map Expr.unplaced) (unplacedAll body)
      (.point 0)
  | .doIn variableName list body _ => .doIn variableName list.unplaced (unplacedAll body) (.point 0)
  | .assign variableName value => .assign variableName value.unplaced
  | .setExpand enabled => .setExpand enabled
  | .breakLoop => .breakLoop
  | .invalid error _ => .invalid error (.point 0)

def Directive.unplacedAll : List Directive → List Directive
  | [] => []
  | directive :: others => directive.unplaced :: unplacedAll others

def Directive.unplacedBranch : Option (List Directive) → Option (List Directive)
  | none => none
  | some branch => some (unplacedAll branch)

end

/-- The delimiters of a capture without their places. -/
def Capture.unplaced : Capture → Capture
  | .tokens count => .tokens count
  | .charEnd delimiter => .charEnd delimiter.unplaced
  | .enclose opening closing => .enclose opening.unplaced closing.unplaced
  | .commandEnd => .commandEnd

def Parameter.unplaced (p : Parameter) : Parameter :=
  { p with
    capture := p.capture.unplaced
    default := p.default.map (List.map Token.unplaced) }

def Definition.unplaced (d : Definition) : Definition :=
  { d with
    span := .point 0
    parameters := d.parameters.map Parameter.unplaced
    body := Directive.unplacedAll d.body }

def Diagnostic.unplaced (d : Diagnostic) : Diagnostic :=
  { d with span := d.span.map fun _ => .point 0 }

/-! ### Tokens -/

namespace Token

variable (t : Token)

@[simp] theorem text_unplaced : t.unplaced.text = t.text := rfl

@[simp] theorem isEnd_unplaced : t.unplaced.isEnd = t.isEnd := rfl

@[simp] theorem isMacroId_unplaced : t.unplaced.isMacroId = t.isMacroId := rfl

@[simp] theorem isPunct_unplaced (p : Punct) : t.unplaced.isPunct p = t.isPunct p := rfl

@[simp] theorem matchesKeyword_unplaced (keyword : String) :
    t.unplaced.matchesKeyword keyword = t.matchesKeyword keyword := rfl

@[simp] theorem span_unplaced : t.unplaced.span = .point 0 := rfl

end Token

/-! ### Readings -/

/-- A computation on placed things and one on unplaced things: both give values that correspond, or
both fail with the same error, which is of a given kind. -/
inductive Alike {α β : Type} (errors : MacroError → Prop) (values : α → β → Prop) :
    Except Fault α → Except Fault β → Prop
  | ok {a : α} {b : β} (h : values a b) : Alike errors values (.ok a) (.ok b)
  | error {error : MacroError} {span : Span} (h : errors error) :
      Alike errors values (.error ⟨error, span⟩) (.error ⟨error, .point 0⟩)

/-- Readings of the same tokens, with their places and without. -/
structure ParsedAlike {α β : Type} (unplace : α → β) {bound room : Nat} (read : Parsed α bound)
    (other : Parsed β room) : Prop where
  value : other.value = unplace read.value
  rest : other.rest = read.rest.map Token.unplaced
  taken : other.taken = read.taken

namespace ParsedAlike

variable {α β γ δ : Type} {unplace : α → β} {bound room : Nat} {read : Parsed α bound}
  {other : Parsed β room}

/-- Corresponding readings have nothing left, or corresponding tokens. -/
@[elab_as_elim]
theorem casesOnRest {motive : Parsed α bound → Parsed β room → Prop}
    (h : ParsedAlike unplace read other)
    (nil : ∀ value taken hpos hsum hroom,
      motive ⟨value, [], taken, hpos, hsum⟩ ⟨unplace value, [], taken, hpos, hroom⟩)
    (cons : ∀ value t rest taken hpos hsum hroom, read.rest = t :: rest →
      ParsedAlike unplace ⟨value, t :: rest, taken, hpos, hsum⟩
        ⟨unplace value, t.unplaced :: rest.map Token.unplaced, taken, hpos, hroom⟩ →
      motive ⟨value, t :: rest, taken, hpos, hsum⟩
        ⟨unplace value, t.unplaced :: rest.map Token.unplaced, taken, hpos, hroom⟩) :
    motive read other := by
  obtain ⟨value, rest, taken, hpos, hsum⟩ := read
  obtain ⟨unplaced, others, count, _, hroom⟩ := other
  obtain ⟨hvalue, hrest, htaken⟩ := h
  dsimp only at hvalue hrest htaken
  subst hvalue hrest htaken
  cases rest with
  | nil => exact nil value _ hpos hsum hroom
  | cons t rest => exact cons value t rest _ hpos hsum hroom rfl ⟨rfl, rfl, rfl⟩

theorem leaving {value : α} {unplaced : β} (h : unplaced = unplace value) (rest : List Token) :
    ParsedAlike unplace (.leaving value rest) (.leaving unplaced (rest.map Token.unplaced)) :=
  ⟨h, rfl, rfl⟩

theorem map (h : ParsedAlike unplace read other) {f : α → γ} {g : β → δ} {unplaceNext : γ → δ}
    (hvalue : g (unplace read.value) = unplaceNext (f read.value)) :
    ParsedAlike unplaceNext (read.map f) (other.map g) :=
  ⟨(congrArg g h.value).trans hvalue, h.rest, h.taken⟩

theorem afterOne (h : ParsedAlike unplace read other) :
    ParsedAlike unplace read.afterOne other.afterOne :=
  ⟨h.value, h.rest, congrArg (· + 1) h.taken⟩

theorem andMaybe {unplaceNext : γ → δ} (h : ParsedAlike unplace read other)
    {next : Parsed γ (read.rest.length + 1)} {otherNext : Parsed δ (other.rest.length + 1)}
    (hnext : ParsedAlike unplaceNext next otherNext) :
    ParsedAlike unplaceNext (read.andMaybe next) (other.andMaybe otherNext) := by
  refine ⟨hnext.value, hnext.rest, ?_⟩
  change other.taken + otherNext.taken - 1 = read.taken + next.taken - 1
  rw [h.taken, hnext.taken]

theorem andThen {unplaceNext : γ → δ} (h : ParsedAlike unplace read other)
    {next : Parsed γ read.rest.length} {otherNext : Parsed δ other.rest.length}
    (hnext : ParsedAlike unplaceNext next otherNext) :
    ParsedAlike unplaceNext (read.andThen next) (other.andThen otherNext) :=
  h.andMaybe hnext.afterOne

theorem afterToken {unplaceNext : γ → δ} (h : ParsedAlike unplace read other) {t u : Token}
    {rest others : List Token} (ht : read.rest = t :: rest) (hu : other.rest = u :: others)
    {next : Parsed γ (rest.length + 1)} {otherNext : Parsed δ (others.length + 1)}
    (hnext : ParsedAlike unplaceNext next otherNext) :
    ParsedAlike unplaceNext (read.afterToken ht next) (other.afterToken hu otherNext) := by
  refine ⟨hnext.value, hnext.rest, ?_⟩
  change other.taken + otherNext.taken = read.taken + next.taken
  rw [h.taken, hnext.taken]

end ParsedAlike

namespace Alike

variable {α β γ δ : Type} {errors : MacroError → Prop} {values : α → β → Prop}
  {results : γ → δ → Prop} {first : Except Fault α} {second : Except Fault β}

theorem bind {next : α → Except Fault γ} {other : β → Except Fault δ}
    (h : Alike errors values first second)
    (hnext : ∀ a b, values a b → Alike errors results (next a) (other b)) :
    Alike errors results (first >>= next) (second >>= other) := by
  cases h with
  | ok h => exact hnext _ _ h
  | error h => exact .error h

theorem map {f : α → γ} {g : β → δ} (h : Alike errors values first second)
    (hmap : ∀ a b, values a b → results (f a) (g b)) :
    Alike errors results (first.map f) (second.map g) := by
  cases h with
  | ok h => exact .ok (hmap _ _ h)
  | error h => exact .error h

/-- A choice that does not hang on places. -/
theorem ite {c d : Prop} [Decidable c] [Decidable d] (hiff : d ↔ c) {third : Except Fault α}
    {fourth : Except Fault β} (hthen : c → Alike errors values first second)
    (helse : ¬c → Alike errors values third fourth) :
    Alike errors values (if c then first else third) (if d then second else fourth) := by
  by_cases h : c
  · rw [if_pos h, if_pos (hiff.mpr h)]
    exact hthen h
  · rw [if_neg h, if_neg (mt hiff.mp h)]
    exact helse h

end Alike

/-- Two readings of a number of tokens, with their places and without. -/
abbrev ReadsAlike {α β : Type} {bound room : Nat} (errors : MacroError → Prop) (unplace : α → β) :
    Except Fault (Parsed α bound) → Except Fault (Parsed β room) → Prop :=
  Alike errors (ParsedAlike unplace)

theorem alike_expect {errors : MacroError → Prop} (finish : Span) {test : Token → Bool}
    (htest : ∀ t : Token, test t.unplaced = test t) {error : MacroError} (herror : errors error)
    {tokens others : List Token} (hothers : others = tokens.map Token.unplaced) :
    ReadsAlike errors Token.unplaced (expect finish test error tokens)
      (expect (.point 0) test error others) := by
  subst hothers
  cases tokens with
  | nil => exact .error herror
  | cons t rest =>
      refine .ite (by rw [htest]) (fun _ => ?_) (fun _ => ?_)
      · exact .ok (.leaving rfl rest)
      · exact .error herror

theorem nextIs_unplaced {test : Token → Bool} (htest : ∀ t : Token, test t.unplaced = test t)
    (tokens : List Token) : nextIs test (tokens.map Token.unplaced) = nextIs test tokens := by
  cases tokens with
  | nil => rfl
  | cons t rest => exact htest t

theorem finishOf_unplaced (tokens : List Token) :
    finishOf (tokens.map Token.unplaced) = .point 0 := by
  rw [finishOf, List.getLast?_map]
  cases tokens.getLast? with
  | none => rfl
  | some t => rfl

end CommandMacros

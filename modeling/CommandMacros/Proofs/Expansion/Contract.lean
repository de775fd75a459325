import CommandMacros.Proofs.Expansion.Termination

/-!
Contracts of procedures. A contract says what each call requires and what its answer ensures. When
the routine of every procedure meets its side of the contract, so does every run of them: answers
are as promised, and every call that is made on the way is made as required.
-/

namespace CommandMacros.Expansion.Routine

variable {Call : Type} {Answer : Call → Type} {α β : Type}

/-- What each call requires, and what its answer ensures. -/
structure Contract (Call : Type) (Answer : Call → Type) where
  requires : Call → Prop
  ensures : (c : Call) → Answer c → Prop

/-- The routine makes its calls as the contract requires. If the answers are what it ensures, the
value satisfies the condition. -/
inductive Meets (contract : Contract Call Answer) (condition : α → Prop) :
    Routine Call Answer α → Prop
  | done {value : α} (h : condition value) : Meets contract condition (.done value)
  | call {c : Call} {next : Answer c → Routine Call Answer α} (hcall : contract.requires c)
      (hnext : ∀ answer, contract.ensures c answer → Meets contract condition (next answer)) :
      Meets contract condition (.call c next)

/-- The call is made while the routine runs, by it or by the calls it makes. -/
inductive Makes (body : (c : Call) → Routine Call Answer (Answer c)) (made : Call) :
    {α : Type} → Routine Call Answer α → Prop
  | here {α : Type} (next : Answer made → Routine Call Answer α) : Makes body made (.call made next)
  | inside {α : Type} {c : Call} {next : Answer c → Routine Call Answer α}
      (h : Makes body made (body c)) : Makes body made (.call c next)
  | after {α : Type} {c : Call} {next : Answer c → Routine Call Answer α} {answer : Answer c}
      (hcall : Returns body (body c) answer) (h : Makes body made (next answer)) :
      Makes body made (.call c next)

/-- The call is made by the routine itself. -/
inductive MakesDirectly (body : (c : Call) → Routine Call Answer (Answer c)) (made : Call) :
    {α : Type} → Routine Call Answer α → Prop
  | here {α : Type} (next : Answer made → Routine Call Answer α) :
      MakesDirectly body made (.call made next)
  | after {α : Type} {c : Call} {next : Answer c → Routine Call Answer α} {answer : Answer c}
      (hcall : Returns body (body c) answer) (h : MakesDirectly body made (next answer)) :
      MakesDirectly body made (.call c next)

variable {contract : Contract Call Answer} {condition : α → Prop} {result : β → Prop}
  {routine : Routine Call Answer α}

namespace Meets

theorem pure {value : α} (h : condition value) :
    Meets contract condition (Pure.pure value : Routine Call Answer α) :=
  .done h

theorem ask {c : Call} (h : contract.requires c) :
    Meets contract (contract.ensures c) (Routine.ask c) :=
  .call h fun _ hanswer => .done hanswer

theorem bind {next : α → Routine Call Answer β} (h : Meets contract condition routine)
    (hnext : ∀ value, condition value → Meets contract result (next value)) :
    Meets contract result (routine >>= next) := by
  induction h with
  | done h => exact hnext _ h
  | call hcall _ ih => exact .call hcall ih

theorem imp {other : α → Prop} (h : Meets contract condition routine)
    (himp : ∀ value, condition value → other value) : Meets contract other routine := by
  induction h with
  | done h => exact .done (himp _ h)
  | call hcall _ ih => exact .call hcall ih

/-- A contract that requires less and ensures as much. -/
theorem mono {other : Contract Call Answer} (h : Meets contract condition routine)
    (hrequires : ∀ c, contract.requires c → other.requires c)
    (hensures : ∀ c answer, other.ensures c answer → contract.ensures c answer) :
    Meets other condition routine := by
  induction h with
  | done h => exact .done h
  | call hcall _ ih => exact .call (hrequires _ hcall) fun answer h => ih answer (hensures _ _ h)

end Meets

/-- A run that returns gives what was promised, if the procedures that are called on the way meet
their side. -/
theorem Returns.satisfies_of_made {body : (c : Call) → Routine Call Answer (Answer c)}
    {called : Call → Prop}
    (hbody : ∀ c, called c → contract.requires c → Meets contract (contract.ensures c) (body c))
    {value : α} (h : Returns body routine value)
    (hcalled : ∀ made, Makes body made routine → called made)
    (hmeets : Meets contract condition routine) : condition value := by
  induction h with
  | done =>
      cases hmeets with
      | done h => exact h
  | call hcall _ ihcall ihnext =>
      cases hmeets with
      | call hrequired hnext =>
          have hanswer := ihcall (fun made h => hcalled made (.inside h))
            (hbody _ (hcalled _ (.here _)) hrequired)
          exact ihnext (fun made h => hcalled made (.after hcall h)) (hnext _ hanswer)

section Runs

variable {body : (c : Call) → Routine Call Answer (Answer c)}
  (hbody : ∀ c, contract.requires c → Meets contract (contract.ensures c) (body c))

include hbody

/-- A run that returns gives what was promised. -/
theorem Returns.satisfies {value : α} (h : Returns body routine value)
    (hmeets : Meets contract condition routine) : condition value := by
  induction h with
  | done =>
      cases hmeets with
      | done h => exact h
  | call _ _ ihcall ihnext =>
      cases hmeets with
      | call hrequired hnext => exact ihnext (hnext _ (ihcall (hbody _ hrequired)))

/-- Every call of a run is made as required. -/
theorem Makes.required {made : Call} (h : Makes body made routine)
    (hmeets : Meets contract condition routine) : contract.requires made := by
  induction h with
  | here =>
      cases hmeets with
      | call hrequired _ => exact hrequired
  | inside _ ih =>
      cases hmeets with
      | call hrequired _ => exact ih (hbody _ hrequired)
  | after hcall _ ih =>
      cases hmeets with
      | call hrequired hnext => exact ih (hnext _ (hcall.satisfies hbody (hbody _ hrequired)))

/-- A routine makes its own calls as a contract requires of it, where the answers are what the
procedures give. -/
theorem MakesDirectly.required {own : Contract Call Answer} {made : Call}
    (h : MakesDirectly body made routine) (hmeets : Meets own condition routine)
    (hrequires : ∀ c, own.requires c → contract.requires c)
    (hensures : ∀ c answer, contract.ensures c answer → own.ensures c answer) :
    own.requires made := by
  induction h with
  | here =>
      cases hmeets with
      | call hrequired _ => exact hrequired
  | after hcall _ ih =>
      cases hmeets with
      | call hrequired hnext =>
          have hanswer := hcall.satisfies hbody (hbody _ (hrequires _ hrequired))
          exact ih (hnext _ (hensures _ _ hanswer))

end Runs

end CommandMacros.Expansion.Routine

import CommandMacros.Expansion.Substitute

/-!
Expanding macro calls. The calls in progress are kept as a stack of frames, each with the tokens it
has still to scan; a step copies one token, enters a call, or leaves a frame that is finished. A
step either takes tokens from the topmost frame or removes it, and new frames are only put on top
down to the nesting limit, so every run comes to an end.
-/

namespace CommandMacros.Expansion

/-- A list of tokens being scanned for calls. -/
structure Frame where
  tokens : List Emitted
  /-- The nesting depth of the call that gave the tokens. -/
  depth : Nat
  /-- Where the frame's expansion begins in the output. -/
  start : Nat
  /-- The name to echo when the expansion is complete. -/
  echo : Option String

/-- The frames, innermost first, with the output so far. -/
structure Machine where
  frames : List Frame
  output : Array Token
  log : Log

/-- The macro that a token calls. -/
def callee? (env : Environment) (e : Emitted) : Option Definition :=
  if e.expandable && e.token.isIdentifier then env.table.lookup e.token.text else none

/-- The name to echo for a call from a frame of this depth. -/
def echoName? (env : Environment) (depth : Nat) (name : Token) : Option String :=
  if depth = 0 ∧ env.settings.print = true then some name.text else none

/-- Adds the echo of an expansion if one is wanted. The expansion is not looked at otherwise. -/
def echoExpansion (log : Log) (name? : Option String) (expansion : Unit → List Token) : Log :=
  match name? with
  | some name => log.echo name (expansion ())
  | none => log

/-- The log after entering a call: its name is on the stack and its binding problems are
reported. -/
def enterCall (log : Log) (d : Definition) (bound : BoundCall) : Log :=
  bound.errors.foldl Log.report (log.enter d.name)

def nestingLimit (env : Environment) (d : Definition) (name : Token) : Diagnostic :=
  { error := .nestingLimit d.name env.settings.nestLimit, span := some name.span }

/-- The tokens of the body of a call that has been entered, and the log afterwards. -/
def callBody (env : Environment) (eval : Evaluator) (d : Definition) (bindings : List Binding)
    (depth : Nat) (log : Log) : List Emitted × Log :=
  let activation : Activation := { definition := d, bindings, depth }
  let emission := substitute env eval d.body ⟨activation, log⟩
  (emission.tokens, emission.scene.log)

/-- One step of the topmost frame, which stands on the frames `outer`. -/
def advance (env : Environment) (eval : Evaluator) (frame : Frame) (outer : List Frame)
    (output : Array Token) (log : Log) : Machine :=
  match frame.tokens with
  | [] =>
    if outer.isEmpty then
      ⟨outer, output, log⟩
    else
      let expansion := fun _ => (output.extract frame.start output.size).toList
      ⟨outer, output, echoExpansion log.leave frame.echo expansion⟩
  | e :: tokens =>
    match callee? env e with
    | none => ⟨{ frame with tokens } :: outer, output.push e.token, log⟩
    | some d =>
      let bound := bindArguments d tokens
      let caller := { frame with tokens := bound.rest }
      let echo := echoName? env frame.depth e.token
      let entered := enterCall log d bound
      if frame.depth + 1 ≤ env.settings.nestLimit then
        let (body, log) := callBody env eval d bound.bindings (frame.depth + 1) entered
        let callFrame : Frame := ⟨body, frame.depth + 1, output.size, echo⟩
        ⟨callFrame :: caller :: outer, output, log⟩
      else
        let log := (entered.report (nestingLimit env d e.token)).leave
        ⟨caller :: outer, output, echoExpansion log echo fun _ => []⟩

/-! ### Termination -/

/-- The shape of a stack of frames: depth and number of tokens left, innermost first. -/
abbrev Shape := List (Nat × Nat)

def shapeOf (frames : List Frame) : Shape :=
  frames.map fun frame => (frame.depth, frame.tokens.length)

/-- What a step can do to the shape: remove the topmost frame, take tokens from it, or take tokens
from it and put a frame one level deeper on top. -/
inductive Shape.Smaller (limit : Nat) : Shape → Shape → Prop
  | leave (frame : Nat × Nat) (outer : Shape) : Smaller limit outer (frame :: outer)
  | advance {depth n m : Nat} (outer : Shape) (h : n < m) :
      Smaller limit ((depth, n) :: outer) ((depth, m) :: outer)
  | enter {depth n m k : Nat} (outer : Shape) (h : n < m) (hdepth : depth + 1 ≤ limit) :
      Smaller limit ((depth + 1, k) :: (depth, n) :: outer) ((depth, m) :: outer)

/-- A frame on top of a stack that runs to its end runs to its end too. The deeper a frame is, the
fewer levels are left above it. -/
theorem Shape.acc_cons {limit : Nat} : ∀ (levels : Nat) (outer : Shape),
    Acc (Smaller limit) outer → ∀ depth n, limit - depth ≤ levels →
      Acc (Smaller limit) ((depth, n) :: outer) := by
  intro levels
  induction levels with
  | zero =>
      intro outer houter depth n hlevels
      induction n using Nat.strongRecOn with
      | _ n ih =>
        refine Acc.intro _ fun shape hshape => ?_
        cases hshape with
        | leave => exact houter
        | advance _ h => exact ih _ h
        | enter _ _ hdepth => omega
  | succ levels ihlevels =>
      intro outer houter depth n hlevels
      induction n using Nat.strongRecOn with
      | _ n ih =>
        refine Acc.intro _ fun shape hshape => ?_
        cases hshape with
        | leave => exact houter
        | advance _ h => exact ih _ h
        | enter _ h hdepth => exact ihlevels _ (ih _ h) _ _ (by omega)

theorem Shape.smaller_wellFounded (limit : Nat) : WellFounded (Smaller limit) := by
  refine ⟨fun shape => ?_⟩
  induction shape with
  | nil => exact Acc.intro _ fun _ h => nomatch h
  | cons frame outer ih => exact acc_cons _ outer ih frame.1 frame.2 (Nat.le_refl _)

/-- Every step makes the shape smaller. -/
theorem shapeOf_advance (env : Environment) (eval : Evaluator) (frame : Frame)
    (outer : List Frame) (output : Array Token) (log : Log) :
    Shape.Smaller env.settings.nestLimit (shapeOf (advance env eval frame outer output log).frames)
      (shapeOf (frame :: outer)) := by
  unfold advance
  split
  · split <;> exact .leave _ _
  · next e tokens htokens =>
      simp only [shapeOf, List.map_cons, htokens, List.length_cons]
      split
      · exact .advance _ (Nat.lt_succ_self _)
      · next d _ =>
          have hrest : (bindArguments d tokens).rest.length < tokens.length + 1 :=
            Nat.lt_succ_of_le (bindArguments_rest_le d tokens)
          split
          · next hdepth => exact .enter _ hrest hdepth
          · exact .advance _ hrest

/-- Stacks of frames under the order in which a run goes down. -/
structure Descent (limit : Nat) where
  shape : Shape

instance (limit : Nat) : WellFoundedRelation (Descent limit) where
  rel := InvImage (Shape.Smaller limit) Descent.shape
  wf := InvImage.wf _ (Shape.smaller_wellFounded limit)

/-- Runs the machine until no frame is left. -/
def Machine.run (env : Environment) (eval : Evaluator) (machine : Machine) : Machine :=
  match machine with
  | ⟨[], output, log⟩ => ⟨[], output, log⟩
  | ⟨frame :: outer, output, log⟩ => run env eval (advance env eval frame outer output log)
termination_by (⟨shapeOf machine.frames⟩ : Descent env.settings.nestLimit)
decreasing_by exact shapeOf_advance env eval frame outer output log

/-- Replaces each call among the tokens by its expansion. `depth` is the nesting depth of what gave
the tokens. -/
def expandWith (env : Environment) (eval : Evaluator) (tokens : List Emitted) (depth : Nat)
    (log : Log) : List Token × Log :=
  let start : Machine := ⟨[⟨tokens, depth, 0, none⟩], #[], log⟩
  let final := start.run env eval
  (final.output.toList, final.log)

end CommandMacros.Expansion

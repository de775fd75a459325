import CommandMacros.Expansion.Machine

/-!
How a log goes on. An expansion that has ended leaves the stack as it found it, keeps every
diagnostic and every echo recorded before it, and keeps of its activation the macro, the bindings
and the depth; only variables and the expansion switch can differ afterwards.
-/

namespace CommandMacros

/-- Between two moments with the same stack, diagnostics and echoes were only added. -/
structure Log.Continues (before after : Log) : Prop where
  stack : after.stack = before.stack
  diagnostics : before.diagnostics.toList <+: after.diagnostics.toList
  echoes : before.echoes.toList <+: after.echoes.toList

namespace Log.Continues

variable {first second third : Log}

theorem refl (log : Log) : log.Continues log :=
  ⟨rfl, List.prefix_rfl, List.prefix_rfl⟩

theorem trans (h : first.Continues second) (hnext : second.Continues third) :
    first.Continues third where
  stack := hnext.stack.trans h.stack
  diagnostics := h.diagnostics.trans hnext.diagnostics
  echoes := h.echoes.trans hnext.echoes

theorem report (log : Log) (d : Diagnostic) : log.Continues (log.report d) where
  stack := rfl
  diagnostics := by
    simp only [Log.report, Array.toList_push]
    exact List.prefix_append _ _
  echoes := List.prefix_rfl

theorem reports (log : Log) (ds : List Diagnostic) : log.Continues (ds.foldl Log.report log) := by
  induction ds generalizing log with
  | nil => exact refl log
  | cons d ds ih => exact (report log d).trans (ih (log.report d))

theorem echoExpansion (log : Log) (name? : Option String) (expansion : Unit → List Token) :
    log.Continues (Expansion.echoExpansion log name? expansion) := by
  cases name? with
  | none => exact refl log
  | some name =>
      refine ⟨rfl, List.prefix_rfl, ?_⟩
      simp only [Expansion.echoExpansion, Log.echo, Array.toList_push]
      exact List.prefix_append _ _

/-- What goes on under a name on the stack goes on without it once the name is left. -/
theorem leave {name : String} (h : (first.enter name).Continues second) :
    first.Continues second.leave where
  stack := congrArg List.tail h.stack
  diagnostics := h.diagnostics
  echoes := h.echoes

end Log.Continues

/-- An activation goes on: the same call, with the log going on. -/
structure Scene.Continues (before after : Scene) : Prop where
  log : before.log.Continues after.log
  definition : after.activation.definition = before.activation.definition
  bindings : after.activation.bindings = before.activation.bindings
  depth : after.activation.depth = before.activation.depth

namespace Scene.Continues

variable {first second third : Scene}

theorem refl (scene : Scene) : scene.Continues scene :=
  ⟨.refl _, rfl, rfl, rfl⟩

theorem trans (h : first.Continues second) (hnext : second.Continues third) :
    first.Continues third where
  log := h.log.trans hnext.log
  definition := hnext.definition.trans h.definition
  bindings := hnext.bindings.trans h.bindings
  depth := hnext.depth.trans h.depth

theorem report (scene : Scene) (d : Diagnostic) : scene.Continues (scene.report d) :=
  ⟨.report _ _, rfl, rfl, rfl⟩

theorem setVariable (scene : Scene) (name value : String) :
    scene.Continues (scene.setVariable name value) :=
  ⟨.refl _, rfl, rfl, rfl⟩

theorem setExpand (scene : Scene) (enabled : Bool) :
    scene.Continues
      { scene with activation := { scene.activation with expandEnabled := enabled } } :=
  ⟨.refl _, rfl, rfl, rfl⟩

theorem andLog (h : first.Continues second) {log : Log} (hlog : second.log.Continues log) :
    first.Continues { second with log } :=
  ⟨h.log.trans hlog, h.definition, h.bindings, h.depth⟩

theorem leave {name : String} (h : (first.enter name).Continues second) :
    first.Continues second.leave :=
  ⟨h.log.leave, h.definition, h.bindings, h.depth⟩

end Scene.Continues

end CommandMacros

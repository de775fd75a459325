import CommandMacros.Proofs.Expansion.Sound
import CommandMacros.Proofs.Session.Reached

/-!
Compiled bodies never refer to what is not there. Bodies are well formed however malformed the
tokens are that they are compiled from, the texts of `!EVAL` included, so a reference to a parameter
always finds its binding and a function always gets the arguments it reads.
-/

namespace CommandMacros

/-- The body of the definition is a compiled one. -/
def Definition.Compiled (d : Definition) : Prop :=
  ∃ tokens, d.body = Body.compile d.parameters tokens

/-- Every body in the table is a compiled one. -/
def Table.Compiled (table : Table) : Prop :=
  ∀ entry ∈ table.entries, entry.2.Compiled

theorem Definition.yields_compiled (tokens : List Token) :
    Yields .everywhere Definition.Compiled (parse tokens) := by
  refine (yields_everywhere _).bind fun start _ => ?_
  refine (yields_everywhere _).bind fun name _ => ?_
  refine (yields_everywhere _).bind fun opening _ => ?_
  refine (yields_everywhere _).bind fun parameters _ => ?_
  split
  · trivial
  · next body tail _ => exact (yields_everywhere _).bind fun _ _ => ⟨body, rfl⟩

theorem Session.process_compiled {session : Session} (h : session.table.Compiled)
    (statement : List Token) : (session.process statement).table.Compiled := by
  unfold process
  split
  · have hparse := Definition.yields_compiled statement
    unfold define
    split
    · next d hd =>
        rw [hd] at hparse
        intro entry hentry
        rcases Table.mem_define hentry with rfl | hentry
        · exact hparse
        · exact h entry hentry
    · exact h
  · simp only [expand, echo]
    split <;> exact h

/-- A session only ever has compiled bodies in its table. -/
theorem Session.Reaches.compiled {source : String} {settings : Settings} {session : Session}
    (h : (ofSource source settings).Reaches session) : session.table.Compiled := by
  have hstart : (ofSource source settings).table.Compiled := List.forall_mem_nil _
  refine h.invariant (fun session => session.table.Compiled) (fun hcompiled _ => ?_) hstart
  refine process_compiled ?_ _
  exact hcompiled

theorem placed_everywhere (tokens : List Token) : Placed .everywhere tokens :=
  fun t _ => Region.mem_everywhere t.span

theorem Table.Compiled.sound {table : Table} (h : table.Compiled) : table.Sound .everywhere := by
  intro entry hentry
  obtain ⟨tokens, hbody⟩ := h entry hentry
  refine ⟨Region.mem_everywhere _, fun _ _ => placed_everywhere _, ?_⟩
  rw [hbody]
  exact Body.compile_wellFormed _ (placed_everywhere tokens)

namespace Expansion

/-- A function gets as many texts as it takes, and none of those it reads is missing. -/
structure Supplies (function : Builtin) (texts : List String) : Prop where
  accepts : function.accepts texts.length = true
  present : ∀ i < function.arity.1, ∃ text, texts[i]? = some text

theorem supplies_of_accepts {function : Builtin} {texts : List String}
    (h : function.accepts texts.length = true) : Supplies function texts := by
  refine ⟨h, fun i hi => ⟨_, List.getElem?_eq_getElem ?_⟩⟩
  rw [Builtin.accepts, Bool.and_eq_true] at h
  exact Nat.lt_of_lt_of_le hi (Nat.le_of_ble_eq_true h.1)

/-- What a call of a procedure refers to is there: the binding of a parameter, and the texts of the
arguments of a function once they are computed. -/
def RefersToPresent (env : Environment) : Call → Prop
  | .substituteOne _ (.parameter index) scene | .operandText _ (.parameter index) scene =>
    ∃ binding, scene.activation.bindings[index]? = some binding
  | .substituteOne nesting (.call function arguments _) scene
  | .operandText nesting (.call function arguments _) scene =>
    ∀ texts next, (Call.operandTexts nesting arguments scene).value env = .ok texts next →
      Supplies function texts
  | _ => True

section

variable {region : Region} {env : Environment} (htable : env.table.Sound region)

include htable

theorem supplies_operandTexts {function : Builtin} {nesting : Nat} {arguments : List Operand}
    {scene next : Scene} (hscene : SceneOf region scene.activation.definition scene)
    (hcount : function.accepts arguments.length = true)
    (harguments : ∀ argument ∈ arguments,
      argument.WellFormed ⟨scene.activation.definition.parameters, region⟩) {texts : List String}
    (h : (Call.operandTexts nesting arguments scene).value env = .ok texts next) :
    Supplies function texts := by
  have hcall : (soundness region).requires (.operandTexts nesting arguments scene) :=
    ⟨hscene, harguments⟩
  have hanswer := value_ensures htable hcall
  rw [h] at hanswer
  have hlength : texts.length = arguments.length := hanswer.1
  exact supplies_of_accepts (hlength ▸ hcount)

/-- What the contract requires of a call is enough for what the call refers to. -/
theorem refersToPresent_of_requires {made : Call} (h : (soundness region).requires made) :
    RefersToPresent env made := by
  cases made with
  | substituteOne nesting directive scene =>
      obtain ⟨hscene, inLoop, hdirective⟩ := h
      cases hdirective with
      | parameter hindex => exact hscene.exists_binding hindex
      | call hcount harguments =>
          exact fun _ _ => supplies_operandTexts htable hscene hcount harguments
      | _ => trivial
  | operandText nesting operand scene =>
      obtain ⟨hscene, hoperand⟩ := h
      cases hoperand with
      | parameter hindex => exact hscene.exists_binding hindex
      | call hcount harguments =>
          exact fun _ _ => supplies_operandTexts htable hscene hcount harguments
      | _ => trivial
  | _ => trivial

end

/-- Compiling gives a well-formed body whatever the tokens and the parameters are. The bodies in the
table of a session are compiled ones; and in an expansion under a table of compiled bodies, each
call that is made on the way finds what it refers to. -/
theorem compiled_bodies_wellFormed :
    (∀ parameters tokens,
      TreeWellFormed ⟨parameters, .everywhere⟩ false (Body.compile parameters tokens)) ∧
    (∀ source settings session, (Session.ofSource source settings).Reaches session →
      session.environment.table.Compiled) ∧
    ∀ env : Environment, env.table.Compiled → ∀ nesting tokens log made,
      Routine.Makes (procedureBody env) made (callProcedure (.expandStatement nesting tokens log)) →
        RefersToPresent env made := by
  refine ⟨fun parameters tokens => ?_, fun _ _ _ hsession => hsession.compiled, ?_⟩
  · exact Body.compile_wellFormed parameters (placed_everywhere tokens)
  intro env hcompiled nesting tokens log made hmade
  have hlog : DiagnosticsIn .everywhere log.diagnostics.toList :=
    fun _ _ span _ => Region.mem_everywhere span
  have hstart : (soundness .everywhere).requires (.expandStatement nesting tokens log) :=
    ⟨placed_everywhere tokens, hlog⟩
  exact refersToPresent_of_requires hcompiled.sound (makes_requires hcompiled.sound hstart hmade)

/-- A macro that stands for its one argument. -/
def same : Definition :=
  let parameters : List Parameter := [{ role := .positional, capture := .tokens 1 }]
  ⟨"same", .point 0, parameters, Body.compile parameters [⟨.identifier, "!1", .point 0⟩]⟩

/-- The reference in the body of a macro finds the argument of the call. -/
theorem same_finds_argument :
    let env : Environment := ⟨⟨[("SAME", same)]⟩, {}⟩
    let name : Token := ⟨.identifier, "same", ⟨0, 4⟩⟩
    let argument : Token := ⟨.identifier, "thing", ⟨5, 10⟩⟩
    let bound := bindArguments same [⟨argument, true⟩]
    let scene : Scene :=
      ⟨{ definition := same, bindings := bound.bindings, depth := 1 }, enterCall {} same bound⟩
    env.table.Compiled ∧
      Routine.Makes (procedureBody env) (.substituteOne 0 (.parameter 0) scene)
        (callProcedure (.expandStatement 0 [name, argument] {})) ∧
      ∃ binding, scene.activation.bindings[0]? = some binding := by
  intro env name argument bound scene
  have hcompiled : env.table.Compiled := List.forall_mem_singleton.mpr ⟨_, rfl⟩
  have hcallee : callee? env ⟨⟨.identifier, "same", ⟨0, 4⟩⟩, true⟩ = some same := by rfl
  have hmade : Routine.Makes (procedureBody env) (.substituteOne 0 (.parameter 0) scene)
      (callProcedure (.expandStatement 0 [name, argument] {})) := by
    refine .inside (.inside (.inside ?_))
    change Routine.Makes _ _
      (framesBody env 0 ⟨[⟨[⟨name, true⟩, ⟨argument, true⟩], 0, 0, none⟩], #[], {}⟩)
    simp only [framesBody, hcallee, name]
    exact .inside (.here _)
  exact ⟨hcompiled, hmade, compiled_bodies_wellFormed.2.2 env hcompiled 0 _ {} _ hmade⟩

end Expansion

end CommandMacros

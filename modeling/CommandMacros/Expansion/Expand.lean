import CommandMacros.Body.Compile
import CommandMacros.Expansion.Machine

/-!
The expansion of a statement. The text of an `!EVAL` is compiled and expanded under the parameters
and variables of the macro it stands in; such expansions nest up to a fixed number of levels.
-/

namespace CommandMacros.Expansion

/-- How many `!EVAL` expansions may be in progress at once. -/
def maxEvalNesting : Nat := 50

/-- Expands a text in the scene of an activation, with `levels` further levels of `!EVAL` left. -/
def evaluateText (env : Environment) : (levels : Nat) → Evaluator
  | 0, _, span, scene =>
    ("", scene.report { error := .evalNestingLimit maxEvalNesting, span := some span })
  | levels + 1, text, span, scene =>
    let eval := evaluateText env levels
    let body := Body.compile scene.activation.definition.parameters (tokenizeAt text span)
    let emission := substitute env eval body (scene.enter "!EVAL")
    let activation := emission.scene.activation
    let (tokens, log) := expandWith env eval emission.tokens activation.depth emission.scene.log
    (Token.render tokens, ⟨activation, log.leave⟩)

/-- The expansion of `!EVAL` texts where none is in progress. -/
def evaluator (env : Environment) : Evaluator :=
  evaluateText env maxEvalNesting

/-- Replaces each call among the tokens by its expansion. -/
def expandCalls (env : Environment) (tokens : List Emitted) (depth : Nat) (log : Log) :
    List Token × Log :=
  expandWith env (evaluator env) tokens depth log

/-- Expands every macro call in a statement. -/
def expandStatement (env : Environment) (tokens : List Token) (log : Log) : List Token × Log :=
  expandCalls env (Emitted.ofTokens env.settings.expand tokens) 0 log

end CommandMacros.Expansion

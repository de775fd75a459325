import CommandMacros.Binding
import CommandMacros.Settings
import CommandMacros.Table
import CommandMacros.Token.Render

/-!
The state of an expansion: macro variables, the activation of the macro whose body is being
substituted, and the log of diagnostics and echoes with the stack of what is being expanded.
-/

namespace CommandMacros

/-- Macro variables with their values, which are syntax text. Names are compared in upper case. -/
structure Variables where
  values : List (String × String) := []
deriving DecidableEq

namespace Variables

def get? (locals : Variables) (name : String) : Option String :=
  locals.values.lookup (Text.upper name)

def set (locals : Variables) (name value : String) : Variables :=
  let key := Text.upper name
  ⟨(key, value) :: locals.values.eraseP (·.1 == key)⟩

end Variables

/-- One macro call being expanded. -/
structure Activation where
  definition : Definition
  /-- One binding per parameter, in the order of declaration. -/
  bindings : List Binding
  /-- 1 for a call made directly from a command. -/
  depth : Nat
  locals : Variables := {}
  /-- Cleared by `!OFFEXPAND` and set by `!ONEXPAND`. -/
  expandEnabled : Bool := true

namespace Activation

/-- The bindings of the positional parameters, in order. -/
def positionals (activation : Activation) : List Binding :=
  ((activation.definition.parameters.zip activation.bindings).filter (·.1.isPositional)).map (·.2)

def setVariable (activation : Activation) (name value : String) : Activation :=
  { activation with locals := activation.locals.set name value }

/-- The text of a token, or the value of the variable it names. -/
def tokenText (activation : Activation) (t : Token) : String :=
  (if t.isMacroId then activation.locals.get? t.text else none).getD t.text

end Activation

/-- What an expansion has reported so far, and what it is expanding. -/
structure Log where
  diagnostics : Array Diagnostic := #[]
  echoes : Array String := #[]
  /-- The macros and directives being expanded, innermost first. -/
  stack : List String := []

namespace Log

def enter (log : Log) (name : String) : Log :=
  { log with stack := name :: log.stack }

def leave (log : Log) : Log :=
  { log with stack := log.stack.tail }

/-- Adds a diagnostic under the current stack. -/
def report (log : Log) (d : Diagnostic) : Log :=
  { log with diagnostics := log.diagnostics.push { d with stack := log.stack.reverse } }

/-- Adds the line that echoes the expansion of a call. -/
def echo (log : Log) (name : String) (expansion : List Token) : Log :=
  let line := "\"" ++ name ++ "\" expands to: " ++ Token.render expansion
  { log with echoes := log.echoes.push line }

end Log

/-- An activation with the log of its expansion. -/
structure Scene where
  activation : Activation
  log : Log

namespace Scene

def enter (scene : Scene) (name : String) : Scene :=
  { scene with log := scene.log.enter name }

def leave (scene : Scene) : Scene :=
  { scene with log := scene.log.leave }

def report (scene : Scene) (d : Diagnostic) : Scene :=
  { scene with log := scene.log.report d }

def setVariable (scene : Scene) (name value : String) : Scene :=
  { scene with activation := scene.activation.setVariable name value }

end Scene

/-- What an expansion only reads: the macros, and the settings at the start of the statement. -/
structure Environment where
  table : Table
  settings : Settings

/-- The full expansion of the text of an `!EVAL` at a place. -/
abbrev Evaluator := String → Span → Scene → String × Scene

end CommandMacros

import CommandMacros.SettingsRecord
import CommandMacros.TestCase.Frontmatter

/-!
Test cases: a syntax text together with what its expansion is expected to give.
-/

namespace CommandMacros

/-- An expected error or warning. -/
structure ExpectedMessage where
  /-- A text that occurs in the message. -/
  contains : String
  /-- The line on which the place of the message begins, if that matters. -/
  line : Option Nat := none
deriving DecidableEq, Repr

structure Expectations where
  description : Option String := none
  /-- The expanded commands, one per line. -/
  output : Option String := none
  /-- The errors in order. Without them any error is a failure. -/
  errors : Option (List ExpectedMessage) := none
  /-- The warnings in order. Without them warnings are not looked at. -/
  warnings : Option (List ExpectedMessage) := none
  /-- The settings at the start. -/
  settings : Settings := {}
deriving DecidableEq, Repr

structure TestCase where
  expectations : Expectations
  source : String
deriving DecidableEq, Repr

open Toml

def ExpectedMessage.ofRecord? (record : Value) : Option ExpectedMessage := do
  let contains ← (record.field 0 "contains").bind Value.text?
  let line ← Value.optional Value.natural? (record.field 1 "line")
  return { contains, line }

def Expectations.ofDocument? (document : String) : Option Expectations := do
  let entries ← Toml.parse document
  let messages? := Value.optional (Value.listOf? ExpectedMessage.ofRecord?)
  let description ← Value.optional Value.text? (entries.lookup "description")
  let output ← Value.optional Value.text? (entries.lookup "expect_output")
  let errors ← messages? (entries.lookup "expect_errors")
  let warnings ← messages? (entries.lookup "expect_warnings")
  let settings ← Value.withDefault {} Settings.ofRecord? (entries.lookup "settings")
  return { description, output, errors, warnings, settings }

namespace TestCase

/-- The test case in a file. -/
def ofContent (content : String) : Except FrontmatterError TestCase := do
  let split ← Split.ofContent content.toList
  match Expectations.ofDocument? (String.ofList split.frontmatter) with
  | some expectations => return ⟨expectations, String.ofList split.source⟩
  | none => throw .badConfiguration

end TestCase

end CommandMacros

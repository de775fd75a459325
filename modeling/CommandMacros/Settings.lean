import CommandMacros.Diagnostic
import CommandMacros.Token.Render

/-!
The settings of macro expansion, and the `SET` command that changes them. A bad value leaves its
setting as it was.
-/

namespace CommandMacros

structure Settings where
  /-- Whether macro calls are expanded at all. -/
  expand : Bool := true
  /-- Whether expansions are echoed. -/
  print : Bool := false
  /-- The greatest number of iterations of one `!DO` loop. -/
  iterateLimit : Nat := 1000
  /-- The greatest nesting depth of macro calls. -/
  nestLimit : Nat := 50
deriving DecidableEq, Repr

namespace Settings

/-- `ON`, `YES` or `TRUE`, and `OFF`, `NO` or `FALSE`. -/
def switch (value : Token) : Except SettingError Bool :=
  if ["ON", "YES", "TRUE"].any value.matchesKeyword then
    .ok true
  else if ["OFF", "NO", "FALSE"].any value.matchesKeyword then
    .ok false
  else
    .error (.notASwitch value.text)

/-- A positive whole number. -/
def limit (value : Token) : Except SettingError Nat :=
  match value.integer? with
  | some n => if 1 ≤ n then .ok n.toNat else .error (.notALimit value.text)
  | none => .error (.notALimit value.text)

/-- The settings after one assignment. -/
def assign (settings : Settings) (setting : Setting) (value : Token) :
    Except SettingError Settings :=
  match setting with
  | .expand => (switch value).map fun on => { settings with expand := on }
  | .print => (switch value).map fun on => { settings with print := on }
  | .iterate => (limit value).map fun n => { settings with iterateLimit := n }
  | .nest => (limit value).map fun n => { settings with nestLimit := n }

def settingAt? (t : Token) : Option Setting :=
  Setting.all.find? fun setting => t.matchesKeyword setting.keyword

def invalid (setting : Setting) (cause : SettingError) (place : Token) : Diagnostic :=
  { error := .setting setting cause, span := some place.span }

/-- Applies the assignments among the tokens after `SET`, and skips all else. -/
def applyAssignments (settings : Settings) : List Token → Settings × List Diagnostic
  | name :: equals :: rest =>
    match settingAt? name, equals.isPunct .equals with
    | some setting, true =>
      match rest with
      | [] => (settings, [invalid setting .missingValue name])
      | value :: others =>
        match settings.assign setting value with
        | .ok changed => applyAssignments changed others
        | .error cause =>
          let (final, diagnostics) := applyAssignments settings others
          (final, invalid setting cause value :: diagnostics)
    | _, _ => applyAssignments settings (equals :: rest)
  | _ => (settings, [])

/-- Every problem with assignments is one with a setting. -/
theorem eq_invalid_of_mem_applyAssignments {settings : Settings} {tokens : List Token}
    {d : Diagnostic} (h : d ∈ (settings.applyAssignments tokens).2) :
    ∃ setting cause place, d = invalid setting cause place := by
  fun_induction applyAssignments settings tokens with
  | case1 settings name equals setting =>
      exact ⟨setting, .missingValue, name, List.mem_singleton.mp h⟩
  | case2 settings name equals setting _ _ value others changed _ ih => exact ih h
  | case3 settings name equals setting _ _ value others cause _ final problems hothers ih =>
      rw [hothers] at ih
      rcases List.mem_cons.mp h with rfl | h
      · exact ⟨setting, cause, value, rfl⟩
      · exact ih h
  | case4 settings name equals rest _ ih => exact ih h
  | case5 => cases h

def isSet (command : List Token) : Bool :=
  command.head?.any (·.matchesKeyword "SET")

/-- Applies one command if it is a `SET`. -/
def applyCommand (settings : Settings) (command : List Token) : Settings × List Diagnostic :=
  if isSet command then applyAssignments settings command.tail else (settings, [])

/-- Applies every `SET` among the commands of a text. -/
def applyCommands (settings : Settings) : List (List Token) → Settings × List Diagnostic
  | [] => (settings, [])
  | command :: others =>
    let (changed, diagnostics) := settings.applyCommand (command.takeWhile (!·.isEnd))
    let (final, more) := changed.applyCommands others
    (final, diagnostics ++ more)

end Settings

end CommandMacros

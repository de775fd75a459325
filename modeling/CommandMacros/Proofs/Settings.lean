import CommandMacros.Proofs.Session.Reached

/-!
What `SET` commands do to the settings. A command is a row of assignments with other tokens between
them, and is carried out from left to right: each setting ends up with the value of the last valid
assignment to it, and each assignment that is not valid is one problem. No assignment makes a limit
0, so a session that starts with limits it can work with never loses them.
-/

namespace CommandMacros

inductive SettingValue where
  | switch (on : Bool)
  | limit (count : Nat)
deriving DecidableEq, Repr

namespace Settings

def get (settings : Settings) : Setting → SettingValue
  | .expand => .switch settings.expand
  | .print => .switch settings.print
  | .iterate => .limit settings.iterateLimit
  | .nest => .limit settings.nestLimit

/-- What the token says about the setting when it is assigned to it. -/
def valueOf (value : Token) : Setting → Except SettingError SettingValue
  | .expand | .print => (switch value).map .switch
  | .iterate | .nest => (limit value).map .limit

/-- The name of a setting, a `=` and one more token. -/
structure Assignment where
  setting : Setting
  name : Token
  equals : Token
  value : Token
  names : name.matchesKeyword setting.keyword = true
  assigns : equals.isPunct .equals = true

/-- A part of a `SET` command: an assignment, or a token that names no setting. -/
inductive Item where
  | assignment (assignment : Assignment)
  | other (token : Token)
      (namesNone : ∀ setting : Setting, token.matchesKeyword setting.keyword = false)

namespace Item

def tokens : Item → List Token
  | assignment a => [a.name, a.equals, a.value]
  | other t _ => [t]

/-- Whether the item is an assignment to the setting. -/
def isFor (setting : Setting) : Item → Bool
  | assignment a => a.setting == setting
  | other _ _ => false

/-- The value for the setting, if the item is a valid assignment to it. -/
def value? (setting : Setting) : Item → Option SettingValue
  | assignment a => if a.setting = setting then (valueOf a.value a.setting).toOption else none
  | other _ _ => none

/-- The problem with an assignment that is not valid, at the token that was to be the value. -/
def problem? : Item → Option Diagnostic
  | assignment a =>
    match valueOf a.value a.setting with
    | .ok _ => none
    | .error cause => some { error := .setting a.setting cause, span := some a.value.span }
  | other _ _ => none

/-- The settings after the item. Where it is no valid assignment they stay as they are. -/
def apply (settings : Settings) : Item → Settings
  | assignment a => (settings.assign a.setting a.value).toOption.getD settings
  | other _ _ => settings

end Item

/-! ### One assignment -/

theorem ext_get {first second : Settings} (h : ∀ setting, first.get setting = second.get setting) :
    first = second := by
  have hexpand := h .expand
  have hprint := h .print
  have hiterate := h .iterate
  have hnest := h .nest
  simp only [get, SettingValue.switch.injEq, SettingValue.limit.injEq]
    at hexpand hprint hiterate hnest
  obtain ⟨expand, print, iterateLimit, nestLimit⟩ := first
  subst hexpand hprint hiterate hnest
  rfl

/-- No token spells the names of two settings. -/
theorem eq_of_matchesKeyword {t : Token} {first second : Setting}
    (hfirst : t.matchesKeyword first.keyword = true)
    (hsecond : t.matchesKeyword second.keyword = true) : first = second := by
  have hspelled := Text.sameIgnoringCase_iff.mp (Bool.and_eq_true_iff.mp hfirst).2
  rw [Text.sameIgnoringCase_iff.mp (Bool.and_eq_true_iff.mp hsecond).2] at hspelled
  revert hspelled
  cases first <;> cases second <;> decide

theorem settingAt?_eq_some {t : Token} {setting : Setting}
    (h : t.matchesKeyword setting.keyword = true) : settingAt? t = some setting := by
  have hmem : setting ∈ Setting.all := by cases setting <;> decide
  have hsome : (settingAt? t).isSome = true := List.find?_isSome.mpr ⟨setting, hmem, h⟩
  obtain ⟨found, hfound⟩ := Option.isSome_iff_exists.mp hsome
  have hnames : t.matchesKeyword found.keyword = true := by
    unfold settingAt? at hfound
    simpa using List.find?_some hfound
  rw [hfound, eq_of_matchesKeyword hnames h]

theorem settingAt?_eq_none {t : Token}
    (h : ∀ setting : Setting, t.matchesKeyword setting.keyword = false) : settingAt? t = none :=
  List.find?_eq_none.mpr fun setting _ => Bool.eq_false_iff.mp (h setting)

theorem limit_ne_zero {value : Token} {count : Nat} (h : limit value = .ok count) : count ≠ 0 := by
  unfold limit at h
  split at h
  · next n _ =>
      split at h
      · cases h
        omega
      · cases h
  · cases h

/-- An assignment is refused with its cause, or it changes its own setting and no other one. It
makes no limit 0. -/
theorem assign_cases (settings : Settings) (setting : Setting) (value : Token) :
    (∃ cause, valueOf value setting = .error cause ∧
      settings.assign setting value = .error cause) ∨
    ∃ given changed, valueOf value setting = .ok given ∧
      settings.assign setting value = .ok changed ∧ given ≠ .limit 0 ∧
      ∀ which, changed.get which = if setting = which then given else settings.get which := by
  cases setting with
  | expand | print =>
      rw [valueOf, assign]
      cases switch value with
      | error cause => exact .inl ⟨cause, rfl, rfl⟩
      | ok on =>
          refine .inr ⟨.switch on, _, rfl, rfl, by simp, fun which => ?_⟩
          cases which <;> rfl
  | iterate | nest =>
      rw [valueOf, assign]
      cases hlimit : limit value with
      | error cause => exact .inl ⟨cause, rfl, rfl⟩
      | ok count =>
          have hcount : SettingValue.limit count ≠ .limit 0 := by
            simpa using limit_ne_zero hlimit
          refine .inr ⟨.limit count, _, rfl, rfl, hcount, fun which => ?_⟩
          cases which <;> rfl

theorem get_apply (settings : Settings) (item : Item) (setting : Setting) :
    (item.apply settings).get setting = (item.value? setting).getD (settings.get setting) := by
  cases item with
  | other => rfl
  | assignment a =>
      rw [Item.apply, Item.value?]
      obtain ⟨cause, hvalue, hassign⟩ | ⟨given, changed, hvalue, hassign, -, hget⟩ :=
        settings.assign_cases a.setting a.value
      · rw [hvalue, hassign]
        by_cases hsetting : a.setting = setting
        · rw [if_pos hsetting]
          rfl
        · rw [if_neg hsetting]
          rfl
      · rw [hvalue, hassign]
        by_cases hsetting : a.setting = setting
        · rw [if_pos hsetting]
          exact (hget setting).trans (if_pos hsetting)
        · rw [if_neg hsetting]
          exact (hget setting).trans (if_neg hsetting)

/-! ### A whole command -/

theorem applyAssignments_other {t : Token}
    (h : ∀ setting : Setting, t.matchesKeyword setting.keyword = false) (settings : Settings)
    (rest : List Token) :
    settings.applyAssignments (t :: rest) = settings.applyAssignments rest := by
  cases rest with
  | nil => rfl
  | cons u rest => rw [applyAssignments, settingAt?_eq_none h]

theorem applyAssignments_assignment (a : Assignment) (settings : Settings) (rest : List Token) :
    settings.applyAssignments (a.name :: a.equals :: a.value :: rest) =
      let next := (Item.apply settings (.assignment a)).applyAssignments rest
      (next.1, (Item.problem? (.assignment a)).toList ++ next.2) := by
  rw [applyAssignments, settingAt?_eq_some a.names, a.assigns]
  dsimp only
  rw [Item.apply, Item.problem?]
  obtain ⟨cause, hvalue, hassign⟩ | ⟨given, changed, hvalue, hassign, -⟩ :=
    settings.assign_cases a.setting a.value
  · rw [hvalue, hassign]
    rfl
  · rw [hvalue, hassign]
    rfl

/-- A command is carried out item by item. -/
theorem applyAssignments_items (settings : Settings) (items : List Item) :
    settings.applyAssignments (items.flatMap Item.tokens) =
      (items.foldl Item.apply settings, items.filterMap Item.problem?) := by
  induction items generalizing settings with
  | nil => rfl
  | cons item items ih =>
      rw [List.flatMap_cons, List.foldl_cons]
      cases item with
      | other t hnone =>
          rw [Item.tokens, List.singleton_append, applyAssignments_other hnone, ih,
            List.filterMap_cons_none rfl]
          rfl
      | assignment a =>
          rw [Item.tokens, List.cons_append, List.cons_append, List.singleton_append,
            applyAssignments_assignment, ih, List.filterMap_cons]
          cases Item.problem? (.assignment a) with
          | none => rfl
          | some problem => rfl

theorem applyCommand_items {verb : Token} (hverb : verb.matchesKeyword "SET" = true)
    (settings : Settings) (items : List Item) :
    settings.applyCommand (verb :: items.flatMap Item.tokens) =
      (items.foldl Item.apply settings, items.filterMap Item.problem?) := by
  have hisSet : isSet (verb :: items.flatMap Item.tokens) = true := hverb
  rw [applyCommand, if_pos hisSet]
  exact applyAssignments_items settings items

/-- Of all valid assignments to a setting the last one counts. -/
theorem get_foldl_apply (settings : Settings) (items : List Item) (setting : Setting) :
    (items.foldl Item.apply settings).get setting =
      (items.filterMap (Item.value? setting)).getLast?.getD (settings.get setting) := by
  induction items generalizing settings with
  | nil => rfl
  | cons item items ih =>
      rw [List.foldl_cons, ih, get_apply]
      cases hvalue : item.value? setting with
      | none => rw [List.filterMap_cons_none hvalue, Option.getD_none]
      | some given =>
          rw [List.filterMap_cons_some hvalue, List.getLast?_cons, Option.getD_some,
            Option.getD_some]

/-- Only assignments to a setting give it a value. -/
theorem value?_of_isFor (setting : Setting) :
    (fun item => if Item.isFor setting item = true then Item.value? setting item else none) =
      Item.value? setting := by
  funext item
  cases item with
  | other => rfl
  | assignment a =>
      by_cases hsetting : a.setting = setting
      · rw [Item.isFor, beq_iff_eq.mpr hsetting, if_pos rfl]
      · rw [Item.isFor, beq_eq_false_iff_ne.mpr hsetting, Item.value?, if_neg hsetting]
        rfl

/-- Commands with the same assignments to each setting, in whatever order the settings take turns,
do the same. -/
theorem foldl_apply_congr (settings : Settings) {items others : List Item}
    (h : ∀ setting, others.filter (Item.isFor setting) = items.filter (Item.isFor setting)) :
    others.foldl Item.apply settings = items.foldl Item.apply settings := by
  refine ext_get fun setting => ?_
  rw [get_foldl_apply, get_foldl_apply, ← value?_of_isFor, ← List.filterMap_filter, h setting,
    List.filterMap_filter]

/-! ### Limits -/

/-- The limits that are not 0 are not 0 afterwards. -/
def KeepsLimits (settings final : Settings) : Prop :=
  ∀ setting, settings.get setting ≠ .limit 0 → final.get setting ≠ .limit 0

theorem KeepsLimits.refl (settings : Settings) : settings.KeepsLimits settings :=
  fun _ h => h

theorem KeepsLimits.trans {first second third : Settings} (h : first.KeepsLimits second)
    (hnext : second.KeepsLimits third) : first.KeepsLimits third :=
  fun setting hsetting => hnext setting (h setting hsetting)

theorem KeepsLimits.of_assign {settings changed : Settings} {setting : Setting} {value : Token}
    (h : settings.assign setting value = .ok changed) : settings.KeepsLimits changed := by
  intro which hwhich
  obtain ⟨cause, -, hassign⟩ | ⟨given, after, -, hassign, hgiven, hget⟩ :=
    settings.assign_cases setting value
  · cases h.symm.trans hassign
  · cases h.symm.trans hassign
    rw [hget]
    split
    · exact hgiven
    · exact hwhich

theorem KeepsLimits.positive {settings final : Settings} (h : settings.KeepsLimits final) :
    (1 ≤ settings.iterateLimit → 1 ≤ final.iterateLimit) ∧
      (1 ≤ settings.nestLimit → 1 ≤ final.nestLimit) := by
  have hiterate := h .iterate
  have hnest := h .nest
  simp only [get, ne_eq, SettingValue.limit.injEq] at hiterate hnest
  omega

theorem keepsLimits_applyAssignments (settings : Settings) (tokens : List Token) :
    settings.KeepsLimits (settings.applyAssignments tokens).1 := by
  fun_induction applyAssignments settings tokens with
  | case1 => exact .refl _
  | case2 settings name equals setting _ _ value others changed hassign ih =>
      exact (KeepsLimits.of_assign hassign).trans ih
  | case3 settings name equals setting _ _ value others cause _ final problems hothers ih =>
      rw [hothers] at ih
      exact ih
  | case4 settings name equals rest _ ih => exact ih
  | case5 => exact .refl _

theorem keepsLimits_applyCommand (settings : Settings) (command : List Token) :
    settings.KeepsLimits (settings.applyCommand command).1 := by
  unfold applyCommand
  split
  · exact keepsLimits_applyAssignments settings command.tail
  · exact .refl settings

theorem keepsLimits_applyCommands (settings : Settings) (commands : List (List Token)) :
    settings.KeepsLimits (settings.applyCommands commands).1 := by
  induction commands generalizing settings with
  | nil => exact .refl settings
  | cons command others ih => exact (keepsLimits_applyCommand settings _).trans (ih _)

end Settings

namespace Session

/-- The session after some use of another one: tokens are pulled or supplied, and what was reported
is taken. -/
inductive Used (start : Session) : Session → Prop
  | fresh : Used start start
  | pull {session : Session} (h : Used start session) : Used start session.next.2
  | supply {session : Session} (h : Used start session) (tokens : List Token) :
      Used start (session.supply tokens)
  | takeDiagnostics {session : Session} (h : Used start session) :
      Used start session.takeDiagnostics.2
  | takeEchoes {session : Session} (h : Used start session) : Used start session.takeEchoes.2

theorem keepsLimits_process (session : Session) (statement : List Token) :
    session.settings.KeepsLimits (session.process statement).settings := by
  unfold process
  split
  · unfold define
    split <;> exact .refl _
  · exact Settings.keepsLimits_applyCommands session.settings _

theorem Reaches.keepsLimits {start session : Session} (h : Reaches start session) :
    start.settings.KeepsLimits session.settings := by
  refine h.invariant (start.settings.KeepsLimits ·.settings) ?_ (.refl _)
  intro session statement feed hsession _
  exact hsession.trans (keepsLimits_process { session with feed, pending := [] } statement)

theorem keepsLimits_next (session : Session) :
    session.settings.KeepsLimits session.next.2.settings := by
  fun_induction next session with
  | case1 => exact .refl _
  | case2 => exact .refl _
  | case3 session _ statement feed _ _ ih =>
      exact (keepsLimits_process { session with feed } statement).trans ih

theorem Used.keepsLimits {start session : Session} (h : Used start session) :
    start.settings.KeepsLimits session.settings := by
  induction h with
  | fresh => exact .refl _
  | pull _ ih => exact ih.trans (keepsLimits_next _)
  | supply _ _ ih | takeDiagnostics _ ih | takeEchoes _ ih => exact ih

end Session

/-- A `SET` command is the left fold of its assignments, whatever other tokens stand between them.
Each setting is left at the value of the last valid assignment to it, or as it was without one; each
assignment that is not valid is reported once, in order and at its value. So assignments to
different settings can change places. No command at all, of whatever tokens, makes a limit 0 that
was not, and neither does any use of a session, at any statement on the way. -/
theorem set_command_folds_assignments (settings : Settings) :
    (∀ (verb : Token) (items : List Settings.Item), verb.matchesKeyword "SET" = true →
      let result := settings.applyCommand (verb :: items.flatMap Settings.Item.tokens)
      result.1 = items.foldl Settings.Item.apply settings ∧
      (∀ setting, result.1.get setting =
        (items.filterMap (Settings.Item.value? setting)).getLast?.getD (settings.get setting)) ∧
      result.2 = items.filterMap Settings.Item.problem? ∧
      ∀ others : List Settings.Item,
        (∀ setting, others.filter (Settings.Item.isFor setting) =
          items.filter (Settings.Item.isFor setting)) →
        (settings.applyCommand (verb :: others.flatMap Settings.Item.tokens)).1 = result.1) ∧
    (∀ tokens,
      let final := (settings.applyCommand tokens).1
      (1 ≤ settings.iterateLimit → 1 ≤ final.iterateLimit) ∧
        (1 ≤ settings.nestLimit → 1 ≤ final.nestLimit)) ∧
    ∀ start session reached : Session, start.settings = settings → start.Used session →
      session.Reaches reached →
        (1 ≤ settings.iterateLimit → 1 ≤ reached.settings.iterateLimit) ∧
          (1 ≤ settings.nestLimit → 1 ≤ reached.settings.nestLimit) := by
  refine ⟨fun verb items hverb => ?_, fun tokens => ?_, ?_⟩
  · rw [settings.applyCommand_items hverb items]
    refine ⟨rfl, settings.get_foldl_apply items, rfl, fun others hothers => ?_⟩
    rw [settings.applyCommand_items hverb others]
    exact settings.foldl_apply_congr hothers
  · exact (settings.keepsLimits_applyCommand tokens).positive
  · rintro start session reached rfl hused hreaches
    exact (hused.keepsLimits.trans hreaches.keepsLimits).positive

namespace Settings

/-- `mnest=mprint`, where the value is the name of another setting. -/
def nestByName : Item :=
  .assignment
    { setting := .nest
      name := ⟨.identifier, "mnest", ⟨4, 9⟩⟩
      equals := ⟨.punct .equals, "=", ⟨9, 10⟩⟩
      value := ⟨.identifier, "mprint", ⟨10, 16⟩⟩
      names := by decide
      assigns := by decide }

/-- `MNEST=7` -/
def nestSeven : Item :=
  .assignment
    { setting := .nest
      name := ⟨.identifier, "MNEST", ⟨30, 35⟩⟩
      equals := ⟨.punct .equals, "=", ⟨35, 36⟩⟩
      value := ⟨.number 7, "7", ⟨36, 37⟩⟩
      names := by decide
      assigns := by decide }

/-- `MPrint=yes` -/
def printYes : Item :=
  .assignment
    { setting := .print
      name := ⟨.identifier, "MPrint", ⟨40, 46⟩⟩
      equals := ⟨.punct .equals, "=", ⟨46, 47⟩⟩
      value := ⟨.identifier, "yes", ⟨47, 50⟩⟩
      names := by decide
      assigns := by decide }

/-- A `=` that belongs to no assignment. -/
def loneEquals : Item :=
  .other ⟨.punct .equals, "=", ⟨17, 18⟩⟩ fun setting => by cases setting <;> decide

/-- `ON` as a token that is no value. -/
def loneOn : Item :=
  .other ⟨.identifier, "ON", ⟨19, 21⟩⟩ fun setting => by cases setting <;> decide

end Settings

/-- `set mnest=mprint = ON MNEST=7 MPrint=yes` takes `mprint` for a bad limit, and not for the name
of the setting that is assigned next; the assignment to `MPrint` may also come first. -/
theorem set_command_with_name_as_value :
    let verb : Token := ⟨.identifier, "set", ⟨0, 3⟩⟩
    let items := [Settings.nestByName, Settings.loneEquals, Settings.loneOn, Settings.nestSeven,
      Settings.printYes]
    let others := [Settings.printYes, Settings.nestByName, Settings.nestSeven]
    let final : Settings := { print := true, nestLimit := 7 }
    let start : Session := {}
    verb.matchesKeyword "SET" = true ∧
      (∀ setting, others.filter (Settings.Item.isFor setting) =
        items.filter (Settings.Item.isFor setting)) ∧
      ({} : Settings).applyCommand (verb :: items.flatMap Settings.Item.tokens) = (final,
        [{ error := .setting .nest (.notALimit "mprint"), span := some ⟨10, 16⟩ }]) ∧
      (({} : Settings).applyCommand (verb :: others.flatMap Settings.Item.tokens)).1 = final ∧
      1 ≤ start.next.2.settings.iterateLimit := by
  intro verb items others final start
  obtain ⟨hcommand, -, hlive⟩ := set_command_folds_assignments {}
  have hverb : verb.matchesKeyword "SET" = true := by decide
  have hothers : ∀ setting, others.filter (Settings.Item.isFor setting) =
      items.filter (Settings.Item.isFor setting) := by
    intro setting
    cases setting <;> rfl
  obtain ⟨hfold, -, hproblems, hswap⟩ := hcommand verb items hverb
  have hfinal : items.foldl Settings.Item.apply {} = final := by decide +kernel
  have hproblem : items.filterMap Settings.Item.problem? =
      [{ error := .setting .nest (.notALimit "mprint"), span := some ⟨10, 16⟩ }] := by
    decide +kernel
  rw [hfinal] at hfold
  rw [hproblem] at hproblems
  refine ⟨hverb, hothers, Prod.ext hfold hproblems, (hswap others hothers).trans hfold, ?_⟩
  exact (hlive start start.next.2 _ rfl (.pull .fresh) .here).1 (by decide)

end CommandMacros

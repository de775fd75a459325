import CommandMacros.Proofs.Session.Lines
import CommandMacros.TestCase.Check

/-!
What a test case asks for, and recorded test cases. A test case passes exactly if each expected
message describes the diagnostic in its place and the lines of the expected output are the commands.
What a source gives can be written down as such expectations: each command on a line, and of each
diagnostic the whole message and the line of its place. As no command has a line feed in it, the
lines are the commands again, and the test case passes.
-/

namespace CommandMacros

/-! ### Lines of a text -/

namespace Text

theorem splitLines_append_newline {line : List Char} (h : '\n' ∉ line) (rest : List Char) :
    splitLines (line ++ '\n' :: rest) = line :: splitLines rest := by
  induction line with
  | nil => rfl
  | cons c line ih =>
      obtain ⟨hc, hline⟩ := not_or.mp (mt List.mem_cons.mpr h)
      rw [List.cons_append, splitLines, if_neg (Ne.symm hc), ih hline]

/-- A text without a line feed is at most one line. -/
theorem splitLines_of_newline_notMem {line : List Char} (h : '\n' ∉ line) :
    splitLines line = if line.isEmpty then [] else [line] := by
  induction line with
  | nil => rfl
  | cons c line ih =>
      obtain ⟨hc, hline⟩ := not_or.mp (mt List.mem_cons.mpr h)
      rw [splitLines, if_neg (Ne.symm hc), ih hline]
      cases line <;> rfl

theorem dropReturn_concat (line : List Char) (c : Char) :
    dropReturn (line ++ [c]) = if '\r' = c then line else line ++ [c] := by
  rw [dropReturn, stripEnd?, List.reverse_append, List.reverse_singleton, List.reverse_singleton,
    List.singleton_append, stripFront?, stripFront?]
  split
  · exact List.reverse_reverse line
  · rfl

/-- A carriage return at the end is a blank. -/
theorem trimChars_dropReturn (line : List Char) : trimChars (dropReturn line) = trimChars line := by
  rcases List.eq_nil_or_concat line with rfl | ⟨front, c, rfl⟩
  · rfl
  · rw [List.concat_eq_append, dropReturn_concat]
    split
    · next hreturn =>
        subst hreturn
        exact (trimChars_concat (by decide) front).symm
    · rfl

end Text

namespace TestCase

theorem normalize_cons (line : String) (others : List String) :
    normalize (line :: others) = normalize [line] ++ normalize others := by
  rw [← List.singleton_append, normalize, List.map_append, List.filter_append]
  rfl

theorem normalize_lines (text : String) :
    normalize (Text.lines text) = normalize ((Text.splitLines text.toList).map String.ofList) := by
  rw [normalize, normalize, Text.lines, List.map_map, List.map_map]
  refine congrArg _ (List.map_congr_left fun line _ => ?_)
  simp only [Function.comp_apply, Text.trim, String.toList_ofList, Text.trimChars_dropReturn]

/-- Lines that are written one below the other are read again. -/
theorem normalize_lines_intercalate {lines : List String}
    (h : ∀ line ∈ lines, '\n' ∉ line.toList) :
    normalize (Text.lines ("\n".intercalate lines)) = normalize lines := by
  rw [normalize_lines]
  induction lines with
  | nil => rfl
  | cons line others ih =>
      obtain ⟨hline, hothers⟩ := List.forall_mem_cons.mp h
      cases others with
      | nil =>
          rw [String.intercalate_singleton, Text.splitLines_of_newline_notMem hline]
          split
          · next hempty =>
              rw [String.toList_eq_nil_iff.mp (List.isEmpty_iff.mp hempty)]
              rfl
          · rw [List.map_singleton, String.ofList_toList]
      | cons next others =>
          have hbreak : ("\n".intercalate (line :: next :: others)).toList =
              line.toList ++ '\n' :: ("\n".intercalate (next :: others)).toList := by
            rw [String.intercalate_cons_cons, String.toList_append, String.toList_append,
              List.append_assoc]
            rfl
          rw [hbreak, Text.splitLines_append_newline hline, List.map_cons, String.ofList_toList,
            normalize_cons, ih hothers, ← normalize_cons]

end TestCase

/-! ### Expectations -/

namespace ExpectedMessage

/-- The text occurs in the message, and the place begins on the line, if one is given. -/
structure Describes (source : String) (expected : ExpectedMessage) (d : Diagnostic) : Prop where
  contains : expected.contains.toList <:+: d.message.toList
  line : ∀ line ∈ expected.line, ∃ span ∈ d.span, Text.lineAt source span.start = line

/-- There are as many diagnostics as expected ones, and each is described by the one in its
place. -/
structure DescribeAll (source : String) (expected : List ExpectedMessage)
    (actual : List Diagnostic) : Prop where
  length : actual.length = expected.length
  each : ∀ pair ∈ actual.zip expected, pair.2.Describes source pair.1

end ExpectedMessage

namespace TestCase

/-- The expectations of the test case are met by what its source gives. Where no errors are
expected there must be none. -/
structure Fulfilled (case : TestCase) (tokens : List Token) (diagnostics : List Diagnostic) :
    Prop where
  errors : ExpectedMessage.DescribeAll case.source (case.expectations.errors.getD [])
    (diagnostics.filter (!·.isWarning))
  warnings : ∀ expected ∈ case.expectations.warnings,
    ExpectedMessage.DescribeAll case.source expected (diagnostics.filter (·.isWarning))
  output : ∀ text ∈ case.expectations.output,
    normalize (Text.lines text) = normalize (Token.renderCommands tokens)

theorem andThen_eq_ok_iff {ε : Type} {first next : Except ε Unit} :
    (first >>= fun _ => next) = .ok () ↔ first = .ok () ∧ next = .ok () := by
  cases first with
  | ok value => exact ⟨fun h => ⟨rfl, h⟩, fun h => h.2⟩
  | error cause => exact ⟨nofun, fun h => nomatch h.1⟩

theorem forM_eq_ok_iff {α ε : Type} {f : α → Except ε Unit} {items : List α} :
    items.forM f = .ok () ↔ ∀ item ∈ items, f item = .ok () := by
  induction items with
  | nil => exact ⟨fun _ => List.forall_mem_nil _, fun _ => rfl⟩
  | cons item others ih =>
      have hcons : (item :: others).forM f = f item >>= fun _ => others.forM f := rfl
      rw [hcons, andThen_eq_ok_iff, ih, List.forall_mem_cons]

theorem checkMessage_eq_ok_iff {what : Severity} {source : String} {index : Nat} {d : Diagnostic}
    {expected : ExpectedMessage} :
    checkMessage what source index d expected = .ok () ↔ expected.Describes source d := by
  cases hcontains : Text.contains d.message expected.contains with
  | false =>
      rw [checkMessage, hcontains]
      refine ⟨nofun, fun h => ?_⟩
      rw [Text.contains_iff.mpr h.contains] at hcontains
      cases hcontains
  | true =>
      have hdescribes : expected.Describes source d ↔ ∀ line ∈ expected.line,
          ∃ span ∈ d.span, Text.lineAt source span.start = line :=
        ⟨fun h => h.line, fun h => ⟨Text.contains_iff.mp hcontains, h⟩⟩
      rw [checkMessage, hcontains, Bool.not_true, if_neg Bool.false_ne_true, hdescribes]
      cases expected.line with
      | none => exact ⟨fun _ => nofun, fun _ => rfl⟩
      | some line =>
          cases d.span with
          | none =>
              refine ⟨nofun, fun h => ?_⟩
              obtain ⟨_, hspan, _⟩ := h line rfl
              cases hspan
          | some span =>
              dsimp only
              split
              · next hline =>
                  refine ⟨fun _ other hmem => ?_, fun _ => rfl⟩
                  cases hmem
                  exact ⟨span, rfl, hline⟩
              · next hline =>
                  refine ⟨nofun, fun h => ?_⟩
                  obtain ⟨_, hspan, hsame⟩ := h line rfl
                  cases hspan
                  exact absurd hsame hline

theorem checkMessages_eq_ok_iff {what : Severity} {source : String} {actual : List Diagnostic}
    {expected : List ExpectedMessage} :
    checkMessages what source actual expected = .ok () ↔
      ExpectedMessage.DescribeAll source expected actual := by
  rw [checkMessages]
  by_cases hlength : actual.length = expected.length
  · rw [if_neg (not_not_intro hlength), forM_eq_ok_iff]
    constructor
    · refine fun h => ⟨hlength, fun pair hpair => ?_⟩
      obtain ⟨index, hindex⟩ := List.mem_iff_getElem?.mp hpair
      exact checkMessage_eq_ok_iff.mp (h (pair, index) (List.mk_mem_zipIdx_iff_getElem?.mpr hindex))
    · rintro h ⟨pair, index⟩ hmem
      have hpair := List.mem_of_getElem? (List.mk_mem_zipIdx_iff_getElem?.mp hmem)
      exact checkMessage_eq_ok_iff.mpr (h.each pair hpair)
  · rw [if_pos hlength]
    exact ⟨nofun, fun h => absurd h.length hlength⟩

section Check

variable {case : TestCase}

theorem checkErrors_eq_ok_iff {actual : List Diagnostic} : case.checkErrors actual = .ok () ↔
    ExpectedMessage.DescribeAll case.source (case.expectations.errors.getD []) actual := by
  unfold checkErrors
  split
  · next expected hexpected =>
      rw [hexpected]
      exact checkMessages_eq_ok_iff
  · next hnone =>
      rw [hnone]
      cases actual with
      | nil => exact ⟨fun _ => ⟨rfl, List.forall_mem_nil _⟩, fun _ => rfl⟩
      | cons d others => exact ⟨nofun, fun h => nomatch h.length⟩

theorem checkWarnings_eq_ok_iff {actual : List Diagnostic} : case.checkWarnings actual = .ok () ↔
    ∀ expected ∈ case.expectations.warnings,
      ExpectedMessage.DescribeAll case.source expected actual := by
  unfold checkWarnings
  split
  · next expected hexpected =>
      rw [hexpected, checkMessages_eq_ok_iff]
      exact ⟨fun h _ hmem => Option.some.inj hmem ▸ h, fun h => h expected rfl⟩
  · next hnone =>
      rw [hnone]
      exact ⟨fun _ => nofun, fun _ => rfl⟩

theorem checkOutput_eq_ok_iff {actual : List String} : case.checkOutput actual = .ok () ↔
    ∀ text ∈ case.expectations.output, normalize (Text.lines text) = normalize actual := by
  unfold checkOutput
  split
  · next text htext =>
      rw [htext]
      dsimp only
      split
      · next hsame => exact ⟨fun _ _ hmem => Option.some.inj hmem ▸ hsame, fun _ => rfl⟩
      · next hother =>
          refine ⟨fun h => ?_, fun h => absurd (h text rfl) hother⟩
          cases h
  · next hnone =>
      rw [hnone]
      refine ⟨fun _ text htext => ?_, fun _ => rfl⟩
      cases htext

/-- A test case passes exactly if its expectations are met. -/
theorem check_eq_ok_iff :
    let expansion := expandSource case.source case.expectations.settings
    case.check = .ok () ↔ case.Fulfilled expansion.1 expansion.2 := by
  intro expansion
  have hcheck : case.check = (do
      case.checkErrors (expansion.2.filter (!·.isWarning))
      case.checkWarnings (expansion.2.filter (·.isWarning))
      case.checkOutput (Token.renderCommands expansion.1)) := rfl
  rw [hcheck, andThen_eq_ok_iff, andThen_eq_ok_iff, checkErrors_eq_ok_iff, checkWarnings_eq_ok_iff,
    checkOutput_eq_ok_iff]
  exact ⟨fun h => ⟨h.1, h.2.1, h.2.2⟩, fun h => ⟨h.errors, h.warnings, h.output⟩⟩

end Check

/-! ### Recording -/

/-- A diagnostic as it is expected: the whole message, and the line of the place if it has one. -/
def recordedMessage (source : String) (d : Diagnostic) : ExpectedMessage :=
  { contains := d.message, line := d.span.map (Text.lineAt source ·.start) }

theorem describe_recorded (source : String) (diagnostics : List Diagnostic) :
    ExpectedMessage.DescribeAll source (diagnostics.map (recordedMessage source)) diagnostics := by
  refine ⟨(List.length_map _).symm, ?_⟩
  rw [← List.map_prod_left_eq_zip]
  intro pair hpair
  obtain ⟨d, _, rfl⟩ := List.mem_map.mp hpair
  refine ⟨List.infix_rfl, fun line hline => ?_⟩
  obtain ⟨span, hspan, rfl⟩ := Option.map_eq_some_iff.mp hline
  exact ⟨span, hspan, rfl⟩

/-- What a source gives from these settings, as what is expected of it. -/
def recorded (description : Option String) (source : String) (settings : Settings) : TestCase :=
  let (tokens, diagnostics) := expandSource source settings
  { source
    expectations :=
      { description
        output := some ("\n".intercalate (Token.renderCommands tokens))
        errors := some ((diagnostics.filter (!·.isWarning)).map (recordedMessage source))
        warnings := some ((diagnostics.filter (·.isWarning)).map (recordedMessage source))
        settings } }

/-- A recorded run passes as a test, whatever is computed on the way: no token that it gives has a
line feed, and each place whose line is asked for is between two boundaries of the characters of the
source. -/
theorem check_recorded (description : Option String) (source : String) (settings : Settings) :
    (recorded description source settings).check = .ok () ∧
      (∀ t ∈ (expandSource source settings).1, t.OnOneLine) ∧
      ∀ d ∈ (expandSource source settings).2, ∀ span ∈ d.span, span.Within source := by
  let expansion := expandSource source settings
  have htokens : ∀ t ∈ expansion.1, t.OnOneLine := fun _ ht => onOneLine_of_mem_expandSource ht
  refine ⟨check_eq_ok_iff.mpr ⟨?_, ?_, ?_⟩, htokens, fun d hd => ?_⟩
  · exact describe_recorded source (expansion.2.filter (!·.isWarning))
  · rintro _ ⟨⟩
    exact describe_recorded source (expansion.2.filter (·.isWarning))
  · rintro _ ⟨⟩
    exact normalize_lines_intercalate (Token.newline_notMem_renderCommands htokens)
  · obtain ⟨⟨last, hlast, hfinal⟩, _⟩ := (Session.ofSource source settings).drain_reaches
    have hin := (Session.ofSource_in source settings).of_reaches hlast
    change d ∈ (Session.ofSource source settings).drain.2.diagnostics.toList at hd
    rw [hfinal] at hd
    exact hin.diagnostics d hd

end TestCase

end CommandMacros

import CommandMacros.Proofs.Token.Place
import CommandMacros.TestCase.Check

/-!
Test files taken apart. A frontmatter written on lines of its own between two delimiters is found
again as it was written, and so is the source behind the closing delimiter, whichever of the two
line ends stands after each line. The lines of the source therefore count from the one after the
closing delimiter.
-/

namespace CommandMacros

/-! ### Searching -/

namespace Text

theorem stripFront?_append (front cs : List Char) : stripFront? front (front ++ cs) = some cs := by
  induction front with
  | nil => rw [stripFront?, List.nil_append]
  | cons c front ih => rw [List.cons_append, stripFront?, if_pos rfl, ih]

theorem stripFront?_eq_none {front cs : List Char} (h : ¬front <+: cs) :
    stripFront? front cs = none := by
  fun_induction stripFront? front cs with
  | case1 cs => exact absurd List.nil_prefix h
  | case2 => rfl
  | case3 front c cs ih => exact ih fun hfront => h (List.cons_prefix_cons.mpr ⟨rfl, hfront⟩)
  | case4 => rfl

/-- What is in front and does not hold the character ends before it. -/
theorem prefix_of_notMem {c : Char} {front before rest : List Char} (hc : c ∉ front)
    (h : front <+: before ++ c :: rest) : front <+: before := by
  rcases List.prefix_or_prefix_of_prefix h (List.prefix_append before _) with hshort | hlong
  · exact hshort
  · obtain ⟨more, rfl⟩ := hlong
    cases more with
    | nil => simp only [List.append_nil, List.prefix_refl]
    | cons d more =>
        obtain ⟨rfl, -⟩ := List.cons_prefix_cons.mp ((List.prefix_append_right_inj before).mp h)
        exact absurd (List.mem_append_right before List.mem_cons_self) hc

/-- A pattern that begins with a character it has nowhere else is found where it was put, if it was
not there before. -/
theorem firstOccurrence?_append {c : Char} {pattern before : List Char} (hc : c ∉ pattern)
    (h : ¬(c :: pattern) <:+: before) (rest : List Char) :
    firstOccurrence? (c :: pattern) (before ++ (c :: pattern ++ rest)) = some before.length := by
  induction before with
  | nil =>
      have hfront : (c :: pattern).isPrefixOf (c :: (pattern ++ rest)) = true :=
        List.isPrefixOf_iff_prefix.mpr (List.prefix_append (c :: pattern) rest)
      rw [List.nil_append, List.cons_append, firstOccurrence?, if_pos hfront]
      rfl
  | cons d before ih =>
      have hfront :
          ¬(c :: pattern).isPrefixOf (d :: (before ++ (c :: pattern ++ rest))) = true := by
        rw [List.isPrefixOf_iff_prefix, List.cons_prefix_cons]
        rintro ⟨rfl, hpattern⟩
        have hbefore : pattern <+: before := prefix_of_notMem hc hpattern
        exact h (List.cons_prefix_cons.mpr ⟨rfl, hbefore⟩).isInfix
      rw [List.cons_append, firstOccurrence?, if_neg hfront,
        ih fun hinner => h (hinner.trans (List.infix_cons (List.infix_refl before)))]
      rfl

end Text

namespace TestCase

namespace Split

/-! ### Written files -/

/-- The two ends of a line. -/
inductive LineEnd where
  | feed
  | returnAndFeed
deriving DecidableEq, Repr

namespace LineEnd

/-- What stands before the line feed. -/
def returns : LineEnd → List Char
  | feed => []
  | returnAndFeed => ['\r']

def chars (lineEnd : LineEnd) : List Char :=
  lineEnd.returns ++ ['\n']

end LineEnd

/-- The lines that a frontmatter takes: one line end follows it, and if it is empty, there may be no
line at all. -/
inductive OnLines : (frontmatter lines : List Char) → Prop
  | lines (frontmatter : List Char) (lineEnd : LineEnd) :
      OnLines frontmatter (frontmatter ++ lineEnd.chars)
  | nothing : OnLines [] []

/-- A file up to its source: byte order marks, the opening delimiter, the lines of the frontmatter
and the closing delimiter. -/
def header (marks : Nat) (opening closing : LineEnd) (lines : List Char) : List Char :=
  List.replicate marks '\ufeff' ++
    (delimiter ++ opening.chars ++ lines ++ delimiter ++ closing.chars)

/-- Nothing in the frontmatter is taken for a closing delimiter or for a part of a line end. -/
structure Delimitable (frontmatter : List Char) : Prop where
  start : ¬delimiter <+: frontmatter
  inside : ¬('\n' :: delimiter) <:+: frontmatter
  finish : frontmatter.getLast? ≠ some '\r'

/-! ### Taking them apart -/

theorem dropLineBreak_chars (lineEnd : LineEnd) (cs : List Char) :
    dropLineBreak (lineEnd.chars ++ cs) = cs := by
  cases lineEnd <;> rfl

theorem dropReturns_concat (cs : List Char) : dropReturns (cs ++ ['\r']) = dropReturns cs := by
  rw [dropReturns, List.reverse_append]
  rfl

theorem dropReturns_of_finish {cs : List Char} (h : cs.getLast? ≠ some '\r') :
    dropReturns cs = cs := by
  rw [dropReturns]
  rw [← List.head?_reverse] at h
  cases hcs : cs.reverse with
  | nil => exact (List.reverse_eq_nil_iff.mp hcs).symm
  | cons c back =>
      have hc : (c == '\r') = false := by
        rw [beq_eq_false_iff_ne]
        rintro rfl
        rw [hcs] at h
        exact h rfl
      rw [List.dropWhile_cons, hc, if_neg Bool.false_ne_true, ← hcs, List.reverse_reverse]

theorem dropReturns_returns {frontmatter : List Char} (h : Delimitable frontmatter)
    (lineEnd : LineEnd) : dropReturns (frontmatter ++ lineEnd.returns) = frontmatter := by
  cases lineEnd with
  | feed => rw [LineEnd.returns, List.append_nil, dropReturns_of_finish h.finish]
  | returnAndFeed => rw [LineEnd.returns, dropReturns_concat, dropReturns_of_finish h.finish]

/-- The return before a line feed makes no delimiter. -/
theorem not_infix_returns {frontmatter : List Char} (h : Delimitable frontmatter)
    (lineEnd : LineEnd) : ¬('\n' :: delimiter) <:+: frontmatter ++ lineEnd.returns := by
  cases lineEnd with
  | feed =>
      rw [LineEnd.returns, List.append_nil]
      exact h.inside
  | returnAndFeed =>
      rw [LineEnd.returns, List.infix_concat_iff]
      rintro (hend | hinside)
      · obtain ⟨front, hfront⟩ := hend
        have hlast := congrArg List.getLast? hfront
        simp [delimiter] at hlast
      · exact h.inside hinside

theorem not_prefix_returns {frontmatter : List Char} (h : Delimitable frontmatter)
    (lineEnd : LineEnd) (rest : List Char) :
    ¬delimiter <+: frontmatter ++ lineEnd.chars ++ rest := by
  intro hdelimiter
  rw [LineEnd.chars, List.append_assoc, List.append_assoc, List.singleton_append,
    ← List.append_assoc] at hdelimiter
  have hline : delimiter <+: frontmatter ++ lineEnd.returns :=
    Text.prefix_of_notMem (by decide) hdelimiter
  cases lineEnd with
  | feed =>
      rw [LineEnd.returns, List.append_nil] at hline
      exact h.start hline
  | returnAndFeed => exact h.start (Text.prefix_of_notMem (by decide) hline)

/-- The first closing delimiter is the one after the frontmatter. -/
theorem atClosing_lines {frontmatter : List Char} (h : Delimitable frontmatter)
    (lineEnd : LineEnd) (rest : List Char) :
    atClosing (frontmatter ++ lineEnd.chars ++ delimiter ++ rest) =
      .ok ⟨frontmatter, dropLineBreak rest⟩ := by
  let before := frontmatter ++ lineEnd.returns
  have hbody : frontmatter ++ lineEnd.chars ++ delimiter ++ rest =
      before ++ ('\n' :: delimiter ++ rest) := by
    simp only [before, LineEnd.chars, List.append_assoc, List.cons_append, List.nil_append]
  have hopening : Text.stripFront? delimiter (before ++ ('\n' :: delimiter ++ rest)) = none := by
    rw [← hbody, List.append_assoc]
    exact Text.stripFront?_eq_none (not_prefix_returns h lineEnd _)
  have hclosing : Text.indexOf? ('\n' :: delimiter) (before ++ ('\n' :: delimiter ++ rest)) =
      some before.length := by
    rw [Text.indexOf?_eq_firstOccurrence?]
    exact Text.firstOccurrence?_append (by decide) (not_infix_returns h lineEnd) rest
  rw [hbody, atClosing, hopening]
  dsimp only
  rw [hclosing]
  dsimp only
  rw [List.take_left, dropReturns_returns h, ← List.drop_drop, List.drop_left, List.drop_left]

/-- The lines of a frontmatter end with the delimiter that was put behind them. -/
theorem atClosing_onLines {frontmatter lines : List Char} (h : Delimitable frontmatter)
    (hlines : OnLines frontmatter lines) (closing : LineEnd) (source : List Char) :
    atClosing (lines ++ (delimiter ++ (closing.chars ++ source))) = .ok ⟨frontmatter, source⟩ := by
  cases hlines with
  | lines _ lineEnd => rw [← List.append_assoc, atClosing_lines h, dropLineBreak_chars]
  | nothing =>
      rw [List.nil_append, atClosing, Text.stripFront?_append]
      exact congrArg (fun source => Except.ok (Split.mk [] source)) (dropLineBreak_chars closing _)

theorem ofContent_header {frontmatter lines : List Char} (h : Delimitable frontmatter)
    (hlines : OnLines frontmatter lines) (marks : Nat) (opening closing : LineEnd)
    (source : List Char) :
    ofContent (header marks opening closing lines ++ source) = .ok ⟨frontmatter, source⟩ := by
  have hmarks : ∀ c ∈ List.replicate marks '\ufeff', isByteOrderMark c = true := by
    intro c hc
    rw [List.eq_of_mem_replicate hc]
    rfl
  have hdelimiter (rest : List Char) :
      (delimiter ++ rest).dropWhile isByteOrderMark = delimiter ++ rest := rfl
  rw [ofContent, header, List.append_assoc, List.dropWhile_append_of_pos hmarks]
  simp only [List.append_assoc]
  rw [hdelimiter, Text.stripFront?_append]
  dsimp only
  rw [dropLineBreak_chars, atClosing_onLines h hlines]

end Split

/-- The split of a test file is exact. Where nothing in the frontmatter is taken for a delimiter or
for a part of a line end, a file of byte order marks, the opening delimiter, the frontmatter, the
closing delimiter and the source gives the parser of configurations the frontmatter as it was
written, and the test case the source as it was written, whatever the two hold otherwise. A line of
the source then is as many lines further down in the file as the file has lines up to its closing
delimiter. -/
theorem frontmatter_split_exact {frontmatter lines : List Char}
    (h : Split.Delimitable frontmatter) (hlines : Split.OnLines frontmatter lines) (marks : Nat)
    (opening closing : Split.LineEnd) (source : List Char) :
    let header := Split.header marks opening closing lines
    let content := String.ofList (header ++ source)
    Split.ofContent content.toList = .ok ⟨frontmatter, source⟩ ∧
      ofContent content =
        (Expectations.ofDocument? (String.ofList frontmatter)).elim (.error .badConfiguration)
          (fun expectations => .ok ⟨expectations, String.ofList source⟩) ∧
      ∀ offset, Text.lineAt content (Scan.byteLength header + offset) =
        header.count '\n' + Text.lineAt (String.ofList source) offset := by
  intro header content
  have hsplit : Split.ofContent content.toList = .ok ⟨frontmatter, source⟩ := by
    rw [String.toList_ofList]
    exact Split.ofContent_header h hlines marks opening closing source
  refine ⟨hsplit, ?_, lineAt_add header source⟩
  rw [ofContent, hsplit]
  dsimp only [bind, Except.bind]
  cases Expectations.ofDocument? (String.ofList frontmatter) with
  | some expectations => rfl
  | none => rfl

/-- Dashes inside the frontmatter and in the source, a blank line at the end of the one and two at
the start of the other, and both ends of lines in one file. The command is on line 3 of the source
and on line 8 of the file. -/
theorem dashes_in_frontmatter_and_source :
    let frontmatter := "description = '''a\n--'''\n".toList
    let source := "\n\nx.\n---\n".toList
    let lines := frontmatter ++ Split.LineEnd.returnAndFeed.chars
    let content := "\ufeff\ufeff---\r\ndescription = '''a\n--'''\n\r\n---\n\n\nx.\n---\n"
    Split.Delimitable frontmatter ∧ Split.OnLines frontmatter lines ∧
      Split.ofContent content.toList = .ok ⟨frontmatter, source⟩ ∧
      ofContent content = .ok ⟨{ description := some "a\n--" }, String.ofList source⟩ ∧
      Text.lineAt (String.ofList source) 2 = 3 ∧ Text.lineAt content 44 = 8 := by
  intro frontmatter source lines content
  have hdelimitable : Split.Delimitable frontmatter := by
    refine ⟨by decide, ?_, by decide⟩
    rw [← Text.isSome_firstOccurrence?_iff]
    decide
  have hlines : Split.OnLines frontmatter lines := .lines frontmatter .returnAndFeed
  have hcontent :
      String.ofList (Split.header 2 .returnAndFeed .feed lines ++ source) = content := by
    decide +kernel
  have hdocument : Expectations.ofDocument? (String.ofList frontmatter) =
      some { description := some "a\n--" } := by
    decide +kernel
  have hline : Text.lineAt (String.ofList source) 2 = 3 := by decide +kernel
  obtain ⟨hsplit, hcase, hlineAt⟩ :=
    frontmatter_split_exact hdelimitable hlines 2 .returnAndFeed .feed source
  rw [hcontent] at hsplit hcase hlineAt
  rw [hdocument] at hcase
  have hplace := hlineAt 2
  rw [hline] at hplace
  exact ⟨hdelimitable, hlines, hsplit, hcase, hline, hplace⟩

end TestCase

end CommandMacros

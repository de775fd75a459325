import CommandMacros.Proofs.Body.ReadBack

/-!
The grammar of definitions is what is accepted, in both directions. The names of keyword parameters
have no mark, but for a mark that stands alone, and the scanner leaves no such mark where a name is
declared. All parameters that are valid and can be written are those of some definition.
-/

namespace CommandMacros

/-! ### Marks in scanned text -/

theorem Scan.Lexes.nameText_of_mark {afterOperand : Bool} {c : Char} {cs : List Char}
    {next : Lexeme} (h : Lexes afterOperand c cs next) (hkind : next.kind = .identifier)
    (htaken : next.taken = ['!']) : nameText next.rest = [] := by
  have hscan : next = scanName c cs := by
    cases h with
    | name _ hscan => exact hscan.symm
    | string | number | signed | stop | dot | pair | single => cases hkind
  obtain ⟨ds, hds, hrest⟩ := h.taken_append
  rw [htaken] at hds
  obtain ⟨rfl, rfl⟩ := List.cons.inj hds
  rw [hscan, scanName_taken] at htaken
  rw [show next.rest = cs from hrest]
  exact (List.cons.inj htaken).2

/-- Nothing but the end of a command or a dot follows a mark that stands alone. -/
theorem Scan.scan_after_lone_mark {position : Nat} {afterOperand : Bool} {cs : List Char}
    {front rest : List Token} {t : Token} (h : scan position afterOperand cs = front ++ t :: rest)
    (hname : t.isIdentifier = true) (htext : t.text = "!") :
    ∃ u us, rest = u :: us ∧ (u.kind = .endCommand ∨ u.kind = .punct .dot) := by
  fun_induction scan position afterOperand cs generalizing front with
  | case1 => simp at h
  | case2 position afterOperand c cs hblank ih => exact ih h
  | case3 =>
      rename_i afterOperand c cs hblank next ih
      obtain ⟨rfl, hcons⟩ | ⟨others, rfl, hothers⟩ := List.cons_eq_append_iff.mp h
      · obtain ⟨rfl, rfl⟩ := List.cons.inj hcons
        have hkind : next.kind = .identifier := Token.kind_of_isIdentifier hname
        have htaken : next.taken = ['!'] := String.ofList_injective htext
        have hlexes : Lexes afterOperand c cs next :=
          lexes_lexeme fun message herror => by rw [hkind] at herror; contradiction
        exact scan_after_mark _ _ (hlexes.rest_of_mark hkind htaken)
          (hlexes.nameText_of_mark hkind htaken)
      · exact ih hothers

theorem after_lone_mark {sources : List String} {front rest : List Token} {t : Token}
    (h : sources.flatMap tokenize = front ++ t :: rest) (hname : t.isIdentifier = true)
    (htext : t.text = "!") :
    ∃ u us, rest = u :: us ∧ (u.kind = .endCommand ∨ u.kind = .punct .dot) := by
  induction sources generalizing front with
  | nil => simp at h
  | cons source sources ih =>
      rw [List.flatMap_cons] at h
      obtain ⟨others, rfl, hothers⟩ | ⟨others, hsource, hrest⟩ := List.append_eq_append_iff.mp h
      · exact ih hothers
      · cases others with
        | nil => exact @ih [] hrest.symm
        | cons u us =>
            obtain ⟨rfl, rfl⟩ := List.cons.inj hrest
            obtain ⟨v, vs, rfl, hv⟩ := Scan.scan_after_lone_mark hsource hname htext
            exact ⟨v, _, rfl, hv⟩

namespace Definition

/-- If the name of a keyword parameter has a mark, the mark is all there is of it. -/
theorem Names.text_of_isMarked {t u : Token} {name : String} (h : Names t u name)
    (hmarked : Token.isMarked t.text = true) : t.text = "!" := by
  have hshort := h.isMacroId
  rw [Token.isMacroId, h.isIdentifier, hmarked] at hshort
  have hlength : t.text.toList.length ≤ 1 := by
    rw [String.length_toList]
    exact Nat.not_lt.mp (mt Nat.ble_eq.mpr (Bool.eq_false_iff.mp hshort))
  rw [Scan.isMarked_eq, beq_iff_eq] at hmarked
  obtain ⟨cs, hcs⟩ := List.head?_eq_some_iff.mp hmarked
  rw [hcs, List.length_cons] at hlength
  obtain rfl : cs = [] := List.length_eq_zero_iff.mp (by omega)
  exact String.toList_injective hcs

/-- In scanned text, the name of a keyword parameter has no mark. -/
theorem Names.isMarked {sources : List String} {t u : Token} {name : String} (h : Names t u name)
    (hpart : [t, u] <:+: sources.flatMap tokenize) : Token.isMarked t.text = false := by
  rw [Bool.eq_false_iff]
  intro hmarked
  have htext : t.text = "!" := h.text_of_isMarked hmarked
  obtain ⟨front, back, htokens⟩ := hpart
  rw [List.append_assoc] at htokens
  obtain ⟨_, _, ⟨⟩, hu⟩ := after_lone_mark htokens.symm h.isIdentifier htext
  have hkind := h.next
  rw [Token.isIdentifier, Token.isPunct] at hkind
  obtain hu | hu := hu <;> rw [hu] at hkind <;> simp at hkind

/-! ### Writings of parameters -/

section Writings

theorem WritesClauses.append {used others : List Token} {said more : List Stipulation}
    (h : WritesClauses used said) (hothers : WritesClauses others more) :
    WritesClauses (used ++ others) (said ++ more) := by
  induction h with
  | nil => exact hothers
  | cons hkeyword hfirst _ ih =>
      rw [List.cons_append, List.append_assoc]
      exact .cons hkeyword hfirst ih

theorem exists_says_capture {mode : Capture} (h : mode.Writable) :
    ∃ which used, Says which used (.capture mode) := by
  have hopening := Token.isPunct_sign .leftParen (.point 0)
  have hclosing := Token.isPunct_sign .rightParen (.point 0)
  cases mode with
  | tokens count =>
      obtain ⟨number, hnumber⟩ := h
      exact ⟨_, _, .tokens hopening hnumber hclosing⟩
  | charEnd delimiter => exact ⟨_, _, .charEnd hopening h hclosing⟩
  | enclose left right =>
      exact ⟨_, _, .enclose hopening h.1 (Token.isPunct_sign .comma (.point 0)) h.2 hclosing⟩
  | commandEnd => exact ⟨_, _, .commandEnd⟩

theorem exists_writesRole {r : Role} (h : r.Writable) : ∃ t, WritesRole t r := by
  cases r with
  | positional => exact ⟨.word "!POSITIONAL" (.point 0), .positional (by decide)⟩
  | keyword name =>
      obtain ⟨hupper, hmark, hreserved⟩ := h
      have hmacroId : (Token.word name (.point 0)).isMacroId = false := by
        rw [Token.isMacroId, show (Token.word name (.point 0)).text = name from rfl, hmark,
          Bool.and_false, Bool.false_and]
      have hrole := WritesRole.keyword rfl hmacroId hreserved
      rw [show Text.upper (Token.word name (.point 0)).text = name from hupper] at hrole
      exact ⟨_, hrole⟩

theorem exists_writesParameter {p : Parameter} (h : p.Writable) :
    ∃ used, WritesParameter used p := by
  obtain ⟨name, hrole⟩ := exists_writesRole h.role
  obtain ⟨which, following, hcapture⟩ := exists_says_capture h.capture
  have hmode := WritesClauses.cons (Token.abbreviates_word which.keyword (.point 0)) hcapture .nil
  obtain ⟨flag, hflag⟩ :
      ∃ used, WritesClauses used (if p.noExpand then [.noExpand] else []) := by
    cases p.noExpand with
    | true =>
        exact ⟨_, .cons (Token.abbreviates_word Clause.noExpand.keyword (.point 0)) .noExpand .nil⟩
    | false => exact ⟨[], .nil⟩
  obtain ⟨value, hvalue⟩ : ∃ used, WritesClauses used (p.default.toList.map .default) := by
    cases p.default with
    | some tokens =>
        exact ⟨_, .cons (Token.abbreviates_word Clause.default.keyword (.point 0))
          (.default (Token.isPunct_sign .leftParen (.point 0))
            (Token.isPunct_sign .rightParen (.point 0))) .nil⟩
    | none => exact ⟨[], .nil⟩
  have hclauses := (hmode.append hflag).append hvalue
  refine ⟨_, @WritesParameter.mk name none _ _ p hrole nofun hclauses ?_ ?_ ?_⟩ <;>
    cases p.noExpand <;> cases p.default <;> rfl

theorem exists_writesParameters {parameters : List Parameter} (h : ∀ p ∈ parameters, p.Writable) :
    ∃ declared, WritesParameters declared parameters := by
  induction parameters with
  | nil => exact ⟨[], .nil⟩
  | cons p parameters ih =>
      obtain ⟨hp, hothers⟩ := List.forall_mem_cons.mp h
      obtain ⟨used, hused⟩ := exists_writesParameter hp
      obtain ⟨others, hdeclared⟩ := ih hothers
      exact ⟨_, .cons hused (Token.isPunct_sign .slash (.point 0)) hdeclared⟩

end Writings

/-- The grammar is what is accepted: tokens make a definition exactly if they write it and its
parameters are valid. Each name of a keyword parameter is the upper case of an identifier among the
tokens that is not reserved and has no mark, unless the mark stands alone; in scanned text it has
none at all. Parameters that are valid and can be written stand in an accepted definition with any
name and body. -/
theorem parse_accepts_grammar :
    (∀ tokens d, parse tokens = .ok d ↔ Writes tokens d ∧ Parameters.Valid d.parameters) ∧
    (∀ tokens d, parse tokens = .ok d → ∀ p ∈ d.parameters, ∀ name, p.role = .keyword name →
      ∃ t ∈ tokens, t.isIdentifier = true ∧ isReserved t.text = false ∧ name = Text.upper t.text ∧
        (Token.isMarked t.text = true → t.text = "!") ∧
        ∀ sources : List String, tokens <:+: sources.flatMap tokenize →
          Token.isMarked t.text = false) ∧
    (∀ (name : Token) (body : List Token) (parameters : List Parameter), name.isIdentifier = true →
      (∀ t ∈ body, t.matchesKeyword "!ENDDEFINE" = false) → Parameters.Valid parameters →
        (∀ p ∈ parameters, p.Writable) → ∃ tokens d, Writes tokens d ∧ parse tokens = .ok d ∧
          d.name = name.text ∧ d.parameters = parameters ∧
            d.body = Body.compile parameters body) := by
  refine ⟨fun _ _ => parse_eq_ok_iff, ?_, ?_⟩
  · intro tokens d hparse p hp name hname
    obtain ⟨t, u, hneighbours, hnames⟩ := (parse_eq_ok_iff.mp hparse).1.names hp hname
    exact ⟨t, hneighbours.subset List.mem_cons_self, hnames.isIdentifier, hnames.isReserved,
      hnames.name_eq, hnames.text_of_isMarked,
      fun sources hpart => hnames.isMarked (hneighbours.trans hpart)⟩
  · intro name body parameters hname hbody hvalid hwritable
    obtain ⟨declared, hdeclared⟩ := exists_writesParameters hwritable
    have hwrites := writes_definition hname hdeclared hbody
    exact ⟨_, _, hwrites, parse_eq_ok_iff.mpr ⟨hwrites, hvalid⟩, rfl, rfl, rfl⟩

/-- `key = !DEF(a) !NOEXP !ENCLOSE('(', ')')` -/
def enclosedKey : Parameter where
  role := .keyword "KEY"
  capture := .enclose (.sign .leftParen ⟨55, 58⟩) (.sign .rightParen ⟨60, 63⟩)
  default := some [.word "a" ⟨36, 37⟩]
  noExpand := true

/-- `(!POS !TOK(2) / key = !DEF(a) !NOEXP !ENCLOSE('(', ')'))` -/
def writtenParameters : List Parameter :=
  [{ role := .positional, capture := .tokens 2 }, enclosedKey]

/-- Shortened keywords, a `=` after the name and clauses in an order of their own. The parameters
that are read from it also stand in another definition. -/
theorem two_parameters_accepted :
    let source :=
      "DEFINE m (!POS !TOK(2) / key = !DEF(a) !NOEXP !ENCLOSE('(', ')')) !key !ENDDEFINE."
    let body : List Token := [.word "!key" (.point 0)]
    (∃ d, parse (tokenize source) = .ok d ∧ d.parameters = writtenParameters ∧
      Writes (tokenize source) d ∧ Parameters.Valid d.parameters ∧
      ∃ t ∈ tokenize source, t.isIdentifier = true ∧ isReserved t.text = false ∧
        "KEY" = Text.upper t.text ∧ Token.isMarked t.text = false) ∧
    (∀ t ∈ body, t.matchesKeyword "!ENDDEFINE" = false) ∧
    (∀ p ∈ writtenParameters, p.Writable) ∧
    ∃ tokens d, Writes tokens d ∧ parse tokens = .ok d ∧ d.name = "n" ∧
      d.parameters = writtenParameters ∧ d.body = Body.compile writtenParameters body := by
  intro source body
  obtain ⟨hgrammar, hnames, hcomplete⟩ := parse_accepts_grammar
  have hparameters : (parse (tokenize source)).toOption.map Definition.parameters =
      some writtenParameters := by
    decide +kernel
  obtain ⟨d, hparse, hd⟩ := exists_of_map hparameters
  obtain ⟨hwrites, hvalid⟩ := (hgrammar (tokenize source) d).mp hparse
  have hkey : enclosedKey ∈ d.parameters := hd ▸ .tail _ (.head _)
  obtain ⟨t, ht, hname, hreserved, hupper, -, hscanned⟩ :=
    hnames (tokenize source) d hparse enclosedKey hkey "KEY" rfl
  have hmark : Token.isMarked t.text = false :=
    hscanned [source] (List.prefix_append (tokenize source) []).isInfix
  have hbody : ∀ t ∈ body, t.matchesKeyword "!ENDDEFINE" = false := by decide
  have hwritable : ∀ p ∈ writtenParameters, p.Writable := by
    refine List.forall_mem_cons.mpr ⟨⟨trivial, ?_⟩, List.forall_mem_singleton.mpr ⟨?_, ?_, ?_⟩⟩
    · exact ⟨⟨.number 2, "2", .point 0⟩, by decide +kernel⟩
    · exact ⟨by decide +kernel, by decide, by decide⟩
    · exact ⟨"(", .sign .leftParen ⟨0, 1⟩, rfl, by decide +kernel, rfl⟩
    · exact ⟨")", .sign .rightParen ⟨0, 1⟩, rfl, by decide +kernel, rfl⟩
  refine ⟨⟨d, hparse, hd, hwrites, hvalid, t, ht, hname, hreserved, hupper, hmark⟩, hbody,
    hwritable, ?_⟩
  exact hcomplete (.word "n" (.point 0)) body writtenParameters rfl hbody (hd ▸ hvalid) hwritable

/-- The tokens that declare one parameter, which takes the rest of the command. -/
def declaringKeyword (name : String) : List Token :=
  declaring [.word name (.point 0), .word "!CMDEND" (.point 0)]

/-- The definition in which one parameter is stored under the name. -/
def ofKeyword (name : String) : Definition where
  name := "m"
  span := .point 0
  parameters := [{ role := .keyword name, capture := .commandEnd }]
  body := []

theorem parse_declaringKeyword {name : String}
    (hmark : (Token.word name (.point 0)).isMacroId = false)
    (hreserved : isReserved name = false) :
    parse (declaringKeyword name) = .ok (ofKeyword (Text.upper name)) := by
  refine parse_declaring (.last (writesParameter_commandEnd (.keyword rfl hmark hreserved))) ?_
  exact ⟨List.forall_mem_singleton.mpr ⟨trivial, nofun⟩, List.pairwise_singleton _ _⟩

/-- A mark that stands alone is accepted as the name of a parameter, and is the upper case of no
name without a mark. A word that is not reserved can be stored under a name that is: in upper case
already, this name is refused where it is written. -/
theorem lone_mark_accepted_stored_name_refused :
    parse (declaringKeyword "!") = .ok (ofKeyword "!") ∧
      (∀ text, Token.isMarked text = false → Text.upper text ≠ "!") ∧
      parse (declaringKeyword "ıf") = .ok (ofKeyword "IF") ∧ Token.isMarked "ıf" = false ∧
      isReserved "ıf" = false ∧ Text.upper "IF" = "IF" ∧
      parse (declaringKeyword "IF") = .error (fault (.reservedName "IF") (.point 0)) := by
  have hdotless : Text.upper "ıf" = "IF" ∧ isReserved "ıf" = false := by decide +kernel
  refine ⟨parse_declaringKeyword (by decide) (by decide), fun text hmark hupper => ?_, ?_,
    by decide, hdotless.2, by decide +kernel, by with_unfolding_all rfl⟩
  · rw [← Text.isMarked_upper, hupper] at hmark
    cases hmark
  · rw [← hdotless.1]
    exact parse_declaringKeyword (by decide) hdotless.2

end Definition

end CommandMacros

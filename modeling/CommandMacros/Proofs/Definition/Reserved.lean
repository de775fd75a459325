import CommandMacros.Proofs.Definition.Spelling

/-!
Reserved words. A declaration is refused if its name is reserved as it is spelled, but the name is
stored in full upper case. So a reserved word is no parameter unless upper case turns a declared
name into it, which it does only with names that hold letters beyond ASCII. As long as no stored
name is reserved, the keywords of directives begin their directives wherever they stand.
-/

namespace CommandMacros

/-- What a keyword begins: its directive, or an invalid one in its place. -/
inductive Directive.BeginsWith : String → Directive → Prop
  | cond {condition : Expr} {thenBranch : List Directive} {elseBranch : Option (List Directive)} :
      BeginsWith "!IF" (.cond condition thenBranch elseBranch)
  | doRange {name : String} {first last : Expr} {step : Option Expr} {body : List Directive}
      {span : Span} : BeginsWith "!DO" (.doRange name first last step body span)
  | doIn {name : String} {list : Expr} {body : List Directive} {span : Span} :
      BeginsWith "!DO" (.doIn name list body span)
  | assign {name : String} {value : Expr} : BeginsWith "!LET" (.assign name value)
  | breakLoop : BeginsWith "!BREAK" .breakLoop
  | onExpand : BeginsWith "!ONEXPAND" (.setExpand true)
  | offExpand : BeginsWith "!OFFEXPAND" (.setExpand false)
  | invalid {keyword : String} {error : MacroError} {span : Span} :
      BeginsWith keyword (.invalid error span)

namespace Body

variable {scope : Scope} {ahead : Ahead} {inLoop : Bool} {span : Span} {rest : List Token}

/-! ### Keywords of directives -/

theorem recover_beginsWith {keyword : String} {result : Except Fault (Directive × Nat)}
    (h : Yields .everywhere (fun read => read.1.BeginsWith keyword) result) :
    ∃ d taken, recover result = (.directive d, taken) ∧ d.BeginsWith keyword := by
  cases result with
  | ok read => exact ⟨read.1, read.2, rfl, h⟩
  | error f => exact ⟨.invalid f.error f.span, 0, rfl, .invalid⟩

theorem conditional_beginsWith : Yields .everywhere (fun read => read.1.BeginsWith "!IF")
    (conditional scope ahead inLoop span rest) := by
  rw [conditional]
  refine (yields_everywhere _).bind fun condition _ => ?_
  dsimp only
  split
  · exact Region.mem_everywhere span
  split
  · split
    · exact Region.mem_everywhere span
    · exact .cond
  · exact .cond

theorem loop_beginsWith : Yields .everywhere (fun read => read.1.BeginsWith "!DO")
    (loop scope ahead span rest) := by
  rw [loop]
  refine (yields_everywhere _).bind fun name _ => ?_
  refine (yields_everywhere _).bind fun head _ => ?_
  dsimp only
  split
  · exact Region.mem_everywhere span
  · cases hvalue : head.value with
    | range first last step => exact .doRange
    | list items => exact .doIn

theorem assignment_beginsWith : Yields .everywhere (fun read => read.value.BeginsWith "!LET")
    (assignment scope rest) := by
  rw [assignment]
  refine (yields_everywhere _).bind fun name _ => ?_
  refine (yields_everywhere _).bind fun equals _ => ?_
  refine (yields_everywhere _).bind fun value _ => ?_
  exact .assign

/-- A keyword begins its own directive or an invalid one. -/
theorem keywordStep_beginsWith {keyword : String} (h : keyword ∈ directiveKeywords) :
    ∃ d taken, keywordStep scope ahead inLoop span rest keyword = (.directive d, taken) ∧
      d.BeginsWith keyword := by
  simp only [directiveKeywords, List.mem_cons, List.not_mem_nil, or_false] at h
  rcases h with rfl | rfl | rfl | rfl | rfl | rfl
  · exact recover_beginsWith conditional_beginsWith
  · exact recover_beginsWith loop_beginsWith
  · exact recover_beginsWith (assignment_beginsWith.map fun _ hread => hread)
  · cases inLoop with
    | true => exact ⟨_, _, rfl, .breakLoop⟩
    | false => exact ⟨_, _, rfl, .invalid⟩
  · exact ⟨_, _, rfl, .onExpand⟩
  · exact ⟨_, _, rfl, .offExpand⟩

/-- The token begins the directive of the keyword as text, and is no reference in expressions. -/
structure ActsAs (parameters : List Parameter) (keyword : String) (t : Token) : Prop where
  text : ∀ (finish : Span) (block : Block) (rest : List Token), ∃ (d : Directive) (taken : Nat),
    d.BeginsWith keyword ∧
      blockOf ⟨parameters, finish⟩ block (t :: rest) =
        ⟨d :: (blockOf ⟨parameters, finish⟩ block (rest.drop taken)).directives,
          1 + taken + (blockOf ⟨parameters, finish⟩ block (rest.drop taken)).taken⟩
  operand : ∀ (finish : Span) (rest : List Token) (read : Parsed Operand (rest.length + 1))
    (index : Nat), operand ⟨parameters, finish⟩ t rest = .ok read → read.value ≠ .parameter index

/-- A name that is no parameter is no reference in expressions. -/
theorem operand_of_find? {t : Token} (hmacroId : t.isMacroId = true)
    (hfind : Parameters.find? scope.parameters t.text = none) :
    Yields .everywhere (fun read => ∀ index, read.value ≠ .parameter index)
      (operand scope t rest) := by
  have hstar := Token.isPunct_of_isIdentifier (isIdentifier_of_isMacroId hmacroId) .bangAsterisk
  rw [operand, if_neg (Bool.eq_false_iff.mp hstar), if_pos hmacroId, hfind]
  cases hstart : callStart? t rest with
  | none =>
      intro index hindex
      cases hindex
  | some function =>
      refine (yields_everywhere _).map fun arguments _ index hindex => ?_
      cases hindex

theorem actsAs_of_find? {parameters : List Parameter} {keyword : String} {t : Token}
    (h : keyword ∈ directiveKeywords) (ht : t.matchesKeyword keyword = true)
    (hfind : Parameters.find? parameters t.text = none) : ActsAs parameters keyword t where
  text finish block rest := by
    obtain ⟨d, taken, hstep, hd⟩ := keywordStep_beginsWith h
    exact ⟨d, taken, hd, blockOf_of_step (endsAt_of_matchesKeyword h ht block)
      ((step_of_matchesKeyword _ _ h ht hfind).trans hstep)⟩
  operand finish rest read index hread := by
    have hyields : Yields .everywhere (fun read => ∀ index, read.value ≠ .parameter index)
        (operand ⟨parameters, finish⟩ t rest) :=
      operand_of_find? (Token.isMacroId_of_matchesKeyword ht h) hfind
    rw [hread] at hyields
    exact hyields index

end Body

/-! ### Reserved words -/

theorem Parameters.find?_of_isReserved {parameters : List Parameter}
    (hstored : ∀ p ∈ parameters, ∀ name, p.keyword? = some name → IsStoredName name)
    (hfree : ∀ p ∈ parameters, ∀ name, p.keyword? = some name → isReserved name = false)
    {word : String} (h : isReserved word = true) :
    find? parameters ("!" ++ unmarked word) = none := by
  obtain ⟨reserved, hmem, hsame⟩ := List.any_eq_true.mp h
  have hchars : Text.asciiUpperChars ("!" ++ unmarked word).toList =
      Text.asciiUpperChars ("!" ++ reserved).toList := by
    rw [String.toList_append, String.toList_append]
    exact congrArg (List.cons '!') (Text.sameIgnoringCase_iff.mp hsame).symm
  rw [find?_congr hchars]
  exact find?_reserved hstored hfree hmem

theorem Parameters.find?_of_matchesKeyword {parameters : List Parameter}
    (hstored : ∀ p ∈ parameters, ∀ name, p.keyword? = some name → IsStoredName name)
    (hfree : ∀ p ∈ parameters, ∀ name, p.keyword? = some name → isReserved name = false)
    {keyword : String} (h : keyword ∈ directiveKeywords) {t : Token}
    (ht : t.matchesKeyword keyword = true) : find? parameters t.text = none := by
  have hreserved : ∀ k ∈ directiveKeywords, ∃ word ∈ reservedWords, k = "!" ++ word := by decide
  obtain ⟨word, hword, rfl⟩ := hreserved keyword h
  rw [find?_congr (Text.sameIgnoringCase_iff.mp (Bool.and_eq_true_iff.mp ht).2)]
  exact find?_reserved hstored hfree hword

namespace Definition

/-- Reserved words are no parameters and keywords no references, as long as upper case turns no
declared name into a reserved word. It never does by changing ASCII letters alone. -/
theorem reserved_words_never_parameters {tokens : List Token} {d : Definition}
    (hparse : parse tokens = .ok d)
    (hspelled : ∀ t ∈ tokens, t.isIdentifier = true → Scan.Shape .identifier t.text.toList)
    (hnames : ∀ p ∈ d.parameters, p.isPositional = false → ∀ t ∈ tokens, WritesRole t p.role →
      Text.FoldsInAscii t.text ∨ isReserved (Text.upper t.text) = false) :
    (∀ word, isReserved word = true →
      Parameters.find? d.parameters ("!" ++ unmarked word) = none) ∧
      ∀ keyword ∈ directiveKeywords, ∀ t : Token, t.matchesKeyword keyword = true →
        Body.ActsAs d.parameters keyword t := by
  have hstored : ∀ p ∈ d.parameters, ∀ name, p.keyword? = some name → IsStoredName name :=
    fun _ hp _ => isStoredName_of_parse hparse hspelled hp
  have hfree : ∀ p ∈ d.parameters, ∀ name, p.keyword? = some name → isReserved name = false := by
    intro p hp name hname
    obtain ⟨t, ht, hrole⟩ := exists_writesRole_of_parse hparse hp hname
    obtain ⟨rfl, _, hreserved⟩ := hrole.declares hname
    have hkeyword : p.isPositional = false := by
      rw [Parameter.isPositional_eq_isNone, hname, Option.isNone_some]
    rcases hnames p hp hkeyword t ht hrole with hfolds | hother
    · rw [isReserved_upper hfolds, hreserved]
    · exact hother
  refine ⟨fun word hword => Parameters.find?_of_isReserved hstored hfree hword, ?_⟩
  intro keyword hkeyword t ht
  apply Body.actsAs_of_find? hkeyword ht
  exact Parameters.find?_of_matchesKeyword hstored hfree hkeyword ht

/-- `DEFINE m (é !CMDEND) !ENDDEFINE.`, whose parameter is stored as `É`. -/
theorem reserved_beside_accent :
    ∃ d, parse (tokenize "DEFINE m (é !CMDEND) !ENDDEFINE.") = .ok d ∧
      d.parameters = accentParameters ∧
      Parameters.find? d.parameters ("!" ++ unmarked "!If") = none ∧
      Body.ActsAs d.parameters "!IF" (.word "!if" (.point 0)) := by
  have hparameters : (parse (tokenize "DEFINE m (é !CMDEND) !ENDDEFINE.")).toOption.map
      Definition.parameters = some accentParameters := by
    decide +kernel
  obtain ⟨d, hparse, hd⟩ := exists_of_map hparameters
  have hheads : ∀ t ∈ tokenize "DEFINE m (é !CMDEND) !ENDDEFINE.", t.isIdentifier = true →
      (t.text.toList.head?.any fun c => c == '!' || Scan.isNameStart c) = true ∧
        isReserved (Text.upper t.text) = isReserved t.text := by
    decide +kernel
  obtain ⟨hwords, hkeywords⟩ := reserved_words_never_parameters hparse
    (fun t ht hname => shape_of_head (hheads t ht hname).1) (by
      intro p _ hkeyword t ht hrole
      obtain ⟨name, hname⟩ := Parameter.exists_keyword?_of_not_positional hkeyword
      right
      rw [(hheads t ht hrole.isIdentifier).2]
      exact (hrole.declares hname).2.2)
  exact ⟨d, hparse, hd, hwords "!If" (by decide),
    hkeywords "!IF" (by decide) (.word "!if" (.point 0)) (by decide)⟩

/-- One parameter, declared with a dotless `ı` as `ıf`. -/
def dotlessParameters : List Parameter :=
  [{ role := .keyword "IF", capture := .commandEnd }]

/-- The upper case of a name with a letter beyond ASCII can be a reserved word, and then the keyword
is a reference to the parameter wherever it stands. -/
theorem reserved_word_declared :
    (∃ d, parse (tokenize "DEFINE m (ıf !CMDEND) !IF a !THEN b !IFEND !ENDDEFINE.") = .ok d ∧
      d.parameters = dotlessParameters) ∧
      isReserved "!IF" = true ∧
      Parameters.find? dotlessParameters ("!" ++ unmarked "!IF") = some 0 ∧
      Body.compile dotlessParameters [.keyword "!IF", .keyword "a", .keyword "!THEN", .keyword "b",
        .keyword "!IFEND"] = [.parameter 0, .literal [.keyword "a", .keyword "!THEN", .keyword "b",
          .keyword "!IFEND"]] := by
  have hparameters : (parse (tokenize
      "DEFINE m (ıf !CMDEND) !IF a !THEN b !IFEND !ENDDEFINE.")).toOption.map
        Definition.parameters = some dotlessParameters := by
    decide +kernel
  exact ⟨exists_of_map hparameters, by decide, by decide, rfl⟩

end Definition

end CommandMacros

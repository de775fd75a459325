import CommandMacros.Proofs.Binding.Decoded
import CommandMacros.Proofs.Body.ReadBack

/-!
Names and the case of letters. The name of a keyword parameter is stored in full upper case, while
references and arguments look it up, and reserved words are told, up to the case of ASCII letters
alone. The two agree on a name exactly if upper case changes nothing but its ASCII letters: then the
parameter is reached by the spelling of its declaration, and it hides no reserved word.
-/

namespace CommandMacros

/-! ### Looking names up -/

namespace Parameters

variable {parameters : List Parameter} {index : Nat} {p : Parameter} {text : String}

/-- A parameter is found by the spelling of its declaration exactly if its case is a matter of ASCII
letters. -/
theorem findKeyword?_spelling_iff (hordered : parameters.Pairwise Parameter.Precedes)
    (hstored : ∀ p ∈ parameters, ∀ name, p.keyword? = some name → IsStoredName name)
    (hp : parameters[index]? = some p) (hname : p.keyword? = some (Text.upper text)) :
    findKeyword? parameters text = some index ↔ Text.FoldsInAscii text := by
  obtain ⟨hindex, rfl⟩ := List.getElem?_eq_some_iff.mp hp
  constructor
  · intro hfind
    obtain ⟨_, hany, _⟩ := List.findIdx?_eq_some_iff_getElem.mp hfind
    rw [hname, Option.any_some] at hany
    exact Text.sameIgnoringCase_upper_iff.mp hany
  · intro hfolds
    have hsame := Text.sameIgnoringCase_iff.mp (Text.sameIgnoringCase_upper_iff.mpr hfolds)
    calc findKeyword? parameters text = findKeyword? parameters (Text.upper text) :=
          findKeyword?_congr hsame.symm
      _ = some index := findKeyword?_name hordered hstored hindex hname

/-- What is spelled like an identifier is looked up as a name. -/
theorem find?_of_shape (h : Scan.Shape .identifier text.toList) :
    find? parameters ("!" ++ text) = findKeyword? parameters text := by
  apply find?_of_name
  rw [← Number.readUnsigned?_asciiUpperChars]
  cases htext : text.toList with
  | nil => exact absurd htext h.ne_nil
  | cons c cs =>
      rw [htext] at h
      cases h with
      | identifier hc => exact Number.readUnsigned?_of_isCapital (Text.isCapital_toUpper hc) _

end Parameters

/-! ### References and arguments -/

/-- The token refers to the parameter: as text wherever it does not end the block, and in
expressions. -/
structure Body.RefersTo (parameters : List Parameter) (t : Token) (index : Nat) : Prop where
  text : ∀ (finish : Span) (block : Block) (rest : List Token), block.endsAt t = false →
    blockOf ⟨parameters, finish⟩ block (t :: rest) =
      ⟨.parameter index :: (blockOf ⟨parameters, finish⟩ block rest).directives,
        1 + (blockOf ⟨parameters, finish⟩ block rest).taken⟩
  operand : ∀ (finish : Span) (rest : List Token),
    operand ⟨parameters, finish⟩ t rest = .ok (.leaving (.parameter index) rest)

theorem Body.refersTo_of_find? {parameters : List Parameter} {t : Token} {index : Nat}
    (hmacroId : t.isMacroId = true) (hfind : Parameters.find? parameters t.text = some index) :
    RefersTo parameters t index where
  text finish block rest hends := blockOf_of_step hends (step_parameter hmacroId hfind _ _)
  operand finish rest := by
    have hstar := Token.isPunct_of_isIdentifier (isIdentifier_of_isMacroId hmacroId) .bangAsterisk
    rw [operand, if_neg (Bool.eq_false_iff.mp hstar), if_pos hmacroId, hfind]

namespace Call

variable {parameters : List Parameter}

/-- A well-formed call with `name = value` among its keyword arguments, where the name is spelled
so. -/
inductive WrittenNaming (parameters : List Parameter) (spelling : String) (index : Nat)
    (p : Parameter) (value : List Emitted) : List Emitted → Prop
  | mk {given : List (List Emitted)} {before after : List (Nat × List Emitted)}
      {tokens start written following rest : List Emitted} {name equals : Emitted}
      (hpositionals : WrittenPositionals parameters parameters given tokens start)
      (hbefore : WrittenKeywords parameters before start
        (name :: equals :: (written ++ following)))
      (hname : name.token.isIdentifier = true) (hspelling : name.token.text = spelling)
      (hequals : equals.token.isPunct .equals = true)
      (hvalue : WrittenBefore following p.capture value written)
      (hafter : WrittenKeywords parameters after following rest)
      (hdistinct : ((before ++ (index, value) :: after).map Prod.fst).Nodup)
      (hrest : LeavesKeyword parameters (before ++ (index, value) :: after) →
        BeginsNoArgument parameters rest) :
      WrittenNaming parameters spelling index p value tokens

theorem WrittenKeywords.append {before after : List (Nat × List Emitted)}
    {tokens following rest : List Emitted} (h : WrittenKeywords parameters before tokens following)
    (hafter : WrittenKeywords parameters after following rest) :
    WrittenKeywords parameters (before ++ after) tokens rest := by
  induction h with
  | nil => exact hafter
  | cons hname hmark hindex hp hequals hvalue _ ih =>
      exact .cons hname hmark hindex hp hequals hvalue (ih hafter)

/-- Arguments are bound by the names that find their parameters. -/
theorem WrittenNaming.binding {d : Definition} (hvalid : Parameters.Valid d.parameters) {t : Token}
    (ht : t.isIdentifier = true) (hmark : t.isMacroId = false) {index : Nat} {p : Parameter}
    (hp : d.parameters[index]? = some p)
    (hfind : Parameters.findKeyword? d.parameters t.text = some index)
    {value tokens : List Emitted} (h : WrittenNaming d.parameters t.text index p value tokens) :
    (bindArguments d tokens).bindings[index]? = some ⟨value.map Emitted.token, !p.noExpand⟩ := by
  obtain ⟨hpositionals, hbefore, hname, hspelling, hequals, hvalue, hafter, hdistinct, hrest⟩ := h
  have hplain {name : Token} (hname : name.isIdentifier = true) (hspelling : name.text = t.text) :
      name.isMacroId = false := by
    rw [Token.isMacroId, hname, hspelling]
    rwa [Token.isMacroId, ht] at hmark
  have hargument := WrittenKeywords.cons hname (hplain hname hspelling)
    ((congrArg _ hspelling).trans hfind) hp hequals hvalue hafter
  have hcall := WrittenCall.mk hpositionals (hbefore.append hargument) hdistinct
    (fun _ hnone => absurd hnone (List.append_ne_nil_of_right_ne_nil _ (List.cons_ne_nil _ _)))
    fun _ => hrest
  exact (hcall.decodes hvalid).keyword index p value hp
    (List.mem_append_right _ List.mem_cons_self)

end Call

namespace Definition

/-- The parameter is reached by the spelling: by look-up, in the body and in calls. -/
structure Reaches (d : Definition) (spelling : String) (index : Nat) (p : Parameter) : Prop where
  keyword : Parameters.findKeyword? d.parameters spelling = some index
  reference : Parameters.find? d.parameters ("!" ++ spelling) = some index
  body : ∀ span, Body.RefersTo d.parameters (.word ("!" ++ spelling) span) index
  argument : ∀ value call, Call.WrittenNaming d.parameters spelling index p value call →
    (bindArguments d call).bindings[index]? = some ⟨value.map Emitted.token, !p.noExpand⟩

/-- A keyword parameter is reached by a spelling of its declaration exactly if upper case changes
nothing but ASCII letters of that spelling. -/
theorem reached_by_declared_name_iff {tokens : List Token} {d : Definition}
    (hparse : parse tokens = .ok d)
    (hspelled : ∀ t ∈ tokens, t.isIdentifier = true → Scan.Shape .identifier t.text.toList)
    {index : Nat} {p : Parameter} (hp : d.parameters[index]? = some p)
    (hkeyword : p.isPositional = false) :
    (∃ t ∈ tokens, WritesRole t p.role) ∧
      ∀ t ∈ tokens, WritesRole t p.role →
        (Parameters.findKeyword? d.parameters t.text = some index ↔ Text.FoldsInAscii t.text) ∧
        (Parameters.find? d.parameters ("!" ++ t.text) = some index ↔ Text.FoldsInAscii t.text) ∧
        (d.Reaches t.text index p ↔ Text.FoldsInAscii t.text) := by
  have hvalid := (parse_eq_ok_iff.mp hparse).2
  obtain ⟨name, hname⟩ := Parameter.exists_keyword?_of_not_positional hkeyword
  refine ⟨exists_writesRole_of_parse hparse (List.mem_of_getElem? hp) hname, ?_⟩
  intro t ht hrole
  have hidentifier := hrole.isIdentifier
  have hshape := hspelled t ht hidentifier
  obtain ⟨rfl, hmark, _⟩ := hrole.declares hname
  have hfind := Parameters.findKeyword?_spelling_iff hvalid.ordered
    (fun _ hmem _ => isStoredName_of_parse hparse hspelled hmem) hp hname
  refine ⟨hfind, (Parameters.find?_of_shape hshape).symm ▸ hfind, fun h => hfind.mp h.keyword, ?_⟩
  intro hfolds
  have hfound := hfind.mpr hfolds
  have hreference := (Parameters.find?_of_shape hshape).trans hfound
  refine ⟨hfound, hreference, fun span => ?_, fun value call hcall => ?_⟩
  · exact Body.refersTo_of_find? (Parameters.isMacroId_word hshape.ne_nil span) hreference
  · exact hcall.binding hvalid hidentifier hmark hp hfound

/-- `DEFINE m (Én !CMDEND) !ENDDEFINE.` -/
theorem capital_accent_reached :
    ∃ d, parse (tokenize "DEFINE m (Én !CMDEND) !ENDDEFINE.") = .ok d ∧
      Text.FoldsInAscii "Én" ∧
      d.Reaches "Én" 0 { role := .keyword "ÉN", capture := .commandEnd } := by
  have hparameters : (parse (tokenize "DEFINE m (Én !CMDEND) !ENDDEFINE.")).toOption.map
      Definition.parameters = some [{ role := .keyword "ÉN", capture := .commandEnd }] := by
    decide +kernel
  obtain ⟨d, hparse, hd⟩ := exists_of_map hparameters
  have hheads : ∀ t ∈ tokenize "DEFINE m (Én !CMDEND) !ENDDEFINE.", t.isIdentifier = true →
      (t.text.toList.head?.any fun c => c == '!' || Scan.isNameStart c) = true := by
    decide +kernel
  have hmem : Token.word "Én" ⟨10, 13⟩ ∈ tokenize "DEFINE m (Én !CMDEND) !ENDDEFINE." := by
    decide +kernel
  have hfolds : Text.FoldsInAscii "Én" := by
    decide +kernel
  have hrole : WritesRole (.word "Én" ⟨10, 13⟩) (.keyword "ÉN") := by
    rw [show "ÉN" = Text.upper "Én" by decide +kernel]
    exact .keyword rfl (by decide) (by decide +kernel)
  have hp : d.parameters[0]? = some { role := .keyword "ÉN", capture := .commandEnd } := by
    rw [hd]
    rfl
  obtain ⟨_, hall⟩ := reached_by_declared_name_iff hparse
    (fun t ht hname => shape_of_head (hheads t ht hname)) hp rfl
  obtain ⟨_, _, hreaches⟩ := hall _ hmem hrole
  exact ⟨d, hparse, hfolds, hreaches.mpr hfolds⟩

/-- One parameter, declared as `é`. -/
def accentParameters : List Parameter :=
  [{ role := .keyword "É", capture := .commandEnd }]

/-- A parameter with a small accented name is found by no spelling of its declaration, and what
looks like a reference to it is text. -/
theorem small_accent_unreached :
    (∃ d, parse (tokenize "DEFINE m (é !CMDEND) !é !ENDDEFINE.") = .ok d ∧
      d.parameters = accentParameters) ∧
      WritesRole (.word "é" ⟨10, 12⟩) (.keyword "É") ∧
      Parameters.findKeyword? accentParameters "é" = none ∧
      Parameters.find? accentParameters "!é" = none ∧
      Body.compile accentParameters [.word "!é" ⟨22, 25⟩] = [.literal [.word "!é" ⟨22, 25⟩]] := by
  have hparameters : (parse (tokenize "DEFINE m (é !CMDEND) !é !ENDDEFINE.")).toOption.map
      Definition.parameters = some accentParameters := by
    decide +kernel
  refine ⟨exists_of_map hparameters, ?_, by decide +kernel, by decide +kernel, rfl⟩
  rw [show "É" = Text.upper "é" by decide +kernel]
  exact .keyword rfl (by decide) (by decide +kernel)

end Definition

end CommandMacros

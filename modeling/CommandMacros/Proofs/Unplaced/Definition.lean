import CommandMacros.Definition.Parse
import CommandMacros.Proofs.Unplaced.Body

/-!
Parsing a `DEFINE` without places. The same tokens make the same definition up to places wherever
they stand, or are rejected with the same error, which is one of a definition.
-/

namespace CommandMacros

/-- The errors that a `DEFINE` is rejected with. -/
def MacroError.OfDefinition : MacroError → Prop
  | .definition _ => True
  | _ => False

namespace Definition

section Clauses

variable (finish : Span) {tokens others : List Token}
  (hothers : others = tokens.map Token.unplaced)

include hothers

theorem alike_expectPunct (p : Punct) (cause : DefinitionError) :
    ReadsAlike MacroError.OfDefinition Token.unplaced (expectPunct finish p cause tokens)
      (expectPunct (.point 0) p cause others) :=
  alike_expect finish (fun _ => rfl) trivial hothers

theorem alike_delimiter :
    ReadsAlike MacroError.OfDefinition Token.unplaced (delimiter finish tokens)
      (delimiter (.point 0) others) := by
  refine (alike_expect finish (fun _ => rfl) trivial hothers).bind fun quoted _ hquoted => ?_
  have hstring : quoted.value.unplaced.string? = quoted.value.string? := rfl
  rw [hquoted.value, hstring]
  cases tokenize (quoted.value.string?.getD "") with
  | nil => exact .error trivial
  | cons t rest =>
      cases rest with
      | nil =>
          refine .ite .rfl (fun _ => .error trivial) (fun _ => .ok ?_)
          exact hquoted.map rfl
      | cons u rest => exact .error trivial

theorem alike_defaultTokens (keyword : Span) :
    ReadsAlike MacroError.OfDefinition (List.map Token.unplaced) (defaultTokens keyword tokens)
      (defaultTokens (.point 0) others) := by
  subst hothers
  induction tokens with
  | nil => exact .error trivial
  | cons t rest ih =>
      refine .ite .rfl (fun _ => .ok (.leaving rfl rest)) (fun _ => ?_)
      refine .ite .rfl (fun _ => .error trivial) (fun _ => ?_)
      exact ih.bind fun others _ hothers => .ok (.afterOne (hothers.map rfl))

theorem alike_inParens {α : Type} {unplace : α → α} (clause : Clause)
    {content unplacedContent : (inner : List Token) → Except Fault (Parsed α inner.length)}
    (hcontent : ∀ {inner unplaced : List Token}, unplaced = inner.map Token.unplaced →
      ReadsAlike MacroError.OfDefinition unplace (content inner) (unplacedContent unplaced)) :
    ReadsAlike MacroError.OfDefinition unplace (inParens finish clause tokens content)
      (inParens (.point 0) clause others unplacedContent) := by
  refine (alike_expectPunct finish hothers _ _).bind fun opening _ hopening => ?_
  refine (hcontent hopening.rest).bind fun inner _ hinner => ?_
  refine (alike_expectPunct finish hinner.rest _ _).bind fun closing _ hclosing => .ok ?_
  exact hopening.andThen (hinner.andThen (hclosing.map hinner.value))

theorem alike_count :
    ReadsAlike MacroError.OfDefinition id (count finish tokens) (count (.point 0) others) := by
  subst hothers
  cases tokens with
  | nil => exact .error trivial
  | cons t rest =>
      have hinteger : t.unplaced.integer? = t.integer? := rfl
      rw [List.map_cons, count, count, hinteger]
      cases t.integer? with
      | none => exact .error trivial
      | some n => exact .ite .rfl (fun _ => .ok (.leaving rfl rest)) (fun _ => .error trivial)

theorem alike_delimiterPair :
    ReadsAlike MacroError.OfDefinition (fun pair => (pair.1.unplaced, pair.2.unplaced))
      (delimiterPair finish tokens) (delimiterPair (.point 0) others) := by
  refine (alike_delimiter finish hothers).bind fun opening _ hopening => ?_
  refine (alike_expectPunct finish hopening.rest _ _).bind fun comma _ hcomma => ?_
  refine (alike_delimiter finish hcomma.rest).bind fun closing _ hclosing => .ok ?_
  refine hopening.andThen (hcomma.andThen (hclosing.map ?_))
  rw [hopening.value]

theorem alike_capture (clause : Clause) :
    ReadsAlike MacroError.OfDefinition Capture.unplaced (capture finish clause tokens)
      (capture (.point 0) clause others) := by
  cases clause with
  | tokens =>
      exact (alike_inParens finish hothers _ (alike_count finish)).bind fun n _ hn =>
        .ok (.afterOne (hn.map rfl))
  | charEnd =>
      exact (alike_inParens finish hothers _ (alike_delimiter finish)).bind fun ending _ hending =>
        .ok (.afterOne (hending.map rfl))
  | enclose =>
      exact (alike_inParens finish hothers _ (alike_delimiterPair finish)).bind fun pair _ hpair =>
        .ok (.afterOne (hpair.map rfl))
  | _ =>
      subst hothers
      exact .ok (.leaving rfl tokens)

def Clauses.unplaced (clauses : Clauses) : Clauses :=
  { clauses with
    default := clauses.default.map (List.map Token.unplaced)
    capture := clauses.capture.map Capture.unplaced }

theorem alike_clause (keyword : Span) (before : Clauses) (which : Clause) :
    ReadsAlike MacroError.OfDefinition Clauses.unplaced (clause finish keyword before which tokens)
      (clause (.point 0) (.point 0) before.unplaced which others) := by
  have hdefault : before.unplaced.default.isSome = before.default.isSome := Option.isSome_map
  have hcapture : before.unplaced.capture.isSome = before.capture.isSome := Option.isSome_map
  have hcaptured : ReadsAlike MacroError.OfDefinition Clauses.unplaced
      (if before.capture.isSome then .error (fault .repeatedCapture keyword) else do
        let captured ← capture finish which tokens
        return captured.map fun c => { before with capture := some c })
      (if before.unplaced.capture.isSome then .error (fault .repeatedCapture (.point 0)) else do
        let captured ← capture (.point 0) which others
        return captured.map fun c => { before.unplaced with capture := some c }) := by
    refine .ite (by rw [hcapture]) (fun _ => .error trivial) (fun _ => ?_)
    exact (alike_capture finish hothers which).bind fun captured _ hread => .ok (hread.map rfl)
  cases which with
  | noExpand =>
      subst hothers
      exact .ok (.leaving rfl tokens)
  | default =>
      refine .ite (by rw [hdefault]) (fun _ => .error trivial) (fun _ => ?_)
      refine (alike_expectPunct finish hothers _ _).bind fun opening _ hopening => ?_
      refine (alike_defaultTokens hopening.rest keyword).bind fun value _ hvalue => .ok ?_
      exact .afterOne (hopening.andThen (hvalue.map rfl))
  | _ => exact hcaptured

end Clauses

theorem alike_clauses (finish : Span) (before : Clauses) {tokens others : List Token}
    (hothers : others = tokens.map Token.unplaced) :
    ReadsAlike MacroError.OfDefinition Clauses.unplaced (clauses finish before tokens)
      (clauses (.point 0) before.unplaced others) := by
  match tokens, others, hothers with
  | [], _, rfl =>
    rw [List.map_nil, clauses, clauses]
    exact .ok (.leaving rfl [])
  | t :: rest, _, rfl =>
    have hclause : clauseAt? t.unplaced = clauseAt? t := rfl
    rw [List.map_cons, clauses, clauses, hclause]
    cases clauseAt? t with
    | none => exact .ok (.leaving rfl (t :: rest))
    | some which =>
        refine (alike_clause finish rfl t.span before which).bind fun read other hread => ?_
        have hshorter := read.shorter
        have hothers := alike_clauses finish read.value hread.rest
        rw [← hread.value] at hothers
        exact hothers.bind fun more _ hmore => .ok (.afterOne (hread.andMaybe hmore))
termination_by tokens.length

/-! ### Declarations -/

section Declarations

variable (finish : Span)

theorem skipEquals_unplaced (tokens : List Token) :
    skipEquals (tokens.map Token.unplaced) = (skipEquals tokens).map Token.unplaced := by
  cases tokens with
  | nil => rfl
  | cons t rest =>
      rw [List.map_cons, skipEquals, skipEquals, Token.isPunct_unplaced]
      split <;> rfl

theorem countEquals_unplaced (tokens : List Token) :
    countEquals (tokens.map Token.unplaced) = countEquals tokens := by
  cases tokens with
  | nil => rfl
  | cons t rest => rfl

theorem alike_role (previous : List Parameter) {tokens others : List Token}
    (hothers : others = tokens.map Token.unplaced) :
    ReadsAlike MacroError.OfDefinition id (role finish previous tokens)
      (role (.point 0) (previous.map Parameter.unplaced) others) := by
  subst hothers
  have hkeyword : (previous.map Parameter.unplaced).any (!·.isPositional) =
      previous.any (!·.isPositional) := List.any_map
  have hdeclares (name : String) :
      declares (previous.map Parameter.unplaced) name = declares previous name := List.any_map
  cases tokens with
  | nil => exact .error trivial
  | cons t rest =>
      rw [List.map_cons, role, role, hkeyword]
      refine .ite .rfl (fun _ => .ite .rfl (fun _ => .error trivial) fun _ => ?_) (fun _ => ?_)
      · refine .ite ?_ (fun _ => .error trivial) (fun _ => .ok (.leaving rfl rest))
        rw [List.getLast?_map, Option.any_map]
        refine iff_of_eq (congrArg (Option.any · previous.getLast? = true) (funext fun p => ?_))
        cases hcapture : p.capture <;> simp only [Parameter.unplaced, hcapture, Capture.unplaced]
      refine .ite .rfl (fun _ => .error trivial) (fun _ => ?_)
      refine .ite .rfl (fun _ => .error trivial) (fun _ => ?_)
      refine .ite .rfl (fun _ => .error trivial) (fun _ => ?_)
      refine .ite ?_ (fun _ => .error trivial) (fun _ => .ok (.leaving rfl rest))
      rw [hdeclares]
      rfl

theorem alike_declaration (previous : List Parameter) {tokens others : List Token}
    (hothers : others = tokens.map Token.unplaced) :
    ReadsAlike MacroError.OfDefinition Parameter.unplaced (declaration finish previous tokens)
      (declaration (.point 0) (previous.map Parameter.unplaced) others) := by
  refine (alike_role finish previous hothers).bind fun role other hrole => ?_
  have hskip : skipEquals other.rest = (skipEquals role.rest).map Token.unplaced := by
    rw [hrole.rest, skipEquals_unplaced]
  refine (alike_clauses finish {} hskip).bind fun read unplaced hread => ?_
  have hcapture : unplaced.value.capture = read.value.capture.map Capture.unplaced :=
    congrArg Clauses.capture hread.value
  rw [hcapture]
  cases read.value.capture with
  | none =>
      have hspan : spanAt (.point 0) unplaced.rest = .point 0 := by
        rw [hread.rest]
        cases read.rest <;> rfl
      dsimp only [Option.map]
      rw [hspan]
      exact .error trivial
  | some capture =>
      have hcount : countEquals other.rest = countEquals role.rest := by
        rw [hrole.rest, countEquals_unplaced]
      refine .ok (hrole.andMaybe ⟨?_, hread.rest, ?_⟩)
      · change Parameter.mk other.value _ unplaced.value.default unplaced.value.noExpand = _
        rw [hrole.value, hread.value]
        rfl
      · change unplaced.taken + countEquals other.rest = read.taken + countEquals role.rest
        rw [hread.taken, hcount]

theorem alike_declarations (previous : List Parameter) {tokens others : List Token}
    (hothers : others = tokens.map Token.unplaced) :
    ReadsAlike MacroError.OfDefinition (List.map Parameter.unplaced)
      (declarations finish previous tokens)
      (declarations (.point 0) (previous.map Parameter.unplaced) others) := by
  match tokens, others, hothers with
  | [], _, rfl =>
    rw [List.map_nil, declarations, declarations]
    exact .error trivial
  | t :: rest, _, rfl =>
    rw [List.map_cons, declarations, declarations]
    refine .ite .rfl (fun _ => .ok (.leaving rfl rest)) (fun _ => ?_)
    refine .ite .rfl (fun _ => .error trivial) (fun _ => ?_)
    refine (alike_declaration finish previous rfl).bind fun read other hread => ?_
    refine hread.casesOnRest ?_ ?_
    · intros
      exact .error trivial
    · intro value u others _ _ _ _ hu hread
      have hless := Parsed.rest_succ_le_of_rest_eq hu
      have hlonger : previous.map Parameter.unplaced ++ [value.unplaced] =
          (previous ++ [value]).map Parameter.unplaced := by
        rw [List.map_append]
        rfl
      dsimp only
      rw [hlonger]
      refine .ite .rfl (fun _ => .ok ⟨rfl, rfl, rfl⟩) (fun _ => ?_)
      refine .ite .rfl (fun _ => ?_) (fun _ => .error trivial)
      exact (alike_declarations (previous ++ [value]) rfl).bind fun all _ hall =>
        .ok (hread.afterToken rfl rfl hall.afterOne)
termination_by tokens.length
decreasing_by exact hless

end Declarations

/-! ### The whole command -/

theorem splitBody?_unplaced (tokens : List Token) :
    splitBody? (tokens.map Token.unplaced) = (splitBody? tokens).map fun split =>
      (split.1.map Token.unplaced, split.2.map Token.unplaced) := by
  induction tokens with
  | nil => rfl
  | cons t rest ih =>
      rw [List.map_cons, splitBody?, splitBody?, Token.matchesKeyword_unplaced]
      split
      · rfl
      · rw [ih, Option.map_map, Option.map_map]
        rfl

theorem alike_checkTail (tokens : List Token) :
    Alike MacroError.OfDefinition (fun _ _ => True) (checkTail tokens)
      (checkTail (tokens.map Token.unplaced)) := by
  cases tokens with
  | nil => exact .ok trivial
  | cons t rest =>
      rw [List.map_cons, checkTail, checkTail, Token.isEnd_unplaced]
      cases t.isEnd with
      | true =>
          cases rest with
          | nil => exact .ok trivial
          | cons u rest => exact .error trivial
      | false => exact .error trivial

/-- Parsing a `DEFINE` looks at no places. -/
theorem alike_parse (tokens : List Token) :
    Alike MacroError.OfDefinition (fun d other => other = Definition.unplaced d) (parse tokens)
      (parse (tokens.map Token.unplaced)) := by
  rw [parse, parse, finishOf_unplaced]
  refine (alike_expect _ (fun _ => rfl) trivial rfl).bind fun start _ hstart => ?_
  refine (alike_expect _ (fun _ => rfl) trivial hstart.rest).bind fun name _ hname => ?_
  refine (alike_expectPunct _ hname.rest _ _).bind fun opening _ hopening => ?_
  refine (alike_declarations _ [] hopening.rest).bind fun parameters _ hparameters => ?_
  rw [hparameters.rest, splitBody?_unplaced, hname.value, hparameters.value]
  cases splitBody? parameters.rest with
  | none => exact .error trivial
  | some split =>
      refine (alike_checkTail split.2).bind fun _ _ _ => .ok ?_
      rw [Body.compile_unplaced]
      rfl

/-- A `DEFINE` is rejected for a problem of the definition. -/
theorem cause_of_parse {statement : List Token} {fault : Fault}
    (h : parse statement = .error fault) : ∃ cause, fault.error = .definition cause := by
  have hparse := alike_parse statement
  rw [h] at hparse
  generalize parse (statement.map Token.unplaced) = other at hparse
  cases hparse with
  | @error error span herror =>
      cases error with
      | definition cause => exact ⟨cause, rfl⟩
      | _ => exact herror.elim

end Definition

end CommandMacros

import CommandMacros.Proofs.Expansion.Loops
import CommandMacros.Proofs.Quoted
import CommandMacros.Proofs.Token.RoundTrip

/-!
Lists of words. A text of names and numbers can be taken apart from the front with `!HEAD` and
`!TAIL`, or gone through with a loop, and both come to the same words in the same order. Each
`!TAIL` writes out what is left, with a space between neighbours, so what it gives is scanned into
the words that were left and is a list of words again.
-/

namespace CommandMacros

/-- Names, and numbers that do not begin with a sign. -/
def Token.isListWord (t : Token) : Bool :=
  match t.kind with
  | .identifier => true
  | .number _ => t.text.toList.head? != some '-'
  | _ => false

/-- All tokens of the text are words. -/
def WordList (text : String) : Prop :=
  ∀ t ∈ tokenize text, t.isListWord = true

/-! ### Words as tokens -/

namespace Token

variable {t u : Token}

theorem isListWord_of_spelling (h : t.spelling = u.spelling) : t.isListWord = u.isListWord := by
  have hkind : t.kind = u.kind := congrArg Prod.fst h
  have htext : t.text = u.text := congrArg Prod.snd h
  rw [isListWord, isListWord, hkind, htext]

theorem kind_of_isListWord (h : t.isListWord = true) :
    t.kind = .identifier ∨ ∃ value, t.kind = .number value := by
  unfold isListWord at h
  split at h
  · next hkind => exact .inl hkind
  · next value hkind => exact .inr ⟨value, hkind⟩
  · cases h

theorem isError_of_isListWord (h : t.isListWord = true) : t.isError = false := by
  rw [isError]
  rcases kind_of_isListWord h with hkind | ⟨value, hkind⟩
  · rw [hkind]
  · rw [hkind]

/-- Words have a space between them. -/
theorem fuses_of_isListWord (ht : t.isListWord = true) (hu : u.isListWord = true)
    (afterOperand : Bool) : fuses afterOperand t u = false := by
  rw [fuses]
  rcases kind_of_isListWord ht with hfirst | ⟨value, hfirst⟩ <;>
    rcases kind_of_isListWord hu with hsecond | ⟨next, hsecond⟩ <;>
    rw [hfirst, hsecond]

theorem unfused_of_isListWord {tokens : List Token} (h : ∀ t ∈ tokens, t.isListWord = true)
    (afterOperand : Bool) : unfused afterOperand tokens = true := by
  induction tokens generalizing afterOperand with
  | nil => rfl
  | cons t tokens ih =>
      obtain ⟨ht, htokens⟩ := List.forall_mem_cons.mp h
      refine Scan.unfused_cons.mpr ⟨fun u hu => ?_, ih htokens t.isOperand⟩
      exact fuses_of_isListWord ht (htokens u (List.mem_of_head? hu)) afterOperand

end Token

namespace Scan

variable {afterOperand : Bool} {c : Char} {cs : List Char}

/-- A string that is opened at the front is not a word, whether it is closed or not. -/
theorem isListWord_scanQuoted (c : Char) (cs : List Char) (position : Nat) :
    ((scanQuoted c cs).toToken position).isListWord = false := by
  unfold scanQuoted
  split <;> rfl

theorem ne_sign_of_isListWord {next : Lexeme} (h : Lexes afterOperand c cs next) {position : Nat}
    (hword : (next.toToken position).isListWord = true) : c ≠ '-' := by
  obtain ⟨ds, htaken, -⟩ := h.taken_append
  have hshape := h.shape
  rw [htaken] at hshape
  rintro rfl
  rw [Token.isListWord, Lexeme.toToken, String.toList_ofList, htaken] at hword
  generalize next.kind = kind at hshape hword
  cases hshape with
  | identifier hc =>
      rcases hc with hc | hc
      · cases hc
      · cases hc
  | number | string | single | pair => cases hword

/-- What comes before matters only to a sign. -/
theorem lexeme_of_ne_sign (hc : c ≠ '-') (first second : Bool) (cs : List Char) :
    lexeme first c cs = lexeme second c cs := by
  simp only [lexeme, hc, false_and, if_false]

theorem scan_tail (position : Nat) (afterOperand : Bool) (cs : List Char) :
    ∃ later operandBefore rest,
      (scan position afterOperand cs).tail = scan later operandBefore rest := by
  fun_induction scan position afterOperand cs with
  | case1 => exact ⟨0, false, [], by rw [scan, List.tail_nil]⟩
  | case2 position afterOperand c cs hblank ih => exact ih
  | case3 => exact ⟨_, _, _, rfl⟩

/-- Words that are written out are read back, whatever comes before. -/
theorem spellings_render_words (position : Nat) (afterOperand : Bool) (cs : List Char)
    (h : ∀ t ∈ scan position afterOperand cs, t.isListWord = true) (other : Bool) :
    spellings other (Token.render (scan position afterOperand cs)).toList =
      (scan position afterOperand cs).map Token.spelling := by
  fun_induction scan position afterOperand cs generalizing other with
  | case1 => exact spellings_nil other
  | case2 position afterOperand c cs hblank ih => exact ih h other
  | case3 position afterOperand c cs hblank next ih =>
      obtain ⟨hnext, hrest⟩ := List.forall_mem_cons.mp h
      have hlexes : Lexes afterOperand c cs next :=
        lexes_of_isError rfl (Token.isError_of_isListWord hnext)
      have hshape : ∀ u ∈ scan (position + byteLength next.taken) next.isOperand next.rest,
          Shape u.kind u.text.toList := fun u hu =>
        shape_of_mem_scan (fun t ht => Token.isError_of_isListWord (hrest t ht)) hu
      have hunfused := Token.unfused_of_isListWord h afterOperand
      have hkind : (next.toToken position).kind = next.kind := rfl
      obtain ⟨ds, htaken, hread⟩ := hlexes.reread hkind String.toList_ofList rfl hshape hunfused
      rw [spellings_render_cons (Bool.eq_false_iff.mpr hblank) htaken rfl]
      refine ⟨?_, ih hrest _⟩
      rw [lexeme_of_ne_sign (ne_sign_of_isListWord hlexes hnext) other afterOperand]
      exact hread.lexeme_eq

end Scan

/-! ### Words as texts -/

namespace WordList

variable {text : String}

theorem unquote_eq (h : WordList text) : Quoted.unquote text = text := by
  rw [Quoted.unquote]
  cases hvalue : Quoted.tryUnquote text with
  | none => rfl
  | some value =>
      -- The text would begin with a delimiter, and its first token with the string.
      obtain ⟨front, delimiter, back, hfront, hdelimiter, -, htext⟩ :=
        Quoted.tryUnquote_eq_some_iff.mp hvalue
      have hblank : ¬Text.isBlank delimiter = true := by
        rw [Quoted.isBlank_of_isDelimiter hdelimiter]
        exact Bool.false_ne_true
      have hfirst := h
      rw [WordList, tokenize, htext, Scan.scan_blanks hfront, Quoted.enclosed, List.cons_append,
        Scan.scan_lexeme hblank, Scan.lexeme, if_pos hdelimiter] at hfirst
      have hword := (List.forall_mem_cons.mp hfirst).1
      rw [Scan.isListWord_scanQuoted] at hword
      cases hword

/-- Taking the first word off leaves the others. -/
theorem spellings_tailOf (h : WordList text) :
    (tokenize (Builtin.tailOf text)).map Token.spelling =
      ((tokenize text).map Token.spelling).tail := by
  obtain ⟨position, afterOperand, cs, htail⟩ := Scan.scan_tail 0 false text.toList
  have hwords : ∀ t ∈ Scan.scan position afterOperand cs, t.isListWord = true := by
    rw [← htail]
    exact fun t ht => h t (List.mem_of_mem_tail ht)
  have hread := Scan.spellings_render_words position afterOperand cs hwords false
  rw [← htail] at hread
  rw [Builtin.tailOf, h.unquote_eq, ← List.map_tail]
  exact hread

theorem of_spellings {other : String} (h : WordList text)
    (hsub : (tokenize other).map Token.spelling ⊆ (tokenize text).map Token.spelling) :
    WordList other := by
  intro u hu
  obtain ⟨t, ht, hspelling⟩ := List.mem_map.mp (hsub (List.mem_map_of_mem hu))
  rw [← Token.isListWord_of_spelling hspelling]
  exact h t ht

theorem tailOf (h : WordList text) : WordList (Builtin.tailOf text) := by
  refine h.of_spellings ?_
  rw [h.spellings_tailOf]
  exact (List.tail_sublist _).subset

end WordList

/-! ### Walks -/

/-- What is left after a number of steps with `!TAIL`. -/
def Builtin.leftAfter (text : String) : (steps : Nat) → String
  | 0 => text
  | steps + 1 => tailOf (leftAfter text steps)

namespace WordList

variable {text : String}

theorem leftAfter (h : WordList text) (steps : Nat) : WordList (Builtin.leftAfter text steps) := by
  induction steps with
  | zero => exact h
  | succ steps ih => exact ih.tailOf

theorem spellings_leftAfter (h : WordList text) (steps : Nat) :
    (tokenize (Builtin.leftAfter text steps)).map Token.spelling =
      ((tokenize text).map Token.spelling).drop steps := by
  induction steps with
  | zero => rfl
  | succ steps ih =>
      rw [Builtin.leftAfter, (h.leftAfter steps).spellings_tailOf, ih, List.tail_drop]

theorem texts_leftAfter (h : WordList text) (steps : Nat) :
    (tokenize (Builtin.leftAfter text steps)).map Token.text =
      ((tokenize text).map Token.text).drop steps := by
  have hspellings := congrArg (List.map Prod.snd) (h.spellings_leftAfter steps)
  rw [List.map_map, List.map_drop, List.map_map] at hspellings
  exact hspellings

theorem headOf_leftAfter (h : WordList text) {steps : Nat} {word : String}
    (hword : ((tokenize text).map Token.text)[steps]? = some word) :
    Builtin.headOf (Builtin.leftAfter text steps) = word := by
  rw [Builtin.headOf, (h.leftAfter steps).unquote_eq, ← List.head?_map, h.texts_leftAfter,
    List.head?_drop, hword, Option.getD_some]

/-- The last word leaves nothing. -/
theorem leftAfter_length (h : WordList text) (hne : tokenize text ≠ []) :
    Builtin.leftAfter text (tokenize text).length = "" := by
  obtain ⟨steps, hsteps⟩ := Nat.exists_eq_succ_of_ne_zero
    (Nat.ne_of_gt (List.length_pos_iff.mpr hne))
  have hlast := congrArg List.length (h.texts_leftAfter steps)
  rw [List.length_map, List.length_drop, List.length_map, hsteps, Nat.succ_sub (Nat.le_refl steps),
    Nat.sub_self] at hlast
  obtain ⟨last, hlast⟩ := List.length_eq_one_iff.mp hlast
  rw [hsteps, Builtin.leftAfter, Builtin.tailOf, (h.leftAfter steps).unquote_eq, hlast,
    List.tail_cons]
  rfl

end WordList

/-! ### Loops -/

namespace Expansion

/-- The scenes in which the body is run with one value of the variable after the other. -/
def rounds (body : Scene → Emission) (variableName : String) : List String → Scene → List Scene
  | [], _ => []
  | value :: values, scene =>
    let bound := scene.setVariable variableName value
    bound :: rounds body variableName values (body bound).scene

theorem get?_setVariable (scene : Scene) (name value : String) :
    (scene.setVariable name value).activation.locals.get? name = some value := by
  simp only [Scene.setVariable, Activation.setVariable, Variables.set, Variables.get?,
    List.lookup_cons_self]

theorem get?_rounds (body : Scene → Emission) (variableName : String) (values : List String)
    (scene : Scene) :
    (rounds body variableName values scene).map (·.activation.locals.get? variableName) =
      values.map some := by
  induction values generalizing scene with
  | nil => rfl
  | cons value values ih => rw [rounds, List.map_cons, List.map_cons, get?_setVariable, ih]

/-- Where no round comes to a `!BREAK` the passes of a loop are all its rounds. -/
theorem passes_eq_rounds {body : Scene → Emission} {variableName : String} {values : List String}
    {scene : Scene}
    (h : ∀ round ∈ rounds body variableName values scene, (body round).broken = false) :
    passes body variableName values scene =
      .ofTokens ((rounds body variableName values scene).flatMap fun round => (body round).tokens)
        (values.foldl (fun scene value => (body (scene.setVariable variableName value)).scene)
          scene) := by
  induction values generalizing scene with
  | nil => rfl
  | cons value values ih =>
      obtain ⟨hfirst, hothers⟩ := List.forall_mem_cons.mp h
      have hgoes : (iteration body variableName value scene).broken = false := hfirst
      rw [passes, Emission.andThen_of_not_broken hgoes, iteration, ih hothers]
      rfl

/-- A loop over the tokens of a list that the limit allows makes a round for each of them. -/
theorem substituteOne_doIn_eq_rounds {env : Environment} {eval : Evaluator} {variableName : String}
    {list : Expr} {body : List Directive} {scene start : Scene} {text : String}
    (hlimit : (tokenize text).length ≤ env.settings.iterateLimit)
    (hlist : evaluate eval list (scene.enter "!DO") = .ok text start)
    (hbody : ∀ round ∈ rounds (substitute env eval body) variableName
      ((tokenize text).map Token.text) start, (substitute env eval body round).broken = false)
    (span : Span) :
    let values := (tokenize text).map Token.text
    let run := substitute env eval body
    substituteOne env eval (.doIn variableName list body span) scene =
      .ofTokens ((rounds run variableName values start).flatMap fun round => (run round).tokens)
        (values.foldl (fun scene value => (run (scene.setVariable variableName value)).scene)
          start).leave := by
  intro values run
  have hall : values.take env.settings.iterateLimit = values :=
    List.take_of_length_le (by rwa [List.length_map])
  have hnone : ¬env.settings.iterateLimit < values.length := by
    rw [List.length_map]
    omega
  rw [substituteOne, within, runList, orFail, hlist]
  dsimp only
  rw [iterateList_eq, hall, passes_eq_rounds hbody, Emission.endLoop, if_neg fun h => hnone h.2]
  rfl

end Expansion

/-- Walking a list of words with `!HEAD` and `!TAIL` comes to the same words as a loop over it. From
the text on, `!TAIL` gives what is left after one word more, `!HEAD` of this is the next word, and
nothing is left after the last one. A loop over the words that the limit allows, with a body that
comes to no `!BREAK`, runs this body in a round for each word, in which the variable is the word. -/
theorem word_list_walked_alike {text : String} (hwords : WordList text)
    (hne : tokenize text ≠ []) :
    let words := (tokenize text).map Token.text
    (∀ {σ : Type} (eval : String → σ → String × σ) (state : σ), ∃ left : Nat → String,
      left 0 = text ∧
      (∀ k, Builtin.apply eval .tail [left k] state = (.ok (left (k + 1)), state)) ∧
      (∀ k (hk : k < words.length),
        Builtin.apply eval .head [left k] state = (.ok (words.get ⟨k, hk⟩), state)) ∧
      left words.length = "") ∧
    ∀ (env : Environment) (eval : Evaluator) (variableName : String) (list : Expr)
      (body : List Directive) (span : Span) (scene start : Scene),
      words.length ≤ env.settings.iterateLimit →
      Expansion.evaluate eval list (scene.enter "!DO") = .ok text start →
      let run := Expansion.substitute env eval body
      let rounds := Expansion.rounds run variableName words start
      (∀ round ∈ rounds, (run round).broken = false) →
      rounds.map (·.activation.locals.get? variableName) = words.map some ∧
      Expansion.substituteOne env eval (.doIn variableName list body span) scene =
        .ofTokens (rounds.flatMap fun round => (run round).tokens)
          (words.foldl (fun scene word => (run (scene.setVariable variableName word)).scene)
            start).leave := by
  intro words
  refine ⟨fun eval state => ?_, fun env eval variableName list body span scene start => ?_⟩
  · refine ⟨Builtin.leftAfter text, rfl, fun k => rfl, fun k hk => ?_, ?_⟩
    · have hword : Builtin.headOf (Builtin.leftAfter text k) = words.get ⟨k, hk⟩ :=
        hwords.headOf_leftAfter (List.getElem?_eq_getElem hk)
      rw [← hword]
      rfl
    · rw [List.length_map]
      exact hwords.leftAfter_length hne
  · intro hlimit hlist run rounds hbody
    rw [List.length_map] at hlimit
    exact ⟨Expansion.get?_rounds run variableName words start,
      Expansion.substituteOne_doIn_eq_rounds hlimit hlist hbody span⟩

/-- The list `'a.b 1.5e3x!c .5'` -/
def quotedWords : Expr :=
  .operand (.token ⟨.string "a.b 1.5e3x!c .5", "'a.b 1.5e3x!c .5'", .point 0⟩)

/-- The body `!w` -/
def copyWord : List Directive :=
  [.literal [⟨.identifier, "!w", .point 0⟩]]

/-- A name with a dot in it, a number with an exponent right before a name, a name right before
another one, and a number that begins with its point. Once written out they stand apart. -/
theorem adjacent_words_walked :
    let text := "a.b 1.5e3x!c .5"
    let words := ["a.b", "1.5e3", "x", "!c", ".5"]
    let env : Environment := ⟨⟨[]⟩, {}⟩
    let evalText (text : String) (state : Unit) := (text, state)
    let eval : Evaluator := fun text _ scene => (text, scene)
    let scene : Scene :=
      ⟨{ definition := ⟨"m", .point 0, [], []⟩, bindings := [], depth := 1 }, {}⟩
    let start := scene.enter "!DO"
    WordList text ∧ tokenize text ≠ [] ∧ Builtin.tailOf text = "1.5e3 x !c .5" ∧
      (∃ left : Nat → String, left 0 = text ∧
        Builtin.apply evalText .tail [text] () = (.ok (left 1), ()) ∧
        Builtin.apply evalText .head [left 3] () = (.ok "!c", ()) ∧ left 5 = "") ∧
      (∀ scene, (Expansion.substitute env eval copyWord scene).broken = false) ∧
      Expansion.evaluate eval quotedWords start = .ok text start ∧
      (Expansion.rounds (Expansion.substitute env eval copyWord) "!w" words start).map
        (·.activation.locals.get? "!w") = words.map some ∧
      (Expansion.substituteOne env eval (.doIn "!w" quotedWords copyWord (.point 0))
        scene).tokens.map (·.token.text) = words := by
  intro text words env evalText eval scene start
  have hwords : WordList text := by
    unfold WordList
    decide +kernel
  have hne : tokenize text ≠ [] := by decide +kernel
  have htexts : (tokenize text).map Token.text = words := by decide +kernel
  have hbody : ∀ scene, (Expansion.substitute env eval copyWord scene).broken = false :=
    fun _ => rfl
  have hvalue : Quoted.unquote "'a.b 1.5e3x!c .5'" = text := by decide +kernel
  have hlist : Expansion.evaluate eval quotedWords start = .ok text start := by
    rw [← hvalue]
    rfl
  obtain ⟨hwalk, hloop⟩ := word_list_walked_alike hwords hne
  rw [htexts] at hwalk hloop
  obtain ⟨left, hstart, htail, hhead, hend⟩ := hwalk evalText ()
  have hnext := htail 0
  rw [hstart] at hnext
  obtain ⟨hrounds, hemission⟩ := hloop env eval "!w" quotedWords copyWord (.point 0) scene start
    (by decide) hlist fun round _ => hbody round
  refine ⟨hwords, hne, by decide +kernel, ⟨left, hstart, hnext, hhead 3 (by decide), hend⟩, hbody,
    hlist, hrounds, ?_⟩
  rw [hemission]
  decide +kernel

end CommandMacros

import CommandMacros.Token.Render

/-!
Commands as text. Tokens are cut into commands after each end; where no two ends stand next to each
other, the texts of the commands with single spaces between them are the text of the tokens.
-/

namespace CommandMacros.Token

theorem commands_eq_nil {tokens : List Token} (h : commands tokens = []) : tokens = [] := by
  rw [← flatten_commands tokens, h, List.flatten_nil]

/-- The first command begins with the first token. -/
theorem commands_cons (t : Token) (rest : List Token) :
    ∃ command others, commands (t :: rest) = (t :: command) :: others := by
  rw [commands]
  split
  · exact ⟨[], commands rest, rfl⟩
  · split
    · exact ⟨[], [], rfl⟩
    · next command others _ => exact ⟨command, others, rfl⟩

theorem commands_of_end {e : Token} (he : e.isEnd = true) (rest : List Token) :
    commands (e :: rest) = [e] :: commands rest := by
  rw [commands, if_pos he]

/-- Tokens without an end in front of one make up the first command with it. -/
theorem commands_append_end {front : List Token} (hfront : ∀ t ∈ front, t.isEnd = false)
    {e : Token} (he : e.isEnd = true) (rest : List Token) :
    commands (front ++ e :: rest) = (front ++ [e]) :: commands rest := by
  induction front with
  | nil => exact commands_of_end he rest
  | cons t front ih =>
      obtain ⟨ht, hfront⟩ := List.forall_mem_cons.mp hfront
      rw [List.cons_append, commands, ht, if_neg Bool.false_ne_true, ih hfront]
      rfl

/-- Tokens without an end make up one command. -/
theorem commands_of_no_end {tokens : List Token} (h : ∀ t ∈ tokens, t.isEnd = false) :
    commands tokens = if tokens.isEmpty then [] else [tokens] := by
  induction tokens with
  | nil => rfl
  | cons t rest ih =>
      obtain ⟨ht, hrest⟩ := List.forall_mem_cons.mp h
      rw [commands, ht, if_neg Bool.false_ne_true, ih hrest]
      cases rest <;> rfl

/-- Commands up to an end and commands after it. -/
theorem commands_split {e : Token} (he : e.isEnd = true) (front back : List Token) :
    commands (front ++ e :: back) = commands (front ++ [e]) ++ commands back := by
  induction front with
  | nil =>
      rw [List.nil_append, List.nil_append, commands_of_end he, commands_of_end he]
      rfl
  | cons t front ih =>
      obtain ⟨command, others, hcommands⟩ : ∃ command others,
          commands (front ++ [e]) = command :: others := by
        cases hcommands : commands (front ++ [e]) with
        | nil => cases front <;> cases commands_eq_nil hcommands
        | cons command others => exact ⟨command, others, rfl⟩
      rw [List.cons_append, List.cons_append, commands, commands, ih, hcommands]
      split <;> rfl

theorem render_singleton (t : Token) : render [t] = t.text := by
  rw [render, pieces, String.join_cons, String.join_nil, String.append_empty]

theorem render_cons_cons (t u : Token) (rest : List Token) :
    render (t :: u :: rest) =
      t.text ++ ((if needsSpace t u then " " else "") ++ render (u :: rest)) := by
  rw [render, pieces, render]
  split
  · rw [String.join_cons, String.join_cons]
  · rw [String.join_cons, String.empty_append]

/-- The texts of the commands make up the text of the tokens. -/
theorem intercalate_renderCommands {tokens : List Token}
    (h : ∀ t u, [t, u] <:+: tokens → ¬(t.isEnd = true ∧ u.isEnd = true)) :
    " ".intercalate (renderCommands tokens) = render tokens := by
  induction tokens with
  | nil => rfl
  | cons t rest ih =>
      cases rest with
      | nil =>
          rw [renderCommands, commands]
          split <;> exact String.intercalate_singleton
      | cons u rest =>
          obtain ⟨command, others, hcommands⟩ := commands_cons u rest
          have hrest := ih fun first second hpair =>
            h first second (hpair.trans (List.suffix_cons t (u :: rest)).isInfix)
          rw [renderCommands, hcommands, List.map_cons] at hrest
          cases ht : t.isEnd with
          | true =>
              have hu : u.isEnd = false := by
                have hpair := h t u ⟨[], rest, rfl⟩
                rw [ht] at hpair
                simpa using hpair
              have hspace : needsSpace t u = true := by
                rw [needsSpace, hu, ht]
                rfl
              rw [renderCommands, commands_of_end ht, hcommands, List.map_cons, List.map_cons,
                String.intercalate_cons_cons, hrest, render_singleton, render_cons_cons, hspace,
                if_pos rfl, String.append_assoc]
          | false =>
              have hcommand : commands (t :: u :: rest) = (t :: u :: command) :: others := by
                rw [commands, ht, if_neg Bool.false_ne_true, hcommands]
              rw [renderCommands, hcommand, List.map_cons, render_cons_cons,
                String.intercalate_cons_append, String.intercalate_cons_append, hrest,
                render_cons_cons]

end CommandMacros.Token

import CommandMacros.Token.Basic

/-!
Cutting a stream of tokens into statements. A statement goes through the next end of a command; a
`DEFINE` goes through its `!ENDDEFINE` and the end of the command after it, if there is one.
-/

namespace CommandMacros.Statement

def isDefine (t : Token) : Bool :=
  t.matchesKeyword "DEFINE"

/-- The tokens through the first that satisfies the test, and the tokens after it. -/
def splitThrough (test : Token → Bool) : List Token → List Token × List Token
  | [] => ([], [])
  | t :: rest =>
    if test t then
      ([t], rest)
    else
      let (taken, left) := splitThrough test rest
      (t :: taken, left)

/-- An end of a command in front, and the tokens after it. -/
def splitEnd : List Token → List Token × List Token
  | [] => ([], [])
  | t :: rest => if t.isEnd then ([t], rest) else ([], t :: rest)

/-- The statement that begins with `first`, and the tokens after it. -/
def cut (first : Token) (tokens : List Token) : List Token × List Token :=
  if first.isEnd then
    ([first], tokens)
  else if isDefine first then
    let (body, afterBody) := splitThrough (·.matchesKeyword "!ENDDEFINE") tokens
    let (ending, left) := splitEnd afterBody
    (first :: (body ++ ending), left)
  else
    let (taken, left) := splitThrough Token.isEnd tokens
    (first :: taken, left)

theorem splitThrough_append (test : Token → Bool) (tokens : List Token) :
    (splitThrough test tokens).1 ++ (splitThrough test tokens).2 = tokens := by
  fun_induction splitThrough test tokens <;> simp_all

theorem splitEnd_append (tokens : List Token) :
    (splitEnd tokens).1 ++ (splitEnd tokens).2 = tokens := by
  unfold splitEnd
  split
  · rfl
  · split <;> simp

/-- A statement and the tokens after it are the tokens it was cut from. -/
theorem cut_append (first : Token) (tokens : List Token) :
    (cut first tokens).1 ++ (cut first tokens).2 = first :: tokens := by
  unfold cut
  split
  · simp
  split
  · have hbody := splitThrough_append (·.matchesKeyword "!ENDDEFINE") tokens
    have hending :=
      splitEnd_append (splitThrough (·.matchesKeyword "!ENDDEFINE") tokens).2
    simp only [List.cons_append, List.append_assoc, hending, hbody]
  · simp only [List.cons_append, splitThrough_append]

theorem length_cut_le (first : Token) (tokens : List Token) :
    (cut first tokens).2.length ≤ tokens.length := by
  have h := congrArg List.length (cut_append first tokens)
  have hfirst : 1 ≤ (cut first tokens).1.length := by
    unfold cut
    split
    · simp
    split <;> simp
  simp only [List.length_append, List.length_cons] at h
  omega

end CommandMacros.Statement

import CommandMacros.Token.Basic

/-!
Writing tokens back as syntax text. Neighbouring words get one space; punctuation is written tight,
except where two punctuators would read as one operator.
-/

namespace CommandMacros.Token

/-- Whether two neighbouring tokens are kept apart by a space. -/
def needsSpace (left right : Token) : Bool :=
  if right.isEnd then
    false
  else if left.isEnd then
    true
  else
    match left.kind, right.kind with
    | _, .punct .dot => true
    | .punct _, .punct _ =>
      match left.text.toList.getLast?, right.text.toList.head? with
      | some a, some b => (Punct.ofPair? a b).isSome
      | _, _ => false
    | _, _ => left.isWord && right.isWord

/-- The texts of the tokens and the spaces between them. -/
def pieces : List Token → List String
  | [] => []
  | [t] => [t.text]
  | t :: u :: rest =>
    if needsSpace t u then t.text :: " " :: pieces (u :: rest) else t.text :: pieces (u :: rest)

def render (tokens : List Token) : String :=
  String.join (pieces tokens)

/-- The tokens cut after each end of a command; what follows the last one is a command too. -/
def commands : List Token → List (List Token)
  | [] => []
  | t :: rest =>
    if t.isEnd then
      [t] :: commands rest
    else
      match commands rest with
      | [] => [[t]]
      | command :: others => (t :: command) :: others

/-- Each command as text, with its closing `.`. -/
def renderCommands (tokens : List Token) : List String :=
  (commands tokens).map render

theorem flatten_commands (tokens : List Token) : (commands tokens).flatten = tokens := by
  induction tokens with
  | nil => rfl
  | cons t rest ih =>
      unfold commands
      split
      · simp [ih]
      · split
        · next h => simp [h] at ih; simp [← ih]
        · next h => simp [h] at ih; simp [← ih]

end CommandMacros.Token

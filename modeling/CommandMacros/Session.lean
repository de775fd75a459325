import CommandMacros.Definition.Parse
import CommandMacros.Expansion.Expand
import CommandMacros.Statement

/-!
A session reads statements from a stream of tokens, registers definitions, expands all other
statements, and applies the `SET` commands of an expansion once it is complete. What it gives is a
stream of tokens again, without an end of a command at its start or directly after another.
-/

namespace CommandMacros

/-- The tokens still to be read. After a definition one token may have been taken from the queue to
see whether it ends the command. -/
structure Feed where
  lookahead : Option Token := none
  queue : List Token := []

namespace Feed

def tokens (feed : Feed) : List Token :=
  feed.lookahead.toList ++ feed.queue

/-- The next statement, and the feed after it. -/
def readStatement (feed : Feed) : Option (List Token × Feed) :=
  match feed.tokens with
  | [] => none
  | first :: rest =>
    let (statement, left) := Statement.cut first rest
    match left with
    | [] => some (statement, {})
    | t :: queue =>
      if Statement.isDefine first && !statement.getLast?.any Token.isEnd then
        some (statement, ⟨some t, queue⟩)
      else
        some (statement, ⟨none, t :: queue⟩)

theorem readStatement_length_lt {feed next : Feed} {statement : List Token}
    (h : feed.readStatement = some (statement, next)) :
    next.tokens.length < feed.tokens.length := by
  unfold readStatement at h
  split at h
  · cases h
  · next first rest htokens =>
      have hcut := Statement.length_cut_le first rest
      rw [htokens]
      dsimp only at h
      split at h
      · next hleft =>
          cases h
          simp [tokens]
      · next t queue hleft =>
          rw [hleft] at hcut
          split at h <;> cases h <;>
            simp only [tokens, Option.toList, List.length_append, List.length_cons,
              List.length_nil] at hcut ⊢ <;>
            omega

end Feed

/-- Where echoed lines go. -/
inductive EchoSink where
  | collect
  | discard
deriving DecidableEq, Repr

structure Session where
  feed : Feed := {}
  table : Table := {}
  settings : Settings := {}
  /-- Expanded tokens that have not been pulled yet. -/
  pending : List Token := []
  diagnostics : Array Diagnostic := #[]
  echoSink : EchoSink := .collect
  /-- The lines collected by the echo sink. -/
  echoes : Array String := #[]
  /-- Whether the last token given ends a command; at the start it is as if one did. -/
  afterEnd : Bool := true

namespace Session

/-- The tokens without those ends of commands that come at the start or after another, where
`afterEnd` says whether the tokens follow an end. Also whether the last token kept is one. -/
def dropRepeatedEnds (afterEnd : Bool) : List Token → List Token × Bool
  | [] => ([], afterEnd)
  | t :: rest =>
    if t.isEnd && afterEnd then
      dropRepeatedEnds afterEnd rest
    else
      let (kept, ended) := dropRepeatedEnds t.isEnd rest
      (t :: kept, ended)

/-- Sends echoed lines to the sink. -/
def echo (session : Session) (lines : Array String) : Session :=
  match session.echoSink with
  | .collect => { session with echoes := session.echoes ++ lines }
  | .discard => session

/-- Registers a definition, or reports why it is rejected. -/
def define (session : Session) (statement : List Token) : Session :=
  match Definition.parse statement with
  | .ok d => { session with table := (session.table.define d).1 }
  | .error f => { session with diagnostics := session.diagnostics.push f.toDiagnostic }

def environment (session : Session) : Environment :=
  ⟨session.table, session.settings⟩

/-- Expands a statement and applies the settings it changes. -/
def expand (session : Session) (statement : List Token) : Session :=
  let (output, log) := Expansion.expandStatement session.environment statement {}
  let (settings, problems) := session.settings.applyCommands (Token.commands output)
  let (kept, afterEnd) := dropRepeatedEnds session.afterEnd output
  { session.echo log.echoes with
    settings
    pending := session.pending ++ kept
    diagnostics := session.diagnostics ++ log.diagnostics ++ problems
    afterEnd }

/-- Processes one statement. -/
def process (session : Session) (statement : List Token) : Session :=
  if statement.head?.any Statement.isDefine then
    session.define statement
  else
    session.expand statement

theorem process_feed (session : Session) (statement : List Token) :
    (session.process statement).feed = session.feed := by
  unfold process
  split
  · unfold define
    split <;> rfl
  · simp only [expand, echo]
    split <;> rfl

/-- Pulls one token: reads and processes statements until there is one. -/
def next (session : Session) : Option Token × Session :=
  match session.pending with
  | t :: rest => (some t, { session with pending := rest })
  | [] =>
    match h : session.feed.readStatement with
    | none => (none, session)
    | some (statement, feed) =>
      have := Feed.readStatement_length_lt h
      next ({ session with feed }.process statement)
termination_by session.feed.tokens.length
decreasing_by simpa [process_feed] using this

/-- Pulls all tokens: processes every statement of the feed. -/
def drain (session : Session) : List Token × Session :=
  match h : session.feed.readStatement with
  | none => (session.pending, { session with pending := [] })
  | some (statement, feed) =>
    have := Feed.readStatement_length_lt h
    let (following, final) := drain ({ session with feed, pending := [] }.process statement)
    (session.pending ++ following, final)
termination_by session.feed.tokens.length
decreasing_by simpa [process_feed] using this

/-- Appends tokens to the feed. -/
def supply (session : Session) (tokens : List Token) : Session :=
  { session with feed := { session.feed with queue := session.feed.queue ++ tokens } }

/-- Takes the diagnostics reported since they were last taken. -/
def takeDiagnostics (session : Session) : List Diagnostic × Session :=
  (session.diagnostics.toList, { session with diagnostics := #[] })

/-- Takes the lines echoed since they were last taken. -/
def takeEchoes (session : Session) : List String × Session :=
  (session.echoes.toList, { session with echoes := #[] })

/-- A session about to read a source text. -/
def ofSource (source : String) (settings : Settings) : Session :=
  { feed := { queue := tokenize source }, settings }

end Session

/-- The expansion of a whole source text, and everything reported on the way. -/
def expandSource (source : String) (settings : Settings) : List Token × List Diagnostic :=
  let (tokens, session) := (Session.ofSource source settings).drain
  (tokens, session.diagnostics.toList)

end CommandMacros

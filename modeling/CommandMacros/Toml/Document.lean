import CommandMacros.Toml.Scalar

/-!
Reading TOML documents: values with arrays and inline tables, and the lines of a document, each of
which gives a key its value or opens a table.
-/

namespace CommandMacros.Toml

/-- The items of an array up to its closing bracket; a comma may follow the last one. -/
def items? (value? : List Char → Option (Value × List Char)) :
    (fuel : Nat) → List Char → Option (List Value × List Char)
  | 0, _ => none
  | fuel + 1, cs =>
    match skipTrivia false cs with
    | ']' :: rest => some ([], rest)
    | start => do
      let (first, afterFirst) ← value? start
      match skipTrivia false afterFirst with
      | ',' :: rest =>
        let (others, left) ← items? value? fuel rest
        return (first :: others, left)
      | ']' :: rest => return ([first], rest)
      | _ => none

/-- The entries of an inline table up to its closing brace, after those already read. -/
def inlineEntries? (value? : List Char → Option (Value × List Char)) :
    (fuel : Nat) → Entries → List Char → Option (Entries × List Char)
  | 0, _, _ => none
  | fuel + 1, before, cs => do
    let (path, afterKey) ← key? cs
    match afterKey with
    | '=' :: rest =>
      let (value, afterValue) ← value? (skipSpaces rest)
      let entries ← changeAt true (addValue (path.getLast?.getD "") value) path.dropLast before
      match skipSpaces afterValue with
      | ',' :: rest => inlineEntries? value? fuel entries rest
      | '\x7d' :: left => some (entries, left)
      | _ => none
    | _ => none

/-- The value in front. At most `room` arrays and inline tables stand inside one another. -/
def value? : (room : Nat) → List Char → Option (Value × List Char)
  | 0, cs => scalar? cs
  | room + 1, cs =>
    match cs with
    | '[' :: rest =>
      (items? (value? room) (rest.length + 1) rest).map fun (items, left) => (.array items, left)
    | '\x7b' :: rest =>
      match skipSpaces rest with
      | '\x7d' :: left => some (.table [], left)
      | inner =>
        (inlineEntries? (value? room) (inner.length + 1) [] inner).map fun (entries, left) =>
          (.table (entriesToValues entries), left)
    | _ => scalar? cs

/-- A document being read: its entries, and the path of the table that keys now go to. -/
structure Draft where
  entries : Entries := []
  path : List String := []

/-- Sets the value of a key in the current table. -/
def Draft.add (draft : Draft) (key : List String) (value : Value) : Option Draft := do
  let insert := changeAt true (addValue (key.getLast?.getD "") value) key.dropLast
  let entries ← changeAt false insert draft.path draft.entries
  return { draft with entries }

/-- Opens the table of a header. -/
def Draft.open (draft : Draft) (isArray : Bool) (key : List String) : Option Draft := do
  let last := key.getLast?.getD ""
  let change := if isArray then appendTable last else openTable last
  let entries ← changeAt false change key.dropLast draft.entries
  return ⟨entries, key⟩

/-- A header after its opening brackets: the key, and what follows the closing ones. -/
def header? (isArray : Bool) (cs : List Char) : Option (List String × List Char) := do
  let (key, afterKey) ← key? cs
  match isArray, afterKey with
  | false, ']' :: rest => return (key, rest)
  | true, ']' :: ']' :: rest => return (key, rest)
  | _, _ => none

/-- One line that is not empty. -/
def line? (draft : Draft) (cs : List Char) : Option (Draft × List Char) :=
  match cs with
  | '[' :: '[' :: rest => do
    let (key, left) ← header? true rest
    return (← draft.open true key, left)
  | '[' :: rest => do
    let (key, left) ← header? false rest
    return (← draft.open false key, left)
  | _ => do
    let (key, afterKey) ← key? cs
    match afterKey with
    | '=' :: rest =>
      let (value, left) ← value? depthLimit (skipSpaces rest)
      return (← draft.add key value, left)
    | _ => none

/-- All lines. -/
def lines? : (fuel : Nat) → Draft → List Char → Option Draft
  | 0, _, _ => none
  | fuel + 1, draft, cs =>
    match skipTrivia false cs with
    | [] => some draft
    | start => do
      let (next, left) ← line? draft start
      if lineEnds left then lines? fuel next left else none

/-- The text without a byte order mark in front. -/
def skipMark : List Char → List Char
  | '\ufeff' :: rest => rest
  | cs => cs

/-- The entries of a document, if it is well formed. -/
def parse (text : String) : Option (List (String × Value)) :=
  let cs := skipMark text.toList
  (lines? (cs.length + 1) {} cs).map fun draft => entriesToValues draft.entries

end CommandMacros.Toml

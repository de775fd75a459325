/-!
The items of a command line: options, with their values, and operands. An option has a long name
after `--` and may have a short one after `-`; short names of several options may be written
together. A value stands after `=`, directly after a short name, or in the next argument. After the
argument `--` there are operands only.
-/

namespace CommandMacros.CommandLine

/-- An option that a command knows. -/
structure Switch where
  name : String
  short : Option Char := none
  takesValue : Bool := false

inductive Item where
  | flag (name : String)
  | value (name : String) (text : String)
  | operand (text : String)
  /-- An unknown option, a value that is missing, or one that is not wanted. -/
  | malformed
deriving DecidableEq, Repr

/-- What one argument says: its items, and the option whose value is the next argument. -/
structure Reading where
  items : List Item
  awaiting : Option String := none
deriving DecidableEq, Repr

/-- A long option, given by its name and the value written after `=`. -/
def readLong (switches : List Switch) (name : String) (attached : Option String) : Reading :=
  match switches.find? (·.name == name) with
  | none => ⟨[.malformed], none⟩
  | some switch =>
    match switch.takesValue, attached with
    | true, some text => ⟨[.value switch.name text], none⟩
    | true, none => ⟨[], some switch.name⟩
    | false, some _ => ⟨[.malformed], none⟩
    | false, none => ⟨[.flag switch.name], none⟩

/-- Short options written together. -/
def readShorts (switches : List Switch) : List Char → Reading
  | [] => ⟨[], none⟩
  | c :: rest =>
    match switches.find? (·.short == some c) with
    | none => ⟨[.malformed], none⟩
    | some switch =>
      if switch.takesValue then
        match rest with
        | [] => ⟨[], some switch.name⟩
        | '=' :: text => ⟨[.value switch.name (String.ofList text)], none⟩
        | text => ⟨[.value switch.name (String.ofList text)], none⟩
      else
        let others := readShorts switches rest
        { others with items := .flag switch.name :: others.items }

/-- One argument other than `--`. -/
def readArgument (switches : List Switch) (argument : String) : Reading :=
  match argument.toList with
  | '-' :: '-' :: rest =>
    let name := String.ofList (rest.takeWhile (· != '='))
    match rest.dropWhile (· != '=') with
    | [] => readLong switches name none
    | _ :: text => readLong switches name (some (String.ofList text))
  | '-' :: c :: rest => readShorts switches (c :: rest)
  | _ => ⟨[.operand argument], none⟩

/-- Whether an argument cannot be the value of the option before it. -/
def isOption (argument : String) : Bool :=
  argument.toList.head? == some '-' && argument != "-"

/-- The items of a command line, where `awaiting` names the option whose value comes first. -/
def items (switches : List Switch) : (awaiting : Option String) → List String → List Item
  | none, [] => []
  | some _, [] => [.malformed]
  | some name, argument :: rest =>
    if isOption argument then [.malformed] else .value name argument :: items switches none rest
  | none, argument :: rest =>
    if argument = "--" then
      rest.map .operand
    else
      let reading := readArgument switches argument
      reading.items ++ items switches reading.awaiting rest

end CommandMacros.CommandLine

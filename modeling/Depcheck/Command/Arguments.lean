/-!
# Reading arguments

A command says which words it takes by position and which options it has, each with a long name and
perhaps a letter. The arguments are taken one after the other: `--` ends the options, letters of
switches can stand together after one dash, and the value of an option follows it, after an equals
sign or on its own. The first fault ends the reading, and so does a call for help.
-/

namespace Depcheck.Command

/-- What a word stands for. -/
inductive WordKind where
  /-- A path, which is never empty. -/
  | path
  | text
deriving Repr, DecidableEq

def WordKind.takes : WordKind → String → Bool
  | .path, w => w != ""
  | .text, _ => true

structure OptionShape where
  name : String
  letter : Option Char := none
  /-- What its value stands for; a switch has none. -/
  value : Option WordKind := none
deriving Repr, DecidableEq

structure Shape where
  /-- The words by position. -/
  words : List WordKind
  /-- May more words follow? -/
  more : Bool := false
  options : List OptionShape
deriving Repr, DecidableEq

/-- Why the reading of arguments ended early. -/
inductive Stop where
  /-- Help was asked for. -/
  | help
  /-- The version was asked for. -/
  | version
  /-- The arguments are not what the command takes. -/
  | refused
deriving Repr, DecidableEq

/-- The arguments read so far. -/
structure Arguments where
  words : List String := []
  values : List (String × String) := []
  switches : List String := []
  /-- An option that waits for its value. -/
  awaiting : Option OptionShape := none
  /-- Have the options ended? -/
  plain : Bool := false
deriving Repr, DecidableEq

namespace Arguments

def addWord (shape : Shape) (a : Arguments) (w : String) : Except Stop Arguments :=
  match shape.words[a.words.length]? with
  | some kind =>
    if kind.takes w then .ok { a with words := a.words ++ [w] } else .error .refused
  | none => if shape.more then .ok { a with words := a.words ++ [w] } else .error .refused

/-- Takes the value of an option, which may be given once. -/
def addValue (o : OptionShape) (a : Arguments) (v : String) : Except Stop Arguments :=
  if (a.values.lookup o.name).isSome || !o.value.any (·.takes v) then .error .refused
  else .ok { a with values := a.values ++ [(o.name, v)], awaiting := none }

def addSwitch (o : OptionShape) (a : Arguments) : Except Stop Arguments :=
  if a.switches.contains o.name then .error .refused
  else .ok { a with switches := a.switches ++ [o.name] }

def addLong (shape : Shape) (a : Arguments) (name : List Char) (attached : Option (List Char)) :
    Except Stop Arguments :=
  match shape.options.find? fun o => o.name.toList == name with
  | some o =>
    match o.value.isSome, attached with
    | true, some v => a.addValue o (String.ofList v)
    | true, none => .ok { a with awaiting := some o }
    | false, none => a.addSwitch o
    | false, some _ => .error .refused
  | none => if name = "help".toList ∧ attached.isNone then .error .help else .error .refused

/-- Takes the letters after a dash. The letter of an option with a value takes what is left of
them, without an equals sign at its start, as the value. -/
def addLetters (shape : Shape) (a : Arguments) : List Char → Except Stop Arguments
  | [] => .ok a
  | c :: rest =>
    match shape.options.find? fun o => o.letter == some c with
    | some o =>
      if o.value.isSome then
        match rest with
        | [] => .ok { a with awaiting := some o }
        | '=' :: v => a.addValue o (String.ofList v)
        | v => a.addValue o (String.ofList v)
      else
        match a.addSwitch o with
        | .ok a => addLetters shape a rest
        | .error e => .error e
    | none => .error (if c = 'h' then .help else .refused)

def splitLong (s : List Char) : List Char × Option (List Char) :=
  match s.dropWhile (· != '=') with
  | '=' :: v => (s.takeWhile (· != '='), some v)
  | _ => (s, none)

def add (shape : Shape) (a : Arguments) (arg : String) : Except Stop Arguments :=
  let cs := arg.toList
  match a.awaiting with
  | some o =>
    if cs.head? = some '-' ∧ cs.length > 1 then .error .refused else a.addValue o arg
  | none =>
    if a.plain then a.addWord shape arg
    else
      match cs with
      | ['-', '-'] => .ok { a with plain := true }
      | '-' :: '-' :: long => a.addLong shape (splitLong long).1 (splitLong long).2
      | '-' :: c :: rest => a.addLetters shape (c :: rest)
      | _ => a.addWord shape arg

/-- Reads the arguments of a command; no option may be left waiting, and no word be missing. -/
def read (shape : Shape) (args : List String) : Except Stop Arguments := do
  let a ← args.foldlM (add shape) {}
  if a.awaiting.isSome || a.words.length < shape.words.length then throw .refused
  else pure a

def has (a : Arguments) (name : String) : Bool := a.switches.contains name

def value? (a : Arguments) (name : String) : Option String := a.values.lookup name

end Arguments

end Depcheck.Command

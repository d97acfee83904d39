import Depcheck.Command.Arguments

/-!
# Requests

The commands of the program and what each takes: a universe first, then what it asks about, and
the options, of which `--config` belongs to every command.
-/

namespace Depcheck.Command

inductive Action where
  | verify (format : String) (quiet : Bool)
  | order (uninstall : Bool)
  | provides (capability : String)
  | requires (name : String)
  | obsoletes (name : String)
  | mark (packages : List String) (dependents : Bool)
deriving Repr, DecidableEq

/-- An action on a universe, with a configuration if one is named. -/
structure Request where
  /-- The file with the packages. -/
  packages : String
  /-- The file with the configuration, if one is named. -/
  config : Option String := none
  action : Action
deriving Repr, DecidableEq

namespace Request

def configOption : OptionShape := { name := "config", letter := some 'c', value := some .path }

def verifyShape : Shape where
  words := [.path]
  options :=
    [configOption, { name := "format", letter := some 'f', value := some .text },
      { name := "quiet", letter := some 'q' }]

def orderShape : Shape where
  words := [.path]
  options := [configOption, { name := "uninstall" }]

def queryShape : Shape where
  words := [.path, .text]
  options := [configOption]

def markShape : Shape where
  words := [.path, .text]
  more := true
  options := [configOption, { name := "dependents" }]

/-- What the command of this name takes, and what its arguments ask for. -/
def shapeOf? : String → Option (Shape × (List String → Arguments → Action))
  | "verify" =>
    some (verifyShape, fun _ a => .verify ((a.value? "format").getD "text") (a.has "quiet"))
  | "order" => some (orderShape, fun _ a => .order (a.has "uninstall"))
  | "provides" => some (queryShape, fun words _ => .provides (words.headD ""))
  | "requires" => some (queryShape, fun words _ => .requires (words.headD ""))
  | "obsoletes" => some (queryShape, fun words _ => .obsoletes (words.headD ""))
  | "mark" => some (markShape, fun words a => .mark words (a.has "dependents"))
  | _ => none

def ofCommand (command : String) (args : List String) : Except Stop Request :=
  match shapeOf? command with
  | none => .error .refused
  | some (shape, action) => do
    let a ← Arguments.read shape args
    match a.words with
    | [] => throw .refused
    | packages :: words => pure ⟨packages, a.value? "config", action words a⟩

/-- Reads what follows `help`: the name of a command at most. -/
def readHelp : List String → Stop
  | [] => .help
  | [command] => if command = "help" ∨ (shapeOf? command).isSome then .help else .refused
  | _ => .refused

/-- What the letters after the first dash ask for, when no command comes first. -/
def readLetter : Char → Stop
  | 'h' => .help
  | 'V' => .version
  | _ => .refused

/-- Reads a command line; without any argument, nothing is asked for. -/
def read (args : List String) : Except Stop (Option Request) :=
  match args with
  | [] => .ok none
  | ["--"] => .ok none
  | "help" :: rest => .error (readHelp rest)
  | "--help" :: _ => .error .help
  | "--version" :: _ => .error .version
  | command :: rest =>
    match command.toList with
    | '-' :: letter :: _ => .error (readLetter letter)
    | _ => (ofCommand command rest).map some

end Request

end Depcheck.Command

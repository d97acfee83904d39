import Depcheck.Document.Value
import Depcheck.Text.Digits

/-!
# Writing JSON

A value is written over several lines: every member of a list or table stands on a line of its own,
two spaces deeper than what it belongs to, and only empty lists and tables stand on one line.
Quotes, backslashes and control characters are escaped, every other character is written as it is.
-/

namespace Depcheck.Document.Json

def escape (c : Char) : List Char :=
  match c with
  | '"' => ['\\', '"']
  | '\\' => ['\\', '\\']
  | '\x08' => ['\\', 'b']
  | '\x0c' => ['\\', 'f']
  | '\n' => ['\\', 'n']
  | '\r' => ['\\', 'r']
  | '\t' => ['\\', 't']
  | _ => if c.toNat < 0x20 then '\\' :: 'u' :: Text.hexDigits4 c.toNat else [c]

def quote (s : String) : String := "\"" ++ String.ofList (s.toList.flatMap escape) ++ "\""

def newline (depth : Nat) : String := "\n" ++ String.ofList (List.replicate (2 * depth) ' ')

mutual

/-- A value whose members stand one step deeper than `depth`. -/
def write (depth : Nat) : Value → String
  | .null => "null"
  | .bool b => if b then "true" else "false"
  | .int n => toString n
  | .decimal t => t
  | .text s | .moment s => quote s
  | .list [] => "[]"
  | .list (v :: vs) =>
    "[" ++ newline (depth + 1) ++ write (depth + 1) v ++ writeItems depth vs ++ newline depth ++ "]"
  | .table [] => "\x7b\x7d"
  | .table ((k, v) :: fs) =>
    "\x7b" ++ newline (depth + 1) ++ quote k ++ ": " ++ write (depth + 1) v ++ writeFields depth fs ++
      newline depth ++ "\x7d"

/-- The further members of a list. -/
def writeItems (depth : Nat) : List Value → String
  | [] => ""
  | v :: vs => "," ++ newline (depth + 1) ++ write (depth + 1) v ++ writeItems depth vs

def writeFields (depth : Nat) : List (String × Value) → String
  | [] => ""
  | (k, v) :: fs =>
    "," ++ newline (depth + 1) ++ quote k ++ ": " ++ write (depth + 1) v ++ writeFields depth fs

end

/-- A value as a document, without a line break at its end. -/
def pretty (v : Value) : String := write 0 v

end Depcheck.Document.Json

import Depcheck.Text.Digits

/-!
# Writing texts and lists in TOML

A text is written in the first of five ways that suits it: in double quotes when nothing in it
needs an escape, in single quotes, in triple double quotes or triple single quotes when it holds
line breaks or quotes of the other kind, and otherwise in double quotes with escapes. A list of two
or more texts takes a line for each.
-/

namespace Depcheck.Document.Toml

/-- A control character that no text can hold as it is. -/
def needsCode (c : Char) : Bool :=
  (decide (c.toNat < 0x20) && c != '\t' && c != '\n') || c.toNat == 0x7F

def longestRun (c : Char) (s : List Char) : Nat :=
  (s.foldl (fun best d => if d = c then (max best.1 (best.2 + 1), best.2 + 1) else (best.1, 0))
    ((0, 0) : Nat × Nat)).1

inductive Quoting where
  /-- In single quotes or, over several lines, in triple single quotes. -/
  | literal (lines : Bool)
  /-- In double quotes or, over several lines, in triple double quotes. -/
  | basic (lines : Bool)
deriving Repr, DecidableEq

def quotingOf (s : List Char) : Quoting :=
  let codes := s.any needsCode
  let breaks := s.contains '\n'
  let backslash := s.contains '\\'
  let doubles := longestRun '"' s
  let singles := longestRun '\'' s
  if !codes && !backslash && doubles == 0 && !breaks then .basic false
  else if !codes && singles == 0 && !breaks then .literal false
  else if !codes && !backslash && doubles ≤ 2 then .basic true
  else if !codes && singles ≤ 2 then .literal true
  else .basic breaks

/-- A character that is not a double quote, inside double quotes. -/
def escape (lines : Bool) (c : Char) : List Char :=
  match c with
  | '\x08' => ['\\', 'b']
  | '\t' => ['\\', 't']
  | '\n' => if lines then ['\n'] else ['\\', 'n']
  | '\x0c' => ['\\', 'f']
  | '\r' => ['\\', 'r']
  | '\\' => ['\\', '\\']
  | _ => if needsCode c then '\\' :: 'u' :: (Text.hexDigits4 c.toNat).map Char.toUpper else [c]

/-- A text inside double quotes. Up to `free` double quotes in a row stand as they are, and the one
after them is escaped; `seen` counts those that have just been written. -/
def escapeAll (free seen : Nat) : List Char → List Char
  | [] => []
  | c :: rest =>
    if c = '"' then
      if seen < free then '"' :: escapeAll free (seen + 1) rest
      else '\\' :: '"' :: escapeAll free 0 rest
    else escape (decide (0 < free)) c ++ escapeAll free 0 rest

/-- The line break that opens a text of several lines, when it holds one itself. -/
def opening (s : List Char) : List Char := if s.contains '\n' then ['\n'] else []

def quoteChars (s : List Char) : List Char :=
  match quotingOf s with
  | .literal false => '\'' :: s ++ ['\'']
  | .literal true => "'''".toList ++ opening s ++ s ++ "'''".toList
  | .basic false => '"' :: escapeAll 0 0 s ++ ['"']
  | .basic true => "\"\"\"".toList ++ opening s ++ escapeAll 2 0 s ++ "\"\"\"".toList

def quote (s : String) : String := String.ofList (quoteChars s.toList)

def writeBool (b : Bool) : String := if b then "true" else "false"

/-- A list of texts, on one line when it has fewer than two members. -/
def writeTexts : List String → String
  | [] => "[]"
  | [t] => "[" ++ quote t ++ "]"
  | ts => "[\n" ++ String.join (ts.map fun t => "    " ++ quote t ++ ",\n") ++ "]"

end Depcheck.Document.Toml

import Depcheck.Text.Blank
import Depcheck.Text.Digits
import Depcheck.Text.Split
import Depcheck.Version.Segment

/-!
# Epoch, version and release

`Evr` is the full version of a package: an optional epoch, a version and an optional release,
written `[epoch:]version[-release]`. A missing epoch is kept apart from epoch 0 in the text and
counts as 0 in every comparison. Of the two orders, `compare` puts a missing release below every
release, and `compareMatching` looks at releases only when both sides have one.
-/

namespace Depcheck.Version

/-- A text that is no version, as it was read, without the blanks around it. -/
structure InvalidVersion where
  text : String
deriving Repr, DecidableEq

def InvalidVersion.message (e : InvalidVersion) : String := s!"Invalid version '{e.text}'"

end Depcheck.Version

namespace Depcheck

open Version (InvalidVersion compareText)

/-- The full version of a package. -/
structure Evr where
  epoch : Option UInt32 := none
  version : String
  release : Option String := none
deriving Repr, DecidableEq

namespace Evr

/-- Reads an epoch: at least one decimal digit, after at most one plus sign, below 2 ^ 32. -/
def readEpoch? (s : List Char) : Option UInt32 :=
  let digits := match s with
    | '+' :: rest => rest
    | _ => s
  if digits ≠ [] ∧ digits.all Char.isDigit ∧ Text.decimalValue digits < UInt32.size then
    some (UInt32.ofNat (Text.decimalValue digits))
  else none

/-- Reads the part before the colon: nothing at all is no epoch. -/
def readEpochPart? : List Char → Option (Option UInt32)
  | [] => some none
  | s => (readEpoch? s).map some

def readEpochPrefix? (s : List Char) : Option (Option UInt32 × List Char) :=
  match Text.splitFirst ':' s with
  | none => some (none, s)
  | some (e, rest) => (readEpochPart? e).map fun epoch => (epoch, rest)

/-- Separates the version from the release, when there is a dash; neither may be empty. -/
def readRelease? (s : List Char) : Option (List Char × Option (List Char)) :=
  match Text.splitFirst '-' s with
  | none => if s = [] then none else some (s, none)
  | some (v, r) => if v = [] ∨ r = [] then none else some (v, some r)

def ofChars? (s : List Char) : Option Evr := do
  let (epoch, rest) ← readEpochPrefix? s
  let (v, r) ← readRelease? rest
  pure ⟨epoch, String.ofList v, r.map String.ofList⟩

/-- Reads `[epoch:]version[-release]`; blanks around it do not count. -/
def parseChars (s : List Char) : Except InvalidVersion Evr :=
  match ofChars? (Text.trim s) with
  | some e => .ok e
  | none => .error ⟨String.ofList (Text.trim s)⟩

def parse (s : String) : Except InvalidVersion Evr := parseChars s.toList

def text (e : Evr) : String :=
  (e.epoch.elim "" fun n => s!"{n.toNat}:") ++ e.version ++ (e.release.elim "" fun r => "-" ++ r)

/-- The epoch that comparisons use: a missing one counts as 0. -/
def epochValue (e : Evr) : UInt32 := e.epoch.getD 0

/-- Compares two releases; a missing one comes first. -/
def compareRelease : Option String → Option String → Ordering
  | none, none => .eq
  | none, some _ => .lt
  | some _, none => .gt
  | some r, some r' => compareText r r'

/-- Compares two releases when both are there; otherwise they do not differ. -/
def compareGivenRelease : Option String → Option String → Ordering
  | some r, some r' => compareText r r'
  | _, _ => .eq

def compareEpochVersion (a b : Evr) : Ordering :=
  (compare a.epochValue b.epochValue).then (compareText a.version b.version)

/-- Compares by epoch, version and release; a missing release comes first. -/
def compare (a b : Evr) : Ordering :=
  (compareEpochVersion a b).then (compareRelease a.release b.release)

/-- The comparison of dependencies: releases take part only when both sides have one. -/
def compareMatching (a b : Evr) : Ordering :=
  (compareEpochVersion a b).then (compareGivenRelease a.release b.release)

/-- Reads `name-[epoch:]version-release`: the last two dashes separate the three parts. -/
def parseNamed (s : String) : Except InvalidVersion (String × Evr) :=
  let cs := Text.trim s.toList
  match Text.splitLast '-' cs with
  | none => .error ⟨String.ofList cs⟩
  | some (head, release) =>
    match Text.splitLast '-' head with
    | none => .error ⟨String.ofList cs⟩
    | some (name, version) =>
      if name = [] ∨ release = [] then .error ⟨String.ofList cs⟩
      else (parseChars (version ++ '-' :: release)).map fun e => (String.ofList name, e)

end Evr

end Depcheck

import Depcheck.Version.Constraint

/-!
# Capabilities

One kind of record stands for what a package provides, what it requires and what it conflicts
with: a name, a version constraint or none, and flags. A name that starts with `/` is a path, one
that starts with `rpmlib(` belongs to the package manager. `parse` reads the text form
`name[ op [epoch:]version[-release]]` and `text` writes it; the text is also the key under which
resolutions are remembered.
-/

namespace Depcheck

open Version (InvalidVersion)

inductive CapabilityFault where
  | empty
  | blankInText
  | missingName
  | blankInName
  | version (e : InvalidVersion)
deriving Repr, DecidableEq

/-- A text that is no capability, as it was read, without the blanks around it. -/
structure MalformedCapability where
  text : String
  fault : CapabilityFault
deriving Repr, DecidableEq

def CapabilityFault.message : CapabilityFault → String
  | .empty => "empty capability"
  | .blankInText => "whitespace in unversioned name"
  | .missingName => "missing name"
  | .blankInName => "whitespace in name"
  | .version e => e.message

def MalformedCapability.message (e : MalformedCapability) : String :=
  s!"Malformed capability '{e.text}': {e.fault.message}"

/-- What a capability record is used for. -/
structure CapabilityFlags where
  /-- Declared as a conflict. -/
  conflict : Bool := false
  /-- Needed before the requirer is installed. -/
  prereq : Bool := false
  /-- Needed until the requirer is removed. -/
  prereqUn : Bool := false
  /-- Belongs to the package manager. -/
  rpmlib : Bool := false
  /-- Names a directory. -/
  dir : Bool := false
  /-- Holds only against packages of the declaring package's name. -/
  bastard : Bool := false
  /-- Declared as an obsoletes record. -/
  obsoletes : Bool := false
deriving Repr, DecidableEq

namespace CapabilityFlags

def union (f g : CapabilityFlags) : CapabilityFlags where
  conflict := f.conflict || g.conflict
  prereq := f.prereq || g.prereq
  prereqUn := f.prereqUn || g.prereqUn
  rpmlib := f.rpmlib || g.rpmlib
  dir := f.dir || g.dir
  bastard := f.bastard || g.bastard
  obsoletes := f.obsoletes || g.obsoletes

end CapabilityFlags

def isRpmlibName (name : String) : Bool := "rpmlib(".toList.isPrefixOf name.toList

/-- A named record with an optional version constraint. The name is never empty, and a name of the
package manager always carries the flag that says so. -/
structure Capability where
  name : String
  constraint : Option Constraint
  flags : CapabilityFlags
  name_ne_empty : name ≠ ""
  rpmlib_of_name : isRpmlibName name = true → flags.rpmlib = true
deriving DecidableEq

namespace Capability

/-- A capability from its parts; a name of the package manager adds its flag. -/
def ofParts (name : String) (h : name ≠ "") (constraint : Option Constraint)
    (flags : CapabilityFlags) : Capability where
  name := name
  constraint := constraint
  flags := flags.union { rpmlib := isRpmlibName name }
  name_ne_empty := h
  rpmlib_of_name := by intro hn; simp [CapabilityFlags.union, hn]

def ofParts? (name : String) (constraint : Option Constraint) (flags : CapabilityFlags) :
    Option Capability :=
  if h : name ≠ "" then some (ofParts name h constraint flags) else none

def withFlags (c : Capability) (flags : CapabilityFlags) : Capability where
  name := c.name
  constraint := c.constraint
  flags := c.flags.union flags
  name_ne_empty := c.name_ne_empty
  rpmlib_of_name := by intro hn; simp [CapabilityFlags.union, c.rpmlib_of_name hn]

/-- Reads a capability without blanks around it: the name ends at the first operator character. -/
def ofChars (s : List Char) : Except CapabilityFault Capability :=
  let name := s.takeWhile (!Constraint.isOperatorChar ·)
  let rest := s.dropWhile (!Constraint.isOperatorChar ·)
  if hs : s = [] then .error .empty
  else if hr : rest = [] then
    if s.any Text.isBlank then .error .blankInText
    else .ok (ofParts (String.ofList s) (by simpa using hs) none {})
  else if hn : Text.trim name = [] then .error .missingName
  else if (Text.trim name).any Text.isBlank then .error .blankInName
  else
    match Constraint.parseChars rest with
    | .error e => .error (.version e)
    | .ok c => .ok (ofParts (String.ofList (Text.trim name)) (by simpa using hn) (some c) {})

/-- Reads `name`, or `name op [epoch:]version[-release]` with or without blanks around the
operator. -/
def parse (s : String) : Except MalformedCapability Capability :=
  (ofChars (Text.trim s.toList)).mapError fun fault =>
    ⟨String.ofList (Text.trim s.toList), fault⟩

def text (c : Capability) : String :=
  match c.constraint with
  | none => c.name
  | some k => s!"{c.name} {k.text}"

def isVersioned (c : Capability) : Bool := c.constraint.isSome

def isPath (c : Capability) : Bool := ['/'].isPrefixOf c.name.toList

/-- Does `cap`, as something provided, satisfy the requirement `req`? Names must agree. A
requirement without a version takes any; one with a version takes an unversioned capability only
when `strict` is off. -/
def isSatisfiedBy (req cap : Capability) (strict : Bool) : Bool :=
  req.name == cap.name &&
    match req.constraint, cap.constraint with
    | none, _ => true
    | some _, none => !strict
    | some r, some c => c.overlaps r

def compareName (a b : Capability) : Ordering := compare a.name b.name

/-- Compares two constraints by version only; no constraint comes first. -/
def compareConstraint : Option Constraint → Option Constraint → Ordering
  | none, none => .eq
  | none, some _ => .lt
  | some _, none => .gt
  | some a, some b => a.evr.compare b.evr

/-- Compares by name, then version; an unversioned capability comes first. -/
def compareNameEvr (a b : Capability) : Ordering :=
  (compareName a b).then (compareConstraint a.constraint b.constraint)

@[simp] theorem name_withFlags (c : Capability) (flags : CapabilityFlags) :
    (c.withFlags flags).name = c.name := rfl

@[simp] theorem constraint_withFlags (c : Capability) (flags : CapabilityFlags) :
    (c.withFlags flags).constraint = c.constraint := rfl

@[simp] theorem text_withFlags (c : Capability) (flags : CapabilityFlags) :
    (c.withFlags flags).text = c.text := rfl

end Capability

end Depcheck

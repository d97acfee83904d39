import Depcheck.Verification.Outcome
import Depcheck.Graph.Order

/-!
# Problems

What a verification finds wrong. A requirement that nothing meets, a foreign `rpmlib(...)`
provider and a loop of prerequisites are errors; a file conflict is a warning. The unmet
requirements are also filed under the text of their package, the texts ascending and the
requirements of one text in their order of declaration.
-/

namespace Depcheck

inductive UnmetKind where
  /-- Nothing provides the name. -/
  | absent
  /-- The name is provided, but never in a version that would do. -/
  | versionMismatch
deriving Repr, DecidableEq

/-- In reports for reading. -/
def UnmetKind.text : UnmetKind → String
  | .absent => "absent"
  | .versionMismatch => "version mismatch"

/-- In reports for programs. -/
def UnmetKind.code : UnmetKind → String
  | .absent => "absent"
  | .versionMismatch => "version-mismatch"

def Resolution.unmetKind? : Resolution → Option UnmetKind
  | .absent => some .absent
  | .mismatch => some .versionMismatch
  | .builtin | .matched _ => none

structure Unmet where
  requirement : String
  kind : UnmetKind
deriving Repr, DecidableEq

inductive Problem where
  | unmet (package : String) (u : Unmet)
  | rpmlibViolation (provider capability : String)
  | prereqLoop (cycle : List String) (broken : String)
  | fileConflict (path : String) (packages : List String)
deriving Repr, DecidableEq

namespace Problem

/-- Does the problem keep a package from being installed, or make the order unreliable? -/
def isError : Problem → Bool
  | .fileConflict .. => false
  | _ => true

def isUnmet : Problem → Bool
  | .unmet .. => true
  | _ => false

def message : Problem → String
  | .unmet package ⟨requirement, .absent⟩ => s!"{package}: req {requirement} not found"
  | .unmet package ⟨requirement, .versionMismatch⟩ =>
    s!"{package}: req {requirement} version mismatch"
  | .rpmlibViolation provider capability => s!"{provider}: provides rpmlib cap \"{capability}\""
  | .prereqLoop cycle broken =>
    let packages := " -> ".intercalate cycle
    s!"PreReq loop: {packages} (edge from {broken} skipped)"
  | .fileConflict path packages =>
    let owners := ", ".intercalate packages
    s!"{path} is owned by {owners}"

end Problem

/-- Unmet requirements by the text of their package, the texts ascending. -/
abbrev Diagnostics := List (String × List Unmet)

/-- Files an unmet requirement under the text of its package, after those already there. -/
def Diagnostics.add (package : String) (u : Unmet) : Diagnostics → Diagnostics
  | [] => [(package, [u])]
  | (p, us) :: rest =>
    match compare p package with
    | .lt => (p, us) :: Diagnostics.add package u rest
    | .eq => (p, us ++ [u]) :: rest
    | .gt => (package, [u]) :: (p, us) :: rest

def Outcome.unmet? (o : Outcome) : Option Unmet :=
  o.resolution.unmetKind?.map fun kind => ⟨o.requirement.text, kind⟩

namespace Context

def idText (ctx : Context) (id : Nat) : String := (ctx.package id).idText

/-- The unmet requirements of a table of outcomes, each with its package, in order. -/
def unmetOf (ctx : Context) (table : List Outcome) : List (String × Unmet) :=
  table.filterMap fun o => o.unmet?.map fun u => (ctx.idText o.owner, u)

def loopProblem (ctx : Context) (l : Loop) : Problem :=
  .prereqLoop (l.cycle.map ctx.idText) (ctx.idText l.broken)

def fileProblem (ctx : Context) (c : FileConflict) : Problem :=
  .fileConflict c.path (c.owners.map ctx.idText)

def violationProblem (ctx : Context) (v : RpmlibViolation) : Problem :=
  .rpmlibViolation (ctx.idText v.provider) v.capability

end Context

/-- The packages of a table that have an unmet requirement of their own. -/
def unmetOwners (table : List Outcome) : List Nat :=
  ((table.filter fun o => o.resolution.unmetKind?.isSome).map fun o => o.owner).eraseReps

def Diagnostics.ofList (us : List (String × Unmet)) : Diagnostics :=
  us.foldl (fun ds (package, u) => Diagnostics.add package u ds) []

end Depcheck

import Depcheck.Index.Basic
import Depcheck.Platform

/-!
# Looking requirements up

A requirement is resolved in two steps. The lookup finds the candidates by name, through the
provided names first and, for a path, through the files and then the directories that packages
install. The filter keeps the candidates that satisfy the version and puts the preferred provider
first. A requirement with no candidate may still be met by the platform. Only the package manager
may provide `rpmlib(...)` names; every other provider of a required one is a violation.
-/

namespace Depcheck

structure Context where
  packages : Array Package
  index : Index
  platform : Oracle
  /-- The name of the package manager's own package. -/
  manager : String
  /-- Does an unversioned capability fail a versioned requirement? -/
  strict : Bool

/-- A package other than the package manager that provides an `rpmlib(...)` name. -/
structure RpmlibViolation where
  provider : Nat
  capability : String
deriving Repr, DecidableEq

/-- How a requirement is met, if it is. -/
inductive Resolution where
  /-- Nothing provides the name. -/
  | absent
  /-- Met without a package. -/
  | builtin
  /-- The name is provided, but never in a version that would do. -/
  | mismatch
  /-- Met by any of these packages, the preferred one first. -/
  | matched (ids : List Nat)
deriving Repr, DecidableEq

namespace Context

def package (ctx : Context) (id : Nat) : Package := ctx.packages.getD id default

/-- The packages that provide the name of `req`: by a capability of that name, or else, for a
path, by installing it as a file, or else by declaring it as a directory. -/
def candidates? (ctx : Context) (req : Capability) : Option (List Nat) :=
  match ctx.index.provided.lookup? req.name with
  | some ids => some ids
  | none =>
    if req.isPath then
      match ctx.index.files.fileOwners req.name with
      | [] =>
        match ctx.index.files.dirOwners req.name with
        | [] => none
        | ids => some ids
      | ids => some ids
    else none

/-- The candidates that may not provide an `rpmlib(...)` name. -/
def intruders (ctx : Context) (ids : List Nat) : List Nat :=
  ids.filter fun id => (ctx.package id).name != ctx.manager

/-- The candidates of `req`, and the violations found on the way. An `rpmlib(...)` requirement
that only the package manager provides is met without a package, and one with an intruder among
its candidates has no candidates at all. -/
def admitted? (ctx : Context) (req : Capability) : Option (List Nat) × List RpmlibViolation :=
  match ctx.candidates? req with
  | none => (none, [])
  | some ids =>
    if req.flags.rpmlib then
      match ctx.intruders ids with
      | [] => (some [], [])
      | bad => (none, bad.map fun id => ⟨id, req.name⟩)
    else (some ids, [])

/-- The packages that may meet `req`, whatever its version; none of them means that it is met
without a package. -/
def lookup (ctx : Context) (req : Capability) : Option (List Nat) × List RpmlibViolation :=
  match ctx.admitted? req with
  | (some ids, vs) => (some ids, vs)
  | (none, vs) => (if ctx.platform.provides req then some [] else none, vs)

/-- Descending by name, then by version. -/
def preferred (ctx : Context) (a b : Nat) : Bool :=
  ((ctx.package b).compareNameEvr (ctx.package a)).isLE

/-- The candidates that satisfy the version of `req`, the preferred one first; candidates that
compare equal keep their order. -/
def filterVersion (ctx : Context) (req : Capability) (ids : List Nat) : List Nat :=
  (if req.isVersioned then ids.filter fun id => (ctx.package id).satisfies req ctx.strict
    else ids).mergeSort ctx.preferred

def resolve (ctx : Context) (req : Capability) : Resolution × List RpmlibViolation :=
  match ctx.lookup req with
  | (none, vs) => (.absent, vs)
  | (some [], vs) => (.builtin, vs)
  | (some ids, vs) =>
    match ctx.filterVersion req ids with
    | [] => (.mismatch, vs)
    | matched => (.matched matched, vs)

end Context

/-- The matches of a requirement without the package that requires it. A requirer among its own
matches meets the requirement itself, and then no match is left to name. -/
def excludeSelf? (requirer : Nat) (ids : List Nat) : Option (List Nat) :=
  if requirer ∈ ids then none else some ids

end Depcheck

import Depcheck.Resolution.Lookup
import Depcheck.Graph.Closure

/-!
# Conflicts

A declared conflict hits every other package that provides its name in a version that it names.
Packages of one name and version for different architectures never conflict, and a bastard
conflict hits packages of the declaring package's name only. A package is obsolete when an
obsoletes record of an installable package hits it.
-/

namespace Depcheck

structure ConflictHit where
  owner : Nat
  /-- The position of the record among its owner's conflicts. -/
  record : Nat
  obsolete : Bool
  target : Nat
deriving Repr, DecidableEq

namespace Package

/-- Are the packages builds of one name and version for different architectures? -/
def isMultilibOf (p q : Package) : Bool := p.compareNameEvr q == .eq && !p.sameArch q

/-- Does the conflict `c`, declared by `p`, hit `q`, which provides its name? -/
def conflictHits (p : Package) (c : Capability) (q : Package) (strict : Bool) : Bool :=
  (!c.flags.bastard || p.name == q.name) && (!c.isVersioned || q.satisfies c strict) &&
    !p.isMultilibOf q

end Package

namespace Context

/-- The packages that the conflict `c` of the package `owner` hits, in ascending order. -/
def hitsOf (ctx : Context) (owner : Nat) (c : Capability) : List Nat :=
  (ctx.index.provided.ids c.name).filter fun id =>
    id != owner && (ctx.package owner).conflictHits c (ctx.package id) ctx.strict

def conflictHits (ctx : Context) : List ConflictHit :=
  ctx.packages.toList.zipIdx.flatMap fun (p, owner) =>
    p.conflicts.zipIdx.flatMap fun (c, record) =>
      (ctx.hitsOf owner c).map fun target => ⟨owner, record, c.flags.obsoletes, target⟩

end Context

namespace Graph

def addHit (g : Graph) (h : ConflictHit) : Graph :=
  g.addConflict h.owner h.record h.obsolete h.target

/-- The packages that an installable package makes obsolete. -/
def obsoletedBy (g : Graph) (states : Array PackageState) : List Nat :=
  (List.range g.size).flatMap fun id =>
    if (states.getD id {}).unmet then []
    else ((g.conflicts id).filter (·.flags.obsolete)).map ConflictEdge.target

def markObsoleted (g : Graph) (states : Array PackageState) : Array PackageState :=
  (g.obsoletedBy states).foldl (fun states id => states.modify id .setObsoleted) states

def countObsoleted (states : Array PackageState) : Nat := states.countP (·.obsoleted)

end Graph

end Depcheck

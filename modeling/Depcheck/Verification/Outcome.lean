import Depcheck.Resolution.Lookup
import Depcheck.Resolution.Memo
import Depcheck.Graph.Basic

/-!
# Outcomes

The requirements of all packages are resolved in order, each distinct text once: a memo keeps the
resolution under the requirement's text. The table of outcomes says for every requirement of every
package which resolution was used for it. Violations of `rpmlib(...)` names are found by the
resolutions that were computed.
-/

namespace Depcheck

/-- A requirement of a package: the package's id and the requirement's position in it. -/
structure Demand where
  owner : Nat
  position : Nat
  requirement : Capability
deriving DecidableEq

/-- A requirement of a package and the resolution used for it. -/
structure Outcome extends Demand where
  resolution : Resolution
deriving DecidableEq

def demands (packages : Array Package) : List Demand :=
  packages.toList.zipIdx.flatMap fun (p, owner) =>
    p.requires.zipIdx.map fun (req, position) => ⟨owner, position, req⟩

/-- The outcomes of a run, the violations found on the way, and the memo at the end. -/
structure Outcomes where
  table : List Outcome := []
  violations : List RpmlibViolation := []
  memo : Memo (Resolution × List RpmlibViolation) := {}

namespace Context

def resolveAll (ctx : Context) (memo : Memo (Resolution × List RpmlibViolation)) :
    List Demand → Outcomes
  | [] => { memo }
  | d :: rest =>
    match memo.fetch d.requirement.text fun _ => ctx.resolve d.requirement with
    | ((resolution, violations), computed, memo) =>
      let later := ctx.resolveAll memo rest
      { later with
        table := ⟨d, resolution⟩ :: later.table
        violations := (if computed then violations else []) ++ later.violations }

def outcomes (ctx : Context) : Outcomes := ctx.resolveAll {} (demands ctx.packages)

end Context

/-- The packages that a requirement leads to: its matches, unless the requirer is among them. -/
def Outcome.targets (o : Outcome) : List Nat :=
  match o.resolution with
  | .matched ids => (excludeSelf? o.owner ids).getD []
  | _ => []

def Graph.addOutcome (g : Graph) (o : Outcome) : Graph :=
  g.addMatches o.owner o.position (.ofRequirement o.requirement) o.targets

end Depcheck

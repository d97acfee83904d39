import Depcheck.Verification.Problem
import Depcheck.Verification.Conflict

/-!
# Verification

A run resolves every requirement, builds the dependency graph from the outcomes, spreads the
consequence of unmet requirements to all dependents, adds the declared conflicts, and orders the
packages. It records every problem and stops at none. The marks of the packages survive a run;
whatever an earlier run had found is found anew.
-/

namespace Depcheck

/-- The passes of a run that can be left out. -/
structure Passes where
  conflicts : Bool := true
  fileConflicts : Bool := false
  order : Bool := true
deriving Repr, DecidableEq

structure Verification where
  graph : Graph := {}
  /-- The resolution used for every requirement of every package. -/
  outcomes : List Outcome := []
  diagnostics : Diagnostics := []
  problems : List Problem := []
  /-- The number of unmet requirements. -/
  unmet : Nat := 0
  /-- The number of packages that cannot be installed. -/
  tainted : Nat := 0
  /-- The number of obsolete packages. -/
  obsoleted : Nat := 0
  install : Plan := {}
  removal : Plan := {}
  fileConflicts : List FileConflict := []
  memo : MemoStats := {}
deriving DecidableEq

namespace Verification

/-- Unmet requirements, packages that cannot be installed, and loops of prerequisites. -/
def errorCount (v : Verification) : Nat := v.unmet + v.tainted + v.install.loops.length

def stats (v : Verification) : GraphStats := v.graph.stats

end Verification

namespace Context

def requirementGraph (ctx : Context) (table : List Outcome) : Graph :=
  table.foldl Graph.addOutcome (Graph.ofSize ctx.packages.size)

def addConflicts (ctx : Context) (g : Graph) : Graph := ctx.conflictHits.foldl Graph.addHit g

def listed (ctx : Context) : Plan := ⟨List.range ctx.packages.size, []⟩

/-- Runs the verification on a table with one state per package, and returns what was found and
the states afterwards. -/
def verify (ctx : Context) (passes : Passes) (states : Array PackageState) :
    Verification × Array PackageState :=
  let found := ctx.outcomes
  let unmet := ctx.unmetOf found.table
  let requirements := ctx.requirementGraph found.table
  let tainted :=
    requirements.taint (states.map PackageState.clearDerived) (unmetOwners found.table)
  let graph := if passes.conflicts then ctx.addConflicts requirements else requirements
  let final := if passes.conflicts then graph.markObsoleted tainted else tainted
  let install := if passes.order then graph.installPlan else ctx.listed
  let removal := if passes.order then graph.removalPlan else ctx.listed
  let fileConflicts :=
    if passes.fileConflicts then ctx.index.files.conflicts ctx.packages else []
  let run : Verification :=
    { graph
      outcomes := found.table
      diagnostics := Diagnostics.ofList unmet
      problems :=
        (unmet.map fun (package, u) => .unmet package u) ++
        found.violations.map ctx.violationProblem ++
        install.loops.map ctx.loopProblem ++
        fileConflicts.map ctx.fileProblem
      unmet := unmet.length
      tainted := Graph.countUnmet tainted
      obsoleted := Graph.countObsoleted final
      install
      removal
      fileConflicts
      memo := found.memo.stats }
  (run, final)

end Context

end Depcheck

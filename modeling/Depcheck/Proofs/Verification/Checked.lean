import Depcheck.Proofs.Graph.Checked
import Depcheck.Proofs.Graph.Propagation
import Depcheck.Proofs.Index.FileConflicts
import Depcheck.Proofs.Verification.Obsoletes
import Depcheck.Proofs.Verification.Pass
import Depcheck.Proofs.Verification.Violations

/-!
# A run that stops at a foreign id

`verify?` makes the passes of a verification one after the other, and keeps count as it goes. It stops
where the table of states is out of step with the packages, a candidate or a violation names no package
of the list, an edge would leave the graph, or a walk or a report comes to an id without an entry. On an
index of the packages themselves it never stops, and it finds what `verify` finds (`verify?_eq`).
-/

namespace Depcheck

namespace Context

variable {ctx : Context}

/-! ## Conflicts -/

/-- Adds the edges of all declared conflicts. All candidates must be packages of the list. -/
def addConflicts? (ctx : Context) (g : Graph) : Option Graph :=
  if ∀ p ∈ ctx.packages.toList, ∀ c ∈ p.conflicts, ∀ id ∈ ctx.index.provided.ids c.name,
      id < ctx.packages.size then
    ctx.conflictHits.foldlM Graph.addHit? g
  else none

theorem addConflicts?_eq (hidx : ctx.Indexed) {g : Graph} (hsize : g.size = ctx.packages.size) :
    ctx.addConflicts? g = some (ctx.addConflicts g) := by
  have hprovided : ∀ name, ∀ id ∈ ctx.index.provided.ids name, id < ctx.packages.size := by
    intro name id hid
    rw [ids_provided hidx] at hid
    obtain ⟨p, hp, _⟩ := mem_idsWhere.1 hid
    exact lt_of_getElem? hp
  have hcandidates : ∀ p ∈ ctx.packages.toList, ∀ c ∈ p.conflicts,
      ∀ id ∈ ctx.index.provided.ids c.name, id < ctx.packages.size :=
    fun _ _ c _ => hprovided c.name
  rw [addConflicts?, if_pos hcandidates]
  refine foldlM_eq_some (fun g => g.size = ctx.packages.size) hsize ?_
  intro g hsize h hh
  have hhits := ((mem_conflictHits hidx).1 hh).1
  refine ⟨check_eq_some ?_ _, ?_⟩
  · rw [hsize]
    exact ⟨hhits.lt_size, hhits.2.1⟩
  · rw [Graph.addHit, Graph.size_addConflict, hsize]

/-- The file conflicts. All owners must be packages of the list. -/
def fileConflicts? (ctx : Context) : Option (List FileConflict) :=
  check (∀ bucket ∈ ctx.index.files.buckets.toList, ∀ o ∈ bucket.2, o.id < ctx.packages.size)
    (ctx.index.files.conflicts ctx.packages)

theorem lt_of_mem_bucket (hidx : ctx.Indexed) {bucket : Place × List Owner}
    (hb : bucket ∈ ctx.index.files.buckets.toList) {o : Owner} (ho : o ∈ bucket.2) :
    o.id < ctx.packages.size := by
  rw [← FileIndex.mem_toList_buckets hb] at ho
  exact lt_of_mem_owners hidx ho

theorem fileConflicts?_eq (hidx : ctx.Indexed) :
    ctx.fileConflicts? = some (ctx.index.files.conflicts ctx.packages) :=
  check_eq_some (fun _ hb _ ho => lt_of_mem_bucket hidx hb ho) _

/-! ## Reports -/

/-- The text that names a package of the list. -/
def idText? (ctx : Context) (id : Nat) : Option String :=
  check (id < ctx.packages.size) (ctx.idText id)

def loopProblem? (ctx : Context) (l : Loop) : Option Problem :=
  (l.cycle.mapM ctx.idText?).bind fun cycle =>
    (ctx.idText? l.broken).map (.prereqLoop cycle)

def fileProblem? (ctx : Context) (c : FileConflict) : Option Problem :=
  (c.owners.mapM ctx.idText?).map (.fileConflict c.path)

def violationProblem? (ctx : Context) (v : RpmlibViolation) : Option Problem :=
  (ctx.idText? v.provider).map fun provider => .rpmlibViolation provider v.capability

theorem mapM_idText? {ids : List Nat} (h : ∀ id ∈ ids, id < ctx.packages.size) :
    ids.mapM ctx.idText? = some (ids.map ctx.idText) :=
  mapM_eq_some fun id hid => check_eq_some (h id hid) _

theorem loopProblem?_eq {l : Loop} (h : ∀ id ∈ l.broken :: l.cycle, id < ctx.packages.size) :
    ctx.loopProblem? l = some (ctx.loopProblem l) := by
  rw [loopProblem?, mapM_idText? fun id hid => h id (List.mem_cons_of_mem _ hid), Option.bind_some,
    idText?, check_eq_some (h l.broken List.mem_cons_self)]
  rfl

theorem loopProblems?_eq {plan : Plan} (h : plan.InRange ctx.packages.size) :
    plan.loops.mapM ctx.loopProblem? = some (plan.loops.map ctx.loopProblem) :=
  mapM_eq_some fun l hl => loopProblem?_eq (h.loops l hl)

theorem fileProblem?_eq (hidx : ctx.Indexed) {c : FileConflict}
    (hc : c ∈ ctx.index.files.conflicts ctx.packages) :
    ctx.fileProblem? c = some (ctx.fileProblem c) := by
  obtain ⟨⟨place, owners⟩, hb, hat⟩ := List.mem_filterMap.1 (List.mem_mergeSort.1 hc)
  have howners : c.owners = (owners.filter (!·.isDir)).map Owner.id :=
    (FileIndex.of_conflictAt? hat).2.1
  have hlt : ∀ id ∈ c.owners, id < ctx.packages.size := by
    intro id hid
    rw [howners] at hid
    obtain ⟨o, ho, rfl⟩ := List.mem_map.1 hid
    exact lt_of_mem_bucket hidx hb (List.mem_filter.1 ho).1
  rw [fileProblem?, mapM_idText? hlt]
  rfl

theorem fileProblems?_eq (hidx : ctx.Indexed) (wanted : Bool) :
    (if wanted then ctx.index.files.conflicts ctx.packages else []).mapM ctx.fileProblem? =
      some ((if wanted then ctx.index.files.conflicts ctx.packages else []).map
        ctx.fileProblem) := by
  split
  · exact mapM_eq_some fun c => fileProblem?_eq hidx
  · rfl

theorem violationProblem?_eq (hidx : ctx.Indexed) {v : RpmlibViolation}
    (hv : v ∈ ctx.outcomes.violations) :
    ctx.violationProblem? v = some (ctx.violationProblem v) := by
  obtain ⟨o, _, _, hv⟩ := exists_outcome_of_mem_violations hv
  obtain ⟨_, _, ids, hids, hmem, _⟩ := mem_violations.1 hv
  rw [violationProblem?, idText?, check_eq_some (lt_of_mem_candidates? hidx hids hmem)]
  rfl

/-! ## The run -/

def verify? (ctx : Context) (passes : Passes) (states : Array PackageState) :
    Option (Verification × Array PackageState) :=
  if states.size = ctx.packages.size then do
    let pass ← ctx.pass?
    let violations ← pass.violations.mapM ctx.violationProblem?
    let (states, tainted) ←
      pass.graph.propagate? (states.map PackageState.clearDerived) pass.unmetPackages
    let graph ← checkIf passes.conflicts (ctx.addConflicts? pass.graph) pass.graph
    let (states, obsoleted) ← checkIf passes.conflicts (graph.obsolete? states) (states, 0)
    let install ← checkIf passes.order graph.installPlan? ctx.listed
    let loops ← install.loops.mapM ctx.loopProblem?
    let removal ← checkIf passes.order graph.removalPlan? ctx.listed
    let _ ← removal.loops.mapM ctx.loopProblem?
    let fileConflicts ← checkIf passes.fileConflicts ctx.fileConflicts? []
    let shared ← fileConflicts.mapM ctx.fileProblem?
    let run : Verification :=
      { graph
        outcomes := pass.outcomes
        diagnostics := pass.diagnostics
        problems := pass.problems ++ violations ++ loops ++ shared
        unmet := pass.unmet
        tainted
        obsoleted
        install
        removal
        fileConflicts
        memo := pass.memo.stats }
    some (run, states)
  else none

theorem propagate?_requirementGraph {states : Array PackageState}
    (hsize : states.size = ctx.packages.size) :
    let tainted := (ctx.requirementGraph ctx.outcomes.table).taint
      (states.map PackageState.clearDerived) (unmetOwners ctx.outcomes.table)
    (ctx.requirementGraph ctx.outcomes.table).propagate? (states.map PackageState.clearDerived)
      (unmetOwners ctx.outcomes.table) = some (tainted, Graph.countUnmet tainted) := by
  have hgraph : (ctx.requirementGraph ctx.outcomes.table).size = ctx.packages.size :=
    size_requirementGraph _
  apply Graph.propagate?_eq
  · rw [Array.size_map, hsize, hgraph]
  · exact not_tainted_clearDerived states
  · intro p q hq
    rw [hgraph]
    exact lt_of_mem_dependents (fun o => owner_lt_of_mem_table) hq
  · intro p hp
    obtain ⟨o, ho, rfl, _⟩ := mem_unmetOwners.1 hp
    rw [hgraph]
    exact owner_lt_of_mem_table ho

/-- The pass that flags unmet requirements makes no package obsolete. -/
theorem countObsoleted_taint (g : Graph) (states : Array PackageState) (stack : List Nat) :
    Graph.countObsoleted (g.taint (states.map PackageState.clearDerived) stack) = 0 := by
  rw [Graph.countObsoleted, Array.countP_eq_zero]
  intro s hs
  obtain ⟨id, hid, rfl⟩ := Array.getElem_of_mem hs
  have hclear := Graph.not_obsoleted_taint (g := g) states stack id
  rwa [Obsoleted, getD_of_lt hid] at hclear

/-- The flags and the figure of a run, with the pass over the conflicts and without it. -/
theorem obsolete?_verify (hidx : ctx.Indexed) {passes : Passes} {states : Array PackageState}
    (hsize : states.size = ctx.packages.size) :
    let tainted := (ctx.requirementGraph ctx.outcomes.table).taint
      (states.map PackageState.clearDerived) (unmetOwners ctx.outcomes.table)
    let found := ctx.verify passes states
    checkIf passes.conflicts (found.1.graph.obsolete? tainted) (tainted, 0) =
      some (found.2, found.1.obsoleted) := by
  intro tainted found
  have hrun : found.1.InRange ctx.packages.size := inRange_verify hidx
  have hclear : Graph.countObsoleted tainted = 0 := countObsoleted_taint _ _ _
  have hflags : found.1.graph.obsolete? tainted =
      some (found.1.graph.markObsoleted tainted,
        Graph.countObsoleted (found.1.graph.markObsoleted tainted)) := by
    apply Graph.obsolete?_eq
    · rw [Graph.size_taint, Array.size_map, hsize, hrun.size]
    · intro p c hc
      rw [hrun.size]
      exact (hrun.conflicts p c hc).1
    · exact hclear
  have hstates : found.2 =
      if passes.conflicts then found.1.graph.markObsoleted tainted else tainted := rfl
  have hfigure : found.1.obsoleted = Graph.countObsoleted found.2 := rfl
  rw [hfigure, hstates]
  cases passes.conflicts with
  | true => exact hflags
  | false => exact congrArg (fun n => some (tainted, n)) hclear.symm

theorem verify?_eq (hidx : ctx.Indexed) {passes : Passes} {states : Array PackageState}
    (hsize : states.size = ctx.packages.size) :
    ctx.verify? passes states = some (ctx.verify passes states) := by
  have hrun : (ctx.verify passes states).1.InRange ctx.packages.size := inRange_verify hidx
  have htidy : (ctx.verify passes states).1.graph.Tidy := tidy_verify hidx
  let requirements := ctx.requirementGraph ctx.outcomes.table
  let tainted := requirements.taint (states.map PackageState.clearDerived)
    (unmetOwners ctx.outcomes.table)
  let run := (ctx.verify passes states).1
  have htainted : requirements.propagate? (states.map PackageState.clearDerived)
      (unmetOwners ctx.outcomes.table) = some (tainted, run.tainted) :=
    propagate?_requirementGraph hsize
  have hgraph : checkIf passes.conflicts (ctx.addConflicts? requirements) requirements =
      some run.graph :=
    checkIf_eq_some (fun _ => addConflicts?_eq hidx (size_requirementGraph _)) _
  have hobsolete : checkIf passes.conflicts (run.graph.obsolete? tainted) (tainted, 0) =
      some ((ctx.verify passes states).2, run.obsoleted) := obsolete?_verify hidx hsize
  have hinstall : checkIf passes.order run.graph.installPlan? ctx.listed = some run.install :=
    checkIf_eq_some (fun _ => Graph.installPlan?_eq htidy) _
  have hremoval : checkIf passes.order run.graph.removalPlan? ctx.listed = some run.removal :=
    checkIf_eq_some (fun _ => Graph.removalPlan?_eq htidy) _
  have hfiles : checkIf passes.fileConflicts ctx.fileConflicts? [] = some run.fileConflicts :=
    checkIf_eq_some (fun _ => fileConflicts?_eq hidx) _
  have hviolations : ctx.outcomes.violations.mapM ctx.violationProblem? =
      some (ctx.outcomes.violations.map ctx.violationProblem) :=
    mapM_eq_some fun v => violationProblem?_eq hidx
  have hloops : run.install.loops.mapM ctx.loopProblem? =
      some (run.install.loops.map ctx.loopProblem) := loopProblems?_eq hrun.install
  have hloops' : run.removal.loops.mapM ctx.loopProblem? =
      some (run.removal.loops.map ctx.loopProblem) := loopProblems?_eq hrun.removal
  have hshared : run.fileConflicts.mapM ctx.fileProblem? =
      some (run.fileConflicts.map ctx.fileProblem) := fileProblems?_eq hidx _
  rw [verify?, if_pos hsize, pass?_eq hidx]
  simp only [Option.bind_eq_bind, Option.bind_some, gathered]
  rw [hviolations, Option.bind_some, htainted, Option.bind_some, hgraph, Option.bind_some,
    hobsolete, Option.bind_some, hinstall, Option.bind_some, hloops, Option.bind_some, hremoval,
    Option.bind_some, hloops', Option.bind_some, hfiles, Option.bind_some, hshared, Option.bind_some]
  rfl

end Context

end Depcheck

import Depcheck.Report
import Depcheck.Proofs.PackageSet.Reachable
import Depcheck.Proofs.Verification.InRange
import Depcheck.Proofs.Verification.Figures

/-!
# The figures of a set

A prepared set tells what its last verification found in several places: the counts of the run, its
list of problems, its diagnostics, the flags of the packages, and the report that is made from all
of them. They agree (`figures_agree`). The flags are those that the run left, whatever was marked
since (`Reachable.verified`).
-/

namespace Depcheck

/-- What a run counts, what it lists and what it files is the same. -/
structure Verification.Consistent (v : Verification) (s : PackageSet) : Prop where
  /-- Every requirement of every package is resolved, in order. -/
  resolved : v.outcomes.map Outcome.toDemand = demands s.packages
  /-- The count is that of the unmet requirements, of those listed and of those filed. -/
  counted : v.unmetPairs.encard = v.unmet
  listed : v.problems.countP Problem.isUnmet = v.unmet
  filed : (v.diagnostics.map fun entry => entry.2.length).sum = v.unmet
  /-- What is filed is what is listed. -/
  perm : v.diagnostics.filed.Perm (v.problems.filterMap Problem.unmet?)
  /-- No text has two entries. -/
  ascending : v.diagnostics.Ascending
  /-- Under each text stands what is unmet in its packages, in the order of the requirements. -/
  order : ∀ text, v.diagnostics.under text =
    (v.outcomes.filter fun o => s.idText o.owner == text).filterMap Outcome.unmet?
  /-- The texts are those of the packages with an unmet requirement, and these are all flagged. -/
  texts : ∀ text, text ∈ v.diagnostics.texts ↔
    ∃ p < s.size, s.idText p = text ∧ HasUnmet v.outcomes p
  tainted : ∀ p, HasUnmet v.outcomes p → p ∈ s.tainted
  loops : v.problems.countP Problem.isPrereqLoop = v.install.loops.length

/-- A report gives the figures of the run, and each is the length of the list that goes with it. -/
structure Report.Consistent (r : Report) (v : Verification) : Prop where
  errorCount : r.errorCount = r.unmet + r.tainted.length + r.prereqLoops.length
  unmet : r.unmet = v.unmet
  tainted : r.tainted.length = v.tainted
  obsoleted : r.obsoleted.length = v.obsoleted
  conflicts : r.conflicts.length = v.stats.conflicts

namespace PackageSet

variable {s : PackageSet}

/-- The set was verified on its own index, and the states hold what the run found. -/
def Verified (s : PackageSet) (a : Analysis) : Prop :=
  (s.context a.index).Indexed ∧ ∃ states, states.size = s.packages.size ∧
    a.run = ((s.context a.index).verify s.config.passes states).1 ∧
      SameFindings s.states ((s.context a.index).verify s.config.passes states).2

theorem verified_verifyWith {index : Index} (hidx : (s.context index).Indexed)
    (hsize : s.states.size = s.packages.size) {a : Analysis}
    (ha : (s.verifyWith index).analysis = some a) : (s.verifyWith index).Verified a := by
  cases ha
  exact ⟨hidx, s.states, hsize, rfl, SameFindings.refl _⟩

/-- Additions drop what a set knows, and markings leave the flags alone. -/
theorem Reachable.verified (hs : s.Reachable) {a : Analysis} (ha : s.analysis = some a) :
    s.Verified a := by
  induction hs with
  | empty config platform => cases ha
  | add p _ _ => cases ha
  | prepare _ _ => exact verified_verifyWith ⟨_, rfl⟩ Array.size_replicate ha
  | verify h hs _ =>
    obtain ⟨a', ha', rfl⟩ := map_eq_ok hs
    exact verified_verifyWith (h.invariant.knows a' (analyzed_eq_ok.1 ha')).1
      h.invariant.size_states ha
  | mark _ hs ih =>
    obtain ⟨v, _, _, rfl⟩ := mark_eq_ok hs
    obtain ⟨hidx, states, hsize, hrun, hfindings⟩ := ih ha
    exact ⟨hidx, states, hsize, hrun, hfindings.mark v.graph _⟩

theorem mem_tainted {p : Nat} : p ∈ s.tainted ↔ p < s.packages.size ∧ Tainted s.states p := by
  rw [PackageSet.tainted, List.mem_filter, ids, List.mem_range]
  rfl

/-- The counts of a run, its problems and its diagnostics come from one table of outcomes. -/
theorem consistent_run {a : Analysis} (h : s.Verified a) : a.run.Consistent s := by
  obtain ⟨hidx, states, hsize, hrun, hfindings⟩ := h
  rw [hrun]
  refine
    { resolved := Context.toDemand_table
      counted := Context.encard_unmetPairs
      listed := Context.countP_isUnmet_verify
      filed := ?_
      perm := ?_
      ascending := Diagnostics.ascending_ofList _
      order := Context.under_verify
      texts := fun _ => Context.mem_texts_verify
      tainted := ?_
      loops := Context.countP_isPrereqLoop_verify }
  · rw [← Diagnostics.length_filed]
    exact (Diagnostics.filed_ofList_perm _).length_eq
  · rw [Context.filterMap_unmet?_verify]
    exact Diagnostics.filed_ofList_perm _
  · intro p hp
    have hlt : p < s.packages.size := by
      obtain ⟨o, ho, rfl, _⟩ := hp
      exact Context.owner_lt_of_mem_table ho
    refine mem_tainted.2 ⟨hlt, ?_⟩
    rw [Tainted, hfindings.unmet]
    exact (Context.tainted_iff_leads_to_unmet hidx hsize).1.2 (.inl hp)

theorem length_conflictLines (s : PackageSet) {g : Graph} (hsize : g.size = s.packages.size) :
    (Report.conflictLines s g).length = g.stats.conflicts := by
  show _ = g.allConflicts.length
  rw [Graph.allConflicts_eq, Report.conflictLines, ids, hsize, List.length_flatMap,
    List.length_flatMap]
  simp only [List.length_map]

theorem exists_consistent_report {a : Analysis} (h : s.Verified a) (ha : s.analysis = some a) :
    ∃ r, Report.ofPackageSet s = .ok r ∧ r.Consistent a.run := by
  refine ⟨_, by rw [Report.ofPackageSet, run_of_analysis ha]; rfl, ?_⟩
  obtain ⟨_, states, hsize, hrun, hfindings⟩ := h
  have htainted : s.tainted.length = a.run.tainted := by
    rw [hrun, Context.tainted_verify_eq_length, hsize]
    exact congrArg List.length (List.filter_congr fun id _ => hfindings.unmet id)
  have hobsoleted : s.obsoleted.length = a.run.obsoleted := by
    rw [hrun, Context.obsoleted_verify_eq_length, hsize]
    exact congrArg List.length (List.filter_congr fun id _ => hfindings.obsoleted id)
  refine
    { errorCount := ?_
      unmet := rfl
      tainted := ?_
      obsoleted := ?_
      conflicts := ?_ }
  · show a.run.unmet + a.run.tainted + a.run.install.loops.length = _
    simp only [List.length_map, htainted]
  · rw [List.length_map, htainted]
  · rw [List.length_map, hobsoleted]
  · apply length_conflictLines
    rw [hrun]
    exact Context.size_graph_verify

/-- For every prepared set the count of unmet requirements, the listed problems, the diagnostics,
the flags of the packages and the report agree. -/
theorem figures_agree (hs : s.Reachable) (hprepared : s.analysis.isSome = true) :
    ∃ v r, s.run = .ok v ∧ Report.ofPackageSet s = .ok r ∧ v.Consistent s ∧ r.Consistent v := by
  obtain ⟨a, ha⟩ := Option.isSome_iff_exists.1 hprepared
  obtain ⟨r, hr, hreport⟩ := exists_consistent_report (hs.verified ha) ha
  exact ⟨a.run, r, run_of_analysis ha, hr, consistent_run (hs.verified ha), hreport⟩

/-- Two requirements of one package are unmet, another one needs it and is needed by it before they
are installed, and the third makes the other one obsolete. -/
def brokenPackages : List Package :=
  [{ name := "editor", evr := { version := "1" },
     requires :=
       [.ofParts "font" (by decide) (some (.exactly { version := "2" })) {},
        .ofParts "font" (by decide) (some (.exactly { version := "3" })) {},
        .ofParts "theme" (by decide) none { prereq := true }] },
   { name := "font", evr := { version := "1" },
     conflicts := [.ofParts "theme" (by decide) none Package.obsoletesFlags] },
   { name := "theme", evr := { version := "1" },
     requires := [.ofParts "editor" (by decide) none { prereq := true }] }]

def kernelPlatform : Platform where
  caps := [.ofParts "kernel" (by decide) none {}]

def brokenSet : PackageSet :=
  (addAll { config := {}, platform := kernelPlatform } brokenPackages).prepare

def brokenUnmet : List Unmet :=
  [⟨"font = 2", .versionMismatch⟩, ⟨"font = 3", .versionMismatch⟩]

/-- What stands in the list of problems. -/
def brokenProblems : List Problem :=
  brokenUnmet.map (.unmet "editor-1") ++
    [.prereqLoop ["editor-1", "theme-1", "editor-1"] "theme-1"]

theorem run_broken :
    brokenSet.run.map (fun v => (v.unmet, v.tainted, v.obsoleted, v.diagnostics, v.problems)) =
      .ok (2, 2, 1, [("editor-1", brokenUnmet)], brokenProblems) := by
  cbv

theorem figures_agree_broken :
    brokenSet.Reachable ∧ brokenSet.analysis.isSome = true ∧
      ∃ v r, brokenSet.run = .ok v ∧ Report.ofPackageSet brokenSet = .ok r ∧
        v.Consistent brokenSet ∧ r.Consistent v ∧
        v.diagnostics = [("editor-1", brokenUnmet)] ∧ v.problems = brokenProblems ∧
        r.unmet = 2 ∧ r.tainted.length = 2 ∧ r.obsoleted.length = 1 := by
  have hreach : brokenSet.Reachable :=
    ((((Reachable.empty {} kernelPlatform).add _).add _).add _).prepare
  obtain ⟨v, r, hv, hr, hrun, hreport⟩ := figures_agree hreach rfl
  have hfound := run_broken
  rw [hv] at hfound
  simp only [Except.map, Except.ok.injEq, Prod.mk.injEq] at hfound
  obtain ⟨hunmet, htainted, hobsoleted, hdiagnostics, hproblems⟩ := hfound
  exact ⟨hreach, rfl, v, r, hv, hr, hrun, hreport, hdiagnostics, hproblems,
    hreport.unmet.trans hunmet, hreport.tainted.trans htainted,
    hreport.obsoleted.trans hobsoleted⟩

end PackageSet

end Depcheck

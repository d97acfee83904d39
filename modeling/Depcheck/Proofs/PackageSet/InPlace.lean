import Depcheck.Proofs.PackageSet.Arrange
import Depcheck.Proofs.PackageSet.Workspace

/-!
# Operations in place

The operations of a workspace are those of the package set. On the workspace of a set that satisfies the
invariant none of them stops where the ids that the caller hands in are ids of the set. It ends with the
result and the workspace of what the plain operation gives, and with the old workspace when that is
refused (`outcome`).
-/

namespace Depcheck

namespace PackageSet

open Procedure

variable {α : Type} {s : PackageSet}

/-- The set with its indexes and its last verification apart. -/
def apart (s : PackageSet) : Workspace where
  config := s.config
  platform := s.platform
  packages := s.packages
  states := s.states
  dependencyDirs := s.dependencyDirs
  index := s.analysis.map Analysis.index
  run := s.analysis.map Analysis.run

/-- The result of an operation on a set, with the workspace afterwards. -/
def outcome (s : PackageSet) : Except Error (α × PackageSet) → Except Error α × Workspace
  | .ok (x, s') => (.ok x, s'.apart)
  | .error e => (.error e, s.apart)

/-! ## Changes -/

theorem runOn_add (h : s.packages.size < Workspace.capacity) (p : Package) :
    (Workspace.add p).runOn s.apart = some (.ok s.packages.size, (s.add p).apart) := by
  have hsize : s.apart.packages.size < Workspace.capacity := h
  simp only [Workspace.add, Workspace.invalidate, runOn_bind, runOn_modify, Option.bind_some,
    runOn_get, runOn_orStop, check_eq_some hsize, Option.map_some]
  rfl

theorem runOn_addAll {ps : List Package} (h : s.packages.size + ps.length ≤ Workspace.capacity) :
    (Workspace.addAll ps).runOn s.apart = some (.ok (), (s.addAll ps).apart) := by
  induction ps generalizing s with
  | nil => rfl
  | cons p rest ih =>
    rw [List.length_cons] at h
    have hsize : (s.add p).packages.size = s.packages.size + 1 := Array.size_push p
    rw [Workspace.addAll, runOn_bind, runOn_add (by omega), Option.bind_some]
    exact ih (by omega)

theorem runOn_verifyOn {w : Workspace} {index : Index} (hcap : w.packages.size ≤ Workspace.capacity)
    (hidx : (w.context index).Indexed) (hsize : w.states.size = w.packages.size) :
    (Workspace.verifyOn index).runOn w =
      let found := (w.context index).verify w.config.passes w.states
      some (.ok found.1.errorCount, { w with states := found.2, run := some found.1 }) := by
  have hverify : (w.context index).verify? w.config.passes w.states =
      some ((w.context index).verify w.config.passes w.states) := Context.verify?_eq hidx hsize
  simp only [Workspace.verifyOn, Workspace.ids, runOn_bind, runOn_get, runOn_orStop, runOn_modify,
    runOn_pure, Option.bind_some, Option.map_some, check_eq_some hcap, hverify]

/-- The number of errors of the last verification. -/
def errorCount (s : PackageSet) : Except Error Nat := s.run.map Verification.errorCount

theorem runOn_prepare (hcap : s.prepare.packages.size ≤ Workspace.capacity) :
    Workspace.prepare.runOn s.apart = some (s.prepare.errorCount, s.prepare.apart) := by
  have hsize : s.apart.rebuilt.packages.size ≤ Workspace.capacity := hcap
  rw [Workspace.runOn_prepare, if_pos hsize, Workspace.runOn_verify rfl]
  exact runOn_verifyOn hcap ⟨_, rfl⟩ Array.size_replicate

/-- What begins with a look at a field that only a prepared set has. -/
theorem runOn_prepared_bind {β : Type} {field : Workspace → Option β} {part : Analysis → β}
    (hfield : field s.apart = s.analysis.map part) (f : β → Procedure α) :
    (prepared field >>= f).runOn s.apart =
      match s.analysis with
      | none => some (.error .notPrepared, s.apart)
      | some a => (f (part a)).runOn s.apart := by
  rw [runOn_bind, runOn_prepared, hfield]
  cases s.analysis with
  | none => rfl
  | some a => rfl

theorem runOn_indexes_bind (f : Index → Procedure α) :
    (Workspace.indexes >>= f).runOn s.apart =
      match s.analysis with
      | none => some (.error .notPrepared, s.apart)
      | some a => (f a.index).runOn s.apart := runOn_prepared_bind rfl f

theorem runOn_lastRun_bind (f : Verification → Procedure α) :
    (Workspace.lastRun >>= f).runOn s.apart =
      match s.analysis with
      | none => some (.error .notPrepared, s.apart)
      | some a => (f a.run).runOn s.apart := runOn_prepared_bind rfl f

theorem runOn_verify_apart (h : s.Invariant) (hcap : s.packages.size ≤ Workspace.capacity) :
    Workspace.verify.runOn s.apart =
      some (s.outcome (s.verify.bind fun s' => s'.errorCount.map fun n => (n, s'))) := by
  cases ha : s.analysis with
  | none =>
    rw [Workspace.verify, runOn_indexes_bind, ha, verify, analyzed, ha]
    rfl
  | some a =>
    have hverify : (Workspace.verifyOn a.index).runOn s.apart = _ :=
      runOn_verifyOn hcap (h.knows a ha).1 h.size_states
    rw [Workspace.verify, runOn_indexes_bind, ha, verify, analyzed, ha]
    dsimp only
    rw [hverify]
    simp only [apart, ha]
    rfl

/-- Whatever a run of the set names is a package of the set. -/
theorem Invariant.inRange (h : s.Invariant) {a : Analysis} (ha : s.analysis = some a) :
    a.run.InRange s.packages.size := by
  obtain ⟨hidx, states, _, hrun⟩ := h.knows a ha
  rw [hrun]
  exact Context.inRange_verify hidx

theorem runOn_mark (h : s.Invariant) {selection : List Nat}
    (hselection : ∀ id ∈ selection, id < s.packages.size) :
    (Workspace.mark selection).runOn s.apart = some (s.outcome (s.mark selection)) := by
  rw [Workspace.mark, runOn_lastRun_bind, mark, run, analyzed]
  cases ha : s.analysis with
  | none => rfl
  | some a =>
    have hrun := h.inRange ha
    have hmark : a.run.graph.selectAll? (s.states.map PackageState.unmark) selection =
        some (a.run.graph.mark s.states selection) := by
      apply Graph.selectAll?_eq
      · rw [h.size_states, hrun.size]
      · intro p e he t ht
        rw [hrun.size]
        exact (hrun.targets p e he t ht).1
      · rw [hrun.size]
        exact hselection
    simp only [runOn_bind, runOn_modify, runOn_get, runOn_orStop, Option.bind_some, hmark,
      Option.map_some, runOn_pure, apart, ha]
    rfl

/-! ## Questions -/

theorem getElem?_packages {id : Nat} (hid : id < s.packages.size) :
    s.packages[id]? = some (s.package id) := by
  rw [package, Array.getD_eq_getD_getElem?, Array.getElem?_eq_getElem hid, Option.getD_some]

theorem getElem?_states {id : Nat} (hid : id < s.states.size) :
    s.states[id]? = some (s.state id) := by
  rw [state, Array.getD_eq_getD_getElem?, Array.getElem?_eq_getElem hid, Option.getD_some]

theorem runOn_ids (h : s.packages.size ≤ Workspace.capacity) :
    Workspace.ids.runOn s.apart = some (.ok s.ids, s.apart) := by
  have hsize : s.apart.packages.size ≤ Workspace.capacity := h
  simp only [Workspace.ids, runOn_bind, runOn_get, runOn_orStop, Option.bind_some,
    check_eq_some hsize, Option.map_some]
  rfl

theorem runOn_select (h : s.packages.size ≤ Workspace.capacity)
    {wanted? : Workspace → Nat → Option Bool} {wanted : Nat → Bool}
    (hwanted : ∀ id < s.packages.size, wanted? s.apart id = some (wanted id)) :
    (Workspace.select wanted?).runOn s.apart = some (.ok (s.ids.filter wanted), s.apart) := by
  have hfilter : s.ids.filterM (wanted? s.apart) = some (s.ids.filter wanted) :=
    filterM_eq_some fun id hid => hwanted id (List.mem_range.1 hid)
  simp only [Workspace.select, runOn_bind, runOn_ids h, runOn_get, runOn_orStop, Option.bind_some,
    hfilter, Option.map_some]

/-- The packages whose state has a flag are found from the states of all packages. -/
theorem runOn_select_states (h : s.Invariant) (hcap : s.packages.size ≤ Workspace.capacity)
    (flag : PackageState → Bool) :
    (Workspace.select fun w id => w.states[id]?.map flag).runOn s.apart =
      some (.ok (s.ids.filter fun id => flag (s.state id)), s.apart) := by
  apply runOn_select hcap
  intro id hid
  show s.states[id]?.map flag = _
  rw [getElem?_states (h.size_states.symm ▸ hid)]
  rfl

theorem runOn_row (h : s.Invariant) (part : Graph → Nat → α) {id : Nat}
    (hid : id < s.packages.size) :
    (Workspace.row part id).runOn s.apart = some (s.run.map fun v => part v.graph id, s.apart) := by
  rw [Workspace.row, runOn_lastRun_bind, run, analyzed]
  cases ha : s.analysis with
  | none => rfl
  | some a =>
    have hrow : check (id < a.run.graph.size) (part a.run.graph id) = some (part a.run.graph id) := by
      apply check_eq_some
      rw [(h.inRange ha).size]
      exact hid
    simp only [runOn_orStop, hrow]
    rfl

theorem runOn_dependents (h : s.Invariant) {id : Nat} (hid : id < s.packages.size) :
    (Workspace.ask (.dependents id)).runOn s.apart = some (s.dependents id, s.apart) := by
  rw [Workspace.ask, runOn_lastRun_bind, dependents, run, analyzed]
  cases ha : s.analysis with
  | none => rfl
  | some a =>
    have hclosure : a.run.graph.dependentsClosure? id = some (a.run.graph.dependentsClosure id) := by
      apply Graph.dependentsClosure?_eq
      · intro p q hq
        rw [(h.inRange ha).size]
        exact (h.inRange ha).dependents p q hq
      · rw [(h.inRange ha).size]
        exact hid
    simp only [runOn_orStop, hclosure]
    rfl

theorem runOn_lookup (h : s.packages.size ≤ Workspace.capacity) (text : String) :
    (Workspace.lookup text).runOn s.apart = some (s.lookupPackage text, s.apart) := by
  have hlookup : PackageSet.lookupPackage
      { config := s.apart.config, platform := s.apart.platform, packages := s.apart.packages } text =
        s.lookupPackage text := rfl
  simp only [Workspace.lookup, runOn_bind, runOn_ids h, runOn_get, Option.bind_some, hlookup]
  cases s.lookupPackage text with
  | ok id => rfl
  | error e => rfl

theorem runOn_whatProvides (name : String) :
    (Workspace.whatProvides name).runOn s.apart = some (s.whatProvides name, s.apart) := by
  rw [Workspace.whatProvides, runOn_indexes_bind, whatProvides, analyzed]
  cases ha : s.analysis with
  | none => rfl
  | some a =>
    simp only [Except.map]
    split
    · rfl
    · rfl

theorem runOn_matchRequirement (h : s.Invariant) (req : Capability) :
    (Workspace.matchRequirement req).runOn s.apart = some (s.matchRequirement req, s.apart) := by
  rw [Workspace.matchRequirement, runOn_indexes_bind, matchRequirement, analyzed]
  cases ha : s.analysis with
  | none => rfl
  | some a =>
    have hresolve : (s.apart.context a.index).resolve? req =
        some ((s.context a.index).resolve req) := Context.resolve?_eq (h.knows a ha).1 req
    simp only [runOn_bind, runOn_get, Option.bind_some, runOn_orStop, hresolve, Option.map_some]
    show _ = some (Except.bind (.ok a) _, s.apart)
    rw [Except.bind]
    cases ((s.context a.index).resolve req).1 with
    | builtin => rfl
    | matched ids => rfl
    | absent => rfl
    | mismatch => rfl

/-- Every question is answered, and the workspace is as before. -/
theorem runOn_ask (h : s.Invariant) (hcap : s.packages.size ≤ Workspace.capacity) (q : Query α)
    (hids : ∀ id ∈ q.ids, id < s.packages.size) :
    (Workspace.ask q).runOn s.apart = some (s.answer q, s.apart) := by
  cases q with
  | package id =>
    have hpackage : s.apart.packages[id]? = some (s.package id) :=
      getElem?_packages (hids id List.mem_cons_self)
    simp only [Workspace.ask, runOn_bind, runOn_get, Option.bind_some, runOn_orStop, hpackage,
      Option.map_some]
    rfl
  | state id =>
    have hstate : s.apart.states[id]? = some (s.state id) :=
      getElem?_states (h.size_states.symm ▸ hids id List.mem_cons_self)
    simp only [Workspace.ask, runOn_bind, runOn_get, Option.bind_some, runOn_orStop, hstate,
      Option.map_some]
    rfl
  | find name =>
    apply runOn_select hcap
    intro id hid
    show s.packages[id]?.map _ = _
    rw [getElem?_packages hid]
    rfl
  | lookup text => exact runOn_lookup hcap text
  | tainted => exact runOn_select_states h hcap _
  | obsoleted => exact runOn_select_states h hcap _
  | marked => exact runOn_select_states h hcap _
  | matchRequirement req => exact runOn_matchRequirement h req
  | edges id => exact runOn_row h _ (hids id List.mem_cons_self)
  | conflicts id => exact runOn_row h _ (hids id List.mem_cons_self)
  | requiredBy id => exact runOn_row h _ (hids id List.mem_cons_self)
  | dependents id => exact runOn_dependents h (hids id List.mem_cons_self)
  | whatProvides name => exact runOn_whatProvides name
  | whatRequires name =>
    rw [Workspace.ask, runOn_indexes_bind, answer, whatRequires, analyzed]
    cases s.analysis with
    | none => rfl
    | some a => rfl
  | whatObsoletes name =>
    rw [Workspace.ask, runOn_indexes_bind, answer, whatObsoletes, analyzed]
    cases s.analysis with
    | none => rfl
    | some a => rfl
  | run =>
    rw [Workspace.ask, Workspace.lastRun, runOn_prepared, answer, run, analyzed]
    cases ha : s.analysis with
    | none =>
      simp only [apart, ha, Option.map_none]
      rfl
    | some a =>
      simp only [apart, ha, Option.map_some]
      rfl

end PackageSet

end Depcheck

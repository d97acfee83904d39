import Depcheck.PackageSet
import Depcheck.Proofs.Except
import Depcheck.Proofs.Graph.Marking
import Depcheck.Proofs.Verification.EdgeTargets

/-!
# The states of a package set

A package set starts empty and changes by additions, preparations, verifications and markings, in
any order. Whatever the order is, there is one state per package, and what the set knows about its
packages was found by a verification of just these packages (`Reachable.invariant`).
-/

namespace Depcheck

namespace Context

variable {ctx : Context} {passes : Passes} {states : Array PackageState}

/-- All edges of a run lead to packages of the list. -/
theorem within_verify (hidx : ctx.Indexed) :
    (ctx.verify passes states).1.graph.Within ctx.packages.size := by
  intro p e he t ht
  obtain ⟨_, o, ho, htargets⟩ := outcomes_of_mem_edges (lt_of_mem_edges_verify he) he
  rw [htargets] at ht
  exact lt_of_mem_targets hidx (mem_outcomesFor.1 (mem_of_settling? ho)).1 ht

end Context

namespace PackageSet

/-- A package set that additions, preparations, verifications and markings lead to. -/
inductive Reachable : PackageSet → Prop
  | empty (config : Config) (platform : Oracle) : Reachable { config, platform }
  | add {s : PackageSet} (p : Package) (h : Reachable s) : Reachable (s.add p)
  | prepare {s : PackageSet} (h : Reachable s) : Reachable s.prepare
  | verify {s s' : PackageSet} (h : Reachable s) (hs : s.verify = .ok s') : Reachable s'
  | mark {s s' : PackageSet} {selection : List Nat} {marking : Marking} (h : Reachable s)
      (hs : s.mark selection = .ok (marking, s')) : Reachable s'

/-- What is known about a set comes from its own packages. -/
def Knows (s : PackageSet) (a : Analysis) : Prop :=
  (s.context a.index).Indexed ∧
    ∃ states, states.size = s.packages.size ∧
      a.run = ((s.context a.index).verify s.config.passes states).1

/-- There is one state per package, and all knowledge is about these packages. -/
structure Invariant (s : PackageSet) : Prop where
  size_states : s.states.size = s.packages.size
  knows : ∀ a, s.analysis = some a → s.Knows a

variable {s s' : PackageSet}

theorem analyzed_eq_ok {a : Analysis} : s.analyzed = .ok a ↔ s.analysis = some a := by
  rw [analyzed]
  cases s.analysis with
  | none =>
    constructor
    · intro h
      cases h
    · intro h
      cases h
  | some b =>
    constructor
    · intro h
      cases h
      rfl
    · intro h
      cases h
      rfl

theorem run_eq_ok {v : Verification} (h : s.run = .ok v) :
    ∃ a, s.analysis = some a ∧ a.run = v := by
  obtain ⟨a, ha, hv⟩ := map_eq_ok h
  exact ⟨a, analyzed_eq_ok.1 ha, hv⟩

theorem run_of_analysis {a : Analysis} (ha : s.analysis = some a) : s.run = .ok a.run := by
  rw [run, analyzed, ha]
  rfl

theorem invariant_verifyWith {index : Index} (hidx : (s.context index).Indexed)
    (hsize : s.states.size = s.packages.size) : (s.verifyWith index).Invariant := by
  refine ⟨?_, ?_⟩
  · show ((s.context index).verify s.config.passes s.states).2.size = s.packages.size
    rw [Context.size_verify, hsize]
  · intro a ha
    cases ha
    exact ⟨hidx, s.states, hsize, rfl⟩

theorem invariant_add (h : s.Invariant) (p : Package) : (s.add p).Invariant := by
  refine ⟨?_, ?_⟩
  · show (s.states.push {}).size = (s.packages.push p).size
    rw [Array.size_push, Array.size_push, h.size_states]
  · intro a ha
    cases ha

theorem invariant_prepare (s : PackageSet) : s.prepare.Invariant := by
  refine invariant_verifyWith ⟨_, rfl⟩ ?_
  exact Array.size_replicate

theorem invariant_verify (h : s.Invariant) (hs : s.verify = .ok s') : s'.Invariant := by
  obtain ⟨a, ha, rfl⟩ := map_eq_ok hs
  exact invariant_verifyWith (h.knows a (analyzed_eq_ok.1 ha)).1 h.size_states

/-- Marking changes the states and nothing else. -/
theorem mark_eq_ok {selection : List Nat} {marking : Marking}
    (hs : s.mark selection = .ok (marking, s')) :
    ∃ v, s.run = .ok v ∧ (marking, s'.states) = v.graph.mark s.states selection ∧
      s' = { s with states := (v.graph.mark s.states selection).2 } := by
  obtain ⟨v, hv, heq⟩ := map_eq_ok hs
  obtain ⟨rfl, rfl⟩ := Prod.mk.inj heq
  exact ⟨v, hv, rfl, rfl⟩

theorem invariant_mark (h : s.Invariant) {selection : List Nat} {marking : Marking}
    (hs : s.mark selection = .ok (marking, s')) : s'.Invariant := by
  obtain ⟨v, _, _, rfl⟩ := mark_eq_ok hs
  refine ⟨?_, h.knows⟩
  show (v.graph.mark s.states selection).2.size = s.packages.size
  rw [Graph.size_mark, h.size_states]

/-- The invariant holds after any sequence of changes. -/
theorem Reachable.invariant (h : s.Reachable) : s.Invariant := by
  induction h with
  | empty config platform => exact ⟨rfl, fun a ha => by cases ha⟩
  | add p _ ih => exact invariant_add ih p
  | prepare _ _ => exact invariant_prepare _
  | verify _ hs ih => exact invariant_verify ih hs
  | mark _ hs ih => exact invariant_mark ih hs

/-- The run of a set is a verification of its packages. -/
theorem Reachable.exists_verify (h : s.Reachable) {v : Verification} (hv : s.run = .ok v) :
    ∃ index states, v = ((s.context index).verify s.config.passes states).1 := by
  obtain ⟨a, ha, rfl⟩ := run_eq_ok hv
  obtain ⟨_, states, _, hrun⟩ := h.invariant.knows a ha
  exact ⟨a.index, states, hrun⟩

/-- The empty set of the default configuration. -/
def byDefault : PackageSet := { config := {}, platform := Platform.ofCaps (Platform.stockCaps ++ []) }

theorem ofConfig_default : ofConfig {} = .ok byDefault := rfl

theorem reachable_byDefault : byDefault.Reachable := Reachable.empty _ _

end PackageSet

end Depcheck

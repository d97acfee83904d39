import Mathlib
import Depcheck.Proofs.Graph.Reach
import Depcheck.Proofs.Verification.Problems
import Depcheck.Proofs.Verification.RequirementGraph
import Depcheck.Proofs.Verification.Targets

/-!
# What an unmet requirement spoils

A run flags a package as unable to be installed when a requirement of its own is unmet, or when any
match of one of its requirements is flagged, the alternates included. The flags are the least set
of this kind: from every flagged package a chain of matches leads to an unmet requirement. A second
match that can be installed does not save the package (`spare_match_does_not_save`).
-/

open Relation (ReflTransGen)

namespace Depcheck

/-- Is some requirement of `p` unmet? -/
def HasUnmet (table : List Outcome) (p : Nat) : Prop :=
  ∃ o ∈ table, o.owner = p ∧ (o.resolution = .absent ∨ o.resolution = .mismatch)

/-- Is `q` a match of some requirement of `p` that `p` does not meet itself? -/
def LeadsTo (table : List Outcome) (p q : Nat) : Prop :=
  ∃ o ∈ table, ∃ m, o.owner = p ∧ o.resolution = .matched m ∧ p ∉ m ∧ q ∈ m

theorem mem_unmetOwners {table : List Outcome} {p : Nat} :
    p ∈ unmetOwners table ↔ HasUnmet table p := by
  rw [unmetOwners, mem_eraseReps, List.mem_map]
  constructor
  · rintro ⟨o, ho, rfl⟩
    obtain ⟨hmem, hunmet⟩ := List.mem_filter.1 ho
    exact ⟨o, hmem, rfl, Resolution.isSome_unmetKind?.1 hunmet⟩
  · rintro ⟨o, hmem, rfl, hunmet⟩
    exact ⟨o, List.mem_filter.2 ⟨hmem, Resolution.isSome_unmetKind?.2 hunmet⟩, rfl⟩

theorem leadsTo_iff {table : List Outcome} {p q : Nat} :
    LeadsTo table p q ↔ ∃ o ∈ table, o.owner = p ∧ q ∈ o.targets := by
  constructor
  · rintro ⟨o, ho, m, rfl, hres, hself, hq⟩
    refine ⟨o, ho, rfl, ?_⟩
    rw [Outcome.targets_of_not_mem hres hself]
    exact hq
  · rintro ⟨o, ho, rfl, hq⟩
    obtain ⟨hres, hself⟩ := Outcome.resolution_of_mem_targets hq
    exact ⟨o, ho, o.targets, rfl, hres, hself, hq⟩

namespace Context

variable {ctx : Context} {passes : Passes} {states : Array PackageState}

theorem restsOn_requirementGraph (hidx : ctx.Indexed) {p q : Nat} :
    (ctx.requirementGraph ctx.outcomes.table).RestsOn p q ↔ LeadsTo ctx.outcomes.table p q := by
  rw [Graph.RestsOn, leadsTo_iff]
  by_cases hq : q < ctx.packages.size
  · exact mem_dependents_requirementGraph ctx.outcomes.table hq
  · -- outside the list there are no dependents, and no outcome leads there
    have hempty : (ctx.requirementGraph ctx.outcomes.table).dependents q = [] := by
      apply Graph.dependents_of_le
      rw [size_requirementGraph]
      exact Nat.le_of_not_lt hq
    rw [hempty]
    constructor
    · intro h
      cases h
    · rintro ⟨o, ho, _, htarget⟩
      exact absurd (lt_of_mem_targets hidx ho htarget) hq

/-- The walk of a run flags what a chain of matches connects with an unmet requirement. -/
theorem tainted_verify_iff_chain (hidx : ctx.Indexed) (hsize : states.size = ctx.packages.size)
    {p : Nat} :
    Tainted (ctx.verify passes states).2 p ↔
      ∃ q, ReflTransGen (LeadsTo ctx.outcomes.table) p q ∧ HasUnmet ctx.outcomes.table q := by
  have hrests : (ctx.requirementGraph ctx.outcomes.table).RestsOn = LeadsTo ctx.outcomes.table := by
    funext p q
    exact propext (restsOn_requirementGraph hidx)
  have hdeps : ∀ q, ∀ p ∈ (ctx.requirementGraph ctx.outcomes.table).dependents q,
      p < (states.map PackageState.clearDerived).size := by
    intro q p hp
    obtain ⟨o, ho, rfl, _⟩ := leadsTo_iff.1 ((restsOn_requirementGraph hidx).1 hp)
    rw [Array.size_map, hsize]
    exact owner_lt_of_mem_table ho
  have hstack : ∀ i ∈ unmetOwners ctx.outcomes.table,
      i < (states.map PackageState.clearDerived).size := by
    intro i hi
    obtain ⟨o, ho, rfl, _⟩ := mem_unmetOwners.1 hi
    rw [Array.size_map, hsize]
    exact owner_lt_of_mem_table ho
  rw [tainted_verify, Graph.tainted_taint_iff (not_tainted_clearDerived states) hdeps hstack, hrests]
  constructor
  · rintro ⟨i, hi, hreach⟩
    exact ⟨i, hreach, mem_unmetOwners.1 hi⟩
  · rintro ⟨i, hreach, hi⟩
    exact ⟨i, mem_unmetOwners.2 hi, hreach⟩

/-- A package is flagged when a requirement of its own is unmet or leads to a flagged match, and
then a chain of matches ends at an unmet requirement. -/
theorem tainted_iff_leads_to_unmet (hidx : ctx.Indexed) (hsize : states.size = ctx.packages.size)
    {p : Nat} :
    (Tainted (ctx.verify passes states).2 p ↔
      HasUnmet (ctx.verify passes states).1.outcomes p ∨
        ∃ q, LeadsTo (ctx.verify passes states).1.outcomes p q ∧
          Tainted (ctx.verify passes states).2 q) ∧
    (Tainted (ctx.verify passes states).2 p ↔
      ∃ q, ReflTransGen (LeadsTo (ctx.verify passes states).1.outcomes) p q ∧
        HasUnmet (ctx.verify passes states).1.outcomes q) := by
  refine ⟨?_, tainted_verify_iff_chain hidx hsize⟩
  constructor
  · intro h
    obtain ⟨i, hreach, hi⟩ := (tainted_verify_iff_chain hidx hsize).1 h
    rcases ReflTransGen.cases_head hreach with rfl | ⟨q, hstep, hrest⟩
    · exact .inl hi
    · exact .inr ⟨q, hstep, (tainted_verify_iff_chain hidx hsize).2 ⟨i, hrest, hi⟩⟩
  · rintro (h | ⟨q, hstep, hq⟩)
    · exact (tainted_verify_iff_chain hidx hsize).2 ⟨p, .refl, h⟩
    · obtain ⟨i, hreach, hi⟩ := (tainted_verify_iff_chain hidx hsize).1 hq
      exact (tainted_verify_iff_chain hidx hsize).2 ⟨i, hreach.head hstep, hi⟩

/-- A mail agent that needs a server, and two servers of which one cannot be installed. -/
def sparePackages : Array Package :=
  #[{ name := "agent", evr := { version := "1" },
      requires := [.ofParts "mta" (by decide) none {}] },
    { name := "bad", evr := { version := "1" },
      provides := [.ofParts "mta" (by decide) none {}],
      requires := [.ofParts "agent" (by decide) (some (.exactly { version := "2" })) {}] },
    { name := "good", evr := { version := "1" },
      provides := [.ofParts "mta" (by decide) none {}] }]

def spareContext : Context where
  packages := sparePackages
  index := .build sparePackages none
  platform := {}
  manager := "rpm"
  strict := true

def spareRun : Verification × Array PackageState :=
  spareContext.verify {} (Array.replicate 3 {})

theorem outcomes_spare :
    spareRun.1.outcomes.map (fun o => (o.owner, o.resolution)) =
      [(0, .matched [2, 1]), (1, .mismatch)] := by
  cbv

theorem unmet_spare : spareRun.2.map PackageState.unmet = #[true, true, false] := by
  cbv

/-- The agent is flagged although its only requirement has a match that is not. -/
theorem spare_match_does_not_save :
    spareContext.Indexed ∧ Tainted spareRun.2 0 ∧
      ¬∃ o ∈ spareRun.1.outcomes, o.owner = 0 ∧
        (o.resolution = .absent ∨ o.resolution = .mismatch ∨
          ∃ m, o.resolution = .matched m ∧ 0 ∉ m ∧ ∀ q ∈ m, Tainted spareRun.2 q) := by
  have hflag : ∀ id, Tainted spareRun.2 id ↔
      (#[true, true, false] : Array Bool)[id]?.getD false = true := by
    intro id
    rw [← unmet_spare, Array.getElem?_map, Tainted, Array.getD_eq_getD_getElem?]
    cases spareRun.2[id]? <;> rfl
  refine ⟨⟨none, rfl⟩, (hflag 0).2 rfl, ?_⟩
  rintro ⟨o, ho, howner, hres⟩
  have hmem := List.mem_map_of_mem (f := fun o : Outcome => (o.owner, o.resolution)) ho
  rw [outcomes_spare, howner] at hmem
  have heq : o.resolution = .matched [2, 1] := by simpa using hmem
  rw [heq] at hres
  rcases hres with h | h | ⟨m, h, _, hall⟩
  · cases h
  · cases h
  · cases h
    have hgood := (hflag 2).1 (hall 2 List.mem_cons_self)
    exact Bool.noConfusion hgood

theorem tainted_iff_leads_to_unmet_spare :
    spareContext.Indexed ∧
      (Array.replicate 3 ({} : PackageState)).size = spareContext.packages.size ∧
      (Tainted spareRun.2 0 ↔
        HasUnmet spareRun.1.outcomes 0 ∨
          ∃ q, LeadsTo spareRun.1.outcomes 0 q ∧ Tainted spareRun.2 q) ∧
      (Tainted spareRun.2 0 ↔
        ∃ q, ReflTransGen (LeadsTo spareRun.1.outcomes) 0 q ∧ HasUnmet spareRun.1.outcomes q) := by
  have hidx : spareContext.Indexed := ⟨none, rfl⟩
  have hsize : (Array.replicate 3 ({} : PackageState)).size = spareContext.packages.size := rfl
  exact ⟨hidx, hsize, tainted_iff_leads_to_unmet hidx hsize⟩

end Context

end Depcheck

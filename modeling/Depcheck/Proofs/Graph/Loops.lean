import Mathlib.Data.List.Chain
import Mathlib.Data.List.Nodup
import Mathlib.Logic.Relation
import Depcheck.Graph.Order

/-!
# Loops

A recorded loop is a closed walk that repeats no package but the first, and its last edge is the
one that was skipped. `LoopsExact` says that a list of loops tells the truth about a relation: its
members are loops, none is reported twice, and skipping their last edges is what makes the relation
acyclic.
-/

open Relation (TransGen)

namespace Depcheck

/-- A relation without cycles. -/
def Acyclic (R : Nat → Nat → Prop) : Prop := ∀ x, ¬ TransGen R x x

/-- Some loop broke at the edge from `p` to `t`. -/
def Skipped (loops : List Loop) (p t : Nat) : Prop :=
  ∃ l ∈ loops, l.broken = p ∧ l.cycle.head? = some t

/-- A closed walk along `R` that repeats no package but the first. -/
structure IsLoop (R : Nat → Nat → Prop) (l : Loop) : Prop where
  closed : l.cycle.head? = l.cycle.getLast?
  simple : l.cycle.dropLast.Nodup
  steps : l.cycle.IsChain R
  broken : l.cycle.dropLast.getLast? = some l.broken

/-- What a list of loops says about a relation. -/
structure LoopsExact (R : Nat → Nat → Prop) (loops : List Loop) : Prop where
  genuine : ∀ l ∈ loops, IsLoop R l
  unique : (loops.map fun l => (l.broken, l.cycle.head?)).Nodup
  breaks : Acyclic fun p t => R p t ∧ ¬ Skipped loops p t
  complete : loops = [] ↔ Acyclic R

variable {R : Nat → Nat → Prop} {loops : List Loop}

theorem IsLoop.not_acyclic {l : Loop} (h : IsLoop R l) : ¬ Acyclic R := by
  obtain ⟨cycle, broken⟩ := l
  obtain ⟨hclosed, -, hsteps, hbroken⟩ := h
  intro hacyclic
  rcases cycle with _ | ⟨x, _ | ⟨y, rest⟩⟩
  · cases hbroken
  · cases hbroken
  · have hpaths : (x :: y :: rest).Pairwise (TransGen R) :=
      (hsteps.imp fun _ _ hR => TransGen.single hR).pairwise
    have hlast : x ∈ y :: rest := by
      rw [List.head?_cons, List.getLast?_cons_cons] at hclosed
      exact List.mem_of_getLast? hclosed.symm
    exact hacyclic x ((List.pairwise_cons.1 hpaths).1 x hlast)

/-- Where a rank grows along every step there is no cycle. -/
theorem acyclic_of_rank (rank : Nat → Nat) (h : ∀ x y, R x y → rank x < rank y) : Acyclic R := by
  have hgrow : ∀ x y, TransGen R x y → rank x < rank y := by
    intro x y hxy
    induction hxy with
    | single hstep => exact h _ _ hstep
    | tail _ hstep ih => exact Nat.lt_trans ih (h _ _ hstep)
  intro x hx
  exact Nat.lt_irrefl _ (hgrow x x hx)

namespace Search

theorem cycleTo_eq {stack : List Frame} {target : Nat} {above below : List Nat}
    (hids : stack.map Frame.id = above ++ target :: below) (hnot : target ∉ above) :
    cycleTo target stack = target :: above.reverse ++ [target] := by
  have habove : ∀ a ∈ above, (a != target) = true := by
    intro a ha
    rw [bne_iff_ne]
    rintro rfl
    exact hnot ha
  rw [cycleTo, hids, List.takeWhile_append_of_pos habove, List.takeWhile_cons_of_neg (by simp),
    List.append_nil]

/-- The stack read downwards is a walk against `R`; the part of it down to the target, with the
edge that led back there, is a loop. -/
theorem isLoop_cycleTo {f : Frame} {rest : List Frame} {target : Nat}
    (hmem : target ∈ (f :: rest).map Frame.id) (hnd : ((f :: rest).map Frame.id).Nodup)
    (hwalk : ((f :: rest).map Frame.id).IsChain fun a b => R b a) (hback : R f.id target) :
    IsLoop R ⟨cycleTo target (f :: rest), f.id⟩ := by
  obtain ⟨above, below, hids, hnot⟩ := List.eq_append_cons_of_mem hmem
  have hdown : (above ++ [target]).IsChain fun a b => R b a := by
    rw [hids] at hwalk
    exact (List.isChain_split.1 hwalk).1
  have hup : (target :: above.reverse).IsChain R := by
    rw [← List.isChain_reverse] at hdown
    simpa using hdown
  have htop : (target :: above.reverse).getLast? = some f.id := by
    cases above with
    | nil =>
      obtain ⟨heq, -⟩ := List.cons_eq_cons.1 hids
      rw [heq]
      rfl
    | cons a above =>
      obtain ⟨heq, -⟩ := List.cons_eq_cons.1 hids
      rw [heq, List.reverse_cons, ← List.cons_append, List.getLast?_concat]
  have hcycle := cycleTo_eq hids hnot
  constructor
  case closed =>
    rw [hcycle, List.getLast?_concat]
    rfl
  case simple =>
    rw [hcycle, List.dropLast_concat]
    rw [hids] at hnd
    have hpart : (above ++ [target]).Nodup := hnd.sublist (by simp)
    have := List.nodup_reverse.2 hpart
    simpa using this
  case steps =>
    rw [hcycle]
    refine hup.append (List.isChain_singleton _) ?_
    intro x hx y hy
    rw [htop] at hx
    cases hx
    cases hy
    exact hback
  case broken =>
    rw [hcycle, List.dropLast_concat]
    exact htop

end Search

end Depcheck

import Depcheck.Proofs.Package.Order
import Depcheck.Proofs.Sorting
import Mathlib.Logic.ExistsUnique

/-!
# Orders to sort by

Packages and capabilities are put into order by their names and versions. Each of these comparisons
is a total preorder, although the comparison of two texts reads them side by side and decides at the
first difference (`orders_lawful`). So every list has one stable sort, its repeats can be dropped
where they stand side by side, and it has a greatest member.
-/

namespace Depcheck

variable {α : Type} {cmp : α → α → Ordering}

/-- The members of `l` in ascending order, those that compare equal in the order of `l`. -/
structure StableSort (cmp : α → α → Ordering) (l sorted : List α) : Prop where
  perm : sorted.Perm l
  ascending : sorted.Pairwise fun a b => (cmp a b).isLE = true
  stable : ∀ a, classOf cmp a sorted = classOf cmp a l

/-- A total preorder, and what it is good for. -/
structure LawfulOrder (cmp : α → α → Ordering) : Prop where
  reverse : ∀ a b, cmp a b = (cmp b a).swap
  self : ∀ a, cmp a a = .eq
  trans : ∀ a b c, (cmp a b).isLE = true → (cmp b c).isLE = true → (cmp a c).isLE = true
  sort : ∀ l, ∃! sorted, StableSort cmp l sorted
  /-- Dropping what compares equal to its neighbour leaves the first member of every class. -/
  repeats : ∀ l sorted, StableSort cmp l sorted →
    (sorted.eraseRepsBy fun a b => cmp a b == .eq).Pairwise (fun a b => cmp a b = .lt) ∧
      ∀ a, classOf cmp a (sorted.eraseRepsBy fun a b => cmp a b == .eq) = (classOf cmp a l).take 1
  greatest : ∀ l, l ≠ [] → ∃ m ∈ l, ∀ a ∈ l, (cmp a m).isLE = true

section Laws

variable [Std.TransCmp cmp]

theorem stableSort_mergeSort (l : List α) :
    StableSort cmp l (l.mergeSort fun a b => (cmp a b).isLE) where
  perm := List.mergeSort_perm l _
  ascending := pairwise_mergeSort_isLE l
  stable := fun a => classOf_mergeSort a l

theorem LawfulOrder.of_transCmp : LawfulOrder cmp where
  reverse := fun _ _ => Std.OrientedCmp.eq_swap
  self := fun _ => Std.ReflCmp.compare_self
  trans := fun _ _ _ => Std.TransCmp.isLE_trans
  sort := by
    intro l
    refine ⟨_, stableSort_mergeSort l, ?_⟩
    intro sorted h
    refine eq_of_classOf_eq h.ascending (stableSort_mergeSort l).ascending ?_
    intro a
    rw [h.stable a, (stableSort_mergeSort l).stable a]
  repeats := by
    intro l sorted h
    have hrepeat : ∀ a b, (cmp a b == .eq) = true ↔ cmp a b = .eq := fun _ _ => beq_iff_eq
    refine ⟨pairwise_lt_eraseRepsBy hrepeat h.ascending, ?_⟩
    intro a
    rw [classOf_eraseRepsBy hrepeat h.ascending, h.stable a]
  greatest := fun _ => exists_greatest

end Laws

/-- Versions, packages, the packages of a prepared set and capabilities are in total preorders. -/
theorem orders_lawful :
    LawfulOrder Evr.compare ∧ LawfulOrder Package.compareNameEvr ∧
      LawfulOrder Package.compareNewestFirst ∧ LawfulOrder Capability.compareNameEvr :=
  ⟨.of_transCmp, .of_transCmp, .of_transCmp, .of_transCmp⟩

end Depcheck

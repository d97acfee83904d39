import Depcheck.Proofs.Version.Order

/-!
# The order of a prepared set

Packages are put into order by name, the newest version first, and then by architecture. Two packages
compare equal in this order when they are the same build: one name, versions that compare equal,
however they are written, and one architecture.
-/

namespace Depcheck

open Std (TransCmp)

namespace Package

/-- The same name, versions that compare equal, and the same architecture. -/
def SameBuild (p q : Package) : Prop := p.name = q.name ∧ p.compareEvr q = .eq ∧ p.arch = q.arch

instance : DecidableRel SameBuild := fun p q =>
  inferInstanceAs (Decidable (p.name = q.name ∧ p.compareEvr q = .eq ∧ p.arch = q.arch))

theorem compareArch_eq_compare : compareArch = compare := by
  funext a b
  cases a with
  | none => cases b <;> rfl
  | some a => cases b <;> rfl

instance : TransCmp compareArch := by
  rw [compareArch_eq_compare]
  infer_instance

instance : TransCmp compareName := inferInstanceAs (TransCmp (compareOn Package.name))

theorem compareNewestFirst_eq_compareLex :
    compareNewestFirst =
      compareLex (compareLex compareName fun p q => compareEvr q p)
        fun p q => compareArch p.arch q.arch := rfl

instance : TransCmp fun p q : Package => compareArch p.arch q.arch where
  eq_swap := fun {p q} => @Std.OrientedCmp.eq_swap _ compareArch _ p.arch q.arch
  isLE_trans := fun {p q r} => @TransCmp.isLE_trans _ compareArch _ p.arch q.arch r.arch

instance : TransCmp compareNewestFirst := by
  rw [compareNewestFirst_eq_compareLex]
  have : TransCmp fun p q : Package => compareEvr q p := TransCmp.opposite
  infer_instance

variable {p q : Package}

theorem compareName_eq_iff : p.compareName q = .eq ↔ p.name = q.name := by
  rw [compareName, Std.LawfulEqCmp.compare_eq_iff_eq]

theorem compareArch_eq_iff {a b : Option String} : compareArch a b = .eq ↔ a = b := by
  rw [compareArch_eq_compare, Std.LawfulEqCmp.compare_eq_iff_eq]

/-- Two packages compare equal exactly when they are the same build. -/
theorem compareNewestFirst_eq_iff : p.compareNewestFirst q = .eq ↔ p.SameBuild q := by
  have hswap : q.compareEvr p = .eq ↔ p.compareEvr q = .eq :=
    ⟨Std.OrientedCmp.eq_symm, Std.OrientedCmp.eq_symm⟩
  rw [compareNewestFirst, Ordering.then_eq_eq, Ordering.then_eq_eq, compareName_eq_iff,
    compareArch_eq_iff, hswap, SameBuild, and_assoc]

/-- A list in this order is in the order of the names. -/
theorem compareName_isLE_of_newestFirst (h : (p.compareNewestFirst q).isLE = true) :
    (p.compareName q).isLE = true := by
  unfold compareNewestFirst at h
  cases hname : p.compareName q with
  | lt => rfl
  | eq => rfl
  | gt =>
    rw [hname] at h
    cases h

/-- Of one name, the earlier package is not older, and for no later architecture when the versions
agree. -/
theorem newer_of_newestFirst (h : (p.compareNewestFirst q).isLE = true) (hname : p.name = q.name) :
    (q.compareEvr p).isLE = true ∧ (q.compareEvr p = .eq → (compareArch p.arch q.arch).isLE = true) := by
  unfold compareNewestFirst at h
  rw [compareName_eq_iff.2 hname] at h
  cases hevr : q.compareEvr p with
  | lt => exact ⟨rfl, fun h => by cases h⟩
  | eq =>
    rw [hevr] at h
    exact ⟨rfl, fun _ => h⟩
  | gt =>
    rw [hevr] at h
    cases h

end Package

end Depcheck

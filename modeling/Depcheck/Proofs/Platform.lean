import Mathlib
import Depcheck.Platform
import Depcheck.Proofs.Bisection
import Depcheck.Proofs.Lists
import Depcheck.Proofs.Package.Order
import Depcheck.Proofs.Sorting

/-!
# The list of the platform

The capabilities of the platform are sorted by name and version, and of neighbours that are equal one
is kept. So those of one name stand together, and looking for the first of them by bisection finds
all: a requirement is provided when some given capability satisfies it
(`provides_iff_exists_satisfying`). Sorting looks neither at relations and flags nor at how a version
is written, so equal capabilities need not become neighbours, and then both are kept
(`distinct_iff_not_interrupted`).
-/

namespace Depcheck

namespace Platform

variable {caps : List Capability} {c : Capability}

theorem mem_caps_ofCaps : c ∈ (ofCaps caps).caps ↔ c ∈ caps := by
  rw [ofCaps, mem_eraseReps, List.mem_mergeSort]

theorem caps_ofCaps_eq_nil_iff : (ofCaps caps).caps = [] ↔ caps = [] := by
  rw [List.eq_nil_iff_forall_not_mem, List.eq_nil_iff_forall_not_mem]
  simp only [mem_caps_ofCaps]

/-! ## The capabilities of one name -/

theorem name_le_of_compareNameEvr {a b : Capability} (h : (a.compareNameEvr b).isLE = true) :
    a.name ≤ b.name := by
  unfold Capability.compareNameEvr at h
  exact compare_le_iff_le.1 (Ordering.isLE_iff_ne_gt.1 (Ordering.isLE_left_of_isLE_then h))

theorem mergeSort_compareNameEvr_pairwise (caps : List Capability) :
    (caps.mergeSort fun a b => (a.compareNameEvr b).isLE).Pairwise fun a b =>
      (a.compareNameEvr b).isLE = true :=
  pairwise_mergeSort_isLE caps

/-- The list is in the order of the names. -/
theorem caps_ofCaps_pairwise (caps : List Capability) :
    (ofCaps caps).caps.Pairwise fun a b => a.name ≤ b.name := by
  have hsorted := mergeSort_compareNameEvr_pairwise caps
  exact (hsorted.sublist (eraseRepsBy_sublist _ _)).imp name_le_of_compareNameEvr

/-- Where no name lies below, the capabilities of a name come first. -/
theorem takeWhile_name_eq_filter {l : List Capability} (h : l.Pairwise fun a b => a.name ≤ b.name)
    {name : String} (hle : ∀ c ∈ l, name ≤ c.name) :
    l.takeWhile (fun c => c.name == name) = l.filter fun c => c.name == name := by
  induction l with
  | nil => rfl
  | cons a rest ih =>
    obtain ⟨ha, hrest⟩ := List.pairwise_cons.1 h
    by_cases hname : a.name = name
    · rw [List.takeWhile_cons_of_pos (by simpa using hname),
        List.filter_cons_of_pos (by simpa using hname),
        ih hrest fun b hb => hle b (List.mem_cons_of_mem a hb)]
    · -- `a` lies above the name already, and so does what follows
      have hlt : name < a.name := lt_of_le_of_ne (hle a List.mem_cons_self) (Ne.symm hname)
      rw [List.takeWhile_cons_of_neg (by simpa using hname),
        List.filter_cons_of_neg (by simpa using hname), eq_comm, List.filter_eq_nil_iff]
      intro b hb
      have hne : b.name ≠ name := (lt_of_lt_of_le hlt (ha b hb)).ne'
      simpa using hne

/-- The capabilities of a name are found by leaving out what lies below it and stopping behind
them. -/
theorem takeWhile_dropWhile_name_eq_filter {l : List Capability}
    (h : l.Pairwise fun a b => a.name ≤ b.name) (name : String) :
    (l.dropWhile fun c => decide (c.name < name)).takeWhile (fun c => c.name == name) =
      l.filter fun c => c.name == name := by
  induction l with
  | nil => rfl
  | cons a rest ih =>
    obtain ⟨ha, hrest⟩ := List.pairwise_cons.1 h
    by_cases hlt : a.name < name
    · rw [List.dropWhile_cons_of_pos (by simpa using hlt), ih hrest,
        List.filter_cons_of_neg (by simpa using hlt.ne)]
    · rw [List.dropWhile_cons_of_neg (by simpa using hlt)]
      refine takeWhile_name_eq_filter h ?_
      intro b hb
      rcases List.mem_cons.1 hb with rfl | hb
      · exact not_lt.1 hlt
      · exact (not_lt.1 hlt).trans (ha b hb)

/-- Does the platform itself satisfy `req`? The first capability of its name is found by
bisection. -/
def providesByBisection (p : Platform) (req : Capability) : Bool :=
  let first := Bisection.partitionPoint (fun c => decide (c.name < req.name)) p.caps
  p.caps.isEmpty ||
    ((p.caps.drop first).takeWhile fun c => c.name == req.name).any fun c => req.isSatisfiedBy c true

/-- In a list by names, bisection finds the first capability of a name. -/
theorem providesByBisection_eq {p : Platform} (h : p.caps.Pairwise fun a b => a.name ≤ b.name)
    (req : Capability) : p.providesByBisection req = p.provides req := by
  have hbelow : p.caps.Pairwise fun a b =>
      decide (b.name < req.name) = true → decide (a.name < req.name) = true := by
    refine h.imp ?_
    intro a b hab hb
    exact decide_eq_true (lt_of_le_of_lt hab (of_decide_eq_true hb))
  unfold providesByBisection provides
  dsimp only
  rw [Bisection.drop_partitionPoint hbelow]

/-- A platform whose list was given as `caps` provides what some member of `caps` satisfies, in
whatever order they were given, and everything when none was given. Bisection finds the same. -/
theorem provides_iff_exists_satisfying (caps : List Capability) (req : Capability) :
    ((ofCaps caps).provides req = true ↔
        caps = [] ∨ ∃ c ∈ caps, req.isSatisfiedBy c true = true) ∧
      (ofCaps caps).providesByBisection req = (ofCaps caps).provides req := by
  refine ⟨?_, providesByBisection_eq (caps_ofCaps_pairwise caps) req⟩
  rw [provides, takeWhile_dropWhile_name_eq_filter (caps_ofCaps_pairwise caps), Bool.or_eq_true,
    List.isEmpty_iff, caps_ofCaps_eq_nil_iff, List.any_eq_true]
  refine or_congr_right (exists_congr fun c => ?_)
  rw [List.mem_filter, mem_caps_ofCaps, and_assoc]
  refine and_congr_right fun _ => and_iff_right_of_imp ?_
  intro hsatisfied
  rw [Capability.isSatisfiedBy, Bool.and_eq_true, beq_iff_eq] at hsatisfied
  exact beq_iff_eq.2 hsatisfied.1.symm

/-! ## Repeats -/

/-- A capability is given twice, and between the two another one that has its place in the order. -/
def Interrupted (given : List Capability) : Prop :=
  ∃ a b, [a, b, a].Sublist given ∧ a.compareNameEvr b = .eq ∧ a ≠ b

/-- What stands between two of the same in the sorted list has their place in the order, and stood
between them before. -/
theorem between_mergeSort_iff {a b : Capability} :
    [a, b, a].Sublist (caps.mergeSort fun a b => (a.compareNameEvr b).isLE) ↔
      [a, b, a].Sublist caps ∧ a.compareNameEvr b = .eq := by
  have hequal : a.compareNameEvr b = .eq →
      ([a, b, a].Sublist (caps.mergeSort fun a b => (a.compareNameEvr b).isLE) ↔
        [a, b, a].Sublist caps) := by
    intro hab
    have hself : a.compareNameEvr a = .eq := Std.ReflCmp.compare_self
    apply sublist_mergeSort_iff (a := a)
    simp [hself, hab]
  constructor
  · intro h
    have hpair := (mergeSort_compareNameEvr_pairwise caps).sublist h
    simp only [List.pairwise_cons, List.mem_cons] at hpair
    have hab : a.compareNameEvr b = .eq :=
      Std.OrientedCmp.isLE_antisymm (hpair.1 b (by simp)) (hpair.2.1 a (by simp))
    exact ⟨(hequal hab).1 h, hab⟩
  · rintro ⟨h, hab⟩
    exact (hequal hab).2 h

theorem nodup_caps_ofCaps_iff : (ofCaps caps).caps.Nodup ↔ ¬Interrupted caps := by
  rw [ofCaps, nodup_eraseReps_iff, Interrupted]
  simp only [between_mergeSort_iff, not_exists, not_and, not_not, and_imp]

/-- Every given capability is kept, and no other. One is kept twice exactly when, between two of the
same, another one was given that has their place in the order; only then are there more members than
different capabilities. -/
theorem distinct_iff_not_interrupted (caps : List Capability) :
    (∀ c, c ∈ (ofCaps caps).caps ↔ c ∈ caps) ∧
      ((ofCaps caps).caps.Nodup ↔ ¬Interrupted caps) ∧
      (((ofCaps caps).caps.length : ℕ∞) = {c | c ∈ caps}.encard ↔ ¬Interrupted caps) := by
  refine ⟨fun c => mem_caps_ofCaps, nodup_caps_ofCaps_iff, ?_⟩
  have hmem : ∀ c, c ∈ {c | c ∈ caps} ↔ c ∈ (ofCaps caps).caps := fun c => mem_caps_ofCaps.symm
  rw [length_eq_encard_iff hmem, nodup_caps_ofCaps_iff]

theorem isEmpty_lt : Relation.lt.isEmpty = false := rfl

/-- `module(abi) = 1`. -/
def sameAbi : Capability := .ofParts "module(abi)" (by decide) (some (.exactly { version := "1" })) {}

/-- `module(abi) < 1`. -/
def belowAbi : Capability :=
  .ofParts "module(abi)" (by decide) (some ⟨.lt, { version := "1" }, isEmpty_lt⟩) {}

/-- Constraints on one version stand in the order in which they were given, so the first of them is
kept twice. -/
theorem not_distinct_abi :
    ofTexts false ["module(abi) = 1", "module(abi) < 1", "module(abi) = 1"] =
        .ok ⟨[sameAbi, belowAbi, sameAbi]⟩ ∧
      ¬[sameAbi, belowAbi, sameAbi].Nodup ∧
      ([sameAbi, belowAbi, sameAbi].length : ℕ∞) ≠
        {c | c ∈ [sameAbi, belowAbi, sameAbi]}.encard := by
  have hrepeated : ¬[sameAbi, belowAbi, sameAbi].Nodup := by decide
  refine ⟨by cbv, hrepeated, ?_⟩
  intro hlength
  exact hrepeated ((length_eq_encard_iff fun _ => Iff.rfl).1 hlength)

end Platform

end Depcheck

import Depcheck.Proofs.Index.Membership

/-!
# Sorting and dropping repeats

The members of a list fall into classes of members that compare equal. A stable sort keeps the order
inside every class (`classOf_mergeSort`), and there is only one list that does (`eq_of_classOf_eq`).
Where no two members are in one class, the order in which they come does not matter
(`mergeSort_eq_of_perm`). Dropping the repeats of a sorted list keeps the first member of
every class (`classOf_eraseRepsBy`). Where neighbours are dropped only when they are the same, a
member is left twice when another one stood between (`nodup_eraseReps_iff`).
-/

namespace Depcheck

open Std (OrientedCmp TransCmp)

variable {α : Type} {cmp : α → α → Ordering} [TransCmp cmp] {l : List α}

theorem isLE_total (a b : α) : ((cmp a b).isLE || (cmp b a).isLE) = true := by
  have hswap : cmp b a = (cmp a b).swap := OrientedCmp.eq_swap
  rw [hswap]
  cases cmp a b <;> rfl

theorem pairwise_mergeSort_isLE (l : List α) :
    (l.mergeSort fun a b => (cmp a b).isLE).Pairwise fun a b => (cmp a b).isLE = true :=
  List.pairwise_mergeSort (fun _ _ _ => TransCmp.isLE_trans) isLE_total l

/-- The members of the class of `a`, in order. -/
def classOf (cmp : α → α → Ordering) (a : α) (l : List α) : List α :=
  l.filter fun b => cmp a b == .eq

omit [TransCmp cmp] in
theorem mem_classOf {a b : α} : b ∈ classOf cmp a l ↔ b ∈ l ∧ cmp a b = .eq := by
  rw [classOf, List.mem_filter, beq_iff_eq]

omit [TransCmp cmp] in
theorem classOf_cons_of_eq {a x : α} (h : cmp a x = .eq) (l : List α) :
    classOf cmp a (x :: l) = x :: classOf cmp a l :=
  List.filter_cons_of_pos (by simpa using h)

omit [TransCmp cmp] in
theorem classOf_cons_of_ne {a x : α} (h : cmp a x ≠ .eq) (l : List α) :
    classOf cmp a (x :: l) = classOf cmp a l :=
  List.filter_cons_of_neg (by simpa using h)

theorem eq_of_mem_classOf {a b c : α} (hb : b ∈ classOf cmp a l) (hc : c ∈ classOf cmp a l) :
    cmp b c = .eq :=
  TransCmp.eq_trans (OrientedCmp.eq_symm (mem_classOf.1 hb).2) (mem_classOf.1 hc).2

/-- Sorting keeps the order of members that compare equal. -/
theorem classOf_mergeSort (a : α) (l : List α) :
    classOf cmp a (l.mergeSort fun a b => (cmp a b).isLE) = classOf cmp a l := by
  have hsorted : (classOf cmp a l).Pairwise fun b c => (cmp b c).isLE = true := by
    rw [List.pairwise_iff_forall_sublist]
    intro b c hbc
    rw [eq_of_mem_classOf (hbc.subset List.mem_cons_self)
      (hbc.subset (List.mem_cons_of_mem b List.mem_cons_self))]
    rfl
  have hsub : (classOf cmp a l).Sublist (l.mergeSort fun a b => (cmp a b).isLE) :=
    List.sublist_mergeSort (fun _ _ _ => TransCmp.isLE_trans) isLE_total hsorted
      List.filter_sublist
  have hclass : classOf cmp a (classOf cmp a l) = classOf cmp a l := by
    unfold classOf
    rw [List.filter_filter]
    simp only [Bool.and_self]
  -- the class is a part of the sorted class, and no smaller than it
  have hpart : (classOf cmp a l).Sublist
      (classOf cmp a (l.mergeSort fun a b => (cmp a b).isLE)) := by
    rw [← hclass]
    exact hsub.filter _
  refine (hpart.eq_of_length ?_).symm
  exact ((List.mergeSort_perm l _).filter _).length_eq.symm

/-- Members that compare equal stand in the sorted list as they stand in the list. -/
theorem sublist_mergeSort_iff {a : α} {k : List α} (h : ∀ b ∈ k, cmp a b = .eq) :
    k.Sublist (l.mergeSort fun a b => (cmp a b).isLE) ↔ k.Sublist l := by
  have hclass : ∀ m : List α, k.Sublist m ↔ k.Sublist (classOf cmp a m) := by
    intro m
    constructor
    · intro hk
      have hself : classOf cmp a k = k := List.filter_eq_self.2 fun b hb => beq_iff_eq.2 (h b hb)
      rw [← hself]
      exact hk.filter _
    · exact fun hk => hk.trans List.filter_sublist
  rw [hclass, classOf_mergeSort, ← hclass]

/-- Where no two members compare equal, a sorted list ascends strictly. -/
theorem pairwise_lt_mergeSort (hdistinct : l.Pairwise fun a b => cmp a b ≠ .eq) :
    (l.mergeSort fun a b => (cmp a b).isLE).Pairwise fun a b => cmp a b = .lt := by
  have hne : (l.mergeSort fun a b => (cmp a b).isLE).Pairwise fun a b => cmp a b ≠ .eq := by
    refine ((List.mergeSort_perm l _).pairwise_iff ?_).2 hdistinct
    intro a b hab hba
    exact hab (OrientedCmp.eq_symm hba)
  refine ((pairwise_mergeSort_isLE l).and hne).imp ?_
  intro a b hab
  exact (Ordering.isLE_iff_eq_lt_or_eq_eq.1 hab.1).resolve_right hab.2

/-- Where no two members compare equal, the order in which they come does not matter. -/
theorem mergeSort_eq_of_perm {l' : List α} (hperm : l.Perm l')
    (hdistinct : l.Pairwise fun a b => cmp a b ≠ .eq) :
    (l.mergeSort fun a b => (cmp a b).isLE) = l'.mergeSort fun a b => (cmp a b).isLE := by
  have hdistinct' : l'.Pairwise fun a b => cmp a b ≠ .eq := by
    refine (hperm.pairwise_iff ?_).1 hdistinct
    intro a b hab hba
    exact hab (OrientedCmp.eq_symm hba)
  have hsorted : (l.mergeSort fun a b => (cmp a b).isLE).Perm
      (l'.mergeSort fun a b => (cmp a b).isLE) :=
    ((List.mergeSort_perm l _).trans hperm).trans (List.mergeSort_perm l' _).symm
  refine List.Perm.eq_of_pairwise ?_ (pairwise_lt_mergeSort hdistinct)
    (pairwise_lt_mergeSort hdistinct') hsorted
  intro a b _ _ hab hba
  have hswap : cmp a b = (cmp b a).swap := OrientedCmp.eq_swap
  rw [hba, hab] at hswap
  cases hswap

/-- A sorted list is known by its classes. -/
theorem eq_of_classOf_eq {l' : List α} (h : l.Pairwise fun a b => (cmp a b).isLE = true)
    (h' : l'.Pairwise fun a b => (cmp a b).isLE = true)
    (hclass : ∀ a, classOf cmp a l = classOf cmp a l') : l = l' := by
  have hself : ∀ a, cmp a a = .eq := fun _ => Std.ReflCmp.compare_self
  induction l generalizing l' with
  | nil =>
    cases l' with
    | nil => rfl
    | cons y l' =>
      have hy := hclass y
      rw [classOf_cons_of_eq (hself y)] at hy
      cases hy
  | cons x l ih =>
    cases l' with
    | nil =>
      have hx := hclass x
      rw [classOf_cons_of_eq (hself x)] at hx
      cases hx
    | cons y l' =>
      obtain ⟨hx, hl⟩ := List.pairwise_cons.1 h
      obtain ⟨hy, hl'⟩ := List.pairwise_cons.1 h'
      -- each head stands in the other list, so neither is greater than the other one
      have hxy : cmp x y = .eq := by
        have hmem : y ∈ x :: l := by
          apply (mem_classOf.1 (?_ : y ∈ classOf cmp y (x :: l))).1
          rw [hclass y]
          exact mem_classOf.2 ⟨List.mem_cons_self, hself y⟩
        have hmem' : x ∈ y :: l' := by
          apply (mem_classOf.1 (?_ : x ∈ classOf cmp x (y :: l'))).1
          rw [← hclass x]
          exact mem_classOf.2 ⟨List.mem_cons_self, hself x⟩
        rcases List.mem_cons.1 hmem with rfl | hmem
        · exact hself y
        · rcases List.mem_cons.1 hmem' with rfl | hmem'
          · exact hself x
          · exact OrientedCmp.isLE_antisymm (hx y hmem) (hy x hmem')
      obtain ⟨rfl, _⟩ : x = y ∧ classOf cmp x l = classOf cmp x l' := by
        have hhead := hclass x
        rw [classOf_cons_of_eq (hself x), classOf_cons_of_eq hxy] at hhead
        exact List.cons.inj hhead
      congr 1
      apply ih hl hl'
      intro a
      have ha := hclass a
      by_cases hax : cmp a x = .eq
      · rw [classOf_cons_of_eq hax, classOf_cons_of_eq hax] at ha
        exact (List.cons.inj ha).2
      · rw [classOf_cons_of_ne hax, classOf_cons_of_ne hax] at ha
        exact ha

/-- A list with a member has a greatest one. -/
theorem exists_greatest (h : l ≠ []) : ∃ m ∈ l, ∀ a ∈ l, (cmp a m).isLE = true := by
  induction l with
  | nil => exact absurd rfl h
  | cons x l ih =>
    have hself : (cmp x x).isLE = true := by
      have heq : cmp x x = .eq := Std.ReflCmp.compare_self
      rw [heq]
      rfl
    by_cases hl : l = []
    · subst hl
      exact ⟨x, List.mem_cons_self, by simpa using hself⟩
    · obtain ⟨m, hm, hle⟩ := ih hl
      have htotal : ((cmp x m).isLE || (cmp m x).isLE) = true := isLE_total x m
      rcases Bool.or_eq_true_iff.1 htotal with hxm | hmx
      · exact ⟨m, List.mem_cons_of_mem x hm, List.forall_mem_cons.2 ⟨hxm, hle⟩⟩
      · refine ⟨x, List.mem_cons_self, List.forall_mem_cons.2 ⟨hself, ?_⟩⟩
        intro a ha
        exact TransCmp.isLE_trans (hle a ha) hmx

/-! ## Repeats -/

/-- Whatever stands behind a greater member is in no smaller class. -/
theorem classOf_eq_nil_of_lt {a x b : α} {rest : List α}
    (hsorted : (b :: rest).Pairwise fun a b => (cmp a b).isLE = true) (hax : cmp a x = .eq)
    (hxb : cmp x b = .lt) : classOf cmp a (b :: rest) = [] := by
  rw [List.eq_nil_iff_forall_not_mem]
  intro y hy
  obtain ⟨hmem, hay⟩ := mem_classOf.1 hy
  have hxy : cmp x y = .eq := TransCmp.eq_trans (OrientedCmp.eq_symm hax) hay
  rcases List.mem_cons.1 hmem with rfl | hmem
  · rw [hxb] at hxy
    cases hxy
  · have hby := (List.pairwise_cons.1 hsorted).1 y hmem
    rw [TransCmp.lt_of_lt_of_isLE hxb hby] at hxy
    cases hxy

section Repeats

variable {r : α → α → Bool} (hr : ∀ a b, r a b = true ↔ cmp a b = .eq)

omit [TransCmp cmp] in
theorem eraseRepsBy_sublist (r : α → α → Bool) (l : List α) : (l.eraseRepsBy r).Sublist l := by
  cases l with
  | nil => exact List.Sublist.refl []
  | cons a l =>
    induction l generalizing a with
    | nil => exact List.Sublist.refl [a]
    | cons b rest ih =>
      rw [eraseRepsBy_cons_cons]
      split
      · exact (ih a).trans ((List.sublist_cons_self b rest).cons_cons a)
      · exact (ih b).cons_cons a

include hr

/-- Dropping the repeats of a sorted list leaves the first member of every class. -/
theorem classOf_eraseRepsBy (hsorted : l.Pairwise fun a b => (cmp a b).isLE = true) (a : α) :
    classOf cmp a (l.eraseRepsBy r) = (classOf cmp a l).take 1 := by
  cases l with
  | nil => rfl
  | cons x l =>
    induction l generalizing x with
    | nil =>
      exact (List.take_of_length_le (List.length_filter_le _ [x])).symm
    | cons b rest ih =>
      obtain ⟨hx, hb⟩ := List.pairwise_cons.1 hsorted
      rw [eraseRepsBy_cons_cons]
      by_cases hxb : cmp x b = .eq
      · -- `b` is in the class of `x` and goes
        have hrest : (x :: rest).Pairwise fun a b => (cmp a b).isLE = true :=
          List.pairwise_cons.2 ⟨fun c hc => hx c (List.mem_cons_of_mem b hc), hb.tail⟩
        rw [if_pos ((hr x b).2 hxb), ih x hrest]
        by_cases hax : cmp a x = .eq
        · rw [classOf_cons_of_eq hax, classOf_cons_of_eq hax]
          rfl
        · have hab : cmp a b ≠ .eq := fun hab =>
            hax (TransCmp.eq_trans hab (OrientedCmp.eq_symm hxb))
          rw [classOf_cons_of_ne hax, classOf_cons_of_ne hax, classOf_cons_of_ne hab]
      · rw [if_neg fun h => hxb ((hr x b).1 h)]
        by_cases hax : cmp a x = .eq
        · -- nothing behind `x` is in its class any more
          have hlt : cmp x b = .lt :=
            (Ordering.isLE_iff_eq_lt_or_eq_eq.1 (hx b List.mem_cons_self)).resolve_right hxb
          have hnone : classOf cmp a (b :: rest) = [] := classOf_eq_nil_of_lt hb hax hlt
          rw [classOf_cons_of_eq hax, classOf_cons_of_eq hax, ih b hb, hnone]
          rfl
        · rw [classOf_cons_of_ne hax, classOf_cons_of_ne hax, ih b hb]

/-- Without its repeats a sorted list ascends strictly. -/
theorem pairwise_lt_eraseRepsBy (hsorted : l.Pairwise fun a b => (cmp a b).isLE = true) :
    (l.eraseRepsBy r).Pairwise fun a b => cmp a b = .lt := by
  rw [List.pairwise_iff_forall_sublist]
  intro a b hab
  have hle := List.pairwise_iff_forall_sublist.1 hsorted (hab.trans (eraseRepsBy_sublist r l))
  refine (Ordering.isLE_iff_eq_lt_or_eq_eq.1 hle).resolve_right ?_
  intro heq
  have htwo : (classOf cmp a [a, b]).length ≤ (classOf cmp a (l.eraseRepsBy r)).length :=
    (hab.filter _).length_le
  have hself : cmp a a = .eq := Std.ReflCmp.compare_self
  rw [classOf_eraseRepsBy hr hsorted, List.length_take, classOf_cons_of_eq hself,
    classOf_cons_of_eq heq] at htwo
  simp only [List.length_cons] at htwo
  omega

omit [TransCmp cmp] in
theorem eraseRepsBy_eq_self (h : l.Pairwise fun a b => cmp a b ≠ .eq) : l.eraseRepsBy r = l := by
  cases l with
  | nil => rfl
  | cons a l =>
    induction l generalizing a with
    | nil => rfl
    | cons b rest ih =>
      obtain ⟨ha, hb⟩ := List.pairwise_cons.1 h
      have hab : ¬r a b = true := fun hab => ha b List.mem_cons_self ((hr a b).1 hab)
      rw [eraseRepsBy_cons_cons, if_neg hab, ih b hb]

end Repeats

/-- Where a member is dropped beside its equal, one is left twice exactly when another stands between
the two. -/
theorem nodup_eraseReps_iff [BEq α] [LawfulBEq α] (l : List α) :
    l.eraseReps.Nodup ↔ ∀ a b, [a, b, a].Sublist l → a = b := by
  cases l with
  | nil => simp [List.eraseReps, List.eraseRepsBy]
  | cons x l =>
    rw [List.eraseReps]
    induction l generalizing x with
    | nil =>
      refine iff_of_true (List.pairwise_singleton _ x) ?_
      intro a b h
      have := h.length_le
      simp at this
    | cons y rest ih =>
      rw [eraseRepsBy_cons_cons]
      by_cases hxy : x = y
      · subst hxy
        rw [if_pos (beq_self_eq_true x), ih x]
        constructor
        · intro h a b hab
          cases hab with
          | cons _ hskip => exact h a b hskip
          | cons_cons _ hba =>
            cases hba with
            | cons _ hba => exact h x b (hba.cons_cons x)
            | cons_cons _ _ => rfl
        · exact fun h a b hab => h a b (hab.cons x)
      · rw [if_neg (by simpa using hxy), List.nodup_cons, ih y, ← List.eraseReps, mem_eraseReps]
        constructor
        · rintro ⟨hx, h⟩ a b hab
          cases hab with
          | cons _ hskip => exact h a b hskip
          | cons_cons _ hba =>
            exact absurd (hba.subset (List.mem_cons_of_mem b List.mem_cons_self)) hx
        · intro h
          refine ⟨?_, fun a b hab => h a b (hab.cons x)⟩
          intro hx
          -- `y` would stand between the two
          have hrest : x ∈ rest := (List.mem_cons.1 hx).resolve_left hxy
          exact hxy (h x y (((List.singleton_sublist.2 hrest).cons_cons y).cons_cons x))

end Depcheck

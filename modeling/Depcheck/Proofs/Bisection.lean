import Mathlib.Data.List.TakeWhile

/-!
# Bisection

What is looked for in a list is found by halving. A comparison tells of every member whether it comes
before what is looked for, is it, or comes behind. In a list in this order, `locate` gives the
position of what is looked for, or else the position that parts the members before it from those
behind it (`of_locate_eq_error`). Where the members that pass a test come first, `partitionPoint` is
where they end (`drop_partitionPoint`).
-/

namespace Depcheck

namespace Bisection

variable {α : Type}

/-- Halves the window of `size` positions from `base` on until it has one position. The upper half is
dropped when it starts behind what is looked for, else the lower half is. -/
def narrow (probe : Nat → Ordering) (base size : Nat) : Nat :=
  if 1 < size then
    if probe (base + size / 2) = .gt then narrow probe base (size - size / 2)
    else narrow probe (base + size / 2) (size - size / 2)
  else base
termination_by size

/-- How the member at a position compares; the end of the list comes behind everything. -/
def probe (cmp : α → Ordering) (l : List α) (i : Nat) : Ordering := (l[i]?.map cmp).getD .gt

/-- A position of what is looked for, or else the position where it would be entered. -/
def locate (cmp : α → Ordering) (l : List α) : Except Nat Nat :=
  let i := narrow (probe cmp l) 0 l.length
  match probe cmp l i with
  | .lt => .error (i + 1)
  | .eq => .ok i
  | .gt => .error i

/-- The number of members that pass the test, where these come first. -/
def partitionPoint (test : α → Bool) (l : List α) : Nat :=
  match locate (fun a => if test a then .lt else .gt) l with
  | .ok i => i
  | .error i => i

/-- The members before what is looked for come first, and those behind it come last. -/
def Ordered (cmp : α → Ordering) (l : List α) : Prop :=
  l.Pairwise fun a b => (cmp b = .lt → cmp a = .lt) ∧ (cmp a = .gt → cmp b = .gt)

variable {cmp : α → Ordering} {l : List α} {i j : Nat}

theorem probe_of_lt (h : i < l.length) : probe cmp l i = cmp l[i] := by
  rw [probe, List.getElem?_eq_getElem h]
  rfl

theorem probe_of_le (h : l.length ≤ i) : probe cmp l i = .gt := by
  rw [probe, List.getElem?_eq_none h]
  rfl

theorem Ordered.probe_eq_lt (h : Ordered cmp l) (hij : i < j) (hj : probe cmp l j = .lt) :
    probe cmp l i = .lt := by
  by_cases hlen : j < l.length
  · rw [probe_of_lt hlen] at hj
    rw [probe_of_lt (hij.trans hlen)]
    exact (List.pairwise_iff_getElem.1 h i j (hij.trans hlen) hlen hij).1 hj
  · rw [probe_of_le (Nat.le_of_not_lt hlen)] at hj
    cases hj

theorem Ordered.probe_eq_gt (h : Ordered cmp l) (hij : i < j) (hi : probe cmp l i = .gt) :
    probe cmp l j = .gt := by
  by_cases hlen : j < l.length
  · rw [probe_of_lt (hij.trans hlen)] at hi
    rw [probe_of_lt hlen]
    exact (List.pairwise_iff_getElem.1 h i j (hij.trans hlen) hlen hij).2 hi
  · exact probe_of_le (Nat.le_of_not_lt hlen)

/-- The position that is left is the last that does not come behind what is looked for, or the first
of all. -/
theorem narrow_spec (h : Ordered cmp l) (base size : Nat)
    (hbelow : base = 0 ∨ probe cmp l base ≠ .gt)
    (habove : ∀ j, base + size ≤ j → probe cmp l j = .gt) :
    (narrow (probe cmp l) base size = 0 ∨
        probe cmp l (narrow (probe cmp l) base size) ≠ .gt) ∧
      ∀ j, narrow (probe cmp l) base size < j → probe cmp l j = .gt := by
  fun_induction narrow (probe cmp l) base size with
  | case1 base size hsize hgt ih =>
    refine ih hbelow ?_
    intro j hj
    rcases Nat.lt_or_eq_of_le (show base + size / 2 ≤ j by omega) with hlt | rfl
    · exact h.probe_eq_gt hlt hgt
    · exact hgt
  | case2 base size hsize hle ih =>
    refine ih (.inr hle) ?_
    intro j hj
    exact habove j (by omega)
  | case3 base size hsize =>
    refine ⟨hbelow, ?_⟩
    intro j hj
    exact habove j (by omega)

/-- What is found is what was looked for, in whatever order the list is. -/
theorem of_locate_eq_ok (h : locate cmp l = .ok i) : ∃ a, l[i]? = some a ∧ cmp a = .eq := by
  unfold locate at h
  dsimp only at h
  generalize narrow (probe cmp l) 0 l.length = k at h
  split at h
  · cases h
  · next heq =>
    obtain rfl : k = i := Except.ok.inj h
    by_cases hlen : k < l.length
    · rw [probe_of_lt hlen] at heq
      exact ⟨l[k], List.getElem?_eq_getElem hlen, heq⟩
    · rw [probe_of_le (Nat.le_of_not_lt hlen)] at heq
      cases heq
  · cases h

/-- The position of what is not found parts the positions before it from those behind it. -/
theorem probe_of_locate_eq_error (hordered : Ordered cmp l) (h : locate cmp l = .error i) :
    i ≤ l.length ∧ (∀ j < i, probe cmp l j = .lt) ∧ ∀ j, i ≤ j → probe cmp l j = .gt := by
  obtain ⟨hbelow, habove⟩ := narrow_spec hordered 0 l.length (.inl rfl)
    fun j hj => probe_of_le (by omega)
  unfold locate at h
  dsimp only at h
  generalize narrow (probe cmp l) 0 l.length = k at h hbelow habove
  split at h
  · next hlt =>
    obtain rfl : k + 1 = i := Except.error.inj h
    refine ⟨Nat.lt_of_not_le fun hle => ?_, ?_, fun j hj => habove j hj⟩
    · rw [probe_of_le hle] at hlt
      cases hlt
    · intro j hj
      rcases Nat.lt_or_eq_of_le (Nat.le_of_lt_succ hj) with hjk | rfl
      · exact hordered.probe_eq_lt hjk hlt
      · exact hlt
  · cases h
  · next hgt =>
    -- nothing comes before the first position
    obtain rfl : k = i := Except.error.inj h
    obtain rfl : k = 0 := hbelow.resolve_right fun hne => hne hgt
    refine ⟨Nat.zero_le _, fun j hj => absurd hj (Nat.not_lt_zero j), fun j _ => ?_⟩
    rcases Nat.eq_zero_or_pos j with rfl | hj
    · exact hgt
    · exact habove j hj

/-- What is not found would stand between the members before it and those behind it. -/
theorem of_locate_eq_error (hordered : Ordered cmp l) (h : locate cmp l = .error i) :
    i ≤ l.length ∧ (∀ a ∈ l.take i, cmp a = .lt) ∧ ∀ a ∈ l.drop i, cmp a = .gt := by
  obtain ⟨hi, hbefore, hbehind⟩ := probe_of_locate_eq_error hordered h
  refine ⟨hi, ?_, ?_⟩
  · intro a ha
    obtain ⟨j, hj, rfl⟩ := List.mem_take_iff_getElem.1 ha
    exact (probe_of_lt (by omega)).symm.trans (hbefore j (by omega))
  · intro a ha
    obtain ⟨j, hj, rfl⟩ := List.mem_drop_iff_getElem.1 ha
    exact (probe_of_lt (by omega)).symm.trans (hbehind (i + j) (by omega))

/-- Where the members that pass the test come first, they are dropped by bisection. -/
theorem drop_partitionPoint {test : α → Bool}
    (h : l.Pairwise fun a b => test b = true → test a = true) :
    l.drop (partitionPoint test l) = l.dropWhile test := by
  have hordered : Ordered (fun a => if test a then .lt else .gt) l := by
    refine h.imp ?_
    intro a b hab
    cases ha : test a with
    | true => simp [ha]
    | false =>
      have hb : test b = false := Bool.eq_false_iff.2 fun hb => by simp [hab hb] at ha
      simp [hb]
  unfold partitionPoint
  cases hlocate : locate (fun a => if test a then .lt else .gt) l with
  | ok i =>
    -- no member compares equal
    obtain ⟨a, _, heq⟩ := of_locate_eq_ok hlocate
    split at heq <;> cases heq
  | error i =>
    obtain ⟨_, hbefore, hbehind⟩ := of_locate_eq_error hordered hlocate
    have hpass : ∀ a ∈ l.take i, test a = true := by
      intro a ha
      simpa using hbefore a ha
    have hfail : ∀ a ∈ l.drop i, test a = false := by
      intro a ha
      simpa using hbehind a ha
    calc l.drop i = (l.drop i).dropWhile test := by
          rw [eq_comm, List.dropWhile_eq_self_iff]
          intro hpos
          rw [hfail _ (List.getElem_mem hpos)]
          exact Bool.false_ne_true
      _ = (l.take i ++ l.drop i).dropWhile test := (List.dropWhile_append_of_pos hpass).symm
      _ = l.dropWhile test := by rw [List.take_append_drop]

end Bisection

end Depcheck

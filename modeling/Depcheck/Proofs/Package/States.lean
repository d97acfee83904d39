import Depcheck.Package.State
import Depcheck.Proofs.Lists

/-!
# Flags in a table of states

The walks over the graph set one flag at a time in a table with one state per package. A flag that
no fresh state has is absent outside the table, and setting it for one package leaves it as it was
for all others. Counting a flag in the table is counting the ids under which it is found
(`countP_flag`). Two tables may agree in the marks and differ in what was found, or the other way
round.
-/

namespace Depcheck

/-- A table is its entries in the order of their ids. -/
theorem toList_eq_map_range {α : Type} (xs : Array α) (d : α) :
    xs.toList = (List.range xs.size).map fun id => xs.getD id d := by
  apply List.ext_getElem
  · simp
  · intro i hi hi'
    rw [Array.length_toList] at hi
    simp [Array.getD_eq_getD_getElem?, hi]

section Entries

variable {α : Type} {xs : Array α} {i : Nat}

theorem getD_of_lt (h : i < xs.size) (d : α) : xs.getD i d = xs[i] := by
  rw [Array.getD_eq_getD_getElem?, Array.getElem?_eq_getElem h, Option.getD_some]

theorem getD_set (h : i < xs.size) (a d : α) (j : Nat) :
    (xs.set i a).getD j d = if i = j then a else xs.getD j d := by
  by_cases heq : i = j
  · subst heq
    rw [getD_of_lt (by simpa using h), Array.getElem_set_self, if_pos rfl]
  · rw [Array.getD_eq_getD_getElem?, Array.getElem?_set_ne h heq, ← Array.getD_eq_getD_getElem?,
      if_neg heq]

/-- Setting one entry to a flagged one flags it, and no other. -/
theorem flag_getD_set_iff (flag : α → Bool) (h : i < xs.size) {a : α} (ha : flag a = true) {d : α}
    {j : Nat} : flag ((xs.set i a).getD j d) = true ↔ flag (xs.getD j d) = true ∨ j = i := by
  rw [getD_set h]
  by_cases heq : i = j
  · rw [if_pos heq]
    exact iff_of_true ha (.inr heq.symm)
  · rw [if_neg heq, or_iff_left (Ne.symm heq)]

theorem modify_eq_set (h : i < xs.size) (f : α → α) : xs.modify i f = xs.set i (f xs[i]) := by
  ext j hj hj'
  · rw [Array.size_modify, Array.size_set]
  · rw [Array.getElem_modify]
    by_cases hij : i = j
    · subst hij
      rw [if_pos rfl, Array.getElem_set_self]
    · rw [if_neg hij, Array.getElem_set_ne _ _ hij]

end Entries

namespace PackageState

variable (flag : PackageState → Bool) {states : Array PackageState} {id : Nat}

theorem lt_size_of_flag (hfresh : flag {} = false) (h : flag (states.getD id {}) = true) :
    id < states.size := by
  apply Nat.lt_of_not_le
  intro hge
  rw [Array.getD_eq_getD_getElem?, Array.getElem?_eq_none hge, Option.getD_none, hfresh] at h
  exact Bool.noConfusion h

/-- A flag that an update clears is nowhere after the update of the whole table. -/
theorem flag_map_eq_false (hfresh : flag {} = false) {f : PackageState → PackageState}
    (hf : ∀ s, flag (f s) = false) : flag ((states.map f).getD id {}) = false := by
  rw [Array.getD_eq_getD_getElem?, Array.getElem?_map]
  cases states[id]? with
  | none => exact hfresh
  | some s => exact hf s

/-- Where the flags of a whole table are known, so are those of every id. -/
theorem flag_of_map (hfresh : flag {} = false) {flags : Array Bool} (h : states.map flag = flags) :
    flag (states.getD id {}) = flags.getD id false := by
  rw [← h, Array.getD_eq_getD_getElem?, Array.getD_eq_getD_getElem?, Array.getElem?_map]
  cases states[id]? with
  | none => exact hfresh
  | some s => rfl

/-- An update that leaves a flag alone may be made anywhere. -/
theorem flag_modify {f : PackageState → PackageState} (hf : ∀ s, flag (f s) = flag s)
    {other : Nat} :
    flag ((states.modify id f).getD other {}) = flag (states.getD other {}) := by
  rw [Array.getD_eq_getD_getElem?, Array.getD_eq_getD_getElem?, Array.getElem?_modify]
  split
  · cases states[other]? with
    | none => rfl
    | some s => exact hf s
  · rfl

theorem flag_set (h : id < states.size) {s : PackageState} (hs : flag s = flag states[id])
    {other : Nat} : flag ((states.set id s).getD other {}) = flag (states.getD other {}) := by
  rw [getD_set h]
  split
  · next heq => rw [hs, ← heq, getD_of_lt h]
  · rfl

theorem flag_map {f : PackageState → PackageState} (hf : ∀ s, flag (f s) = flag s) :
    flag ((states.map f).getD id {}) = flag (states.getD id {}) := by
  rw [Array.getD_eq_getD_getElem?, Array.getD_eq_getD_getElem?, Array.getElem?_map]
  cases states[id]? with
  | none => rfl
  | some s => exact hf s

theorem countP_flag (states : Array PackageState) :
    states.countP flag =
      ((List.range states.size).filter fun id => flag (states.getD id {})).length := by
  rw [← Array.countP_toList, toList_eq_map_range states {}, List.countP_map,
    List.countP_eq_length_filter]
  rfl

/-- The count of a flag is the number of packages that bear it. -/
theorem encard_flag (hfresh : flag {} = false) (states : Array PackageState) :
    {id | flag (states.getD id {}) = true}.encard = states.countP flag := by
  rw [countP_flag]
  refine encard_eq_length (List.nodup_range.filter _) ?_
  intro id
  rw [List.mem_filter, List.mem_range]
  constructor
  · intro h
    exact ⟨lt_size_of_flag flag hfresh h, h⟩
  · exact And.right

/-! ## One update for many packages -/

variable {f : PackageState → PackageState}

theorem size_foldl_modify (ids : List Nat) :
    (ids.foldl (fun states id => states.modify id f) states).size = states.size := by
  induction ids generalizing states with
  | nil => rfl
  | cons i rest ih => rw [List.foldl_cons, ih, Array.size_modify]

/-- An update that leaves a flag alone may be made for any packages. -/
theorem flag_foldl_modify (hf : ∀ s, flag (f s) = flag s) (ids : List Nat) :
    flag ((ids.foldl (fun states id => states.modify id f) states).getD id {}) =
      flag (states.getD id {}) := by
  induction ids generalizing states with
  | nil => rfl
  | cons i rest ih => rw [List.foldl_cons, ih, flag_modify flag hf]

theorem flag_modify_iff (hfresh : flag {} = false) (hf : ∀ s, flag (f s) = true) {other : Nat} :
    flag ((states.modify id f).getD other {}) = true ↔
      flag (states.getD other {}) = true ∨ other = id ∧ other < states.size := by
  rw [Array.getD_eq_getD_getElem?, Array.getD_eq_getD_getElem?, Array.getElem?_modify]
  by_cases heq : id = other
  · subst heq
    rw [if_pos rfl]
    by_cases hlt : id < states.size
    · rw [Array.getElem?_eq_getElem hlt]
      exact iff_of_true (hf _) (.inr ⟨rfl, hlt⟩)
    · rw [Array.getElem?_eq_none (Nat.le_of_not_lt hlt)]
      simp [hfresh, hlt]
  · rw [if_neg heq, or_iff_left fun h => heq h.1.symm]

/-- An update that sets a flag sets it for those of the packages that have a state. -/
theorem flag_foldl_modify_iff (hfresh : flag {} = false) (hf : ∀ s, flag (f s) = true)
    {ids : List Nat} :
    flag ((ids.foldl (fun states id => states.modify id f) states).getD id {}) = true ↔
      flag (states.getD id {}) = true ∨ id ∈ ids ∧ id < states.size := by
  induction ids generalizing states with
  | nil => simp
  | cons i rest ih =>
    rw [List.foldl_cons, ih, flag_modify_iff flag hfresh hf, Array.size_modify, List.mem_cons]
    constructor
    · rintro ((h | ⟨rfl, h⟩) | ⟨h, hlt⟩)
      · exact .inl h
      · exact .inr ⟨.inl rfl, h⟩
      · exact .inr ⟨.inr h, hlt⟩
    · rintro (h | ⟨rfl | h, hlt⟩)
      · exact .inl (.inl h)
      · exact .inl (.inr ⟨rfl, hlt⟩)
      · exact .inr ⟨h, hlt⟩

/-- An update commutes with another one made for all packages where the two commute in a state. -/
theorem map_foldl_modify {u : PackageState → PackageState} (hu : ∀ s, u (f s) = f (u s))
    (ids : List Nat) :
    (ids.foldl (fun states id => states.modify id f) states).map u =
      ids.foldl (fun states id => states.modify id f) (states.map u) := by
  induction ids generalizing states with
  | nil => rfl
  | cons i rest ih =>
    have hmodify : (states.modify i f).map u = (states.map u).modify i f := by
      ext j hj hj'
      · simp
      · simp only [Array.getElem_map, Array.getElem_modify]
        split
        · exact hu _
        · rfl
    rw [List.foldl_cons, List.foldl_cons, ih, hmodify]

end PackageState

/-! ## Tables that agree in part -/

/-- The states agree in what verifications find; their marks may differ. -/
structure SameFindings (xs ys : Array PackageState) : Prop where
  size : xs.size = ys.size
  unmet : ∀ id, (xs.getD id {}).unmet = (ys.getD id {}).unmet
  obsoleted : ∀ id, (xs.getD id {}).obsoleted = (ys.getD id {}).obsoleted

theorem SameFindings.refl (xs : Array PackageState) : SameFindings xs xs :=
  ⟨rfl, fun _ => rfl, fun _ => rfl⟩

theorem SameFindings.of_map_unmark {xs ys : Array PackageState}
    (h : xs.map PackageState.unmark = ys.map PackageState.unmark) : SameFindings xs ys := by
  have hflag : ∀ flag : PackageState → Bool, (∀ s, flag s.unmark = flag s) →
      ∀ id, flag (xs.getD id {}) = flag (ys.getD id {}) := by
    intro flag hunmark id
    rw [← PackageState.flag_map flag hunmark, h, PackageState.flag_map flag hunmark]
  constructor
  · simpa using congrArg Array.size h
  · exact hflag PackageState.unmet fun _ => rfl
  · exact hflag PackageState.obsoleted fun _ => rfl

/-- The states agree in what is marked; what verifications find may differ. -/
structure SameMarks (xs ys : Array PackageState) : Prop where
  size : xs.size = ys.size
  hand : ∀ id, (xs.getD id {}).hand = (ys.getD id {}).hand
  dep : ∀ id, (xs.getD id {}).dep = (ys.getD id {}).dep

end Depcheck

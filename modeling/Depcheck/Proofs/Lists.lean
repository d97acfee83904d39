import Mathlib.Data.List.Nodup
import Mathlib.Data.Set.Card

/-!
# Positions and parts of a list

In a list without repeats, what stands before what can be read off the positions, and only there the
length is the number of members; dropping repeats leaves such a list, with every member where it comes
first, and leaves one as it is. Of two parts of a list, the larger yields the same as the smaller when
nothing comes from what is more; of two ways to read a list, the one that reads more yields all that
the other does.
-/

namespace Depcheck

variable {α : Type} [BEq α] [LawfulBEq α] {l : List α} {a b : α}

theorem pairwise_idxOf (h : l.Nodup) : l.Pairwise fun a b => l.idxOf a < l.idxOf b := by
  rw [List.pairwise_iff_getElem]
  intro i j hi hj hij
  rw [h.idxOf_getElem i hi, h.idxOf_getElem j hj]
  exact hij

theorem idxOf_lt_of_sublist (h : l.Nodup) (hab : [a, b].Sublist l) : l.idxOf a < l.idxOf b :=
  List.pairwise_iff_forall_sublist.1 (pairwise_idxOf h) hab

theorem pair_sublist_of_lt {l : List Nat} {a b : Nat} (h : l.Pairwise (· < ·)) (ha : a ∈ l)
    (hb : b ∈ l) (hab : a < b) : [a, b].Sublist l := by
  induction l with
  | nil => cases ha
  | cons c rest ih =>
    obtain ⟨hc, hrest⟩ := List.pairwise_cons.1 h
    rcases List.mem_cons.1 ha with rfl | ha
    · have hb : b ∈ rest := (List.mem_cons.1 hb).resolve_left (by omega)
      exact (List.singleton_sublist.2 hb).cons_cons a
    · have := hc a ha
      have hb : b ∈ rest := (List.mem_cons.1 hb).resolve_left (by omega)
      exact (ih hrest ha hb).cons c

/-- Where a list of two parts is cut before a member, the member is in the first part or all of the
first part comes before it. -/
theorem mem_or_of_append_eq {α : Type} {front back earlier later : List α} {a : α}
    (h : front ++ back = earlier ++ a :: later) :
    a ∈ front ∨ ∃ between, earlier = front ++ between ∧ back = between ++ a :: later := by
  rcases List.append_eq_append_iff.1 h with hcut | ⟨between, rfl, hback⟩
  · exact .inr hcut
  · cases between with
    | nil => exact .inr ⟨[], by simp, hback.symm⟩
    | cons b between =>
      obtain ⟨rfl, _⟩ := List.cons.inj hback
      exact .inl (List.mem_append_right earlier List.mem_cons_self)

theorem getElem?_concat_eq_some_iff {α : Type} {l : List α} {a b : α} {i : Nat} :
    (l ++ [a])[i]? = some b ↔ l[i]? = some b ∨ i = l.length ∧ a = b := by
  rcases Nat.lt_trichotomy i l.length with hlt | rfl | hgt
  · rw [List.getElem?_append_left hlt]
    simp [hlt.ne]
  · simp
  · have hout : l.length + 1 ≤ i := hgt
    simp [List.getElem?_eq_none, hout, hgt.le, hgt.ne']

theorem modify_congr {α : Type} {l : List α} {i : Nat} {f g : α → α}
    (h : ∀ a, l[i]? = some a → f a = g a) : l.modify i f = l.modify i g := by
  ext1 j
  rw [List.getElem?_modify, List.getElem?_modify]
  by_cases hij : i = j
  · subst hij
    cases ha : l[i]? with
    | none => rfl
    | some a => simp [h a ha]
  · simp [hij]

theorem nodup_eraseDups (l : List α) : l.eraseDups.Nodup := by
  match l with
  | [] => exact List.nodup_nil
  | a :: rest =>
    rw [List.eraseDups_cons, List.nodup_cons]
    refine ⟨?_, nodup_eraseDups _⟩
    intro ha
    simpa using (List.mem_filter.1 (List.mem_eraseDups.1 ha)).2
termination_by l.length
decreasing_by exact Nat.lt_succ_of_le (List.length_filter_le _ rest)

theorem eraseDups_of_nodup (h : l.Nodup) : l.eraseDups = l := by
  induction l with
  | nil => rfl
  | cons a rest ih =>
    obtain ⟨ha, hrest⟩ := List.nodup_cons.1 h
    have hkept : rest.filter (fun b => !b == a) = rest := by
      rw [List.filter_eq_self]
      intro b hb
      have hne : b ≠ a := ne_of_mem_of_not_mem hb ha
      simpa using hne
    rw [List.eraseDups_cons, hkept, ih hrest]

theorem eraseDups_concat (l : List α) (a : α) :
    (l ++ [a]).eraseDups = if a ∈ l then l.eraseDups else l.eraseDups ++ [a] := by
  rw [List.eraseDups_append]
  by_cases ha : a ∈ l <;> simp [List.removeAll, List.eraseDups_cons, ha]

omit [BEq α] [LawfulBEq α] in
/-- A list is as long as it has different members exactly when none is repeated. -/
theorem length_eq_encard_iff {S : Set α} (hS : ∀ a, a ∈ S ↔ a ∈ l) :
    (l.length : ℕ∞) = S.encard ↔ l.Nodup := by
  classical
  have hset : S = (l.toFinset : Set α) := by
    ext a
    rw [hS, Finset.mem_coe, List.mem_toFinset]
  rw [hset, Set.encard_coe_eq_coe_finsetCard, Nat.cast_inj, eq_comm]
  exact Multiset.toFinset_card_eq_card_iff_nodup

omit [BEq α] [LawfulBEq α] in
/-- A set that a list names, each member once, has as many members as the list. -/
theorem encard_eq_length (h : l.Nodup) {S : Set α} (hS : ∀ a, a ∈ S ↔ a ∈ l) :
    S.encard = l.length :=
  ((length_eq_encard_iff hS).2 h).symm

theorem filterMap_filter_eq_iff {α β : Type} {p q : α → Bool} (hqp : ∀ x, q x = true → p x = true)
    (f : α → Option β) (l : List α) :
    (l.filter p).filterMap f = (l.filter q).filterMap f ↔
      ∀ x ∈ l, p x = true → q x = false → f x = none := by
  induction l with
  | nil => simp
  | cons x rest ih =>
    rw [List.forall_mem_cons, ← ih]
    cases hq : q x with
    | true => cases hf : f x <;> simp [hq, hqp x hq, hf]
    | false =>
      cases hp : p x with
      | false => simp [hq, hp]
      | true =>
        cases hf : f x with
        | none => simp [hq, hp, hf]
        | some y =>
          -- the larger part yields one more than the smaller part of the rest
          have hle : ((rest.filter q).filterMap f).length ≤ ((rest.filter p).filterMap f).length :=
            ((List.monotone_filter_right rest fun x => by simpa using hqp x).filterMap f).length_le
          have hne : y :: (rest.filter p).filterMap f ≠ (rest.filter q).filterMap f := by
            intro h
            have hlen := congrArg List.length h
            rw [List.length_cons] at hlen
            omega
          simp [hq, hp, hf, hne]

theorem filterMap_sublist_filterMap {α β : Type} {f g : α → Option β}
    (h : ∀ a b, f a = some b → g a = some b) (l : List α) :
    (l.filterMap f).Sublist (l.filterMap g) := by
  induction l with
  | nil => exact .slnil
  | cons a rest ih =>
    cases hf : f a with
    | some b =>
      rw [List.filterMap_cons_some hf, List.filterMap_cons_some (h a b hf)]
      exact ih.cons_cons b
    | none =>
      rw [List.filterMap_cons_none hf]
      cases hg : g a with
      | some b =>
        rw [List.filterMap_cons_some hg]
        exact ih.cons b
      | none =>
        rw [List.filterMap_cons_none hg]
        exact ih

end Depcheck

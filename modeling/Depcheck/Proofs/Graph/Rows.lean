import Depcheck.Proofs.Bisection
import Depcheck.Proofs.Graph.Building

/-!
# Rows and bisection

A row ascends strictly by key, so what has a key can be looked up by bisection, and a member can be
entered where bisection puts it. Either gives what going through the row from its front gives
(`search?_eq_at?`, `place_eq_upsert`), also where the members carry more than their keys need
(`map_place`).
-/

namespace Depcheck

namespace Row

variable {α : Type} {key : α → Nat} {fresh : α} {update : α → α} {row : List α}

/-- The position of a key in a row, found by bisection, or else where it would be entered. -/
def locate (key : α → Nat) (row : List α) (k : Nat) : Except Nat Nat :=
  Bisection.locate (fun a => compare (key a) k) row

/-- The member with the given key, found by bisection. -/
def search? (key : α → Nat) (row : List α) (k : Nat) : Option α :=
  match locate key row k with
  | .ok i => row[i]?
  | .error _ => none

/-- Updates the member that has the key of `fresh`, or else inserts `fresh`, at the position that
bisection gives. -/
def place (key : α → Nat) (fresh : α) (update : α → α) (row : List α) : List α :=
  match locate key row (key fresh) with
  | .ok i => row.modify i update
  | .error i => row.insertIdx i fresh

theorem Ascending.ordered (h : Ascending key row) (k : Nat) :
    Bisection.Ordered (fun a => compare (key a) k) row := by
  refine h.imp ?_
  intro a b hab
  rw [Nat.compare_eq_lt, Nat.compare_eq_lt, Nat.compare_eq_gt, Nat.compare_eq_gt]
  omega

theorem of_locate_eq_ok {k i : Nat} (h : locate key row k = .ok i) :
    ∃ a, row[i]? = some a ∧ key a = k := by
  obtain ⟨a, ha, hkey⟩ := Bisection.of_locate_eq_ok h
  exact ⟨a, ha, Nat.compare_eq_eq.1 hkey⟩

theorem of_locate_eq_error (hrow : Ascending key row) {k i : Nat}
    (h : locate key row k = .error i) :
    i ≤ row.length ∧ (∀ a ∈ row.take i, key a < k) ∧ ∀ a ∈ row.drop i, k < key a := by
  obtain ⟨hi, hbefore, hbehind⟩ := Bisection.of_locate_eq_error (hrow.ordered k) h
  exact ⟨hi, fun a ha => Nat.compare_eq_lt.1 (hbefore a ha),
    fun a ha => Nat.compare_eq_gt.1 (hbehind a ha)⟩

theorem search?_eq_at? (h : Ascending key row) (k : Nat) : search? key row k = at? key row k := by
  unfold search?
  cases hlocate : locate key row k with
  | ok i =>
    obtain ⟨a, ha, rfl⟩ := of_locate_eq_ok hlocate
    show row[i]? = _
    rw [ha, (mem_iff_at? h).1 (List.mem_of_getElem? ha)]
  | error i =>
    obtain ⟨_, hbefore, hbehind⟩ := of_locate_eq_error h hlocate
    symm
    apply at?_eq_none
    intro a ha
    rw [← List.take_append_drop i row, List.mem_append] at ha
    rcases ha with ha | ha
    · exact Nat.ne_of_lt (hbefore a ha)
    · exact Nat.ne_of_gt (hbehind a ha)

theorem upsert_eq_modify (h : Ascending key row) {i : Nat} {a : α} (hi : row[i]? = some a)
    (ha : key a = key fresh) : upsert key fresh update row = row.modify i update := by
  induction row generalizing i with
  | nil => cases hi
  | cons b rest ih =>
    obtain ⟨hb, hrest⟩ := List.pairwise_cons.1 h
    cases i with
    | zero =>
      obtain rfl : b = a := Option.some.inj hi
      rw [upsert, if_neg (by omega), if_pos ha]
      rfl
    | succ i =>
      have hlt := hb a (List.mem_of_getElem? hi)
      rw [upsert, if_pos (by omega), ih hrest hi]
      rfl

theorem upsert_eq_insertIdx {i : Nat} (hi : i ≤ row.length)
    (hbefore : ∀ a ∈ row.take i, key a < key fresh) (hbehind : ∀ a ∈ row.drop i, key fresh < key a) :
    upsert key fresh update row = row.insertIdx i fresh := by
  induction row generalizing i with
  | nil =>
    obtain rfl : i = 0 := Nat.le_zero.1 hi
    rfl
  | cons b rest ih =>
    cases i with
    | zero =>
      have hlt := hbehind b List.mem_cons_self
      rw [upsert, if_neg (by omega), if_neg (by omega)]
      rfl
    | succ i =>
      rw [upsert, if_pos (hbefore b List.mem_cons_self), List.insertIdx_succ_cons,
        ih (Nat.le_of_succ_le_succ hi) (fun a ha => hbefore a (List.mem_cons_of_mem b ha)) hbehind]

theorem place_eq_upsert (h : Ascending key row) :
    place key fresh update row = upsert key fresh update row := by
  unfold place
  cases hlocate : locate key row (key fresh) with
  | ok i =>
    obtain ⟨a, ha, hkey⟩ := of_locate_eq_ok hlocate
    exact (upsert_eq_modify h ha hkey).symm
  | error i =>
    obtain ⟨hi, hbefore, hbehind⟩ := of_locate_eq_error h hlocate
    exact (upsert_eq_insertIdx hi hbefore hbehind).symm

/-- A member of a row stays, or is updated at its place. -/
theorem mem_upsert_of_mem {a : α} (h : a ∈ row) :
    a ∈ upsert key fresh update row ∨
      key a = key fresh ∧ update a ∈ upsert key fresh update row := by
  induction row with
  | nil => cases h
  | cons b rest ih =>
    rw [upsert]
    split
    · rcases List.mem_cons.1 h with rfl | h
      · exact .inl List.mem_cons_self
      · rcases ih h with hmem | ⟨hkey, hmem⟩
        · exact .inl (List.mem_cons_of_mem b hmem)
        · exact .inr ⟨hkey, List.mem_cons_of_mem b hmem⟩
    · split
      · next hkey =>
        rcases List.mem_cons.1 h with rfl | h
        · exact .inr ⟨hkey, List.mem_cons_self⟩
        · exact .inl (List.mem_cons_of_mem _ h)
      · exact .inl (List.mem_cons_of_mem fresh h)

/-! ## Other members with the same keys -/

section Map

variable {β : Type} {key' : β → Nat} {update' : β → β} {f : α → β}

theorem ascending_map (hkey : ∀ a, key' (f a) = key a) :
    Ascending key' (row.map f) ↔ Ascending key row := by
  rw [Ascending, List.pairwise_map, Ascending]
  simp only [hkey]

theorem at?_map (hkey : ∀ a, key' (f a) = key a) (k : Nat) :
    at? key' (row.map f) k = (at? key row k).map f := by
  rw [at?, List.find?_map, at?]
  simp only [Function.comp_def, hkey]

theorem map_upsert (hkey : ∀ a, key' (f a) = key a)
    (hupdate : ∀ a ∈ row, key a = key fresh → f (update a) = update' (f a)) :
    (upsert key fresh update row).map f = upsert key' (f fresh) update' (row.map f) := by
  induction row with
  | nil => rfl
  | cons a rest ih =>
    have hrest := ih fun b hb => hupdate b (List.mem_cons_of_mem a hb)
    rw [upsert, List.map_cons, upsert, hkey, hkey]
    split
    · rw [List.map_cons, hrest]
    · split
      · next heq => rw [List.map_cons, hupdate a List.mem_cons_self heq]
      · rfl

theorem map_place (h : Ascending key' (row.map f)) (hkey : ∀ a, key' (f a) = key a)
    (hupdate : ∀ a ∈ row, key a = key fresh → f (update a) = update' (f a)) :
    (place key fresh update row).map f = upsert key' (f fresh) update' (row.map f) := by
  rw [place_eq_upsert ((ascending_map hkey).1 h), map_upsert hkey hupdate]

end Map

end Row

end Depcheck

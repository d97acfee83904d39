import Mathlib.Data.List.Induction
import Depcheck.Proofs.Graph.Building
import Depcheck.Verification.Conflict

/-!
# Conflict edges

Hits are entered one by one into the rows of their owners. The hits of one package on another leave
one edge together: it keeps the record of the first of them and is marked as obsolete when any of
them comes from an obsoletes record (`at?_addHits`).
-/

namespace Depcheck

/-- The hits of the package `p` on the package `t`, in order. -/
def hitsOn (hits : List ConflictHit) (p t : Nat) : List ConflictHit :=
  hits.filter fun h => h.owner == p && h.target == t

theorem mem_hitsOn {hits : List ConflictHit} {p t : Nat} {h : ConflictHit} :
    h ∈ hitsOn hits p t ↔ h ∈ hits ∧ h.owner = p ∧ h.target = t := by
  rw [hitsOn, List.mem_filter, Bool.and_eq_true, beq_iff_eq, beq_iff_eq]

theorem hitsOn_append (hits : List ConflictHit) (h : ConflictHit) (p t : Nat) :
    hitsOn (hits ++ [h]) p t =
      if h.owner = p ∧ h.target = t then hitsOn hits p t ++ [h] else hitsOn hits p t := by
  unfold hitsOn
  rw [List.filter_append]
  by_cases hpt : h.owner = p ∧ h.target = t
  · rw [if_pos hpt, List.filter_cons_of_pos (by simpa using hpt), List.filter_nil]
  · rw [if_neg hpt, List.filter_cons_of_neg (by simpa using hpt), List.filter_nil,
      List.append_nil]

/-- The edge that hits on `t` leave together. -/
def mergedConflict? (t : Nat) (hits : List ConflictHit) : Option ConflictEdge :=
  hits.head?.map fun first =>
    ⟨t, first.record, { conflict := true, obsolete := hits.any ConflictHit.obsolete }⟩

namespace ConflictEdge

/-- The edge of a hit when there is none to its target. -/
def ofHit (h : ConflictHit) : ConflictEdge :=
  ⟨h.target, h.record, { conflict := true, obsolete := h.obsolete }⟩

/-- An edge after a further hit on its target. -/
def absorb (h : ConflictHit) (e : ConflictEdge) : ConflictEdge :=
  { e with flags := e.flags.union { obsolete := h.obsolete } }

theorem target_absorb (h : ConflictHit) (e : ConflictEdge) : (e.absorb h).target = e.target := rfl

end ConflictEdge

theorem mergedConflict?_append (hits : List ConflictHit) (h : ConflictHit) :
    mergedConflict? h.target (hits ++ [h]) =
      some (((mergedConflict? h.target hits).map (ConflictEdge.absorb h)).getD (.ofHit h)) := by
  cases hits with
  | nil =>
    show some (ConflictEdge.mk h.target h.record _) = some (ConflictEdge.ofHit h)
    simp [ConflictEdge.ofHit]
  | cons first rest => simp [mergedConflict?, ConflictEdge.absorb, EdgeFlags.union, Bool.or_assoc]

namespace Graph

variable {g : Graph} {hits : List ConflictHit}

theorem conflicts_addMatches {owner requirement : Nat} {flags : EdgeFlags} (ids : List Nat)
    (id : Nat) : (g.addMatches owner requirement flags ids).conflicts id = g.conflicts id := by
  have hdependents : ∀ (targets : List Nat) (g : Graph),
      (g.addDependents owner targets).conflicts id = g.conflicts id := by
    intro targets
    induction targets with
    | nil => exact fun g => rfl
    | cons t rest ih =>
      intro g
      rw [addDependents, List.foldl_cons, ← addDependents, ih]
      apply node_modify_congr Node.conflicts
      intro n
      rw [Node.addDependent]
      split <;> rfl
  cases ids with
  | nil => rfl
  | cons primary alternates =>
    rw [addMatches_cons, hdependents]
    exact node_modify_congr Node.conflicts _ _ _ fun _ => rfl

theorem conflicts_addHit (h : ConflictHit) {id : Nat} (hid : id < g.size) :
    (g.addHit h).conflicts id =
      if h.owner = id then
        Row.upsert ConflictEdge.target (.ofHit h) (.absorb h) (g.conflicts id)
      else g.conflicts id := by
  unfold addHit addConflict conflicts
  rw [node_modify g h.owner id _ hid]
  split
  · rfl
  · rfl

def addHits (g : Graph) (hits : List ConflictHit) : Graph := hits.foldl addHit g

theorem addHits_append (g : Graph) (hits : List ConflictHit) (h : ConflictHit) :
    g.addHits (hits ++ [h]) = (g.addHits hits).addHit h := by
  rw [addHits, List.foldl_append]
  rfl

@[simp] theorem size_addHits (g : Graph) (hits : List ConflictHit) :
    (g.addHits hits).size = g.size := by
  induction hits using List.reverseRecOn with
  | nil => rfl
  | append_singleton hits h ih => rw [addHits_append, addHit, size_addConflict, ih]

theorem ascending_addHit (h : ConflictHit) {p : Nat}
    (hrow : Row.Ascending ConflictEdge.target (g.conflicts p)) :
    Row.Ascending ConflictEdge.target ((g.addHit h).conflicts p) := by
  by_cases hp : p < g.size
  · rw [conflicts_addHit h hp]
    split
    · exact hrow.upsert (ConflictEdge.target_absorb h)
    · exact hrow
  · rw [conflicts_of_le (by rw [addHit, size_addConflict]; exact Nat.le_of_not_lt hp)]
    exact List.Pairwise.nil

theorem ascending_addHits (hempty : ∀ id, g.conflicts id = []) (p : Nat) :
    Row.Ascending ConflictEdge.target ((g.addHits hits).conflicts p) := by
  induction hits using List.reverseRecOn with
  | nil =>
    show Row.Ascending _ (g.conflicts p)
    rw [hempty]
    exact List.Pairwise.nil
  | append_singleton hits h ih =>
    rw [addHits_append]
    exact ascending_addHit h ih

/-- The conflict edge of a package to `t` is what its hits on `t` leave together. -/
theorem at?_addHits (hempty : ∀ id, g.conflicts id = []) {p : Nat} (hp : p < g.size) (t : Nat) :
    Row.at? ConflictEdge.target ((g.addHits hits).conflicts p) t =
      mergedConflict? t (hitsOn hits p t) := by
  induction hits using List.reverseRecOn with
  | nil =>
    show Row.at? _ (g.conflicts p) t = none
    rw [hempty]
    rfl
  | append_singleton hits h ih =>
    rw [addHits_append, conflicts_addHit h (by rw [size_addHits]; exact hp), hitsOn_append]
    by_cases hown : h.owner = p
    · rw [if_pos hown, Row.at?_upsert (ascending_addHits hempty p) (ConflictEdge.target_absorb h),
        ih]
      by_cases ht : h.target = t
      · subst ht
        have hpt : h.owner = p ∧ h.target = h.target := ⟨hown, rfl⟩
        rw [if_pos hpt, mergedConflict?_append]
        exact if_pos rfl
      · have hpt : ¬(h.owner = p ∧ h.target = t) := fun hpt => ht hpt.2
        rw [if_neg hpt]
        exact if_neg ht
    · rw [if_neg hown, if_neg fun hpt => hown hpt.1, ih]

/-- What a conflict edge says about the hits behind it. -/
theorem mem_conflicts_addHits (hempty : ∀ id, g.conflicts id = []) {p : Nat} {e : ConflictEdge} :
    e ∈ (g.addHits hits).conflicts p ↔
      p < g.size ∧ mergedConflict? e.target (hitsOn hits p e.target) = some e := by
  by_cases hp : p < g.size
  · rw [Row.mem_iff_at? (ascending_addHits hempty p), at?_addHits hempty hp]
    exact (and_iff_right hp).symm
  · rw [conflicts_of_le (by rw [size_addHits]; exact Nat.le_of_not_lt hp)]
    exact iff_of_false List.not_mem_nil fun h => hp h.1

end Graph

end Depcheck

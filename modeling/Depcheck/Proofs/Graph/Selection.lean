import Depcheck.Proofs.Graph.Marking

/-!
# What a selection marks

The search lists each dependency at the moment it marks it. So a package is listed once, and only if
it was not marked before (`fresh_pull`), and it is what an edge of an earlier package prefers
(`chained_pull`). With the settled packages of the search this makes a marking sound
(`sound_mark`). What it marks is closed under the edges, and selecting all of a closed list marks
nothing else (`mark_of_closed`).
-/

namespace Depcheck

/-- The marking of `selection` on the graph `g` is closed under the edges, has nothing in it without
a reason, and is what becomes of the states `before`. -/
structure Marking.Sound (m : Marking) (g : Graph) (selection : List Nat)
    (before after : Array PackageState) : Prop where
  byHand : m.byHand = selection.eraseDups
  /-- No package is listed twice, by hand or as a dependency. -/
  nodup : m.all.Nodup
  hand : ∀ id, (after.getD id {}).hand = true ↔ id ∈ m.byHand
  dep : ∀ id, (after.getD id {}).dep = true ↔ id ∈ m.asDependency
  /-- Every edge of a marked package has a marked target. -/
  closed : ∀ p ∈ m.all, ∀ e ∈ g.edges p, ∃ t ∈ e.targets, t ∈ m.all
  /-- A dependency is what an edge of an earlier package prefers. -/
  needed : ∀ earlier id later, m.all = earlier ++ id :: later → id ∈ m.asDependency →
    ∃ p ∈ earlier, ∃ e ∈ g.edges p, e.primary = id
  tainted : m.tainted = m.all.filter fun id => (after.getD id {}).unmet
  findings : SameFindings after before

theorem Marking.marked_iff_mem_all {m : Marking} {states : Array PackageState} {id : Nat}
    (hhand : (states.getD id {}).hand = true ↔ id ∈ m.byHand)
    (hdep : (states.getD id {}).dep = true ↔ id ∈ m.asDependency) :
    Marked states id ↔ id ∈ m.all := by
  unfold Marked PackageState.isMarked all
  rw [Bool.or_eq_true, hhand, hdep, List.mem_append]

theorem Marking.Sound.marked_iff {m : Marking} {g : Graph} {selection : List Nat}
    {before after : Array PackageState} (h : m.Sound g selection before after) {id : Nat} :
    Marked after id ↔ id ∈ m.all :=
  m.marked_iff_mem_all (h.hand id) (h.dep id)

namespace Graph

variable {g : Graph} {states : Array PackageState}

/-! ## Dependencies are listed once -/

/-- A list of packages that are not marked yet, without repeats. -/
structure Fresh (states : Array PackageState) (ids : List Nat) : Prop where
  nodup : ids.Nodup
  unmarked : ∀ id ∈ ids, ¬Marked states id

theorem fresh_nil (states : Array PackageState) : Fresh states [] where
  nodup := List.nodup_nil
  unmarked := by
    intro id hid
    cases hid

/-- What is fresh after a fresh list was marked can be listed after it. -/
theorem Fresh.append {states' : Array PackageState} {ids more : List Nat} (h : Fresh states ids)
    (hmarked : ∀ id, Marked states' id ↔ Marked states id ∨ id ∈ ids) (hmore : Fresh states' more) :
    Fresh states (ids ++ more) where
  nodup := by
    rw [List.nodup_append]
    refine ⟨h.nodup, hmore.nodup, ?_⟩
    rintro id hid _ hid' rfl
    exact hmore.unmarked id hid' ((hmarked id).2 (.inr hid))
  unmarked := by
    intro id hid
    rcases List.mem_append.1 hid with hid | hid
    · exact h.unmarked id hid
    · intro hold
      exact hmore.unmarked id hid ((hmarked id).2 (.inl hold))

theorem fresh_pullEdges (states : Array PackageState) (row : List Edge) :
    Fresh states (pullEdges states row).2 := by
  induction row generalizing states with
  | nil => exact fresh_nil states
  | cons e rest ih =>
    rw [pullEdges]
    split
    · next h =>
      split
      · exact ih states
      · next hnone =>
        have hprimary : Fresh states [e.primary] := by
          refine ⟨List.nodup_singleton _, ?_⟩
          intro id hid hmarked
          obtain rfl := List.mem_singleton.1 hid
          exact hnone (anyMarked_iff.2 ⟨e.primary, List.mem_cons_self, hmarked⟩)
        refine hprimary.append ?_ (ih _)
        intro id
        rw [marked_set_markAsDependency h, List.mem_singleton]
    · exact ih states

/-- The flags that marking as a dependency raises are up after the search where they were up before,
and for the packages that are listed. -/
theorem flag_pull_iff (flag : PackageState → Bool)
    (hdep : ∀ s : PackageState, flag s.markAsDependency = true) {queue : List Nat} {id : Nat} :
    flag ((g.pull states queue).1.getD id {}) = true ↔
      flag (states.getD id {}) = true ∨ id ∈ (g.pull states queue).2 := by
  fun_induction pull g states queue with
  | case1 states => exact (or_iff_left List.not_mem_nil).symm
  | case2 states p rest next later ih =>
    rw [ih, flag_pullEdges_iff flag hdep, List.mem_append, or_assoc]

theorem fresh_pull (states : Array PackageState) (queue : List Nat) :
    Fresh states (g.pull states queue).2 := by
  fun_induction pull g states queue with
  | case1 states => exact fresh_nil states
  | case2 states p rest next later ih =>
    exact (fresh_pullEdges states (g.edges p)).append (fun id => marked_pullEdges) ih

/-! ## Dependencies are listed for a reason -/

theorem exists_edge_pullEdges {row : List Edge} {id : Nat} (h : id ∈ (pullEdges states row).2) :
    ∃ e ∈ row, e.primary = id := by
  induction row generalizing states with
  | nil => cases h
  | cons e rest ih =>
    have later : ∀ states, id ∈ (pullEdges states rest).2 → ∃ a ∈ e :: rest, a.primary = id := by
      intro states hid
      obtain ⟨a, ha, hprimary⟩ := ih hid
      exact ⟨a, List.mem_cons_of_mem e ha, hprimary⟩
    rw [pullEdges] at h
    split at h
    · split at h
      · exact later _ h
      · rcases List.mem_cons.1 h with rfl | h
        · exact ⟨e, List.mem_cons_self, rfl⟩
        · exact later _ h
    · exact later _ h

/-- Is every listed package what an edge of one of the given packages, or of one listed before it,
prefers? -/
def Chained (g : Graph) (queue listed : List Nat) : Prop :=
  ∀ earlier id later, listed = earlier ++ id :: later →
    ∃ p ∈ queue ++ earlier, ∃ e ∈ g.edges p, e.primary = id

/-- What the first package of the queue calls for is listed first, and waits behind the others. -/
theorem Chained.visit {top : Nat} {rest found listed : List Nat}
    (hfound : ∀ id ∈ found, ∃ e ∈ g.edges top, e.primary = id)
    (h : g.Chained (rest ++ found) listed) : g.Chained (top :: rest) (found ++ listed) := by
  intro earlier id later hcut
  rcases mem_or_of_append_eq hcut with hid | ⟨between, rfl, hlater⟩
  · exact ⟨top, List.mem_cons_self, hfound id hid⟩
  · obtain ⟨p, hp, hneeds⟩ := h between id later hlater
    refine ⟨p, ?_, hneeds⟩
    rw [List.cons_append, ← List.append_assoc]
    exact List.mem_cons_of_mem top hp

theorem chained_pull (states : Array PackageState) (queue : List Nat) :
    g.Chained queue (g.pull states queue).2 := by
  fun_induction pull g states queue with
  | case1 states =>
    intro earlier id later hcut
    simp at hcut
  | case2 states top rest next later ih =>
    exact ih.visit fun id hid => exists_edge_pullEdges hid

/-! ## Marking a selection -/

variable {selection : List Nat}

theorem asDependency_mark (selection : List Nat) :
    (g.mark states selection).1.asDependency =
      (g.pull (selectedStates states selection) selection.eraseDups).2 := rfl

theorem hand_mark_iff (hselection : ∀ id ∈ selection, id < states.size) {id : Nat} :
    ((g.mark states selection).2.getD id {}).hand = true ↔
      id ∈ (g.mark states selection).1.byHand := by
  rw [mark_eq_pull, flag_pull PackageState.hand fun _ => rfl,
    flag_selectedStates_iff PackageState.hand rfl (fun _ => rfl) fun _ => rfl]
  show _ ↔ id ∈ selection.eraseDups
  rw [List.mem_eraseDups]
  exact and_iff_left_of_imp (hselection id)

theorem dep_mark_iff {id : Nat} :
    ((g.mark states selection).2.getD id {}).dep = true ↔
      id ∈ (g.mark states selection).1.asDependency := by
  have hdropped : ((selectedStates states selection).getD id {}).dep = false := by
    rw [selectedStates,
      PackageState.flag_foldl_modify PackageState.dep (f := PackageState.markByHand) fun _ => rfl]
    exact PackageState.flag_map_eq_false PackageState.dep rfl fun _ => rfl
  rw [mark_eq_pull, asDependency_mark, flag_pull_iff PackageState.dep fun _ => rfl, hdropped,
    or_iff_right Bool.false_ne_true]

theorem marked_mark_iff (hselection : ∀ id ∈ selection, id < states.size) {id : Nat} :
    Marked (g.mark states selection).2 id ↔ id ∈ (g.mark states selection).1.all :=
  Marking.marked_iff_mem_all (hand_mark_iff hselection) dep_mark_iff

theorem nodup_all_mark (hselection : ∀ id ∈ selection, id < states.size) :
    (g.mark states selection).1.all.Nodup := by
  have hfresh := fresh_pull (g := g) (selectedStates states selection) selection.eraseDups
  rw [Marking.all, asDependency_mark, List.nodup_append]
  refine ⟨nodup_eraseDups selection, hfresh.nodup, ?_⟩
  rintro id hid _ hid' rfl
  have hmem := List.mem_eraseDups.1 hid
  exact hfresh.unmarked id hid' (marked_selectedStates.2 ⟨hmem, hselection id hmem⟩)

/-- A dependency does not stand among the selected packages, so all of these come before it. -/
theorem exists_edge_mark (hselection : ∀ id ∈ selection, id < states.size)
    {earlier later : List Nat} {id : Nat}
    (h : (g.mark states selection).1.all = earlier ++ id :: later)
    (hid : id ∈ (g.mark states selection).1.asDependency) :
    ∃ p ∈ earlier, ∃ e ∈ g.edges p, e.primary = id := by
  have hnodup := nodup_all_mark (g := g) hselection
  rw [Marking.all] at h hnodup
  rcases mem_or_of_append_eq h with hhand | ⟨between, rfl, hdeps⟩
  · exact absurd rfl ((List.nodup_append.1 hnodup).2.2 id hhand id hid)
  · exact chained_pull _ _ between id later hdeps

theorem sound_mark (hwithin : g.Within states.size)
    (hselection : ∀ id ∈ selection, id < states.size) :
    (g.mark states selection).1.Sound g selection states (g.mark states selection).2 where
  byHand := rfl
  nodup := nodup_all_mark hselection
  hand := fun _ => hand_mark_iff hselection
  dep := fun _ => dep_mark_iff
  closed := by
    intro p hp e he
    have hsettled := settled_mark ((marked_mark_iff hselection).2 hp)
    have hlt : e.primary < (g.mark states selection).2.size := by
      rw [size_mark]
      exact hwithin p e he e.primary List.mem_cons_self
    obtain ⟨t, ht, hmarked⟩ := hsettled e he hlt
    exact ⟨t, ht, (marked_mark_iff hselection).1 hmarked⟩
  needed := fun _ _ _ => exists_edge_mark hselection
  tainted := rfl
  findings := SameFindings.mark (.refl states) g selection

/-! ## Marking a closed list -/

/-- Selecting all of a list that is closed under the edges marks the list and nothing else. -/
theorem mark_of_closed {ids : List Nat} (hnodup : ids.Nodup) (hlt : ∀ id ∈ ids, id < states.size)
    (hclosed : ∀ p ∈ ids, ∀ e ∈ g.edges p, ∃ t ∈ e.targets, t ∈ ids) :
    (g.mark states ids).1.byHand = ids ∧ (g.mark states ids).1.asDependency = [] ∧
      ∀ id, Marked (g.mark states ids).2 id ↔ id ∈ ids := by
  have hpull : g.pull (selectedStates states ids) ids.eraseDups =
      (selectedStates states ids, []) := by
    apply pull_of_settled
    intro p hp e he _
    obtain ⟨t, ht, hmem⟩ := hclosed p (List.mem_eraseDups.1 hp) e he
    exact ⟨t, ht, marked_selectedStates.2 ⟨hmem, hlt t hmem⟩⟩
  refine ⟨eraseDups_of_nodup hnodup, ?_, ?_⟩
  · rw [asDependency_mark, hpull]
  · intro id
    rw [mark_eq_pull, hpull, marked_selectedStates]
    exact and_iff_left_of_imp (hlt id)

end Graph

end Depcheck

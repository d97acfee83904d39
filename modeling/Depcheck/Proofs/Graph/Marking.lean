import Mathlib.Tactic.ByContra
import Depcheck.Marking
import Depcheck.Proofs.Package.States

/-!
# Marking

The search for dependencies keeps one invariant: a marked package is settled, which is to say that
each of its edges has a marked target, or waits in the queue. Marks are never dropped on the way,
so a settled package stays settled, and when the queue is empty all marked packages are settled
(`settled_mark`).
-/

namespace Depcheck

/-- Is the package marked, by hand or as a dependency? -/
def Marked (states : Array PackageState) (id : Nat) : Prop :=
  (states.getD id {}).isMarked = true

theorem Marked.lt_size {states : Array PackageState} {id : Nat} (h : Marked states id) :
    id < states.size :=
  PackageState.lt_size_of_flag PackageState.isMarked rfl h

/-- Marking a package as a dependency leaves the marks of all others as they are. -/
theorem marked_set_markAsDependency {states : Array PackageState} {id other : Nat}
    (h : id < states.size) :
    Marked (states.set id states[id].markAsDependency) other ↔
      Marked states other ∨ other = id := by
  have hmarked : states[id].markAsDependency.isMarked = true := Bool.or_true _
  exact flag_getD_set_iff PackageState.isMarked h hmarked

namespace Graph

variable {g : Graph} {states : Array PackageState}

theorem anyMarked_iff {ids : List Nat} :
    anyMarked states ids = true ↔ ∃ id ∈ ids, Marked states id :=
  List.any_eq_true

/-! ## The edges of one package -/

@[simp] theorem size_pullEdges (states : Array PackageState) (row : List Edge) :
    (pullEdges states row).1.size = states.size := by
  induction row generalizing states with
  | nil => rfl
  | cons e rest ih =>
    rw [pullEdges]
    split
    · split
      · exact ih states
      · rw [ih, Array.size_set]
    · exact ih states

/-- A flag that marking as a dependency raises is up after the edges where it was up before, and for
the packages that are listed. -/
theorem flag_pullEdges_iff (flag : PackageState → Bool)
    (hdep : ∀ s : PackageState, flag s.markAsDependency = true) {row : List Edge} {id : Nat} :
    flag ((pullEdges states row).1.getD id {}) = true ↔
      flag (states.getD id {}) = true ∨ id ∈ (pullEdges states row).2 := by
  induction row generalizing states with
  | nil =>
    rw [pullEdges]
    constructor
    · exact .inl
    · rintro (h | h)
      · exact h
      · cases h
  | cons e rest ih =>
    rw [pullEdges]
    split
    · next h =>
      split
      · exact ih
      · rw [ih, flag_getD_set_iff flag h (hdep _), List.mem_cons, or_assoc]
    · exact ih

/-- What is marked after the edges was marked before or is listed. -/
theorem marked_pullEdges {row : List Edge} {id : Nat} :
    Marked (pullEdges states row).1 id ↔ Marked states id ∨ id ∈ (pullEdges states row).2 :=
  flag_pullEdges_iff PackageState.isMarked fun _ => Bool.or_true _

/-- Every edge that leads into the table has a marked target afterwards. -/
theorem exists_marked_pullEdges {row : List Edge} {e : Edge} (he : e ∈ row)
    (hlt : e.primary < states.size) : ∃ t ∈ e.targets, Marked (pullEdges states row).1 t := by
  induction row generalizing states with
  | nil => cases he
  | cons a rest ih =>
    rw [pullEdges]
    split
    · next h =>
      split
      · next hany =>
        rcases List.mem_cons.1 he with rfl | he
        · obtain ⟨t, ht, hmarked⟩ := anyMarked_iff.1 hany
          exact ⟨t, ht, marked_pullEdges.2 (.inl hmarked)⟩
        · exact ih he hlt
      · rcases List.mem_cons.1 he with rfl | he
        · refine ⟨e.primary, List.mem_cons_self, marked_pullEdges.2 (.inl ?_)⟩
          exact (marked_set_markAsDependency h).2 (.inr rfl)
        · exact ih he (by simpa using hlt)
    · next h =>
      rcases List.mem_cons.1 he with rfl | he
      · exact absurd hlt h
      · exact ih he hlt

/-! ## The search -/

/-- Does each edge of the package that leads into the table have a marked target? -/
def Settled (g : Graph) (states : Array PackageState) (id : Nat) : Prop :=
  ∀ e ∈ g.edges id, e.primary < states.size → ∃ t ∈ e.targets, Marked states t

/-- Further marks leave a settled package settled. -/
theorem Settled.mono {states' : Array PackageState} {id : Nat} (h : g.Settled states id)
    (hsize : states'.size = states.size) (hmono : ∀ t, Marked states t → Marked states' t) :
    g.Settled states' id := by
  intro e he hlt
  rw [hsize] at hlt
  obtain ⟨t, ht, hmarked⟩ := h e he hlt
  exact ⟨t, ht, hmono t hmarked⟩

/-- The marked packages are settled or wait in the queue. -/
def Searching (g : Graph) (states : Array PackageState) (queue : List Nat) : Prop :=
  ∀ id, Marked states id → g.Settled states id ∨ id ∈ queue

/-- The search ends with nothing that waits. -/
theorem searching_pull {queue : List Nat} (h : g.Searching states queue) :
    g.Searching (g.pull states queue).1 [] := by
  fun_induction pull g states queue with
  | case1 states => exact h
  | case2 states id rest next later ih =>
    apply ih
    intro other hother
    have hmono : ∀ t, Marked states t → Marked next.1 t := by
      intro t ht
      exact marked_pullEdges.2 (.inl ht)
    rcases marked_pullEdges.1 hother with hold | hnew
    · rcases h other hold with hsettled | hwait
      · exact .inl (hsettled.mono (size_pullEdges states _) hmono)
      · rcases List.mem_cons.1 hwait with rfl | hwait
        · left
          intro e he hlt
          exact exists_marked_pullEdges he (by simpa [next] using hlt)
        · exact .inr (List.mem_append_left _ hwait)
    · -- the package was marked just now, and waits at the end of the queue
      exact .inr (List.mem_append_right _ hnew)

@[simp] theorem size_pull (states : Array PackageState) (queue : List Nat) :
    (g.pull states queue).1.size = states.size := by
  fun_induction pull g states queue with
  | case1 states => rfl
  | case2 states id rest next later ih => rw [ih, size_pullEdges]

/-! ## Marking a selection -/

/-- The states in which the search for what a selection needs starts. -/
def selectedStates (states : Array PackageState) (selection : List Nat) : Array PackageState :=
  selection.eraseDups.foldl (fun states id => states.modify id .markByHand)
    (states.map PackageState.unmark)

theorem mark_eq_pull (selection : List Nat) :
    (g.mark states selection).2 = (g.pull (selectedStates states selection) selection.eraseDups).1 :=
  rfl

@[simp] theorem size_selectedStates (selection : List Nat) :
    (selectedStates states selection).size = states.size := by
  rw [selectedStates, PackageState.size_foldl_modify, Array.size_map]

@[simp] theorem size_mark (selection : List Nat) :
    (g.mark states selection).2.size = states.size := by
  rw [mark_eq_pull, size_pull, size_selectedStates]

/-- Selecting drops the marks of all packages and marks those of the table that are selected. -/
theorem flag_selectedStates_iff (flag : PackageState → Bool) (hfresh : flag {} = false)
    (hunmark : ∀ s : PackageState, flag s.unmark = false)
    (hhand : ∀ s : PackageState, flag s.markByHand = true)
    {selection : List Nat} {id : Nat} :
    flag ((selectedStates states selection).getD id {}) = true ↔
      id ∈ selection ∧ id < states.size := by
  have hdropped : flag ((states.map PackageState.unmark).getD id {}) = false :=
    PackageState.flag_map_eq_false flag hfresh hunmark
  rw [selectedStates, PackageState.flag_foldl_modify_iff flag hfresh hhand, hdropped,
    List.mem_eraseDups, Array.size_map, or_iff_right Bool.false_ne_true]

theorem marked_selectedStates {selection : List Nat} {id : Nat} :
    Marked (selectedStates states selection) id ↔ id ∈ selection ∧ id < states.size :=
  flag_selectedStates_iff PackageState.isMarked rfl (fun _ => rfl) fun _ => rfl

/-- Every marked package has a marked target on each of its edges. -/
theorem settled_mark {selection : List Nat} {id : Nat}
    (h : Marked (g.mark states selection).2 id) : g.Settled (g.mark states selection).2 id := by
  have hstart : g.Searching (selectedStates states selection) selection.eraseDups := by
    intro other hother
    exact .inr (List.mem_eraseDups.2 (marked_selectedStates.1 hother).1)
  rcases searching_pull hstart id h with hsettled | hwait
  · exact hsettled
  · cases hwait

/-- A row of edges calls for nothing when each of them has a marked target. -/
theorem pullEdges_of_settled {row : List Edge}
    (h : ∀ e ∈ row, e.primary < states.size → ∃ t ∈ e.targets, Marked states t) :
    pullEdges states row = (states, []) := by
  induction row with
  | nil => rfl
  | cons e rest ih =>
    have hrest := ih fun a ha => h a (List.mem_cons_of_mem e ha)
    rw [pullEdges]
    split
    · next hlt => rw [if_pos (anyMarked_iff.2 (h e List.mem_cons_self hlt)), hrest]
    · exact hrest

/-- A search among settled packages finds nothing. -/
theorem pull_of_settled {queue : List Nat} (h : ∀ id ∈ queue, g.Settled states id) :
    g.pull states queue = (states, []) := by
  induction queue with
  | nil => rw [pull]
  | cons id rest ih =>
    have hnext : pullEdges states (g.edges id) = (states, []) :=
      pullEdges_of_settled (h id List.mem_cons_self)
    rw [pull]
    simp only [hnext, List.append_nil, List.nil_append]
    exact ih fun other hother => h other (List.mem_cons_of_mem id hother)

/-! ## Flags that are no marks -/

section OtherFlags

variable (flag : PackageState → Bool) (hdep : ∀ s, flag s.markAsDependency = flag s) {id : Nat}

include hdep

theorem flag_pullEdges (row : List Edge) :
    flag ((pullEdges states row).1.getD id {}) = flag (states.getD id {}) := by
  induction row generalizing states with
  | nil => rfl
  | cons e rest ih =>
    rw [pullEdges]
    split
    · next h =>
      split
      · exact ih
      · rw [ih]
        exact PackageState.flag_set flag h (hdep _)
    · exact ih

theorem flag_pull (queue : List Nat) :
    flag ((g.pull states queue).1.getD id {}) = flag (states.getD id {}) := by
  fun_induction pull g states queue with
  | case1 states => rfl
  | case2 states id rest next later ih => rw [ih, flag_pullEdges flag hdep]

/-- Marking leaves a flag alone that is no mark. -/
theorem flag_mark (hhand : ∀ s, flag s.markByHand = flag s) (hunmark : ∀ s, flag s.unmark = flag s)
    (selection : List Nat) :
    flag ((g.mark states selection).2.getD id {}) = flag (states.getD id {}) := by
  rw [mark_eq_pull, flag_pull flag hdep, selectedStates, PackageState.flag_foldl_modify flag hhand,
    PackageState.flag_map flag hunmark]

end OtherFlags

/-! ## What a marked package brings along -/

/-- A package from which every way to settle edges leads to one of the given packages: it is one of
them, or has an edge with nothing but such packages as targets. -/
inductive Forced (g : Graph) (goal : List Nat) : Nat → Prop
  | goal {id : Nat} (h : id ∈ goal) : Forced g goal id
  | edge {id : Nat} {e : Edge} (he : e ∈ g.edges id) (h : ∀ t ∈ e.targets, Forced g goal t) :
      Forced g goal id

/-- Do all edges lead into a table of the given size? -/
def Within (g : Graph) (n : Nat) : Prop := ∀ id, ∀ e ∈ g.edges id, ∀ t ∈ e.targets, t < n

theorem exists_marked_of_forced (hwithin : g.Within states.size) {goal : List Nat} {id : Nat}
    (hforced : g.Forced goal id) (hsettled : ∀ id, Marked states id → g.Settled states id)
    (h : Marked states id) : ∃ q ∈ goal, Marked states q := by
  -- induction on why `id` is forced: a settled package has a marked target on the edge that forces it
  induction hforced with
  | goal hgoal => exact ⟨_, hgoal, h⟩
  | @edge id e he _ ih =>
    obtain ⟨t, ht, hmarked⟩ := hsettled id h e he (hwithin id e he _ List.mem_cons_self)
    exact ih t ht hmarked

open Classical in
/-- Marking `id` marks one of the given packages, whatever else is selected, exactly when `id` is
forced to lead to them. -/
theorem forall_mark_iff_forced (hwithin : g.Within states.size) {goal : List Nat} {id : Nat}
    (hid : id < states.size) :
    (∀ selection, (∀ i ∈ selection, i < states.size) →
        Marked (g.mark states selection).2 id →
          ∃ q ∈ goal, Marked (g.mark states selection).2 q) ↔
      g.Forced goal id := by
  constructor
  · intro h
    by_contra hfree
    -- all packages that are not forced: nothing is missing among them, and none is in `goal`
    let free := (List.range states.size).filter fun i => ¬g.Forced goal i
    have hmem : ∀ i, i ∈ free ↔ i < states.size ∧ ¬g.Forced goal i := by
      intro i
      simp [free]
    have hmark : (g.mark states free).2 = selectedStates states free := by
      rw [mark_eq_pull, pull_of_settled]
      intro i hi e he _
      by_contra hnone
      refine ((hmem i).1 (List.mem_eraseDups.1 hi)).2 (.edge he ?_)
      intro t ht
      by_contra htfree
      have hlt := hwithin i e he t ht
      exact hnone ⟨t, ht, marked_selectedStates.2 ⟨(hmem t).2 ⟨hlt, htfree⟩, hlt⟩⟩
    obtain ⟨q, hq, hmarked⟩ := h free (fun i hi => ((hmem i).1 hi).1) (by
      rw [hmark]
      exact marked_selectedStates.2 ⟨(hmem id).2 ⟨hid, hfree⟩, hid⟩)
    rw [hmark] at hmarked
    exact ((hmem q).1 (marked_selectedStates.1 hmarked).1).2 (.goal hq)
  · intro hforced selection _ hmarked
    refine exists_marked_of_forced ?_ hforced (fun other => settled_mark) hmarked
    rw [size_mark]
    exact hwithin

end Graph

theorem SameFindings.mark {xs ys : Array PackageState} (h : SameFindings xs ys) (g : Graph)
    (selection : List Nat) : SameFindings (g.mark xs selection).2 ys where
  size := by rw [Graph.size_mark, h.size]
  unmet := by
    intro id
    rw [Graph.flag_mark PackageState.unmet (fun _ => rfl) (fun _ => rfl) (fun _ => rfl), h.unmet]
  obsoleted := by
    intro id
    rw [Graph.flag_mark PackageState.obsoleted (fun _ => rfl) (fun _ => rfl) (fun _ => rfl),
      h.obsoleted]

end Depcheck

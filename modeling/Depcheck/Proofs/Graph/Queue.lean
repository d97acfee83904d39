import Depcheck.Proofs.Checked
import Depcheck.Proofs.Graph.Marking

/-!
# Marking through a queue

`selectAll?` marks a selection the way a caller sees it happen: it goes through the selection and passes
over what is marked by hand already, then takes the marked packages from a queue, notes each that cannot
be installed, and marks what its edges call for. It stops at an id without an entry. From a table
without marks it ends with the marks and the lists of `mark` (`selectAll?_eq`).
-/

namespace Depcheck

namespace Graph

variable {g : Graph} {states : Array PackageState}

/-- A marking that is under way: what is marked so far, and the packages whose edges wait. -/
structure Selecting where
  states : Array PackageState
  marking : Marking := {}
  queue : List Nat := []

namespace Selecting

variable {m m' : Selecting} {row : List Edge}

/-- Marks a package of the selection, unless that has happened before. -/
def select? (m : Selecting) (id : Nat) : Option Selecting :=
  if h : id < m.states.size then
    if m.states[id].hand then some m
    else some
      { states := m.states.set id m.states[id].markByHand
        marking := { m.marking with byHand := m.marking.byHand ++ [id] }
        queue := m.queue ++ [id] }
  else none

/-- Marks the primary of an edge, unless one of its targets is marked. -/
def follow? (m : Selecting) (e : Edge) : Option Selecting := do
  if ← e.targets.anyM fun t => (m.states[t]?).map PackageState.isMarked then some m
  else if h : e.primary < m.states.size then
    some
      { states := m.states.set e.primary m.states[e.primary].markAsDependency
        marking := { m.marking with asDependency := m.marking.asDependency ++ [e.primary] }
        queue := m.queue ++ [e.primary] }
  else none

/-- Notes that a marked package cannot be installed, if so. -/
def note (m : Selecting) (id : Nat) (s : PackageState) : Selecting :=
  if s.unmet then { m with marking := { m.marking with tainted := m.marking.tainted ++ [id] } } else m

/-- Looks at a package that comes from the queue, and follows its edges. -/
def visit? (g : Graph) (m : Selecting) (id : Nat) : Option Selecting :=
  if h : id < m.states.size ∧ id < g.size then
    (g.edges id).foldlM follow? (m.note id m.states[id])
  else none

/-- What waits in the queue, with every unmarked package counted twice. -/
def weight (m : Selecting) : Nat := 2 * m.states.countP (!·.isMarked) + m.queue.length

theorem not_marked_of_anyM {e : Edge} (h : e.primary < states.size)
    (hany : e.targets.anyM (fun t => (states[t]?).map PackageState.isMarked) = some false) :
    states[e.primary].isMarked = false := by
  rw [Edge.targets, List.anyM_cons, Array.getElem?_eq_getElem h] at hany
  cases hmarked : states[e.primary].isMarked with
  | false => rfl
  | true =>
    rw [Option.map_some, hmarked] at hany
    cases hany

theorem weight_follow? {e : Edge} (h : m.follow? e = some m') : m'.weight ≤ m.weight := by
  obtain ⟨marked, hany, h⟩ := Option.bind_eq_some_iff.1 h
  cases marked with
  | true =>
    cases h
    exact Nat.le_refl _
  | false =>
    rw [if_neg Bool.false_ne_true] at h
    split at h
    · next hlt =>
      cases h
      have hfewer := countP_set_lt (p := fun s : PackageState => !s.isMarked)
        (a := m.states[e.primary].markAsDependency) hlt
        (by simp [not_marked_of_anyM hlt hany])
        (by simp [PackageState.isMarked, PackageState.markAsDependency])
      simp only [weight, List.length_append, List.length_singleton]
      omega
    · cases h

theorem weight_foldlM (h : row.foldlM follow? m = some m') : m'.weight ≤ m.weight := by
  induction row generalizing m with
  | nil =>
    cases h
    exact Nat.le_refl _
  | cons e rest ih =>
    rw [List.foldlM_cons] at h
    obtain ⟨mid, hmid, hrest⟩ := Option.bind_eq_some_iff.1 h
    exact (ih hrest).trans (weight_follow? hmid)

theorem weight_visit? {id : Nat} (h : visit? g m id = some m') : m'.weight ≤ m.weight := by
  unfold visit? at h
  split at h
  · next hid =>
    refine (weight_foldlM h).trans (Nat.le_of_eq ?_)
    unfold note
    split <;> rfl
  · cases h

end Selecting

/-- Takes the marked packages from the queue, one after the other. -/
def drain? (g : Graph) (m : Selecting) : Option Selecting :=
  match _hq : m.queue with
  | [] => some m
  | id :: rest =>
    match _hnext : Selecting.visit? g { m with queue := rest } id with
    | none => none
    | some m' => g.drain? m'
termination_by m.weight
decreasing_by
  have := Selecting.weight_visit? _hnext
  simp only [Selecting.weight, _hq, List.length_cons] at this ⊢
  omega

/-- Marks a selection with what it needs, in a table without marks. -/
def selectAll? (g : Graph) (states : Array PackageState) (selection : List Nat) :
    Option (Marking × Array PackageState) := do
  let start ← selection.foldlM Selecting.select? { states }
  let final ← g.drain? start
  return (final.marking, final.states)

/-! ## The selection -/

/-- The test of the hand mark drops what stands in the selection before. -/
theorem foldlM_select?_eq {selection : List Nat} (hfresh : ∀ id, (states.getD id {}).hand = false)
    (hselection : ∀ id ∈ selection, id < states.size) :
    selection.foldlM Selecting.select? { states } =
      some
        { states := selection.eraseDups.foldl (fun states id => states.modify id .markByHand) states
          marking := { byHand := selection.eraseDups }
          queue := selection.eraseDups } := by
  induction selection using List.reverseRecOn with
  | nil => rfl
  | append_singleton front id ih =>
    have hid : id < states.size := hselection id (List.mem_append_right _ List.mem_cons_self)
    rw [List.foldlM_append, ih fun i hi => hselection i (List.mem_append_left _ hi)]
    let now := front.eraseDups.foldl (fun states id => states.modify id .markByHand) states
    have hsize : now.size = states.size := PackageState.size_foldl_modify _
    have hlt : id < now.size := hsize.symm ▸ hid
    have hhand : now[id].hand = true ↔ id ∈ front := by
      rw [← getD_of_lt hlt {}]
      show ((front.eraseDups.foldl _ states).getD id {}).hand = true ↔ _
      rw [PackageState.flag_foldl_modify_iff PackageState.hand rfl fun _ => rfl, hfresh,
        List.mem_eraseDups]
      simp [hid]
    show (Selecting.select? ⟨now, _, _⟩ id).bind _ = _
    rw [Selecting.select?, dif_pos hlt, eraseDups_concat]
    by_cases hmem : id ∈ front
    · rw [if_pos (hhand.2 hmem), if_pos hmem]
      rfl
    · rw [if_neg fun h => hmem (hhand.1 h), if_neg hmem, List.foldl_append]
      dsimp only
      rw [← modify_eq_set hlt]
      rfl

/-! ## The queue -/

theorem anyM_eq {ids : List Nat} (h : ∀ t ∈ ids, t < states.size) :
    ids.anyM (fun t => (states[t]?).map PackageState.isMarked) = some (anyMarked states ids) := by
  induction ids with
  | nil => rfl
  | cons t rest ih =>
    have ht : t < states.size := h t List.mem_cons_self
    rw [List.anyM_cons, Array.getElem?_eq_getElem ht, anyMarked, List.any_cons, getD_of_lt ht,
      ← anyMarked]
    cases hmarked : states[t].isMarked with
    | true => simp [hmarked]
    | false => simp [hmarked, ih fun i hi => h i (List.mem_cons_of_mem t hi)]

/-- Following the edges of a row marks and lists what the row calls for. -/
theorem foldlM_follow?_eq {row : List Edge} {marking : Marking} {queue : List Nat}
    (hrow : ∀ e ∈ row, ∀ t ∈ e.targets, t < states.size) :
    row.foldlM Selecting.follow? ⟨states, marking, queue⟩ =
      some ⟨(pullEdges states row).1,
        { marking with asDependency := marking.asDependency ++ (pullEdges states row).2 },
        queue ++ (pullEdges states row).2⟩ := by
  induction row generalizing states marking queue with
  | nil => simp [pullEdges]
  | cons e rest ih =>
    have htargets : ∀ t ∈ e.targets, t < states.size := hrow e List.mem_cons_self
    have hprimary : e.primary < states.size := htargets e.primary List.mem_cons_self
    have hrest : ∀ a ∈ rest, ∀ t ∈ a.targets, t < states.size :=
      fun a ha => hrow a (List.mem_cons_of_mem e ha)
    have hfollow : Selecting.follow? ⟨states, marking, queue⟩ e =
        if anyMarked states e.targets then some ⟨states, marking, queue⟩
        else some ⟨states.set e.primary states[e.primary].markAsDependency,
          { marking with asDependency := marking.asDependency ++ [e.primary] },
          queue ++ [e.primary]⟩ := by
      rw [Selecting.follow?, anyM_eq htargets, Option.bind_eq_bind, Option.bind_some,
        dif_pos hprimary]
    rw [List.foldlM_cons, hfollow, pullEdges, dif_pos hprimary]
    by_cases hany : anyMarked states e.targets = true
    · rw [if_pos hany, if_pos hany]
      exact ih hrest
    · rw [if_neg hany, if_neg hany, Option.bind_eq_bind, Option.bind_some, ih]
      · simp
      · simpa using hrest

theorem drain?_cons (id : Nat) (rest : List Nat) (marking : Marking) :
    g.drain? ⟨states, marking, id :: rest⟩ =
      (Selecting.visit? g ⟨states, marking, rest⟩ id).bind g.drain? := by
  rw [drain?]
  split
  · next hnil => cases hnil
  · next heq =>
    cases heq
    split
    · next hnone => rw [hnone, Option.bind_none]
    · next hnext => rw [hnext, Option.bind_some]

/-- Draining the queue marks what `pull` marks, and lists the visited packages that cannot be
installed: those of the queue first, then what was found. -/
theorem drain?_eq {queue : List Nat} (hsize : states.size = g.size) (hwithin : g.Within g.size)
    (hqueue : ∀ id ∈ queue, id < g.size) (marking : Marking) :
    g.drain? ⟨states, marking, queue⟩ =
      some ⟨(g.pull states queue).1,
        { marking with
          asDependency := marking.asDependency ++ (g.pull states queue).2
          tainted := marking.tainted ++
            (queue ++ (g.pull states queue).2).filter fun id => (states.getD id {}).unmet },
        []⟩ := by
  revert marking
  fun_induction pull g states queue with
  | case1 states =>
    intro marking
    rw [drain?]
    simp
  | case2 states id rest next later ih =>
    intro marking
    have hid : id < g.size := hqueue id List.mem_cons_self
    have hlt : id < states.size := hsize.symm ▸ hid
    have hvisit : Selecting.visit? g ⟨states, marking, rest⟩ id =
        some ⟨next.1,
          { marking with
            asDependency := marking.asDependency ++ next.2
            tainted := marking.tainted ++ [id].filter fun id => (states.getD id {}).unmet },
          rest ++ next.2⟩ := by
      have hnote : Selecting.note ⟨states, marking, rest⟩ id states[id] =
          ⟨states, { marking with
            tainted := marking.tainted ++ [id].filter fun id => (states.getD id {}).unmet }, rest⟩ := by
        rw [Selecting.note, List.filter_cons, List.filter_nil, getD_of_lt hlt]
        by_cases hunmet : states[id].unmet = true
        · rw [if_pos hunmet, if_pos hunmet]
        · rw [if_neg hunmet, if_neg hunmet, List.append_nil]
      rw [Selecting.visit?, dif_pos ⟨hlt, hid⟩, hnote, foldlM_follow?_eq]
      exact fun e he t ht => hsize.symm ▸ hwithin id e he t ht
    -- marks on the way leave the flag alone that the visits look at
    have hflags : ∀ i, (next.1.getD i {}).unmet = (states.getD i {}).unmet := fun i =>
      flag_pullEdges PackageState.unmet (fun _ => rfl) _
    rw [drain?_cons, hvisit, Option.bind_some, ih]
    · simp only [hflags]
      rw [List.append_assoc marking.asDependency, List.append_assoc marking.tainted,
        ← List.filter_append, List.append_assoc rest]
      rfl
    · rw [size_pullEdges, hsize]
    · intro p hp
      rcases List.mem_append.1 hp with hp | hp
      · exact hqueue p (List.mem_cons_of_mem id hp)
      · rw [← hsize, ← size_pullEdges states (g.edges id)]
        exact (marked_pullEdges.2 (.inr hp)).lt_size

/-- The loops mark what `mark` marks, and list it alike. -/
theorem selectAll?_eq {selection : List Nat} (hsize : states.size = g.size)
    (hwithin : g.Within g.size) (hselection : ∀ id ∈ selection, id < g.size) :
    g.selectAll? (states.map PackageState.unmark) selection = some (g.mark states selection) := by
  have hfresh : ∀ id, ((states.map PackageState.unmark).getD id {}).hand = false := fun id =>
    PackageState.flag_map_eq_false PackageState.hand rfl fun _ => rfl
  have hids : ∀ id ∈ selection, id < (states.map PackageState.unmark).size := by
    simpa [hsize] using hselection
  have hstart := foldlM_select?_eq hfresh hids
  rw [← selectedStates] at hstart
  have hdrain := @drain?_eq g (selectedStates states selection) selection.eraseDups
    (by rw [size_selectedStates, hsize]) hwithin
    (fun id hid => hselection id (List.mem_eraseDups.1 hid)) { byHand := selection.eraseDups }
  have hflags : ∀ i, ((g.pull (selectedStates states selection) selection.eraseDups).1.getD i {}).unmet =
      ((selectedStates states selection).getD i {}).unmet := fun i =>
    flag_pull PackageState.unmet (fun _ => rfl) _
  rw [selectAll?, hstart, Option.bind_eq_bind, Option.bind_some, hdrain, mark, ← selectedStates]
  simp only [hflags, List.nil_append]
  rfl

end Graph

end Depcheck

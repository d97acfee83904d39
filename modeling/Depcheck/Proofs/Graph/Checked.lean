import Depcheck.Proofs.Checked
import Depcheck.Proofs.Graph.Plans
import Depcheck.Verification.Conflict

/-!
# Walks that stop at a foreign id

The searches over the graph skip an id that has no entry in their table. Their twins with a question
mark stop at it, and so does an edge that would be added to a package outside the graph. Where the edges
lead to packages of the graph only, no twin stops, and each finds what the plain search finds.
-/

namespace Depcheck

namespace Graph

variable {g : Graph}

/-! ## Adding edges -/

/-- Adds matches. There must be some, and they and their owner must be in the graph. -/
def addMatches? (g : Graph) (owner requirement : Nat) (flags : EdgeFlags) (ids : List Nat) :
    Option Graph :=
  check (owner < g.size ∧ ids ≠ [] ∧ ∀ id ∈ ids, id < g.size)
    (g.addMatches owner requirement flags ids)

/-- Adds a hit between two packages of the graph. -/
def addHit? (g : Graph) (h : ConflictHit) : Option Graph :=
  check (h.owner < g.size ∧ h.target < g.size) (g.addHit h)

end Graph

/-! ## Orders -/

namespace Search

variable {next : Nat → List Nat} {s : Search}

def run? (next : Nat → List Nat) (s : Search) (stack : List Frame) : Option Search :=
  match stack with
  | [] => some s
  | ⟨id, []⟩ :: rest => if id < s.progress.size then run? next (s.emit id) rest else none
  | ⟨id, target :: targets⟩ :: rest =>
    if id < s.progress.size then
      if h : target < s.progress.size then
        match hp : s.progress[target] with
        | .fresh =>
          run? next (s.enter target h) (⟨target, next target⟩ :: ⟨id, targets⟩ :: rest)
        | .entered =>
          run? next (s.addLoop target id (⟨id, targets⟩ :: rest)) (⟨id, targets⟩ :: rest)
        | .done => run? next s (⟨id, targets⟩ :: rest)
      else none
    else none
termination_by (s.progress.countP (· == .fresh), weight stack)
decreasing_by
  · rcases Nat.lt_or_eq_of_le (countP_fresh_emit_le s id) with hlt | heq
    · exact .left _ _ hlt
    · rw [heq]; exact .right _ (by simp [weight])
  · exact .left _ _ (countP_fresh_enter s target h hp)
  · exact .right _ (by simp [weight])
  · exact .right _ (by simp [weight])

def visit? (next : Nat → List Nat) (s : Search) (id : Nat) : Option Search :=
  if h : id < s.progress.size then
    if s.progress[id] = .fresh then run? next (s.enter id h) [⟨id, next id⟩] else some s
  else none

def all? (next : Nat → List Nat) (n : Nat) : Option Search :=
  (List.range n).foldlM (visit? next) { progress := Array.replicate n .fresh }

/-- The packages on a stack, and those that they still lead to, have an entry. -/
def StackWithin (n : Nat) (stack : List Frame) : Prop :=
  ∀ f ∈ stack, f.id < n ∧ ∀ t ∈ f.targets, t < n

variable {n : Nat} {id target : Nat} {targets : List Nat} {stack rest : List Frame}

theorem StackWithin.advance (h : StackWithin n (⟨id, target :: targets⟩ :: rest)) :
    StackWithin n (⟨id, targets⟩ :: rest) := by
  intro f hf
  rcases List.mem_cons.1 hf with rfl | hf
  · obtain ⟨hid, htargets⟩ := h _ List.mem_cons_self
    exact ⟨hid, fun t ht => htargets t (List.mem_cons_of_mem target ht)⟩
  · exact h f (List.mem_cons_of_mem _ hf)

theorem StackWithin.enter (hnext : ∀ p, ∀ t ∈ next p, t < n) (hid : id < n)
    (h : StackWithin n stack) : StackWithin n (⟨id, next id⟩ :: stack) := by
  intro f hf
  rcases List.mem_cons.1 hf with rfl | hf
  · exact ⟨hid, hnext id⟩
  · exact h f hf

theorem run?_eq (hsize : s.progress.size = n) (hnext : ∀ p, ∀ t ∈ next p, t < n)
    (hstack : StackWithin n stack) : run? next s stack = some (run next s stack) := by
  fun_induction run next s stack with
  | case1 s => rw [run?]
  | case2 s id rest ih =>
    rw [run?, if_pos (hsize ▸ (hstack _ List.mem_cons_self).1)]
    apply ih
    · rw [emit, Array.size_setIfInBounds, hsize]
    · exact fun f hf => hstack f (List.mem_cons_of_mem _ hf)
  | case3 s id target targets rest ht hfresh ih =>
    rw [run?, if_pos (hsize ▸ (hstack _ List.mem_cons_self).1), dif_pos ht]
    split
    · apply ih
      · rw [Search.enter, Array.size_set, hsize]
      · exact hstack.advance.enter hnext (hsize ▸ ht)
    · next h => rw [hfresh] at h; cases h
    · next h => rw [hfresh] at h; cases h
  | case4 s id target targets rest ht hentered ih =>
    rw [run?, if_pos (hsize ▸ (hstack _ List.mem_cons_self).1), dif_pos ht]
    split
    · next h => rw [hentered] at h; cases h
    · exact ih hsize hstack.advance
    · next h => rw [hentered] at h; cases h
  | case5 s id target targets rest ht hdone ih =>
    rw [run?, if_pos (hsize ▸ (hstack _ List.mem_cons_self).1), dif_pos ht]
    split
    · next h => rw [hdone] at h; cases h
    · next h => rw [hdone] at h; cases h
    · exact ih hsize hstack.advance
  | case6 s id target targets rest ht ih =>
    -- the packages on the stack lead to packages with an entry only
    have hlt : target < n := (hstack _ List.mem_cons_self).2 target List.mem_cons_self
    exact absurd (hsize.symm ▸ hlt) ht

theorem visit?_eq (hnext : Proper next n) (h : s.Invariant next n []) (hid : id < n) :
    visit? next s id = some (visit next s id) := by
  have hlt : id < s.progress.size := h.coloured.size.symm ▸ hid
  have htargets : ∀ p, ∀ t ∈ next p, t < n := fun p t ht => (hnext.lt p t ht).2
  rw [visit?, visit, dif_pos hlt, dif_pos hlt]
  split
  · refine run?_eq ?_ htargets (StackWithin.enter htargets hid ?_)
    · rw [Search.enter, Array.size_set, h.coloured.size]
    · intro f hf
      cases hf
  · rfl

theorem all?_eq (hnext : Proper next n) : all? next n = some (all next n) := by
  refine foldlM_eq_some (fun s => s.Invariant next n []) (.init next n) ?_
  intro s h id hid
  exact ⟨visit?_eq hnext h (List.mem_range.1 hid), invariant_visit hnext h id⟩

end Search

namespace Graph

variable {g : Graph}

def planBy? (g : Graph) (select : Edge → Bool) : Option Plan :=
  (Search.all? (g.selected select) g.size).map fun s => ⟨s.emitted.reverse, s.loops.reverse⟩

def installPlan? (g : Graph) : Option Plan := g.planBy? (·.flags.prereq)

def removalPlan? (g : Graph) : Option Plan :=
  (g.planBy? (·.flags.prereqUn)).map fun plan => { plan with order := plan.order.reverse }

theorem planBy?_eq (h : g.Tidy) (select : Edge → Bool) :
    g.planBy? select = some (g.planBy select) := by
  rw [planBy?, Search.all?_eq (h.proper_selected select)]
  rfl

theorem installPlan?_eq (h : g.Tidy) : g.installPlan? = some g.installPlan := planBy?_eq h _

theorem removalPlan?_eq (h : g.Tidy) : g.removalPlan? = some g.removalPlan := by
  rw [removalPlan?, planBy?_eq h]
  rfl

/-! ## What breaks when a package is removed -/

def findDependents? (g : Graph) (found : Array Bool) (queue : List Nat) : Option (Array Bool) :=
  match queue with
  | [] => some found
  | id :: rest =>
    if h : id < found.size then
      if hf : found[id] then g.findDependents? found rest
      else if id < g.size then g.findDependents? (found.set id true) (rest ++ g.dependents id)
      else none
    else none
termination_by (found.countP (!·), queue.length)
decreasing_by
  · exact .right _ (by simp)
  · exact .left _ _ (countP_set_lt h (by simpa using hf) rfl)

theorem findDependents?_eq {found : Array Bool} {queue : List Nat} (hsize : found.size = g.size)
    (hdependents : ∀ id, ∀ p ∈ g.dependents id, p < g.size) (hqueue : ∀ id ∈ queue, id < g.size) :
    g.findDependents? found queue = some (g.findDependents found queue) := by
  fun_induction findDependents g found queue with
  | case1 found => rw [findDependents?]
  | case2 found id rest h hf ih =>
    rw [findDependents?, dif_pos h, dif_pos hf]
    exact ih hsize fun p hp => hqueue p (List.mem_cons_of_mem id hp)
  | case3 found id rest h hf ih =>
    rw [findDependents?, dif_pos h, dif_neg hf, if_pos (hqueue id List.mem_cons_self)]
    apply ih
    · rw [Array.size_set, hsize]
    · intro p hp
      rcases List.mem_append.1 hp with hp | hp
      · exact hqueue p (List.mem_cons_of_mem id hp)
      · exact hdependents id p hp
  | case4 found id rest h ih =>
    exact absurd (hsize ▸ hqueue id List.mem_cons_self) h

def dependentsClosure? (g : Graph) (id : Nat) : Option (List Nat) :=
  if id < g.size then
    (g.findDependents? (Array.replicate g.size false) (g.dependents id)).map fun found =>
      (List.range g.size).filter fun i => found.getD i false
  else none

theorem dependentsClosure?_eq {id : Nat} (hdependents : ∀ id, ∀ p ∈ g.dependents id, p < g.size)
    (hid : id < g.size) : g.dependentsClosure? id = some (g.dependentsClosure id) := by
  rw [dependentsClosure?, if_pos hid,
    findDependents?_eq Array.size_replicate hdependents (hdependents id)]
  rfl

end Graph

end Depcheck

import Depcheck.Graph.Closure

/-!
# Install and removal orders

A depth-first search over selected edges, each taken to its primary, emits a package once all that
it selects has been emitted. A package is fresh until the search enters it, open while it is on the
search's stack and done once it is emitted. An edge to an open package closes a loop: the loop is
recorded, the edge is skipped, and the search goes on, so every package is emitted exactly once.
The install order follows the edges of prerequisites; the removal order follows those of removal
prerequisites and is read backwards.
-/

namespace Depcheck

inductive Progress where
  | fresh
  | entered
  | done
deriving Repr, DecidableEq, Inhabited

/-- A cycle of selected edges, its first package repeated at the end. -/
structure Loop where
  cycle : List Nat
  /-- The package whose edge closed the cycle and was skipped. -/
  broken : Nat
deriving Repr, DecidableEq

/-- All packages in order, and the loops that had to be broken. -/
structure Plan where
  order : List Nat := []
  loops : List Loop := []
deriving Repr, DecidableEq, Inhabited

/-- A package on the search's stack, with the targets that it has not looked at yet. -/
structure Frame where
  id : Nat
  targets : List Nat
deriving Repr, DecidableEq

structure Search where
  progress : Array Progress
  /-- The emitted packages, the last one first. -/
  emitted : List Nat := []
  /-- The loops, the last one first. -/
  loops : List Loop := []
deriving Repr, DecidableEq

namespace Search

/-- The cycle from `target`, which is on the stack, to the top of the stack and back. -/
def cycleTo (target : Nat) (stack : List Frame) : List Nat :=
  target :: ((stack.map Frame.id).takeWhile (· != target)).reverse ++ [target]

/-- The number of steps that a stack can take before another package is entered. -/
def weight : List Frame → Nat
  | [] => 0
  | f :: rest => f.targets.length + 1 + weight rest

def enter (s : Search) (id : Nat) (h : id < s.progress.size) : Search :=
  { s with progress := s.progress.set id .entered h }

def emit (s : Search) (id : Nat) : Search :=
  { s with progress := s.progress.setIfInBounds id .done, emitted := id :: s.emitted }

/-- Records the loop that an edge from the top of the stack to `target` closes. -/
def addLoop (s : Search) (target id : Nat) (stack : List Frame) : Search :=
  { s with loops := ⟨cycleTo target stack, id⟩ :: s.loops }

theorem countP_fresh_enter (s : Search) (id : Nat) (h : id < s.progress.size)
    (hf : s.progress[id] = .fresh) :
    (s.enter id h).progress.countP (· == .fresh) < s.progress.countP (· == .fresh) :=
  countP_set_lt h (by simp [hf]) rfl

theorem countP_fresh_emit_le (s : Search) (id : Nat) :
    (s.emit id).progress.countP (· == .fresh) ≤ s.progress.countP (· == .fresh) := by
  simp only [emit, Array.setIfInBounds]
  split
  · next h =>
    rw [Array.countP_set]
    simp
  · exact Nat.le_refl _

/-- Works the stack off; `next` lists the targets of a package. -/
def run (next : Nat → List Nat) (s : Search) (stack : List Frame) : Search :=
  match stack with
  | [] => s
  | ⟨id, []⟩ :: rest => run next (s.emit id) rest
  | ⟨id, target :: targets⟩ :: rest =>
    if h : target < s.progress.size then
      match hp : s.progress[target] with
      | .fresh =>
        run next (s.enter target h) (⟨target, next target⟩ :: ⟨id, targets⟩ :: rest)
      | .entered =>
        run next (s.addLoop target id (⟨id, targets⟩ :: rest)) (⟨id, targets⟩ :: rest)
      | .done => run next s (⟨id, targets⟩ :: rest)
    else run next s (⟨id, targets⟩ :: rest)
termination_by (s.progress.countP (· == .fresh), weight stack)
decreasing_by
  · rcases Nat.lt_or_eq_of_le (countP_fresh_emit_le s id) with hlt | heq
    · exact .left _ _ hlt
    · rw [heq]; exact .right _ (by simp [weight])
  · exact .left _ _ (countP_fresh_enter s target h hp)
  · exact .right _ (by simp [weight])
  · exact .right _ (by simp [weight])
  · exact .right _ (by simp [weight])

def visit (next : Nat → List Nat) (s : Search) (id : Nat) : Search :=
  if h : id < s.progress.size then
    if s.progress[id] = .fresh then run next (s.enter id h) [⟨id, next id⟩] else s
  else s

/-- The whole search over `n` packages, started at each of them in turn. -/
def all (next : Nat → List Nat) (n : Nat) : Search :=
  (List.range n).foldl (visit next) { progress := Array.replicate n .fresh }

end Search

namespace Graph

def selected (g : Graph) (select : Edge → Bool) (id : Nat) : List Nat :=
  ((g.edges id).filter select).map Edge.primary

/-- Every package after all that it selects, broken loops apart. -/
def planBy (g : Graph) (select : Edge → Bool) : Plan :=
  let s := Search.all (g.selected select) g.size
  ⟨s.emitted.reverse, s.loops.reverse⟩

/-- Every package after the packages that it needs before it is installed. -/
def installPlan (g : Graph) : Plan := g.planBy (·.flags.prereq)

/-- Every package before the packages that it needs until it is removed. -/
def removalPlan (g : Graph) : Plan :=
  let plan := g.planBy (·.flags.prereqUn)
  { plan with order := plan.order.reverse }

end Graph

end Depcheck

import Depcheck.Graph.Closure

/-!
# Marking packages for installation

A selection of packages is marked by hand, and what they need is marked as a dependency: for every
requirement edge of a marked package of which no target is marked yet, the primary is. The search is
breadth first, so the dependencies come out in the order of their discovery.
-/

namespace Depcheck

structure Marking where
  /-- The selection without repeats. -/
  byHand : List Nat := []
  /-- The dependencies, in the order of their discovery. -/
  asDependency : List Nat := []
  /-- The marked packages that cannot be installed. -/
  tainted : List Nat := []
deriving Repr, DecidableEq

/-- Everything marked, the selection first. -/
def Marking.all (m : Marking) : List Nat := m.byHand ++ m.asDependency

namespace Graph

def anyMarked (states : Array PackageState) (ids : List Nat) : Bool :=
  ids.any fun id => (states.getD id {}).isMarked

/-- Marks the primaries that a row of edges calls for, and lists them. An edge to a package outside
the table calls for none. -/
def pullEdges (states : Array PackageState) : List Edge → Array PackageState × List Nat
  | [] => (states, [])
  | e :: rest =>
    if h : e.primary < states.size then
      if anyMarked states e.targets then pullEdges states rest
      else
        let (states, more) :=
          pullEdges (states.set e.primary states[e.primary].markAsDependency) rest
        (states, e.primary :: more)
    else pullEdges states rest

/-- Every package that a row of edges calls for was unmarked before. -/
theorem pullEdges_count (states : Array PackageState) (row : List Edge) :
    (pullEdges states row).1.countP (!·.isMarked) + (pullEdges states row).2.length ≤
      states.countP (!·.isMarked) := by
  induction row generalizing states with
  | nil => simp [pullEdges]
  | cons e rest ih =>
    rw [pullEdges]
    split
    · next h =>
      split
      · exact ih states
      · next hm =>
        have hu : (!states[e.primary].isMarked) = true := by
          simp only [anyMarked, Edge.targets, List.any_cons, Bool.or_eq_true, not_or] at hm
          simpa [h] using hm.1
        have hlt := countP_set_lt (p := fun s : PackageState => !s.isMarked)
          (a := states[e.primary].markAsDependency) h hu
          (by simp [PackageState.isMarked, PackageState.markAsDependency])
        have := ih (states.set e.primary states[e.primary].markAsDependency)
        simp only [List.length_cons]
        omega
    · exact ih states

/-- Marks what the packages of `queue` need, and lists it in the order of discovery. -/
def pull (g : Graph) (states : Array PackageState) (queue : List Nat) :
    Array PackageState × List Nat :=
  match queue with
  | [] => (states, [])
  | id :: rest =>
    let next := pullEdges states (g.edges id)
    let later := g.pull next.1 (rest ++ next.2)
    (later.1, next.2 ++ later.2)
termination_by 2 * states.countP (!·.isMarked) + queue.length
decreasing_by
  have := pullEdges_count states (g.edges id)
  simp only [List.length_append, List.length_cons]
  omega

/-- Drops all earlier marks, marks a selection with what it needs, and returns what was marked and
the states afterwards. -/
def mark (g : Graph) (states : Array PackageState) (selection : List Nat) :
    Marking × Array PackageState :=
  let byHand := selection.eraseDups
  let selected := byHand.foldl (fun states id => states.modify id .markByHand)
    (states.map PackageState.unmark)
  let (states, asDependency) := g.pull selected byHand
  let tainted := (byHand ++ asDependency).filter fun id => (states.getD id {}).unmet
  ({ byHand, asDependency, tainted }, states)

end Graph

end Depcheck

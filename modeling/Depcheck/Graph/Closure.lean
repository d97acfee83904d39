import Depcheck.Graph.Basic
import Depcheck.Package.State

/-!
# What depends on a package

Two walks follow the graph from a package to its dependents, to theirs, and so on. `taint` flags
in a table of states everything that rests on a package with an unmet requirement, those packages
included. `dependentsClosure` lists what breaks when one package is removed; the package itself is
listed only when it rests on itself. Both visit every package at most once, so cycles end.
-/

namespace Depcheck

theorem countP_set_lt {α : Type} {p : α → Bool} {xs : Array α} {i : Nat} (h : i < xs.size) {a : α}
    (hold : p xs[i] = true) (hnew : p a = false) : (xs.set i a h).countP p < xs.countP p := by
  have hpos : 0 < xs.countP p := Array.countP_pos_iff.2 ⟨xs[i], by simp, hold⟩
  rw [Array.countP_set]
  simp only [hold, hnew, if_true, Bool.false_eq_true, if_false]
  omega

namespace Graph

/-- Flags the packages of `stack` and all that depends on them as unable to be installed. A package
that is flagged already is not visited again. -/
def taint (g : Graph) (states : Array PackageState) (stack : List Nat) : Array PackageState :=
  match stack with
  | [] => states
  | id :: rest =>
    if h : id < states.size then
      if hu : states[id].unmet then g.taint states rest
      else g.taint (states.set id states[id].setUnmet) (g.dependents id ++ rest)
    else g.taint states rest
termination_by (states.countP (!·.unmet), stack.length)
decreasing_by
  · exact .right _ (by simp)
  · exact .left _ _ (countP_set_lt h (by simpa using hu) rfl)
  · exact .right _ (by simp)

def countUnmet (states : Array PackageState) : Nat := states.countP (·.unmet)

/-- Notes the packages of `queue` as found, and all that depends on them. -/
def findDependents (g : Graph) (found : Array Bool) (queue : List Nat) : Array Bool :=
  match queue with
  | [] => found
  | id :: rest =>
    if h : id < found.size then
      if hf : found[id] then g.findDependents found rest
      else g.findDependents (found.set id true) (rest ++ g.dependents id)
    else g.findDependents found rest
termination_by (found.countP (!·), queue.length)
decreasing_by
  · exact .right _ (by simp)
  · exact .left _ _ (countP_set_lt h (by simpa using hf) rfl)
  · exact .right _ (by simp)

/-- The packages that rest on `id`, directly or not, in ascending order. -/
def dependentsClosure (g : Graph) (id : Nat) : List Nat :=
  let found := g.findDependents (Array.replicate g.size false) (g.dependents id)
  (List.range g.size).filter fun i => found.getD i false

end Graph

end Depcheck

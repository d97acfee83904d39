import Depcheck.Proofs.PackageSet.Reachable

/-!
# Questions to a package set

Some questions are about the packages and their states, and the others about the indexes and the last
verification, which only a prepared set has. A question of the second kind is refused exactly when the
set is not prepared (`answer_eq_notPrepared`).
-/

namespace Depcheck

namespace PackageSet

/-- A question to a package set, with the type of its answer. The orders, the loops and the problems
are parts of the run. -/
inductive Query : Type → Type where
  | package (id : Nat) : Query Package
  | state (id : Nat) : Query PackageState
  | find (name : String) : Query (List Nat)
  | lookup (text : String) : Query Nat
  | tainted : Query (List Nat)
  | obsoleted : Query (List Nat)
  | marked : Query (List Nat)
  | whatProvides (name : String) : Query (List Nat)
  | whatRequires (name : String) : Query (List Nat)
  | whatObsoletes (name : String) : Query (List Nat)
  | matchRequirement (req : Capability) : Query (List Nat)
  | run : Query Verification
  | edges (id : Nat) : Query (List Edge)
  | conflicts (id : Nat) : Query (List ConflictEdge)
  | requiredBy (id : Nat) : Query (List Nat)
  | dependents (id : Nat) : Query (List Nat)

variable {α : Type} {s s' : PackageSet}

/-- The ids that the caller hands in. -/
def Query.ids : Query α → List Nat
  | .package id | .state id | .edges id | .conflicts id | .requiredBy id | .dependents id => [id]
  | _ => []

/-- Is the question about the indexes or the last verification? -/
def Query.needsPreparation : Query α → Bool
  | .package _ | .state _ | .find _ | .lookup _ | .tainted | .obsoleted | .marked => false
  | _ => true

/-- What the set answers. -/
def answer (s : PackageSet) : Query α → Except Error α
  | .package id => .ok (s.package id)
  | .state id => .ok (s.state id)
  | .find name => .ok (s.find name)
  | .lookup text => s.lookupPackage text
  | .tainted => .ok s.tainted
  | .obsoleted => .ok s.obsoleted
  | .marked => .ok s.marked
  | .whatProvides name => s.whatProvides name
  | .whatRequires name => s.whatRequires name
  | .whatObsoletes name => s.whatObsoletes name
  | .matchRequirement req => s.matchRequirement req
  | .run => s.run
  | .edges id => s.run.map fun v => v.graph.edges id
  | .conflicts id => s.run.map fun v => v.graph.conflicts id
  | .requiredBy id => s.run.map fun v => v.graph.dependents id
  | .dependents id => s.dependents id

/-! ## Refused questions -/

@[simp] theorem analyzed_eq_notPrepared :
    s.analyzed = .error .notPrepared ↔ s.analysis = none := by
  unfold analyzed
  cases s.analysis with
  | none => exact ⟨fun _ => rfl, fun _ => rfl⟩
  | some a =>
    constructor
    · intro h
      cases h
    · intro h
      cases h

@[simp] theorem run_eq_notPrepared : s.run = .error .notPrepared ↔ s.analysis = none :=
  map_eq_error.trans analyzed_eq_notPrepared

@[simp] theorem lookupPackage_ne_notPrepared (s : PackageSet) (text : String) :
    s.lookupPackage text ≠ .error .notPrepared := by
  unfold lookupPackage
  split
  · intro h
    cases h
  · split
    · intro h
      cases h
    · intro h
      cases h

@[simp] theorem matchRequirement_eq_notPrepared {req : Capability} :
    s.matchRequirement req = .error .notPrepared ↔ s.analysis = none := by
  unfold matchRequirement analyzed
  cases s.analysis with
  | none => exact ⟨fun _ => rfl, fun _ => rfl⟩
  | some a =>
    constructor
    · intro h
      -- a prepared set answers, or it says which package is missing
      simp only [bind, Except.bind] at h
      split at h <;> cases h
    · intro h
      cases h

/-- A question is refused exactly when it is about what only a prepared set knows. -/
theorem answer_eq_notPrepared (q : Query α) :
    s.answer q = .error .notPrepared ↔ q.needsPreparation = true ∧ s.analysis = none := by
  cases q with
  | package | state | find | lookup | tainted | obsoleted | marked =>
    simp [answer, Query.needsPreparation]
  | whatProvides | whatRequires | whatObsoletes =>
    simp [answer, Query.needsPreparation, whatProvides, whatRequires, whatObsoletes]
  | matchRequirement | run | edges | conflicts | requiredBy | dependents =>
    simp [answer, Query.needsPreparation, dependents]

end PackageSet

end Depcheck

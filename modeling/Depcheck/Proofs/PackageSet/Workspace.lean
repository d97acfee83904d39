import Depcheck.Proofs.Graph.Queue
import Depcheck.Proofs.PackageSet.Queries
import Depcheck.Proofs.Verification.Checked

/-!
# Package sets that change in place

A workspace has the parts of a package set in fields of their own, the indexes apart from the last
verification. Its procedures change one field after the other. A procedure stops at an id without a
package, a state or a node, and where a package is left without an id. A refused procedure ends with the
workspace of that moment, so whether the caller finds the one from before is a question about the
procedure: an operation must not change a field before it is refused.
-/

namespace Depcheck

structure Workspace where
  config : Config
  platform : Oracle
  packages : Array Package := #[]
  states : Array PackageState := #[]
  dependencyDirs : List String := []
  index : Option Index := none
  run : Option Verification := none

/-- What is done with a workspace. Nothing comes of it when it stops; a result comes with the workspace
afterwards, and so does an error. -/
abbrev Procedure (α : Type) := ExceptT Error (StateT Workspace Option) α

/-! ## Procedures -/

namespace Procedure

variable {α β : Type} {a : Procedure α} {f : α → Procedure β} {w : Workspace}

def runOn (a : Procedure α) (w : Workspace) : Option (Except Error α × Workspace) :=
  (ExceptT.run a).run w

/-- Goes on with what was found, or else stops. -/
def orStop (found? : Option α) : Procedure α := fun w => found?.map fun x => (.ok x, w)

/-- The value of a field that is there when the set is prepared. -/
def prepared (field : Workspace → Option α) : Procedure α := do
  match field (← get) with
  | some x => return x
  | none => throw .notPrepared

@[simp] theorem runOn_pure (x : α) : (pure x : Procedure α).runOn w = some (.ok x, w) := rfl

@[simp] theorem runOn_bind :
    (a >>= f).runOn w = (a.runOn w).bind fun
      | (.ok x, w') => (f x).runOn w'
      | (.error e, w') => some (.error e, w') := by
  show Option.bind (a.runOn w) _ = _
  congr 1
  funext r
  rcases r with ⟨e | x, w'⟩
  · rfl
  · rfl

@[simp] theorem runOn_get : (get : Procedure Workspace).runOn w = some (.ok w, w) := rfl

@[simp] theorem runOn_modify (change : Workspace → Workspace) :
    (modify change : Procedure PUnit).runOn w = some (.ok ⟨⟩, change w) := rfl

@[simp] theorem runOn_throw (e : Error) : (throw e : Procedure α).runOn w = some (.error e, w) := rfl

@[simp] theorem runOn_orStop (found? : Option α) :
    (orStop found?).runOn w = found?.map fun x => (.ok x, w) := rfl

@[simp] theorem runOn_prepared {field : Workspace → Option α} :
    (prepared field).runOn w =
      some ((match field w with | some x => .ok x | none => .error .notPrepared), w) := by
  simp only [prepared, runOn_bind, runOn_get, Option.bind_some]
  cases field w with
  | none => rfl
  | some x => rfl

theorem runOn_bind_eq_some {r : Except Error β} {w' : Workspace} :
    (a >>= f).runOn w = some (r, w') ↔
      (∃ x w₁, a.runOn w = some (.ok x, w₁) ∧ (f x).runOn w₁ = some (r, w')) ∨
      ∃ e, a.runOn w = some (.error e, w') ∧ r = .error e := by
  rw [runOn_bind]
  cases a.runOn w with
  | none => simp
  | some found =>
    obtain ⟨e | x, w₁⟩ := found
    · simp only [Option.bind_some, Option.some.injEq, Prod.mk.injEq, reduceCtorEq, false_and,
        exists_false, false_or, Except.error.injEq]
      constructor
      · rintro ⟨rfl, rfl⟩
        exact ⟨e, ⟨rfl, rfl⟩, rfl⟩
      · rintro ⟨_, ⟨rfl, rfl⟩, rfl⟩
        exact ⟨rfl, rfl⟩
    · simp

/-! ### Procedures that leave something alone -/

variable {γ : Type} {part : Workspace → γ}

/-- The procedure leaves a part of the workspace as it is, whether it is refused or not. -/
def Leaves (part : Workspace → γ) (a : Procedure α) : Prop :=
  ∀ w r w', a.runOn w = some (r, w') → part w' = part w

theorem leaves_pure (x : α) : (pure x : Procedure α).Leaves part := by
  intro w r w' h
  cases h
  rfl

theorem leaves_get : (get : Procedure Workspace).Leaves part := by
  intro w r w' h
  cases h
  rfl

theorem leaves_throw (e : Error) : (throw e : Procedure α).Leaves part := by
  intro w r w' h
  cases h
  rfl

theorem leaves_orStop (found? : Option α) : (orStop found?).Leaves part := by
  intro w r w' h
  obtain ⟨x, _, hx⟩ := Option.map_eq_some_iff.1 h
  cases hx
  rfl

theorem leaves_modify {change : Workspace → Workspace} (h : ∀ w, part (change w) = part w) :
    (modify change : Procedure PUnit).Leaves part := by
  intro w r w' hw'
  cases hw'
  exact h w

theorem Leaves.bind (ha : a.Leaves part) (hf : ∀ x, (f x).Leaves part) :
    (a >>= f).Leaves part := by
  intro w r w' h
  rcases runOn_bind_eq_some.1 h with ⟨x, w₁, hw₁, hw'⟩ | ⟨e, hw', _⟩
  · exact (hf x _ _ _ hw').trans (ha _ _ _ hw₁)
  · exact ha _ _ _ hw'

theorem leaves_prepared (field : Workspace → Option α) : (prepared field).Leaves part := by
  refine leaves_get.bind ?_
  intro w
  cases field w with
  | none => exact leaves_throw _
  | some x => exact leaves_pure x

/-! ### Procedures that are not refused -/

/-- The procedure is never refused. -/
def Accepts (a : Procedure α) : Prop := ∀ w e w', a.runOn w ≠ some (.error e, w')

theorem accepts_pure (x : α) : (pure x : Procedure α).Accepts := by
  intro w e w' h
  cases h

theorem accepts_get : (get : Procedure Workspace).Accepts := by
  intro w e w' h
  cases h

theorem accepts_modify (change : Workspace → Workspace) :
    (modify change : Procedure PUnit).Accepts := by
  intro w e w' h
  cases h

theorem accepts_orStop (found? : Option α) : (orStop found?).Accepts := by
  intro w e w' h
  obtain ⟨x, _, hx⟩ := Option.map_eq_some_iff.1 h
  cases hx

theorem Accepts.bind (ha : a.Accepts) (hf : ∀ x, (f x).Accepts) : (a >>= f).Accepts := by
  intro w e w' h
  rcases runOn_bind_eq_some.1 h with ⟨x, w₁, _, hw'⟩ | ⟨e', hw', _⟩
  · exact hf x _ _ _ hw'
  · exact ha _ _ _ hw'

/-! ### Procedures that leave the workspace alone when they are refused -/

/-- A refusal leaves the workspace as it was. -/
def Keeps (a : Procedure α) : Prop := ∀ w e w', a.runOn w = some (.error e, w') → w' = w

theorem Accepts.keeps (ha : a.Accepts) : a.Keeps := fun w e w' h => absurd h (ha w e w')

theorem Leaves.keeps (ha : a.Leaves id) : a.Keeps := fun w e w' h => ha w (.error e) w' h

/-- What comes after a look at the workspace starts from the same workspace. -/
theorem Leaves.bind_keeps (ha : a.Leaves id) (hf : ∀ x, (f x).Keeps) : (a >>= f).Keeps := by
  intro w e w' h
  rcases runOn_bind_eq_some.1 h with ⟨x, w₁, hw₁, hw'⟩ | ⟨e', hw', _⟩
  · obtain rfl : w₁ = w := ha _ _ _ hw₁
    exact hf x _ _ _ hw'
  · exact ha _ _ _ hw'

end Procedure

namespace Workspace

open Procedure

/-- The number of ids. -/
def capacity : Nat := 2 ^ 32

/-- What the resolution of requirements looks at. -/
def context (w : Workspace) (index : Index) : Context where
  packages := w.packages
  index
  platform := w.platform
  manager := w.config.manager
  strict := w.config.strict

/-! ## Operations -/

/-- The ids of all packages. -/
def ids : Procedure (List Nat) := do
  let w ← get
  orStop (check (w.packages.size ≤ capacity) (List.range w.packages.size))

def indexes : Procedure Index := prepared Workspace.index

def lastRun : Procedure Verification := prepared Workspace.run

def invalidate : Procedure Unit := do
  modify fun w => { w with index := none }
  modify fun w => { w with run := none }

/-- Adds a package and returns its id. -/
def add (p : Package) : Procedure Nat := do
  invalidate
  let w ← get
  let id ← orStop (check (w.packages.size < capacity) w.packages.size)
  modify fun w => { w with packages := w.packages.push p }
  modify fun w => { w with states := w.states.push {} }
  return id

def addAll : List Package → Procedure Unit
  | [] => return
  | p :: rest => do
    let _ ← add p
    addAll rest

/-- Verifies the packages on given indexes and returns the number of errors. -/
def verifyOn (index : Index) : Procedure Nat := do
  let _ ← ids
  let w ← get
  let (run, states) ← orStop ((w.context index).verify? w.config.passes w.states)
  modify fun w => { w with states }
  modify fun w => { w with run := some run }
  return run.errorCount

def verify : Procedure Nat := do verifyOn (← indexes)

def reindex : Procedure Unit := do
  let _ ← ids
  let w ← get
  let dirs := Depcheck.dependencyDirs w.packages
  modify fun w => { w with dependencyDirs := dirs }
  let only := if w.config.passes.fileConflicts then none else some dirs
  modify fun w => { w with index := some (.build w.packages only) }
  modify fun w => { w with run := none }

/-- Takes the packages out, puts them back in order, and verifies them on new indexes. -/
def prepare : Procedure Nat := do
  let w ← get
  modify fun w => { w with packages := #[] }
  let packages := (PackageSet.arrange w.config.uniqueNames w.packages.toList).toArray
  modify fun w => { w with states := Array.replicate packages.size {} }
  modify fun w => { w with packages }
  reindex
  verify

/-- Marks a selection with what it needs. All marks go before the selection is looked at. -/
def mark (selection : List Nat) : Procedure Marking := do
  let v ← lastRun
  modify fun w => { w with states := w.states.map PackageState.unmark }
  let w ← get
  let (marking, states) ← orStop (v.graph.selectAll? w.states selection)
  modify fun w => { w with states }
  return marking

/-- The packages that a test accepts. -/
def select (wanted? : Workspace → Nat → Option Bool) : Procedure (List Nat) := do
  let all ← ids
  let w ← get
  orStop (all.filterM (wanted? w))

/-- The row of a package in the graph. -/
def row {α : Type} (entry : Graph → Nat → α) (id : Nat) : Procedure α := do
  let v ← lastRun
  orStop (check (id < v.graph.size) (entry v.graph id))

def lookup (text : String) : Procedure Nat := do
  let _ ← ids
  let w ← get
  match PackageSet.lookupPackage { config := w.config, platform := w.platform, packages := w.packages }
    text with
  | .ok id => return id
  | .error e => throw e

def whatProvides (name : String) : Procedure (List Nat) := do
  let index ← indexes
  let ids := index.provided.ids name
  if Path.isAbsolute name then
    return ascending (ids ++ index.files.fileOwners name ++ index.files.dirOwners name)
  else return ids

def matchRequirement (req : Capability) : Procedure (List Nat) := do
  let index ← indexes
  let w ← get
  let (resolution, _) ← orStop ((w.context index).resolve? req)
  match resolution with
  | .builtin => return []
  | .matched ids => return ids
  | .absent | .mismatch => throw (.packageNotFound req.text)

open PackageSet (Query)

def ask {α : Type} : Query α → Procedure α
  | .package id => do orStop (← get).packages[id]?
  | .state id => do orStop (← get).states[id]?
  | .find name => select fun w id => w.packages[id]?.map (·.name == name)
  | .lookup text => lookup text
  | .tainted => select fun w id => w.states[id]?.map (·.unmet)
  | .obsoleted => select fun w id => w.states[id]?.map (·.obsoleted)
  | .marked => select fun w id => w.states[id]?.map (·.isMarked)
  | .whatProvides name => whatProvides name
  | .whatRequires name => do return (← indexes).required.ids name
  | .whatObsoletes name => do return (← indexes).obsoleted.ids name
  | .matchRequirement req => matchRequirement req
  | .run => lastRun
  | .edges id => row Graph.edges id
  | .conflicts id => row Graph.conflicts id
  | .requiredBy id => row Graph.dependents id
  | .dependents id => do orStop ((← lastRun).graph.dependentsClosure? id)

/-! ## What operations leave alone -/

section

variable {γ : Type} {part : Workspace → γ}

theorem leaves_ids : ids.Leaves part := leaves_get.bind fun _ => leaves_orStop _

theorem leaves_select (wanted? : Workspace → Nat → Option Bool) : (select wanted?).Leaves part :=
  leaves_ids.bind fun _ => leaves_get.bind fun _ => leaves_orStop _

theorem leaves_row {α : Type} (entry : Graph → Nat → α) (id : Nat) :
    (row entry id).Leaves part :=
  (leaves_prepared _).bind fun _ => leaves_orStop _

theorem leaves_lookup (text : String) : (lookup text).Leaves part := by
  refine leaves_ids.bind fun _ => leaves_get.bind fun w => ?_
  split
  · exact leaves_pure _
  · exact leaves_throw _

theorem leaves_whatProvides (name : String) : (whatProvides name).Leaves part := by
  refine (leaves_prepared _).bind fun index => ?_
  dsimp only
  split
  · exact leaves_pure _
  · exact leaves_pure _

theorem leaves_matchRequirement (req : Capability) : (matchRequirement req).Leaves part := by
  refine (leaves_prepared _).bind fun index => leaves_get.bind fun w => (leaves_orStop _).bind ?_
  rintro ⟨resolution, _⟩
  cases resolution with
  | builtin => exact leaves_pure _
  | matched ids => exact leaves_pure _
  | absent => exact leaves_throw _
  | mismatch => exact leaves_throw _

/-- No question changes anything, answered or not. -/
theorem leaves_ask {α : Type} (q : Query α) : (ask q).Leaves part := by
  cases q with
  | package | state => exact leaves_get.bind fun _ => leaves_orStop _
  | find | tainted | obsoleted | marked => exact leaves_select _
  | lookup text => exact leaves_lookup text
  | whatProvides name => exact leaves_whatProvides name
  | whatRequires | whatObsoletes => exact (leaves_prepared _).bind fun _ => leaves_pure _
  | matchRequirement req => exact leaves_matchRequirement req
  | run => exact leaves_prepared _
  | edges | conflicts | requiredBy => exact leaves_row _ _
  | dependents => exact (leaves_prepared _).bind fun _ => leaves_orStop _

end

theorem packages_verify : verify.Leaves Workspace.packages := by
  apply (leaves_prepared _).bind
  intro index
  refine leaves_ids.bind fun _ => leaves_get.bind fun w => (leaves_orStop _).bind ?_
  rintro ⟨run, states⟩
  refine Leaves.bind (leaves_modify ?_) fun _ => Leaves.bind (leaves_modify ?_) fun _ => ?_
  · exact fun _ => rfl
  · exact fun _ => rfl
  · exact leaves_pure _

theorem packages_mark (selection : List Nat) : (mark selection).Leaves Workspace.packages := by
  apply (leaves_prepared _).bind
  intro v
  refine Leaves.bind (leaves_modify ?_) fun _ => leaves_get.bind fun w => ?_
  · exact fun _ => rfl
  · apply (leaves_orStop _).bind
    rintro ⟨marking, states⟩
    refine Leaves.bind (leaves_modify ?_) fun _ => leaves_pure _
    exact fun _ => rfl

/-! ## Refusals -/

theorem accepts_ids : ids.Accepts := accepts_get.bind fun _ => accepts_orStop _

theorem accepts_invalidate : invalidate.Accepts :=
  (accepts_modify _).bind fun _ => accepts_modify _

theorem accepts_add (p : Package) : (add p).Accepts := by
  refine accepts_invalidate.bind fun _ => accepts_get.bind fun w => ?_
  refine (accepts_orStop _).bind fun id => ?_
  exact (accepts_modify _).bind fun _ => (accepts_modify _).bind fun _ => accepts_pure id

theorem accepts_addAll (ps : List Package) : (addAll ps).Accepts := by
  induction ps with
  | nil => exact accepts_pure ()
  | cons p rest ih => exact (accepts_add p).bind fun _ => ih

theorem accepts_verifyOn (index : Index) : (verifyOn index).Accepts := by
  refine accepts_ids.bind fun _ => accepts_get.bind fun w => (accepts_orStop _).bind fun found => ?_
  exact (accepts_modify _).bind fun _ => (accepts_modify _).bind fun _ => accepts_pure _

theorem keeps_verify : verify.Keeps :=
  Leaves.bind_keeps (leaves_prepared _) fun index => (accepts_verifyOn index).keeps

theorem keeps_mark (selection : List Nat) : (mark selection).Keeps := by
  -- without a verification the first step is the last, and no later one is refused
  refine Leaves.bind_keeps (leaves_prepared _) fun v => Accepts.keeps ?_
  refine (accepts_modify _).bind fun _ => accepts_get.bind fun w => ?_
  exact (accepts_orStop _).bind fun found => (accepts_modify _).bind fun _ => accepts_pure _

theorem runOn_verify {w : Workspace} {index : Index} (hindex : w.index = some index) :
    verify.runOn w = (verifyOn index).runOn w := by
  rw [verify, runOn_bind, indexes, runOn_prepared, hindex, Option.bind_some]

/-- The workspace that is verified at the end of a preparation. -/
def rebuilt (w : Workspace) : Workspace :=
  let packages := (PackageSet.arrange w.config.uniqueNames w.packages.toList).toArray
  let dirs := Depcheck.dependencyDirs packages
  { w with
    packages
    states := Array.replicate packages.size {}
    dependencyDirs := dirs
    index := some (.build packages (if w.config.passes.fileConflicts then none else some dirs))
    run := none }

theorem runOn_prepare (w : Workspace) :
    prepare.runOn w = if w.rebuilt.packages.size ≤ capacity then verify.runOn w.rebuilt else none := by
  simp only [prepare, reindex, ids, runOn_bind, runOn_get, runOn_modify, runOn_orStop,
    Option.bind_some]
  unfold check
  by_cases hcap : w.rebuilt.packages.size ≤ capacity
  · have harranged : (PackageSet.arrange w.config.uniqueNames w.packages.toList).toArray.size ≤
        capacity := hcap
    rw [if_pos hcap, if_pos harranged]
    rfl
  · have harranged : ¬(PackageSet.arrange w.config.uniqueNames w.packages.toList).toArray.size ≤
        capacity := hcap
    rw [if_neg hcap, if_neg harranged]
    rfl

/-- A preparation has indexes to verify on. -/
theorem accepts_prepare : prepare.Accepts := by
  intro w e w'
  rw [runOn_prepare]
  split
  · rw [runOn_verify rfl]
    exact accepts_verifyOn _ w.rebuilt e w'
  · intro h
    cases h

end Workspace

end Depcheck

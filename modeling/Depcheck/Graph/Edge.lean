import Depcheck.Capability

/-!
# Edges of the dependency graph

A requirement edge leads from a package to the provider that it prefers, with the other providers
as alternates; a conflict edge leads to the package that the conflict hits. Both carry flags and
the position of the record behind them in its owner's declaration. The edges of a package stand in
a row that ascends strictly by target; `upsert` keeps it so.
-/

namespace Depcheck

structure EdgeFlags where
  /-- The target must be installed before the owner. -/
  prereq : Bool := false
  /-- The owner must be removed before the target. -/
  prereqUn : Bool := false
  conflict : Bool := false
  obsolete : Bool := false
  /-- Several packages meet the requirement. -/
  multi : Bool := false
deriving Repr, DecidableEq, Inhabited

namespace EdgeFlags

def union (f g : EdgeFlags) : EdgeFlags where
  prereq := f.prereq || g.prereq
  prereqUn := f.prereqUn || g.prereqUn
  conflict := f.conflict || g.conflict
  obsolete := f.obsolete || g.obsolete
  multi := f.multi || g.multi

def diff (f g : EdgeFlags) : EdgeFlags where
  prereq := f.prereq && !g.prereq
  prereqUn := f.prereqUn && !g.prereqUn
  conflict := f.conflict && !g.conflict
  obsolete := f.obsolete && !g.obsolete
  multi := f.multi && !g.multi

/-- Are all flags of `g` set in `f`? -/
def contains (f g : EdgeFlags) : Bool := f.union g == f

/-- The ordering flags that a requirement gives its edge. -/
def ofRequirement (req : Capability) : EdgeFlags where
  prereq := req.flags.prereq
  prereqUn := req.flags.prereqUn

def text (f : EdgeFlags) : String :=
  ",".intercalate <|
    (if f.prereq then ["prereq"] else []) ++ (if f.prereqUn then ["prereq-un"] else []) ++
    (if f.conflict then ["conflict"] else []) ++ (if f.obsolete then ["obsolete"] else []) ++
    (if f.multi then ["multi"] else [])

end EdgeFlags

/-- A requirement and the packages that meet it. -/
structure Edge where
  /-- The preferred provider. -/
  primary : Nat
  /-- The other providers, in order of preference. -/
  alternates : List Nat
  /-- The position of the first requirement that led to this primary. -/
  requirement : Nat
  flags : EdgeFlags
deriving Repr, DecidableEq

/-- All providers, the preferred one first. -/
def Edge.targets (e : Edge) : List Nat := e.primary :: e.alternates

structure ConflictEdge where
  target : Nat
  /-- The position of the first conflict that hit this target. -/
  record : Nat
  flags : EdgeFlags
deriving Repr, DecidableEq

namespace Row

variable {α : Type}

/-- Updates the member of a row that has the key of `fresh`, or else puts `fresh` in its place. -/
def upsert (key : α → Nat) (fresh : α) (update : α → α) : List α → List α
  | [] => [fresh]
  | a :: rest =>
    if key a < key fresh then a :: upsert key fresh update rest
    else if key a = key fresh then update a :: rest
    else fresh :: a :: rest

def Ascending (key : α → Nat) (row : List α) : Prop := row.Pairwise fun a b => key a < key b

/-- The members of an updated row: the old ones with the one at the key updated, or the fresh
one. -/
theorem mem_upsert {key : α → Nat} {fresh : α} {update : α → α} {row : List α} {x : α}
    (h : x ∈ upsert key fresh update row) :
    x ∈ row ∨ x = fresh ∨ ∃ a ∈ row, key a = key fresh ∧ x = update a := by
  induction row with
  | nil => simp_all [upsert]
  | cons a rest ih =>
    rw [upsert] at h
    split at h
    · rcases List.mem_cons.1 h with rfl | h
      · exact .inl (by simp)
      · rcases ih h with h | h | ⟨b, hb, h⟩
        · exact .inl (by simp [h])
        · exact .inr (.inl h)
        · exact .inr (.inr ⟨b, by simp [hb], h⟩)
    · split at h
      · next hk =>
        rcases List.mem_cons.1 h with rfl | h
        · exact .inr (.inr ⟨a, by simp, hk, rfl⟩)
        · exact .inl (by simp [h])
      · rcases List.mem_cons.1 h with rfl | h
        · exact .inr (.inl rfl)
        · exact .inl h

/-- An update that keeps keys keeps the row ascending. -/
theorem Ascending.upsert {key : α → Nat} {fresh : α} {update : α → α} {row : List α}
    (h : Ascending key row) (hu : ∀ a, key (update a) = key a) :
    Ascending key (upsert key fresh update row) := by
  induction row with
  | nil => simp [Row.upsert, Ascending]
  | cons a rest ih =>
    rw [Ascending, List.pairwise_cons] at h
    rw [Row.upsert]
    split
    · next hlt =>
      rw [Ascending, List.pairwise_cons]
      refine ⟨fun x hx => ?_, ih h.2⟩
      rcases mem_upsert hx with hx | rfl | ⟨b, hb, _, rfl⟩
      · exact h.1 x hx
      · exact hlt
      · rw [hu]; exact h.1 b hb
    · split
      · rw [Ascending, List.pairwise_cons]
        exact ⟨fun x hx => by rw [hu]; exact h.1 x hx, h.2⟩
      · rw [Ascending, List.pairwise_cons, List.pairwise_cons]
        refine ⟨fun x hx => ?_, h.1, h.2⟩
        rcases List.mem_cons.1 hx with rfl | hx
        · omega
        · have := h.1 x hx; omega

end Row

end Depcheck

/-!
# Relations

A relation is a set of the three outcomes of a comparison: less, equal, greater. `>=` is the set
of equal and greater, `!=` that of less and greater. The empty set is a relation too, and no
operator writes it.
-/

namespace Depcheck

/-- The outcomes of a comparison that a constraint lets through. -/
structure Relation where
  less : Bool := false
  equal : Bool := false
  greater : Bool := false
deriving Repr, DecidableEq

namespace Relation

def empty : Relation := {}

def eq : Relation := { equal := true }

def gt : Relation := { greater := true }

def lt : Relation := { less := true }

def ge : Relation := { greater := true, equal := true }

def le : Relation := { less := true, equal := true }

def ne : Relation := { less := true, greater := true }

def isEmpty (r : Relation) : Bool := !(r.less || r.equal || r.greater)

def union (r s : Relation) : Relation :=
  ⟨r.less || s.less, r.equal || s.equal, r.greater || s.greater⟩

def admits (r : Relation) : Ordering → Bool
  | .lt => r.less
  | .eq => r.equal
  | .gt => r.greater

/-- Does `r` hold every outcome of `s`, and `s` at least one? -/
def contains (r s : Relation) : Bool :=
  !s.isEmpty && (!s.less || r.less) && (!s.equal || r.equal) && (!s.greater || r.greater)

def ofOperator? : List Char → Option Relation
  | ['='] | ['=', '='] => some eq
  | ['>'] => some gt
  | ['<'] => some lt
  | ['>', '='] | ['=', '>'] => some ge
  | ['<', '='] | ['=', '<'] => some le
  | ['!', '='] | ['<', '>'] => some ne
  | _ => none

/-- Writes a relation: `<`, then `>`, then `=`. -/
def text (r : Relation) : String :=
  (if r.less then "<" else "") ++ (if r.greater then ">" else "") ++ (if r.equal then "=" else "")

/-- An operator never writes the empty relation. -/
theorem isEmpty_of_ofOperator? {s : List Char} {r : Relation} (h : ofOperator? s = some r) :
    r.isEmpty = false := by
  unfold ofOperator? at h
  split at h <;> simp at h <;> subst h <;> rfl

@[simp] theorem admits_union (r s : Relation) (o : Ordering) :
    (r.union s).admits o = (r.admits o || s.admits o) := by
  cases o <;> rfl

/-- A relation is empty when it lets nothing through. -/
theorem isEmpty_eq_true_iff {r : Relation} : r.isEmpty = true ↔ ∀ o, r.admits o = false := by
  obtain ⟨l, e, g⟩ := r
  constructor
  · intro h o
    cases o <;> simp_all [isEmpty, admits]
  · intro h
    have hl := h .lt
    have he := h .eq
    have hg := h .gt
    simp_all [isEmpty, admits]

end Relation

end Depcheck

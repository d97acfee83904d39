import Std.Data.TreeMap

/-!
# Name indexes

A name index maps a name to the ids of the packages that carry a record of that name. Ids are
appended as they come; `finish` puts every bucket into ascending order without repeats, so the
order of a finished bucket is the order of the packages.
-/

namespace Depcheck

def ascending (ids : List Nat) : List Nat := (ids.mergeSort fun a b => decide (a ≤ b)).eraseReps

structure NameIndex where
  buckets : Std.TreeMap String (List Nat) := {}

namespace NameIndex

def add (idx : NameIndex) (name : String) (id : Nat) : NameIndex :=
  ⟨idx.buckets.alter name fun bucket => some (bucket.getD [] ++ [id])⟩

def addAll (idx : NameIndex) (names : List String) (id : Nat) : NameIndex :=
  names.foldl (fun idx name => idx.add name id) idx

/-- Puts every bucket into ascending order without repeats. -/
def finish (idx : NameIndex) : NameIndex := ⟨idx.buckets.map fun _ bucket => ascending bucket⟩

def lookup? (idx : NameIndex) (name : String) : Option (List Nat) := idx.buckets[name]?

def ids (idx : NameIndex) (name : String) : List Nat := (idx.lookup? name).getD []

def contains (idx : NameIndex) (name : String) : Bool := (idx.lookup? name).isSome

def size (idx : NameIndex) : Nat := idx.buckets.size

def isEmpty (idx : NameIndex) : Bool := idx.buckets.isEmpty

@[simp] theorem lookup?_empty (name : String) : ({} : NameIndex).lookup? name = none := by
  simp [lookup?]

/-- Adding changes one bucket, and that at its end. -/
theorem lookup?_add (idx : NameIndex) (name other : String) (id : Nat) :
    (idx.add name id).lookup? other =
      if name = other then some (idx.ids name ++ [id]) else idx.lookup? other := by
  simp [lookup?, add, ids, Std.TreeMap.getElem?_alter]

@[simp] theorem lookup?_finish (idx : NameIndex) (name : String) :
    idx.finish.lookup? name = (idx.lookup? name).map ascending := by
  simp [lookup?, finish, Std.TreeMap.getElem?_map]

@[simp] theorem size_finish (idx : NameIndex) : idx.finish.size = idx.size := by
  simp [size, finish, Std.TreeMap.size_map]

end NameIndex

end Depcheck

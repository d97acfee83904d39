import Std.Data.TreeMap

/-!
# Remembered answers

A memo keeps the answer for every key it was asked for and counts how often an answer was at hand.
-/

namespace Depcheck

/-- Answers by key, with the number of times an answer was found and of times it was not. -/
structure Memo (α : Type) where
  entries : Std.TreeMap String α := {}
  hits : Nat := 0
  misses : Nat := 0

structure MemoStats where
  hits : Nat := 0
  misses : Nat := 0
  entries : Nat := 0
deriving Repr, DecidableEq

namespace Memo

variable {α : Type}

/-- The answer for `key`, and the memo afterwards. An answer that is not at hand is computed and
kept, and the flag in the middle says so. -/
def fetch (m : Memo α) (key : String) (compute : Unit → α) : α × Bool × Memo α :=
  match m.entries[key]? with
  | some a => (a, false, { m with hits := m.hits + 1 })
  | none =>
    let a := compute ()
    (a, true, { m with entries := m.entries.insert key a, misses := m.misses + 1 })

def stats (m : Memo α) : MemoStats := ⟨m.hits, m.misses, m.entries.size⟩

end Memo

end Depcheck

import Depcheck.Graph.Closure
import Depcheck.Proofs.Package.States

/-!
# Taint

The walk over the dependents keeps one invariant: a dependent of a flagged package is flagged
itself or waits on the stack. When the stack is empty, the flagged packages are closed under
dependents (`tainted_of_dependent`), whatever cycles the graph has.
-/

namespace Depcheck

/-- Is the package flagged as unable to be installed? -/
def Tainted (states : Array PackageState) (id : Nat) : Prop := (states.getD id {}).unmet = true

theorem Tainted.lt_size {states : Array PackageState} {id : Nat} (h : Tainted states id) :
    id < states.size :=
  PackageState.lt_size_of_flag PackageState.unmet rfl h

theorem tainted_iff_getElem {states : Array PackageState} {id : Nat} (h : id < states.size) :
    Tainted states id ↔ states[id].unmet = true := by
  rw [Tainted, getD_of_lt h]

/-- Flagging a package leaves the flags of all others as they are. -/
theorem tainted_set_setUnmet {states : Array PackageState} {id other : Nat} (h : id < states.size) :
    Tainted (states.set id states[id].setUnmet) other ↔ Tainted states other ∨ other = id :=
  flag_getD_set_iff PackageState.unmet h rfl

namespace Graph

variable {g : Graph}

@[simp] theorem size_taint (states : Array PackageState) (stack : List Nat) :
    (g.taint states stack).size = states.size := by
  fun_induction taint g states stack with
  | case1 states => rfl
  | case2 states id rest h hu ih => exact ih
  | case3 states id rest h hu ih => simpa using ih
  | case4 states id rest h ih => exact ih

/-- The walk leaves the state of a package as it is or sets the one flag. -/
theorem getD_taint (states : Array PackageState) (stack : List Nat) (id : Nat) :
    (g.taint states stack).getD id {} = states.getD id {} ∨
      (g.taint states stack).getD id {} = (states.getD id {}).setUnmet := by
  fun_induction taint g states stack with
  | case1 states => exact .inl rfl
  | case2 states top rest h hu ih => exact ih
  | case3 states top rest h hu ih =>
    rw [getD_set h] at ih
    by_cases heq : top = id
    · subst heq
      rw [if_pos rfl] at ih
      rw [getD_of_lt h]
      rcases ih with ih | ih
      · exact .inr ih
      · exact .inr ih
    · rw [if_neg heq] at ih
      exact ih
  | case4 states top rest h ih => exact ih

/-- Every other flag stays as it is. -/
theorem flag_taint (flag : PackageState → Bool) (hset : ∀ s, flag s.setUnmet = flag s)
    (states : Array PackageState) (stack : List Nat) (id : Nat) :
    flag ((g.taint states stack).getD id {}) = flag (states.getD id {}) := by
  rcases getD_taint (g := g) states stack id with h | h
  · rw [h]
  · rw [h, hset]

/-- The walk looks at no other flag: an update that leaves the flag alone, and commutes with setting
it, may be made before or after. -/
theorem taint_map {u : PackageState → PackageState} (hunmet : ∀ s, (u s).unmet = s.unmet)
    (hset : ∀ s, u s.setUnmet = (u s).setUnmet) (states : Array PackageState) (stack : List Nat) :
    g.taint (states.map u) stack = (g.taint states stack).map u := by
  fun_induction taint g states stack with
  | case1 states => rw [taint]
  | case2 states id rest h hu ih =>
    have hlt : id < (states.map u).size := by simpa using h
    rw [taint, dif_pos hlt, dif_pos (by simpa [hunmet] using hu), ih]
  | case3 states id rest h hu ih =>
    have hlt : id < (states.map u).size := by simpa using h
    have hmap : (states.map u).set id (states.map u)[id].setUnmet hlt =
        (states.set id states[id].setUnmet).map u := by
      rw [Array.map_set, hset, Array.getElem_map]
    rw [taint, dif_pos hlt, dif_neg (by simpa [hunmet] using hu), hmap, ih]
  | case4 states id rest h ih => rw [taint, dif_neg (by simpa using h), ih]

/-- No flag is dropped. -/
theorem taint_mono {states : Array PackageState} {stack : List Nat} {id : Nat}
    (ht : Tainted states id) : Tainted (g.taint states stack) id := by
  fun_induction taint g states stack with
  | case1 states => exact ht
  | case2 states top rest h hu ih => exact ih ht
  | case3 states top rest h hu ih => exact ih ((tainted_set_setUnmet h).2 (.inl ht))
  | case4 states top rest h ih => exact ih ht

/-- Every package on the stack is flagged. -/
theorem tainted_of_mem_stack {states : Array PackageState} {stack : List Nat} {id : Nat}
    (hid : id ∈ stack) (hlt : id < states.size) : Tainted (g.taint states stack) id := by
  fun_induction taint g states stack with
  | case1 states => cases hid
  | case2 states top rest h hu ih =>
    rcases List.mem_cons.1 hid with rfl | hid
    · exact taint_mono ((tainted_iff_getElem h).2 hu)
    · exact ih hid hlt
  | case3 states top rest h hu ih =>
    rcases List.mem_cons.1 hid with rfl | hid
    · exact taint_mono ((tainted_set_setUnmet h).2 (.inr rfl))
    · exact ih (List.mem_append_right _ hid) (by simpa using hlt)
  | case4 states top rest h ih =>
    rcases List.mem_cons.1 hid with rfl | hid
    · exact absurd hlt h
    · exact ih hid hlt

/-- The dependents of flagged packages are flagged or wait on the stack. -/
def Pending (g : Graph) (states : Array PackageState) (stack : List Nat) : Prop :=
  ∀ q, Tainted states q → ∀ p ∈ g.dependents q, p < states.size → Tainted states p ∨ p ∈ stack

/-- The walk ends with nothing pending. -/
theorem pending_taint {states : Array PackageState} {stack : List Nat}
    (hp : g.Pending states stack) : g.Pending (g.taint states stack) [] := by
  fun_induction taint g states stack with
  | case1 states => exact hp
  | case2 states top rest h hu ih =>
    apply ih
    intro q hq p hdep hlt
    rcases hp q hq p hdep hlt with ht | hs
    · exact .inl ht
    · rcases List.mem_cons.1 hs with rfl | hs
      · exact .inl ((tainted_iff_getElem h).2 hu)
      · exact .inr hs
  | case3 states top rest h hu ih =>
    apply ih
    intro q hq p hdep hlt
    rw [Array.size_set] at hlt
    rcases (tainted_set_setUnmet h).1 hq with hq | rfl
    · rcases hp q hq p hdep hlt with ht | hs
      · exact .inl ((tainted_set_setUnmet h).2 (.inl ht))
      · rcases List.mem_cons.1 hs with rfl | hs
        · exact .inl ((tainted_set_setUnmet h).2 (.inr rfl))
        · exact .inr (List.mem_append_right _ hs)
    · -- the package was flagged just now, and all its dependents went onto the stack
      exact .inr (List.mem_append_left _ hdep)
  | case4 states top rest h ih =>
    apply ih
    intro q hq p hdep hlt
    rcases hp q hq p hdep hlt with ht | hs
    · exact .inl ht
    · rcases List.mem_cons.1 hs with rfl | hs
      · exact absurd hlt h
      · exact .inr hs

/-- From a table without flags, the walk ends with a set of packages closed under dependents. -/
theorem tainted_of_dependent {states : Array PackageState} {stack : List Nat}
    (hclear : ∀ id, ¬Tainted states id) {p q : Nat} (hq : Tainted (g.taint states stack) q)
    (hp : p ∈ g.dependents q) (hlt : p < states.size) : Tainted (g.taint states stack) p := by
  have hpending : g.Pending states stack := fun q hq => absurd hq (hclear q)
  rcases pending_taint hpending q hq p hp (by simpa using hlt) with h | h
  · exact h
  · cases h

end Graph

end Depcheck

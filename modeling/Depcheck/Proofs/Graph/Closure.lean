import Depcheck.Proofs.Graph.Built
import Depcheck.Proofs.Graph.Reach

/-!
# What breaks with a package

The list of what breaks when a package is removed is found by a second walk over the dependents, which
notes packages in a table of its own and queues dependents at the end. It names exactly what rests on
the package in one step or more (`mem_dependentsClosure`), so the package itself when it lies on a
cycle. Both walks agree: the taint flags the packages that it starts from and what breaks with one of
them (`closure_walks_agree`).
-/

open Relation (ReflTransGen TransGen)

namespace Depcheck

namespace Graph

variable {g : Graph} {n : Nat}

/-! ## The dependents of a built graph -/

theorem of_mem_dependents_addMatches {owner requirement : Nat} {flags : EdgeFlags} (ids : List Nat)
    {p q : Nat} (h : p ∈ (g.addMatches owner requirement flags ids).dependents q) :
    p ∈ g.dependents q ∨ p = owner := by
  have hq : q < g.size := by
    rw [← size_addMatches ids]
    exact lt_size_of_mem_dependents h
  rcases (mem_dependents_addMatches ids hq).1 h with h | ⟨rfl, _⟩
  · exact .inl h
  · exact .inr rfl

/-- All dependents are packages of the graph. -/
theorem Built.lt_of_mem_dependents (h : Built n g) {p q : Nat} (hp : p ∈ g.dependents q) : p < n := by
  induction h with
  | empty =>
    rw [dependents_ofSize] at hp
    cases hp
  | single owner requirement flags target _ howner _ ih =>
    rcases of_mem_dependents_addMatches [target] hp with hp | rfl
    · exact ih hp
    · exact howner
  | multi owner requirement flags primary alternates _ howner _ hne _ ih =>
    rw [addMulti_eq_addMatches primary hne] at hp
    rcases of_mem_dependents_addMatches (primary :: alternates) hp with hp | rfl
    · exact ih hp
    · exact howner

/-! ## The second walk -/

/-- Is the package noted in the table? -/
def Found (found : Array Bool) (id : Nat) : Prop := found.getD id false = true

theorem found_iff_getElem {found : Array Bool} {id : Nat} (h : id < found.size) :
    Found found id ↔ found[id] = true := by
  rw [Found, getD_of_lt h]

theorem found_set {found : Array Bool} {i j : Nat} (h : i < found.size) :
    Found (found.set i true) j ↔ Found found j ∨ j = i :=
  flag_getD_set_iff id h rfl

theorem not_found_replicate (n id : Nat) : ¬Found (Array.replicate n false) id := by
  rw [Found, Array.getD_eq_getD_getElem?, Array.getElem?_replicate]
  split
  · exact Bool.noConfusion
  · exact Bool.noConfusion

theorem walk_findDependents {found : Array Bool} {queue : List Nat}
    (hdeps : ∀ q, ∀ p ∈ g.dependents q, p < found.size) (hqueue : ∀ i ∈ queue, i < found.size) :
    g.Walk (Found found) queue (Found (g.findDependents found queue)) := by
  fun_induction findDependents g found queue with
  | case1 found => exact .done
  | case2 found id rest h hf ih =>
    exact .skip ((found_iff_getElem h).2 hf) (ih hdeps (List.forall_mem_cons.1 hqueue).2)
  | case3 found id rest h hf ih =>
    apply Walk.visit
    · intro p
      exact found_set h
    · intro p
      rw [List.mem_append, or_comm]
      rfl
    · apply ih
      · simpa using hdeps
      · intro i hi
        rw [Array.size_set]
        rcases List.mem_append.1 hi with hi | hi
        · exact hqueue i (List.mem_cons_of_mem id hi)
        · exact hdeps id i hi
  | case4 found id rest h ih => exact absurd (hqueue id List.mem_cons_self) h

theorem dependentsClosure_pairwise (g : Graph) (id : Nat) :
    (g.dependentsClosure id).Pairwise (· < ·) :=
  List.pairwise_lt_range.filter _

/-- The list holds what rests on the package over one step or more. -/
theorem mem_dependentsClosure (hdeps : ∀ q, ∀ p ∈ g.dependents q, p < g.size) {p q : Nat} :
    p ∈ g.dependentsClosure q ↔ TransGen g.RestsOn p q := by
  have hsize : (Array.replicate g.size false).size = g.size := Array.size_replicate
  have hwalk : g.Walk (Found (Array.replicate g.size false)) (g.dependents q)
      (Found (g.findDependents (Array.replicate g.size false) (g.dependents q))) := by
    apply walk_findDependents
    · rw [hsize]
      exact hdeps
    · rw [hsize]
      exact hdeps q
  have hqueued : g.Queued (Found (Array.replicate g.size false)) (g.dependents q) :=
    fun r hr => absurd hr (not_found_replicate _ r)
  have hfound : Found (g.findDependents (Array.replicate g.size false) (g.dependents q)) p ↔
      TransGen g.RestsOn p q := by
    rw [hwalk.final_iff hqueued, or_iff_right (not_found_replicate _ p), TransGen.tail'_iff]
    constructor
    · rintro ⟨i, hi, hreach⟩
      exact ⟨i, hreach, hi⟩
    · rintro ⟨i, hreach, hi⟩
      exact ⟨i, hi, hreach⟩
  rw [dependentsClosure, List.mem_filter, List.mem_range]
  constructor
  · rintro ⟨_, h⟩
    exact hfound.1 h
  · intro h
    obtain ⟨r, hstep, _⟩ := TransGen.head'_iff.1 h
    exact ⟨hdeps r p hstep, hfound.2 h⟩

theorem Built.mem_dependentsClosure (h : Built n g) {p q : Nat} :
    p ∈ g.dependentsClosure q ↔ TransGen g.RestsOn p q := by
  apply Graph.mem_dependentsClosure
  rw [h.size_eq]
  exact fun q p => h.lt_of_mem_dependents

/-! ## Both walks -/

variable {states : Array PackageState} {initial : List Nat}

/-- A package is flagged when the walk starts from it, or when it breaks with a package that the walk
starts from. -/
theorem tainted_iff_closure (hg : Built n g) (hsize : states.size = n)
    (hclear : ∀ id, ¬Tainted states id) (hinitial : ∀ i ∈ initial, i < n) {q : Nat} :
    Tainted (g.taint states initial) q ↔
      q ∈ initial ∨ ∃ i ∈ initial, q ∈ g.dependentsClosure i := by
  have hdeps : ∀ q, ∀ p ∈ g.dependents q, p < states.size := by
    rw [hsize]
    exact fun q p => hg.lt_of_mem_dependents
  rw [tainted_taint_iff hclear hdeps (hsize ▸ hinitial)]
  constructor
  · rintro ⟨i, hi, hreach⟩
    rcases Relation.reflTransGen_iff_eq_or_transGen.1 hreach with rfl | hreach
    · exact .inl hi
    · exact .inr ⟨i, hi, hg.mem_dependentsClosure.2 hreach⟩
  · rintro (hq | ⟨i, hi, hreach⟩)
    · exact ⟨q, hq, .refl⟩
    · exact ⟨i, hi, (hg.mem_dependentsClosure.1 hreach).to_reflTransGen⟩

/-- On a graph that can be built, and from a table without flags, both walks agree. The taint flags the
packages that it starts from and all that breaks with one of them; it counts these packages and
changes nothing else. What breaks with a package is what rests on it, each package once and in
ascending order. -/
theorem closure_walks_agree (hg : Built n g) (hsize : states.size = n)
    (hclear : ∀ id, ¬Tainted states id) (hinitial : ∀ i ∈ initial, i < n) :
    (∀ q, Tainted (g.taint states initial) q ↔
      q ∈ initial ∨ ∃ i ∈ initial, q ∈ g.dependentsClosure i) ∧
    {q | Tainted (g.taint states initial) q}.encard = countUnmet (g.taint states initial) ∧
    (g.taint states initial).size = n ∧
    (∀ q, (g.taint states initial).getD q {} = states.getD q {} ∨
      (g.taint states initial).getD q {} = (states.getD q {}).setUnmet) ∧
    ∀ i, (g.dependentsClosure i).Pairwise (· < ·) ∧
      ∀ q, q ∈ g.dependentsClosure i ↔ TransGen g.RestsOn q i := by
  refine ⟨fun q => tainted_iff_closure hg hsize hclear hinitial, ?_, ?_, ?_, ?_⟩
  · exact PackageState.encard_flag PackageState.unmet rfl _
  · rw [size_taint, hsize]
  · exact getD_taint states initial
  · intro i
    exact ⟨dependentsClosure_pairwise g i, fun q => hg.mem_dependentsClosure⟩

/-- Two packages that need each other. One of them needs a third package too, and the other would be
served by a fourth as well. -/
def mutualGraph : Graph :=
  (((ofSize 4).addSingle 1 0 {} 0).addSingle 1 1 {} 2).addMulti 2 0 {} 1 [3]

theorem built_mutualGraph : Built 4 mutualGraph := by
  have hfirst : Built 4 ((ofSize 4).addSingle 1 0 {} 0) :=
    .single 1 0 {} 0 .empty (by decide) (by decide)
  have hsecond := hfirst.single 1 1 {} 2 (by decide) (by decide)
  exact hsecond.multi 2 0 {} 1 [3] (by decide) (by decide) (by decide) (by decide)

/-- Some of the packages are marked, or were found to be obsolete. -/
def mutualStates : Array PackageState := #[{}, { hand := true }, { obsoleted := true }, { dep := true }]

/-- The walk starts twice from the package that the others rest on. -/
theorem closure_walks_agree_mutual :
    Built 4 mutualGraph ∧ mutualStates.size = 4 ∧ (∀ id, ¬Tainted mutualStates id) ∧
      (∀ i ∈ [0, 0], i < 4) ∧
      mutualGraph.dependentsClosure 0 = [1, 2] ∧ mutualGraph.dependentsClosure 2 = [1, 2] ∧
      (∀ q, Tainted (mutualGraph.taint mutualStates [0, 0]) q ↔ q = 0 ∨ q ∈ [1, 2]) ∧
      {q | Tainted (mutualGraph.taint mutualStates [0, 0]) q}.encard = 3 ∧
      TransGen mutualGraph.RestsOn 2 2 := by
  have hsize : mutualStates.size = 4 := rfl
  have hclear : ∀ id, ¬Tainted mutualStates id := by
    have hflags : ∀ id < 4, (mutualStates.getD id {}).unmet = false := by decide
    intro id h
    have hlt : id < 4 := h.lt_size
    rw [Tainted, hflags id hlt] at h
    cases h
  have hinitial : ∀ i ∈ [0, 0], i < 4 := by decide
  have hfirst : mutualGraph.dependentsClosure 0 = [1, 2] := by cbv
  have hthird : mutualGraph.dependentsClosure 2 = [1, 2] := by cbv
  have hcount : countUnmet (mutualGraph.taint mutualStates [0, 0]) = 3 := by cbv
  obtain ⟨htainted, hencard, _, _, hclosure⟩ :=
    closure_walks_agree built_mutualGraph hsize hclear hinitial
  refine ⟨built_mutualGraph, hsize, hclear, hinitial, hfirst, hthird, ?_, ?_, ?_⟩
  · intro q
    rw [htainted]
    simp [hfirst]
  · rw [hencard, hcount]
    rfl
  · rw [← (hclosure 2).2 2, hthird]
    decide

end Graph

end Depcheck

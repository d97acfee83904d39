import Mathlib.Logic.Relation
import Depcheck.Proofs.Graph.Taint

/-!
# What a walk reaches

A package rests on another one when it stands among its dependents. A walk over the dependents takes
the packages of a queue one after the other, notes them and queues their dependents. In whatever
order it goes, it ends with what rests on the queue, over any number of steps, and nothing else
(`Walk.final_iff`): the least set that holds the queue and is closed under dependents. The taint is
such a walk (`tainted_taint_iff`).
-/

open Relation (ReflTransGen)

namespace Depcheck

namespace Graph

variable {g : Graph}

/-- Does the package `p` have an edge to `q`, as primary or as alternate, now or at some time? -/
def RestsOn (g : Graph) (p q : Nat) : Prop := p ∈ g.dependents q

/-- A walk that starts with the packages of `found` noted and ends with those of `final`. Where in
the queue the dependents go is left open. -/
inductive Walk (g : Graph) : (Nat → Prop) → List Nat → (Nat → Prop) → Prop
  | done {found : Nat → Prop} : Walk g found [] found
  /-- A package that is noted already is passed over. -/
  | skip {found final : Nat → Prop} {id : Nat} {rest : List Nat} :
      found id → Walk g found rest final → Walk g found (id :: rest) final
  /-- Any other is noted, and its dependents are queued. -/
  | visit {found found' final : Nat → Prop} {id : Nat} {rest queue : List Nat} :
      (∀ p, found' p ↔ found p ∨ p = id) → (∀ p, p ∈ queue ↔ g.RestsOn p id ∨ p ∈ rest) →
      Walk g found' queue final → Walk g found (id :: rest) final

/-- What rests on a noted package in one step is noted or queued. -/
def Queued (g : Graph) (found : Nat → Prop) (queue : List Nat) : Prop :=
  ∀ q, found q → ∀ p, g.RestsOn p q → found p ∨ p ∈ queue

variable {found final : Nat → Prop} {queue : List Nat}

/-- What rests on a noted package in any number of steps is noted, or rests on the queue. -/
theorem Queued.of_reach (h : g.Queued found queue) {p q : Nat} (hq : found q)
    (hreach : ReflTransGen g.RestsOn p q) :
    found p ∨ ∃ i ∈ queue, ReflTransGen g.RestsOn p i := by
  induction hreach using ReflTransGen.head_induction_on with
  | refl => exact .inl hq
  | @head p m hstep _ ih =>
    rcases ih with hm | ⟨i, hi, hrest⟩
    · rcases h m hm p hstep with hp | hp
      · exact .inl hp
      · exact .inr ⟨p, hp, .refl⟩
    · exact .inr ⟨i, hi, hrest.head hstep⟩

theorem Queued.skip {id : Nat} {rest : List Nat} (h : g.Queued found (id :: rest))
    (hid : found id) : g.Queued found rest := by
  intro q hq p hstep
  rcases h q hq p hstep with hp | hp
  · exact .inl hp
  · rcases List.mem_cons.1 hp with rfl | hp
    · exact .inl hid
    · exact .inr hp

theorem Queued.visit {found' : Nat → Prop} {id : Nat} {rest : List Nat}
    (h : g.Queued found (id :: rest)) (hfound : ∀ p, found' p ↔ found p ∨ p = id)
    (hqueue : ∀ p, p ∈ queue ↔ g.RestsOn p id ∨ p ∈ rest) : g.Queued found' queue := by
  intro q hq p hstep
  rw [hfound, hqueue]
  rcases (hfound q).1 hq with hq | rfl
  · rcases h q hq p hstep with hp | hp
    · exact .inl (.inl hp)
    · rcases List.mem_cons.1 hp with rfl | hp
      · exact .inl (.inr rfl)
      · exact .inr (.inr hp)
  · exact .inr (.inl hstep)

/-- A walk that starts with nothing unqueued ends with what was noted and what rests on the queue. -/
theorem Walk.final_iff (hwalk : g.Walk found queue final) (hqueued : g.Queued found queue) {p : Nat} :
    final p ↔ found p ∨ ∃ i ∈ queue, ReflTransGen g.RestsOn p i := by
  induction hwalk with
  | done => simp
  | @skip found final id rest hid _ ih =>
    have hrest : g.Queued found rest := hqueued.skip hid
    rw [ih hrest]
    constructor
    · rintro (hp | ⟨i, hi, hreach⟩)
      · exact .inl hp
      · exact .inr ⟨i, List.mem_cons_of_mem id hi, hreach⟩
    · rintro (hp | ⟨i, hi, hreach⟩)
      · exact .inl hp
      · rcases List.mem_cons.1 hi with rfl | hi
        · exact hrest.of_reach hid hreach
        · exact .inr ⟨i, hi, hreach⟩
  | @visit found found' final id rest queue hfound hqueue _ ih =>
    rw [ih (hqueued.visit hfound hqueue), hfound]
    constructor
    · rintro ((hp | rfl) | ⟨i, hi, hreach⟩)
      · exact .inl hp
      · exact .inr ⟨p, List.mem_cons_self, .refl⟩
      · rcases (hqueue i).1 hi with hstep | hi
        · exact .inr ⟨id, List.mem_cons_self, hreach.tail hstep⟩
        · exact .inr ⟨i, List.mem_cons_of_mem id hi, hreach⟩
    · rintro (hp | ⟨i, hi, hreach⟩)
      · exact .inl (.inl hp)
      · rcases List.mem_cons.1 hi with rfl | hi
        · -- the last step of the chain goes through a dependent that was queued just now
          rcases ReflTransGen.cases_tail hreach with rfl | ⟨m, hreach, hstep⟩
          · exact .inl (.inr rfl)
          · exact .inr ⟨m, (hqueue m).2 (.inl hstep), hreach⟩
        · exact .inr ⟨i, (hqueue i).2 (.inr hi), hreach⟩

/-! ## The taint -/

variable {states : Array PackageState} {stack : List Nat}

theorem walk_taint (hdeps : ∀ q, ∀ p ∈ g.dependents q, p < states.size)
    (hstack : ∀ i ∈ stack, i < states.size) :
    g.Walk (Tainted states) stack (Tainted (g.taint states stack)) := by
  fun_induction taint g states stack with
  | case1 states => exact .done
  | case2 states id rest h hu ih =>
    exact .skip ((tainted_iff_getElem h).2 hu) (ih hdeps (List.forall_mem_cons.1 hstack).2)
  | case3 states id rest h hu ih =>
    apply Walk.visit
    · intro p
      exact tainted_set_setUnmet h
    · intro p
      exact List.mem_append
    · apply ih
      · simpa using hdeps
      · intro i hi
        rw [Array.size_set]
        rcases List.mem_append.1 hi with hi | hi
        · exact hdeps id i hi
        · exact hstack i (List.mem_cons_of_mem id hi)
  | case4 states id rest h ih => exact absurd (hstack id List.mem_cons_self) h

/-- From a table without flags, the walk flags exactly what rests on the stack. -/
theorem tainted_taint_iff (hclear : ∀ id, ¬Tainted states id)
    (hdeps : ∀ q, ∀ p ∈ g.dependents q, p < states.size) (hstack : ∀ i ∈ stack, i < states.size)
    {p : Nat} :
    Tainted (g.taint states stack) p ↔ ∃ i ∈ stack, ReflTransGen g.RestsOn p i := by
  have hqueued : g.Queued (Tainted states) stack := fun q hq => absurd hq (hclear q)
  rw [(walk_taint hdeps hstack).final_iff hqueued]
  exact or_iff_right (hclear p)

end Graph

end Depcheck

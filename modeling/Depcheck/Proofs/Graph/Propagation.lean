import Depcheck.Proofs.Graph.Reach
import Depcheck.Verification.Conflict

/-!
# Flags that spread in place

Two passes of a run set flags in the table of states while they walk over the graph, and stop at an id
without an entry. `propagate?` flags the packages that it is given, then each dependent when it comes
onto the stack. `obsolete?` flags the targets of obsoletes edges and counts the flags that it sets. On
a table without the flag they end where `taint` and `markObsoleted` end, with the number of flagged
packages (`propagate?_eq`, `obsolete?_eq`).
-/

open Relation (ReflTransGen)

namespace Depcheck

/-! ## Counting a flag that is set -/

/-- Setting one more member of a table makes one more. -/
theorem countP_set_of_not {α : Type} {p : α → Bool} {xs : Array α} {i : Nat} (h : i < xs.size) {a : α}
    (hold : p xs[i] = false) (hnew : p a = true) : (xs.set i a h).countP p = xs.countP p + 1 := by
  rw [Array.countP_set]
  simp [hold, hnew]

namespace Graph

variable {g : Graph} {states : Array PackageState}

/-! ## Packages that cannot be installed -/

/-- The table of states and the packages whose dependents are still to be flagged. -/
structure Spreading where
  states : Array PackageState
  stack : List Nat := []

namespace Spreading

variable {s s' : Spreading} {row : List Nat} {p q : Nat}

/-- Flags a package of the table and puts it onto the stack. -/
def push (s : Spreading) (id : Nat) (h : id < s.states.size) : Spreading where
  states := s.states.set id s.states[id].setUnmet
  stack := id :: s.stack

def push? (s : Spreading) (id : Nat) : Option Spreading :=
  if h : id < s.states.size then some (s.push id h) else none

/-- Flags a dependent and puts it onto the stack, unless it is flagged already. -/
def reach? (s : Spreading) (id : Nat) : Option Spreading :=
  if h : id < s.states.size then
    if s.states[id].unmet then some s else some (s.push id h)
  else none

theorem size_push {id : Nat} (h : id < s.states.size) :
    (s.push id h).states.size = s.states.size := Array.size_set h

theorem tainted_push {id : Nat} (h : id < s.states.size) :
    Tainted (s.push id h).states p ↔ Tainted s.states p ∨ p = id :=
  tainted_set_setUnmet h

/-- What waits for its dependents, with every unflagged package counted twice. -/
def weight (s : Spreading) : Nat := 2 * s.states.countP (!·.unmet) + s.stack.length

theorem weight_reach? {id : Nat} (h : s.reach? id = some s') : s'.weight ≤ s.weight := by
  unfold reach? at h
  split at h
  · next hid =>
    split at h
    · cases h
      exact Nat.le_refl _
    · next hu =>
      cases h
      have hlt := countP_set_lt (p := fun s : PackageState => !s.unmet)
        (a := s.states[id].setUnmet) hid (by simpa using hu) rfl
      simp only [weight, push, List.length_cons]
      omega
  · cases h

theorem weight_foldlM (h : row.foldlM reach? s = some s') : s'.weight ≤ s.weight := by
  induction row generalizing s with
  | nil =>
    cases h
    exact Nat.le_refl _
  | cons id rest ih =>
    rw [List.foldlM_cons] at h
    obtain ⟨m, hm, hrest⟩ := Option.bind_eq_some_iff.1 h
    exact (ih hrest).trans (weight_reach? hm)

/-- What the steps of a spreading change: the flag goes up for some packages, and nothing else. -/
structure Grows (s s' : Spreading) : Prop where
  size : s'.states.size = s.states.size
  getD : ∀ id, s'.states.getD id {} = s.states.getD id {} ∨
    s'.states.getD id {} = (s.states.getD id {}).setUnmet

theorem Grows.refl (s : Spreading) : s.Grows s := ⟨rfl, fun _ => .inl rfl⟩

theorem Grows.trans {t : Spreading} (h : s.Grows s') (h' : s'.Grows t) : s.Grows t where
  size := h'.size.trans h.size
  getD := by
    intro id
    rcases h'.getD id with heq' | heq'
    · rw [heq']
      exact h.getD id
    · rcases h.getD id with heq | heq
      · exact .inr (by rw [heq', heq])
      · exact .inr (by rw [heq', heq]; rfl)

theorem grows_push {id : Nat} (h : id < s.states.size) : s.Grows (s.push id h) where
  size := size_push h
  getD := by
    intro other
    show (s.states.set id _).getD other {} = _ ∨ (s.states.set id _).getD other {} = _
    rw [getD_set h]
    by_cases heq : id = other
    · subst heq
      rw [if_pos rfl, getD_of_lt h]
      exact .inr rfl
    · rw [if_neg heq]
      exact .inl rfl

/-- A flag stays up. -/
theorem Grows.tainted (h : s.Grows s') (hp : Tainted s.states p) : Tainted s'.states p := by
  unfold Tainted at hp ⊢
  rcases h.getD p with heq | heq
  · rw [heq]
    exact hp
  · rw [heq]
    rfl

/-- The packages that a pass starts from are flagged and on the stack. -/
theorem foldlM_push?_eq (hrow : ∀ id ∈ row, id < s.states.size) :
    ∃ s', row.foldlM push? s = some s' ∧ s.Grows s' ∧
      (∀ p, Tainted s'.states p ↔ Tainted s.states p ∨ p ∈ row) ∧
      ∀ p, p ∈ s'.stack ↔ p ∈ s.stack ∨ p ∈ row := by
  induction row generalizing s with
  | nil => exact ⟨s, rfl, .refl s, by simp, by simp⟩
  | cons id rest ih =>
    have hid : id < s.states.size := hrow id List.mem_cons_self
    obtain ⟨s', hs', hgrows, htainted, hstack⟩ := @ih (s.push id hid) (by
      intro i hi
      rw [size_push]
      exact hrow i (List.mem_cons_of_mem id hi))
    refine ⟨s', ?_, (grows_push hid).trans hgrows, ?_, ?_⟩
    · rw [List.foldlM_cons, push?, dif_pos hid]
      exact hs'
    · intro p
      rw [htainted, tainted_push, List.mem_cons, or_assoc]
    · intro p
      rw [hstack, push, List.mem_cons, List.mem_cons]
      tauto

/-- The dependents are flagged, and those that were not are on the stack. -/
theorem foldlM_reach?_eq (hrow : ∀ id ∈ row, id < s.states.size) :
    ∃ s', row.foldlM reach? s = some s' ∧ s.Grows s' ∧
      (∀ p, Tainted s'.states p ↔ Tainted s.states p ∨ p ∈ row) ∧
      ∀ p, p ∈ s'.stack ↔ p ∈ s.stack ∨ p ∈ row ∧ ¬Tainted s.states p := by
  induction row generalizing s with
  | nil => exact ⟨s, rfl, .refl s, by simp, by simp⟩
  | cons id rest ih =>
    have hid : id < s.states.size := hrow id List.mem_cons_self
    have hrest : ∀ i ∈ rest, i < s.states.size := fun i hi => hrow i (List.mem_cons_of_mem id hi)
    rw [List.foldlM_cons, reach?, dif_pos hid]
    by_cases hu : s.states[id].unmet = true
    · have hid' : Tainted s.states id := (tainted_iff_getElem hid).2 hu
      obtain ⟨s', hs', hgrows, htainted, hstack⟩ := ih hrest
      refine ⟨s', ?_, hgrows, ?_, ?_⟩
      · rw [if_pos hu]
        exact hs'
      · intro p
        rw [htainted, List.mem_cons]
        constructor
        · tauto
        · rintro (hp | rfl | hp)
          · exact .inl hp
          · exact .inl hid'
          · exact .inr hp
      · intro p
        rw [hstack, List.mem_cons]
        constructor
        · tauto
        · rintro (hp | ⟨rfl | hp, hclean⟩)
          · exact .inl hp
          · exact absurd hid' hclean
          · exact .inr ⟨hp, hclean⟩
    · have hid' : ¬Tainted s.states id := fun h => hu ((tainted_iff_getElem hid).1 h)
      obtain ⟨s', hs', hgrows, htainted, hstack⟩ := @ih (s.push id hid) (by
        intro i hi
        rw [size_push]
        exact hrest i hi)
      refine ⟨s', ?_, (grows_push hid).trans hgrows, ?_, ?_⟩
      · rw [if_neg hu]
        exact hs'
      · intro p
        rw [htainted, tainted_push, List.mem_cons, or_assoc]
      · intro p
        rw [hstack, tainted_push, push, List.mem_cons, List.mem_cons]
        constructor
        · rintro ((rfl | hp) | ⟨hp, hclean⟩)
          · exact .inr ⟨.inl rfl, hid'⟩
          · exact .inl hp
          · exact .inr ⟨.inr hp, fun h => hclean (.inl h)⟩
        · rintro (hp | ⟨rfl | hp, hclean⟩)
          · exact .inl (.inr hp)
          · exact .inl (.inl rfl)
          · by_cases heq : p = id
            · exact .inl (.inl heq)
            · exact .inr ⟨hp, fun h => h.elim hclean heq⟩

end Spreading

/-- Takes the packages from the stack and flags their dependents. -/
def spread? (g : Graph) (s : Spreading) : Option (Array PackageState) :=
  match _hs : s.stack with
  | [] => some s.states
  | id :: rest =>
    if id < g.size then
      match _hnext : (g.dependents id).foldlM Spreading.reach? { s with stack := rest } with
      | none => none
      | some s' => g.spread? s'
    else none
termination_by s.weight
decreasing_by
  have := Spreading.weight_foldlM _hnext
  simp only [Spreading.weight, _hs, List.length_cons] at this ⊢
  omega

/-- Flags the packages of a list and all that depends on them, and counts the flagged packages. -/
def propagate? (g : Graph) (states : Array PackageState) (initial : List Nat) :
    Option (Array PackageState × Nat) := do
  let s ← initial.foldlM Spreading.push? { states }
  let final ← g.spread? s
  return (final, countUnmet final)

namespace Spreading

variable {s : Spreading}

/-- What waits on the stack is flagged, and a flagged package that does not wait has flagged
dependents. -/
structure Invariant (g : Graph) (s : Spreading) : Prop where
  size : s.states.size = g.size
  stack : ∀ id ∈ s.stack, id < g.size
  flagged : ∀ id ∈ s.stack, Tainted s.states id
  pending : ∀ q, Tainted s.states q → q ∈ s.stack ∨ ∀ p, g.RestsOn p q → Tainted s.states p

/-- Between the table at the start and the one at the end, what rests on flagged packages is flagged,
and the flags are closed under dependents. -/
structure Ends (g : Graph) (s : Spreading) (final : Array PackageState) : Prop where
  grows : s.Grows ⟨final, []⟩
  sound : ∀ p, Tainted final p → ∃ q, Tainted s.states q ∧ ReflTransGen g.RestsOn p q
  closed : ∀ q, Tainted final q → ∀ p, g.RestsOn p q → Tainted final p

/-- A package is taken from the stack and its dependents are flagged. -/
theorem Invariant.step (h : s.Invariant g) {id : Nat} {rest : List Nat} (hs : s.stack = id :: rest)
    (hdependents : ∀ p ∈ g.dependents id, p < g.size) :
    ∃ s', (g.dependents id).foldlM reach? { s with stack := rest } = some s' ∧ s'.Invariant g ∧
      s.Grows s' ∧ ∀ p, Tainted s'.states p ↔ Tainted s.states p ∨ p ∈ g.dependents id := by
  have hstack := h.stack
  have hflagged := h.flagged
  rw [hs] at hstack hflagged
  obtain ⟨s', hs', hgrows, htainted, hnew⟩ :=
    @foldlM_reach?_eq { s with stack := rest } (g.dependents id) (by
      intro p hp
      exact h.size ▸ hdependents p hp)
  refine ⟨s', hs', ⟨hgrows.size.trans h.size, ?_, ?_, ?_⟩, ⟨hgrows.size, hgrows.getD⟩, htainted⟩
  · intro p hp
    rcases (hnew p).1 hp with hp | ⟨hp, _⟩
    · exact hstack p (List.mem_cons_of_mem id hp)
    · exact hdependents p hp
  · intro p hp
    rcases (hnew p).1 hp with hp | ⟨hp, _⟩
    · exact hgrows.tainted (hflagged p (List.mem_cons_of_mem id hp))
    · exact (htainted p).2 (.inr hp)
  · intro q hq
    by_cases hold : Tainted s.states q
    · rcases h.pending q hold with hwait | hdone
      · rw [hs] at hwait
        rcases List.mem_cons.1 hwait with rfl | hwait
        · -- its dependents have just been flagged
          exact .inr fun p hp => (htainted p).2 (.inr hp)
        · exact .inl ((hnew q).2 (.inl hwait))
      · exact .inr fun p hp => hgrows.tainted (hdone p hp)
    · rcases (htainted q).1 hq with hold' | hrow
      · exact absurd hold' hold
      · exact .inl ((hnew q).2 (.inr ⟨hrow, hold⟩))

end Spreading

theorem spread?_eq {s : Spreading} (h : s.Invariant g)
    (hdependents : ∀ id, ∀ p ∈ g.dependents id, p < g.size) :
    ∃ final, g.spread? s = some final ∧ s.Ends g final := by
  fun_induction spread? g s with
  | case1 s hs =>
    refine ⟨s.states, rfl, ⟨rfl, fun _ => .inl rfl⟩, fun p hp => ⟨p, hp, .refl⟩, ?_⟩
    intro q hq
    rcases h.pending q hq with hwait | hdone
    · rw [hs] at hwait
      cases hwait
    · exact hdone
  | case2 s id rest hs hid hnone =>
    obtain ⟨s', hs', _⟩ := h.step hs (hdependents id)
    rw [hnone] at hs'
    cases hs'
  | case3 s id rest hs hid s' hnext ih =>
    obtain ⟨s'', hs'', hinv, hgrows, htainted⟩ := h.step hs (hdependents id)
    obtain rfl : s' = s'' := Option.some.inj (hnext.symm.trans hs'')
    obtain ⟨final, hfinal, hends⟩ := ih hinv
    refine ⟨final, hfinal, hgrows.trans hends.grows, ?_, hends.closed⟩
    intro p hp
    obtain ⟨q, hq, hreach⟩ := hends.sound p hp
    rcases (htainted q).1 hq with hq | hrow
    · exact ⟨q, hq, hreach⟩
    · exact ⟨id, h.flagged id (hs ▸ List.mem_cons_self), hreach.tail hrow⟩
  | case4 s id rest hs hid => exact absurd (h.stack id (hs ▸ List.mem_cons_self)) hid

/-- Two tables in which the flag went up for the same packages are the same. -/
theorem eq_of_flags {xs ys : Array PackageState} (hclear : ∀ id, ¬Tainted states id)
    (hx : xs.size = states.size) (hy : ys.size = states.size)
    (hxs : ∀ id, xs.getD id {} = states.getD id {} ∨ xs.getD id {} = (states.getD id {}).setUnmet)
    (hys : ∀ id, ys.getD id {} = states.getD id {} ∨ ys.getD id {} = (states.getD id {}).setUnmet)
    (hflags : ∀ id, Tainted xs id ↔ Tainted ys id) : xs = ys := by
  have hsame : ∀ id, xs.getD id {} = ys.getD id {} := by
    intro id
    have hclean := hclear id
    have hflag := hflags id
    unfold Tainted at hclean hflag
    rcases hxs id with hxid | hxid <;> rcases hys id with hyid | hyid
    · rw [hxid, hyid]
    · rw [hxid, hyid] at hflag
      exact absurd (hflag.2 rfl) hclean
    · rw [hxid, hyid] at hflag
      exact absurd (hflag.1 rfl) hclean
    · rw [hxid, hyid]
  apply Array.ext
  · rw [hx, hy]
  · intro i hi hi'
    rw [← getD_of_lt hi {}, ← getD_of_lt hi' {}]
    exact hsame i

/-- On a table without flags it does not matter whether a package is flagged when it comes onto the
stack or when it is taken from it. -/
theorem propagate?_eq {initial : List Nat} (hsize : states.size = g.size)
    (hclear : ∀ id, ¬Tainted states id) (hdependents : ∀ id, ∀ p ∈ g.dependents id, p < g.size)
    (hinitial : ∀ id ∈ initial, id < g.size) :
    g.propagate? states initial =
      some (g.taint states initial, countUnmet (g.taint states initial)) := by
  obtain ⟨s, hs, hgrows, htainted, hstack⟩ :=
    @Spreading.foldlM_push?_eq { states } initial (by simpa [hsize] using hinitial)
  have hflags : ∀ p, Tainted s.states p ↔ p ∈ initial := by
    intro p
    rw [htainted]
    exact or_iff_right (hclear p)
  have hwaits : ∀ p, p ∈ s.stack ↔ p ∈ initial := by
    intro p
    rw [hstack]
    exact or_iff_right List.not_mem_nil
  have hstart : s.Invariant g :=
    { size := hgrows.size.trans hsize
      stack := fun p hp => hinitial p ((hwaits p).1 hp)
      flagged := fun p hp => (hflags p).2 ((hwaits p).1 hp)
      pending := fun p hp => .inl ((hwaits p).2 ((hflags p).1 hp)) }
  obtain ⟨final, hfinal, hends⟩ := spread?_eq hstart hdependents
  have hchanges := hgrows.trans hends.grows
  have heq : final = g.taint states initial := by
    refine eq_of_flags hclear hchanges.size (size_taint states initial) hchanges.getD
      (getD_taint states initial) ?_
    intro p
    rw [tainted_taint_iff hclear (hsize ▸ hdependents) (hsize ▸ hinitial)]
    constructor
    · intro hp
      obtain ⟨q, hq, hreach⟩ := hends.sound p hp
      exact ⟨q, (hflags q).1 hq, hreach⟩
    · rintro ⟨i, hi, hreach⟩
      have hflag : Tainted final i := hends.grows.tainted ((hflags i).2 hi)
      induction hreach using ReflTransGen.head_induction_on with
      | refl => exact hflag
      | head hstep _ ih => exact hends.closed _ ih _ hstep
  rw [propagate?, hs]
  show (g.spread? s).bind _ = _
  rw [hfinal, heq]
  rfl

/-! ## Obsolete packages -/

/-- Flags the target of an obsoletes edge, and counts it unless it is flagged already. -/
def flagTarget? (found : Array PackageState × Nat) (e : ConflictEdge) :
    Option (Array PackageState × Nat) :=
  if e.flags.obsolete then
    if h : e.target < found.1.size then
      if found.1[e.target].obsoleted then some found
      else some (found.1.set e.target found.1[e.target].setObsoleted, found.2 + 1)
    else none
  else some found

/-- Goes through the conflict edges of a package that can be installed. -/
def obsoleteBy? (g : Graph) (found : Array PackageState × Nat) (id : Nat) :
    Option (Array PackageState × Nat) :=
  if h : id < found.1.size then
    if found.1[id].unmet then some found else (g.conflicts id).foldlM flagTarget? found
  else none

/-- Flags every package that an installable package makes obsolete, and counts the flags it sets. -/
def obsolete? (g : Graph) (states : Array PackageState) : Option (Array PackageState × Nat) :=
  (List.range g.size).foldlM g.obsoleteBy? (states, 0)

/-- Flagging an obsolete package again changes nothing. -/
theorem modify_setObsoleted {i : Nat} (h : i < states.size) :
    states.modify i .setObsoleted =
      if states[i].obsoleted then states else states.set i states[i].setObsoleted := by
  rw [modify_eq_set h]
  split
  · next hflag =>
    have hsame : states[i].setObsoleted = states[i] := by
      show { states[i] with obsoleted := true } = states[i]
      rw [← hflag]
    rw [hsame, Array.set_getElem_self]
  · rfl

/-- The table after flags for some more packages, and the count that goes with it. -/
structure Flagged (found : Array PackageState × Nat) (ids : List Nat)
    (found' : Array PackageState × Nat) : Prop where
  states : found'.1 = ids.foldl (fun states id => states.modify id .setObsoleted) found.1
  count : found'.2 + countObsoleted found.1 = found.2 + countObsoleted found'.1

variable {found found' : Array PackageState × Nat} {ids later : List Nat}

theorem Flagged.nil (found : Array PackageState × Nat) : Flagged found [] found := ⟨rfl, rfl⟩

theorem Flagged.append {final : Array PackageState × Nat} (h : Flagged found ids found')
    (h' : Flagged found' later final) : Flagged found (ids ++ later) final where
  states := by rw [h'.states, h.states, List.foldl_append]
  count := by
    have := h.count
    have := h'.count
    omega

theorem Flagged.size (h : Flagged found ids found') : found'.1.size = found.1.size := by
  rw [h.states, PackageState.size_foldl_modify]

/-- No other flag is touched. -/
theorem Flagged.unmet (h : Flagged found ids found') (id : Nat) :
    (found'.1.getD id {}).unmet = (found.1.getD id {}).unmet := by
  rw [h.states]
  exact PackageState.flag_foldl_modify PackageState.unmet (f := PackageState.setObsoleted)
    (fun _ => rfl) ids

theorem flagTarget?_eq {e : ConflictEdge} (hobsolete : e.flags.obsolete = true)
    (h : e.target < found.1.size) :
    ∃ found', flagTarget? found e = some found' ∧ Flagged found [e.target] found' := by
  have hmodify : [e.target].foldl (fun states id => states.modify id .setObsoleted) found.1 =
      found.1.modify e.target .setObsoleted := rfl
  rw [flagTarget?, if_pos hobsolete, dif_pos h]
  by_cases hflag : found.1[e.target].obsoleted = true
  · refine ⟨found, if_pos hflag, ?_, rfl⟩
    rw [hmodify, modify_setObsoleted h, if_pos hflag]
  · refine ⟨_, if_neg hflag, ?_, ?_⟩
    · rw [hmodify, modify_setObsoleted h, if_neg hflag]
    · have hmore : countObsoleted (found.1.set e.target found.1[e.target].setObsoleted) =
          countObsoleted found.1 + 1 :=
        countP_set_of_not h (Bool.eq_false_of_not_eq_true hflag) rfl
      rw [hmore, Nat.add_right_comm, Nat.add_assoc]

theorem foldlM_flagTarget?_eq {row : List ConflictEdge} (h : ∀ e ∈ row, e.target < found.1.size) :
    ∃ found', row.foldlM flagTarget? found = some found' ∧
      Flagged found ((row.filter (·.flags.obsolete)).map ConflictEdge.target) found' := by
  induction row generalizing found with
  | nil => exact ⟨found, rfl, .nil found⟩
  | cons e rest ih =>
    rw [List.foldlM_cons, List.filter_cons]
    by_cases hobsolete : e.flags.obsolete = true
    · obtain ⟨mid, hmid, hflagged⟩ := flagTarget?_eq hobsolete (h e List.mem_cons_self)
      obtain ⟨found', hfound', hrest⟩ := @ih mid (by
        intro a ha
        rw [hflagged.size]
        exact h a (List.mem_cons_of_mem e ha))
      refine ⟨found', ?_, ?_⟩
      · rw [hmid]
        exact hfound'
      · rw [if_pos hobsolete]
        exact hflagged.append hrest
    · obtain ⟨found', hfound', hrest⟩ := ih fun a ha => h a (List.mem_cons_of_mem e ha)
      refine ⟨found', ?_, ?_⟩
      · rw [flagTarget?, if_neg hobsolete]
        exact hfound'
      · rw [if_neg hobsolete]
        exact hrest

theorem obsoleteBy?_eq {id : Nat} (hid : id < found.1.size)
    (hconflicts : ∀ e ∈ g.conflicts id, e.target < found.1.size) :
    ∃ found', g.obsoleteBy? found id = some found' ∧
      Flagged found (if (found.1.getD id {}).unmet then []
        else ((g.conflicts id).filter (·.flags.obsolete)).map ConflictEdge.target) found' := by
  rw [obsoleteBy?, dif_pos hid, getD_of_lt hid]
  by_cases hunmet : found.1[id].unmet = true
  · rw [if_pos hunmet, if_pos hunmet]
    exact ⟨found, rfl, .nil found⟩
  · rw [if_neg hunmet, if_neg hunmet]
    exact foldlM_flagTarget?_eq hconflicts

/-- On a table without the flag, the flags that are set on the way are counted one by one. -/
theorem obsolete?_eq (hsize : states.size = g.size)
    (hconflicts : ∀ id, ∀ e ∈ g.conflicts id, e.target < g.size)
    (hclear : countObsoleted states = 0) :
    g.obsolete? states =
      some (g.markObsoleted states, countObsoleted (g.markObsoleted states)) := by
  have hids : ∀ ids : List Nat, (∀ id ∈ ids, id < g.size) →
      ∃ found, ids.foldlM g.obsoleteBy? (states, 0) = some found ∧
        Flagged (states, 0) (ids.flatMap fun id => if (states.getD id {}).unmet then []
          else ((g.conflicts id).filter (·.flags.obsolete)).map ConflictEdge.target) found := by
    intro ids hids
    induction ids using List.reverseRecOn with
    | nil => exact ⟨_, rfl, .nil _⟩
    | append_singleton ids id ih =>
      obtain ⟨found, hfound, hflagged⟩ := ih fun i hi => hids i (List.mem_append_left _ hi)
      have hlt : found.1.size = g.size := hflagged.size.trans hsize
      obtain ⟨found', hfound', hlast⟩ := @obsoleteBy?_eq g found id
        (hlt ▸ hids id (List.mem_append_right _ List.mem_cons_self)) (hlt ▸ hconflicts id)
      -- the passes before this one left the other flag as it was
      rw [hflagged.unmet id] at hlast
      refine ⟨found', ?_, ?_⟩
      · rw [List.foldlM_append, hfound]
        show (g.obsoleteBy? found id).bind _ = _
        rw [hfound']
        rfl
      · rw [List.flatMap_append, List.flatMap_singleton]
        exact hflagged.append hlast
  obtain ⟨⟨final, n⟩, hfinal, hflagged⟩ := hids (List.range g.size) fun _ => List.mem_range.1
  have hstates : final = g.markObsoleted states := hflagged.states
  have hcount : n + countObsoleted states = 0 + countObsoleted final := hflagged.count
  rw [hclear, Nat.zero_add] at hcount
  rw [obsolete?, hfinal, ← hstates, ← hcount]
  rfl

end Graph

end Depcheck

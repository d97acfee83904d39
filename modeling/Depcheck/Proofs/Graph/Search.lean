import Depcheck.Proofs.Graph.Loops

/-!
# The search

`Invariant` is what the depth-first search keeps true at every step: progress agrees with the stack
and with what has been emitted; each edge of a package on the stack is still to be looked at, or
settled, or leads to the package above; each edge of an emitted package leads to one emitted
earlier, unless it was skipped; and the loops are genuine, each with an edge of its own. There is
one lemma for each kind of step, and `invariant_run` and `invariant_all` put them together.
-/

namespace Depcheck

namespace Search

variable {next : Nat → List Nat} {n : Nat} {s : Search} {id target : Nat} {targets : List Nat}
  {stack rest : List Frame}

/-- No target is listed twice, and both ends of every edge are among the `n` packages. -/
structure Proper (next : Nat → List Nat) (n : Nat) : Prop where
  nodup : ∀ p, (next p).Nodup
  lt : ∀ p, ∀ t ∈ next p, p < n ∧ t < n

/-- The edge from `p` to `t` needs no further look: `t` is emitted, or the edge was skipped. -/
def Settled (s : Search) (p t : Nat) : Prop := t ∈ s.emitted ∨ Skipped s.loops p t

/-- The edge from `p` to `t` lies behind the search. -/
def Passed (s : Search) (stack : List Frame) (p t : Nat) : Prop :=
  p ∈ s.emitted ∨ ∃ f ∈ stack, f.id = p ∧ t ∉ f.targets

/-- Progress agrees with the stack and with what has been emitted, and no package is on both or
twice on one. -/
structure Coloured (n : Nat) (s : Search) (stack : List Frame) : Prop where
  size : s.progress.size = n
  nodup : (stack.map Frame.id ++ s.emitted).Nodup
  done : ∀ p (h : p < s.progress.size), s.progress[p] = .done ↔ p ∈ s.emitted
  entered : ∀ p (h : p < s.progress.size), s.progress[p] = .entered ↔ p ∈ stack.map Frame.id
  lt : ∀ p ∈ stack.map Frame.id ++ s.emitted, p < n

/-- Every edge of a package on the stack is still to be looked at, or settled, or leads to `child`,
the package above it. -/
def Accounts (next : Nat → List Nat) (s : Search) : Option Nat → List Frame → Prop
  | _, [] => True
  | child, f :: rest =>
    f.targets <:+ next f.id ∧ (∀ c, child = some c → c ∈ next f.id) ∧
      (∀ t ∈ next f.id, t ∈ f.targets ∨ s.Settled f.id t ∨ child = some t) ∧
      Accounts next s (some f.id) rest

/-- The loops are genuine, and each has an edge of its own that lies behind the search. -/
structure Reported (next : Nat → List Nat) (s : Search) (stack : List Frame) : Prop where
  genuine : ∀ l ∈ s.loops, IsLoop (fun p t => t ∈ next p) l
  unique : (s.loops.map fun l => (l.broken, l.cycle.head?)).Nodup
  passed : ∀ p t, Skipped s.loops p t → s.Passed stack p t

/-- What every step of the search keeps true. -/
structure Invariant (next : Nat → List Nat) (n : Nat) (s : Search) (stack : List Frame) : Prop where
  coloured : s.Coloured n stack
  accounts : s.Accounts next none stack
  ordered : ∀ p ∈ s.emitted, ∀ t ∈ next p, [p, t].Sublist s.emitted ∨ Skipped s.loops p t
  reported : s.Reported next stack

/-! ## Progress -/

namespace Coloured

theorem not_mem_of_top (h : s.Coloured n (⟨id, targets⟩ :: rest)) :
    id ∉ rest.map Frame.id ∧ id ∉ s.emitted := by
  have hid : id ∉ rest.map Frame.id ++ s.emitted := (List.nodup_cons.1 h.nodup).1
  rwa [List.mem_append, not_or] at hid

theorem emit (h : s.Coloured n (⟨id, targets⟩ :: rest)) : (s.emit id).Coloured n rest := by
  have hperm : (rest.map Frame.id ++ id :: s.emitted).Perm
      (id :: (rest.map Frame.id ++ s.emitted)) := List.perm_middle
  have hrest := h.not_mem_of_top.1
  constructor
  case size =>
    rw [Search.emit, Array.size_setIfInBounds]
    exact h.size
  case nodup =>
    exact hperm.nodup_iff.2 h.nodup
  case done =>
    intro p hp
    simp only [Search.emit, Array.size_setIfInBounds] at hp
    simp only [Search.emit, Array.getElem_setIfInBounds hp, List.mem_cons]
    split
    · next heq => simp [heq]
    · next hne =>
      rw [h.done p hp]
      simp [Ne.symm hne]
  case entered =>
    intro p hp
    simp only [Search.emit, Array.size_setIfInBounds] at hp
    simp only [Search.emit, Array.getElem_setIfInBounds hp]
    split
    · next heq =>
      subst heq
      simp only [reduceCtorEq, false_iff]
      exact hrest
    · next hne =>
      rw [h.entered p hp]
      simp [Ne.symm hne]
  case lt =>
    intro p hp
    exact h.lt p (hperm.mem_iff.1 hp)

theorem not_mem_of_fresh (h : s.Coloured n stack) (ht : target < s.progress.size)
    (hfresh : s.progress[target] = .fresh) : target ∉ stack.map Frame.id ∧ target ∉ s.emitted := by
  rw [← h.entered target ht, ← h.done target ht, hfresh]
  exact ⟨Progress.noConfusion, Progress.noConfusion⟩

theorem enter (h : s.Coloured n stack) (ht : target < s.progress.size)
    (hfresh : s.progress[target] = .fresh) (targets : List Nat) :
    (s.enter target ht).Coloured n (⟨target, targets⟩ :: stack) := by
  obtain ⟨hstack, hemitted⟩ := h.not_mem_of_fresh ht hfresh
  have hnew : target ∉ stack.map Frame.id ++ s.emitted := by
    rw [List.mem_append, not_or]
    exact ⟨hstack, hemitted⟩
  constructor
  case size =>
    rw [Search.enter, Array.size_set]
    exact h.size
  case nodup =>
    exact List.nodup_cons.2 ⟨hnew, h.nodup⟩
  case done =>
    intro p hp
    simp only [Search.enter, Array.size_set] at hp
    simp only [Search.enter, Array.getElem_set]
    split
    · next heq =>
      subst heq
      simp only [reduceCtorEq, false_iff]
      exact hemitted
    · exact h.done p hp
  case entered =>
    intro p hp
    simp only [Search.enter, Array.size_set] at hp
    simp only [Search.enter, Array.getElem_set, List.map_cons, List.mem_cons]
    split
    · next heq => simp [heq]
    · next hne =>
      rw [h.entered p hp]
      simp [Ne.symm hne]
  case lt =>
    intro p hp
    rcases List.mem_cons.1 hp with rfl | hp
    · rw [← h.size]
      exact ht
    · exact h.lt p hp

theorem advance (h : s.Coloured n (⟨id, target :: targets⟩ :: rest)) :
    s.Coloured n (⟨id, targets⟩ :: rest) :=
  ⟨h.size, h.nodup, h.done, h.entered, h.lt⟩

theorem addLoop (h : s.Coloured n (⟨id, target :: targets⟩ :: rest)) :
    (s.addLoop target id (⟨id, targets⟩ :: rest)).Coloured n (⟨id, targets⟩ :: rest) :=
  ⟨h.size, h.nodup, h.done, h.entered, h.lt⟩

end Coloured

/-! ## The edges of the stack -/

namespace Accounts

theorem mono {s' : Search} (hs : ∀ p t, s.Settled p t → s'.Settled p t) {child : Option Nat}
    (h : s.Accounts next child stack) : s'.Accounts next child stack := by
  induction stack generalizing child with
  | nil => trivial
  | cons f rest ih =>
    obtain ⟨hsuffix, hchild, hall, hrest⟩ := h
    refine ⟨hsuffix, hchild, ?_, ih hrest⟩
    intro t ht
    rcases hall t ht with h | h | h
    · exact .inl h
    · exact .inr (.inl (hs f.id t h))
    · exact .inr (.inr h)

/-- A child that is emitted settles the edge that led to it. -/
theorem settle (h : s.Accounts next (some id) stack) (hid : id ∈ s.emitted) :
    s.Accounts next none stack := by
  cases stack with
  | nil => trivial
  | cons f rest =>
    obtain ⟨hsuffix, -, hall, hrest⟩ := h
    refine ⟨hsuffix, by simp, ?_, hrest⟩
    intro t ht
    rcases hall t ht with h | h | h
    · exact .inl h
    · exact .inr (.inl h)
    · cases h
      exact .inr (.inl (.inl hid))

theorem target_mem (h : s.Accounts next none (⟨id, target :: targets⟩ :: rest)) :
    target ∈ next id :=
  h.1.subset List.mem_cons_self

theorem advance (h : s.Accounts next none (⟨id, target :: targets⟩ :: rest))
    (hs : s.Settled id target) : s.Accounts next none (⟨id, targets⟩ :: rest) := by
  obtain ⟨hsuffix, hchild, hall, hrest⟩ := h
  refine ⟨(List.suffix_cons target targets).trans hsuffix, hchild, ?_, hrest⟩
  intro t ht
  rcases hall t ht with h | h | h
  · rcases List.mem_cons.1 h with rfl | h
    · exact .inr (.inl hs)
    · exact .inl h
  · exact .inr (.inl h)
  · cases h

theorem enter (h : s.Accounts next none (⟨id, target :: targets⟩ :: rest)) :
    s.Accounts next none (⟨target, next target⟩ :: ⟨id, targets⟩ :: rest) := by
  have hmem := h.target_mem
  obtain ⟨hsuffix, -, hall, hrest⟩ := h
  refine ⟨List.suffix_refl _, by simp, fun t ht => .inl ht, ?_⟩
  refine ⟨(List.suffix_cons target targets).trans hsuffix, ?_, ?_, hrest⟩
  · intro c hc
    cases hc
    exact hmem
  · intro t ht
    rcases hall t ht with h | h | h
    · rcases List.mem_cons.1 h with rfl | h
      · exact .inr (.inr rfl)
      · exact .inl h
    · exact .inr (.inl h)
    · cases h

/-- Read downwards, the stack is a walk against the edges. -/
theorem walk {child : Option Nat} (h : s.Accounts next child stack) :
    (stack.map Frame.id).IsChain fun a b => a ∈ next b := by
  induction stack generalizing child with
  | nil => exact List.isChain_nil
  | cons f rest ih =>
    obtain ⟨-, -, -, hrest⟩ := h
    refine List.isChain_cons.2 ⟨?_, ih hrest⟩
    intro b hb
    cases rest with
    | nil => cases hb
    | cons g below =>
      cases hb
      exact hrest.2.1 f.id rfl

end Accounts

/-! ## The loops -/

theorem skipped_addLoop {p t : Nat} :
    Skipped (s.addLoop target id stack).loops p t ↔
      p = id ∧ t = target ∨ Skipped s.loops p t := by
  have hhead : (cycleTo target stack).head? = some target := rfl
  simp only [Skipped, addLoop, List.mem_cons, exists_eq_or_imp, hhead, Option.some.injEq]
  rw [eq_comm (a := id), eq_comm (a := target)]

namespace Reported

theorem emit (h : s.Reported next (⟨id, targets⟩ :: rest)) : (s.emit id).Reported next rest := by
  refine ⟨h.genuine, h.unique, ?_⟩
  intro p t hskip
  rcases h.passed p t hskip with hp | ⟨f, hf, rfl, ht⟩
  · exact .inl (List.mem_cons_of_mem id hp)
  · rcases List.mem_cons.1 hf with rfl | hf
    · exact .inl List.mem_cons_self
    · exact .inr ⟨f, hf, rfl, ht⟩

theorem advance (h : s.Reported next (⟨id, target :: targets⟩ :: rest)) :
    s.Reported next (⟨id, targets⟩ :: rest) := by
  refine ⟨h.genuine, h.unique, ?_⟩
  intro p t hskip
  rcases h.passed p t hskip with hp | ⟨f, hf, rfl, ht⟩
  · exact .inl hp
  · rcases List.mem_cons.1 hf with rfl | hf
    · exact .inr ⟨_, List.mem_cons_self, rfl, fun hmem => ht (List.mem_cons_of_mem target hmem)⟩
    · exact .inr ⟨f, List.mem_cons_of_mem _ hf, rfl, ht⟩

theorem enter (h : s.Reported next stack) (ht : target < s.progress.size) (targets : List Nat) :
    (s.enter target ht).Reported next (⟨target, targets⟩ :: stack) := by
  refine ⟨h.genuine, h.unique, ?_⟩
  intro p t hskip
  rcases h.passed p t hskip with hp | ⟨f, hf, rfl, ht⟩
  · exact .inl hp
  · exact .inr ⟨f, List.mem_cons_of_mem _ hf, rfl, ht⟩

/-- An edge that is still to be looked at was not skipped. -/
theorem not_skipped (h : s.Reported next (⟨id, target :: targets⟩ :: rest))
    (hc : s.Coloured n (⟨id, target :: targets⟩ :: rest)) : ¬ Skipped s.loops id target := by
  obtain ⟨hbelow, hemitted⟩ := hc.not_mem_of_top
  intro hskip
  rcases h.passed id target hskip with hid | ⟨f, hf, hid, ht⟩
  · exact hemitted hid
  · rcases List.mem_cons.1 hf with rfl | hf
    · exact ht List.mem_cons_self
    · exact hbelow (hid ▸ List.mem_map_of_mem hf)

theorem addLoop (h : s.Reported next (⟨id, target :: targets⟩ :: rest))
    (hc : s.Coloured n (⟨id, target :: targets⟩ :: rest))
    (hl : IsLoop (fun p t => t ∈ next p) ⟨cycleTo target (⟨id, targets⟩ :: rest), id⟩)
    (hnot : target ∉ targets) :
    (s.addLoop target id (⟨id, targets⟩ :: rest)).Reported next (⟨id, targets⟩ :: rest) := by
  have hnew := h.not_skipped hc
  constructor
  case genuine =>
    intro l hmem
    rcases List.mem_cons.1 hmem with rfl | hmem
    · exact hl
    · exact h.genuine l hmem
  case unique =>
    refine List.nodup_cons.2 ⟨?_, h.unique⟩
    intro hmem
    obtain ⟨l, hl, heq⟩ := List.mem_map.1 hmem
    obtain ⟨hbroken, hhead⟩ := Prod.mk.inj heq
    exact hnew ⟨l, hl, hbroken, hhead⟩
  case passed =>
    intro p t hskip
    rcases skipped_addLoop.1 hskip with ⟨rfl, rfl⟩ | hskip
    · exact .inr ⟨_, List.mem_cons_self, rfl, hnot⟩
    · exact h.advance.passed p t hskip

end Reported

/-! ## Steps -/

namespace Invariant

theorem emit (h : s.Invariant next n (⟨id, []⟩ :: rest)) : (s.emit id).Invariant next n rest := by
  obtain ⟨-, -, hall, hrest⟩ := h.accounts
  have hgrow : ∀ p t, s.Settled p t → (s.emit id).Settled p t := by
    rintro p t (ht | ht)
    · exact .inl (List.mem_cons_of_mem id ht)
    · exact .inr ht
  refine ⟨h.coloured.emit, (hrest.mono hgrow).settle List.mem_cons_self, ?_, h.reported.emit⟩
  intro p hp t ht
  rcases List.mem_cons.1 hp with rfl | hp
  · rcases hall t ht with h | (h | h) | h
    · cases h
    · exact .inl ((List.singleton_sublist.2 h).cons_cons p)
    · exact .inr h
    · cases h
  · rcases h.ordered p hp t ht with h | h
    · exact .inl (h.cons id)
    · exact .inr h

theorem enter (h : s.Invariant next n (⟨id, target :: targets⟩ :: rest))
    (ht : target < s.progress.size) (hfresh : s.progress[target] = .fresh) :
    (s.enter target ht).Invariant next n (⟨target, next target⟩ :: ⟨id, targets⟩ :: rest) := by
  have hsame : ∀ p t, s.Settled p t → (s.enter target ht).Settled p t := fun _ _ hs => hs
  exact ⟨h.coloured.advance.enter ht hfresh (next target), h.accounts.enter.mono hsame, h.ordered,
    h.reported.advance.enter ht (next target)⟩

theorem advance (h : s.Invariant next n (⟨id, target :: targets⟩ :: rest))
    (ht : target < s.progress.size) (hdone : s.progress[target] = .done) :
    s.Invariant next n (⟨id, targets⟩ :: rest) where
  coloured := h.coloured.advance
  accounts := h.accounts.advance (.inl ((h.coloured.done target ht).1 hdone))
  ordered := h.ordered
  reported := h.reported.advance

/-- An edge to a package on the stack closes a loop and is skipped. -/
theorem addLoop (hnext : Proper next n)
    (h : s.Invariant next n (⟨id, target :: targets⟩ :: rest)) (ht : target < s.progress.size)
    (hentered : s.progress[target] = .entered) :
    (s.addLoop target id (⟨id, targets⟩ :: rest)).Invariant next n (⟨id, targets⟩ :: rest) := by
  have hskip : Skipped (s.addLoop target id (⟨id, targets⟩ :: rest)).loops id target :=
    skipped_addLoop.2 (.inl ⟨rfl, rfl⟩)
  have hmore : ∀ p t, Skipped s.loops p t →
      Skipped (s.addLoop target id (⟨id, targets⟩ :: rest)).loops p t :=
    fun p t hs => skipped_addLoop.2 (.inr hs)
  have hgrow : ∀ p t, s.Settled p t →
      (s.addLoop target id (⟨id, targets⟩ :: rest)).Settled p t := by
    rintro p t (ht | ht)
    · exact .inl ht
    · exact .inr (hmore p t ht)
  have hloop : IsLoop (fun p t => t ∈ next p) ⟨cycleTo target (⟨id, targets⟩ :: rest), id⟩ := by
    have hmem := (h.coloured.entered target ht).1 hentered
    exact isLoop_cycleTo hmem (List.nodup_append.1 h.coloured.nodup).1 h.accounts.walk
      h.accounts.target_mem
  have hnot : target ∉ targets := by
    have hsuffix : (target :: targets).Nodup := (hnext.nodup id).sublist h.accounts.1.sublist
    exact (List.nodup_cons.1 hsuffix).1
  refine ⟨h.coloured.addLoop, (h.accounts.mono hgrow).advance (.inr hskip), ?_,
    h.reported.addLoop h.coloured hloop hnot⟩
  intro p hp t ht
  exact (h.ordered p hp t ht).imp_right (hmore p t)

theorem start (h : s.Invariant next n []) (hid : id < s.progress.size)
    (hfresh : s.progress[id] = .fresh) : (s.enter id hid).Invariant next n [⟨id, next id⟩] where
  coloured := h.coloured.enter hid hfresh (next id)
  accounts := ⟨List.suffix_refl _, by simp, fun _ ht => .inl ht, trivial⟩
  ordered := h.ordered
  reported := h.reported.enter hid (next id)

theorem init (next : Nat → List Nat) (n : Nat) :
    Invariant next n { progress := Array.replicate n .fresh } [] where
  coloured := by
    constructor <;> simp
  accounts := trivial
  ordered := by simp
  reported := by
    constructor <;> simp [Skipped]

end Invariant

/-! ## Runs -/

theorem invariant_run (hnext : Proper next n)
    (h : s.Invariant next n stack) : (run next s stack).Invariant next n [] := by
  fun_induction run next s stack with
  | case1 s => exact h
  | case2 s id rest ih => exact ih h.emit
  | case3 s id target targets rest ht hfresh ih => exact ih (h.enter ht hfresh)
  | case4 s id target targets rest ht hentered ih => exact ih (h.addLoop hnext ht hentered)
  | case5 s id target targets rest ht hdone ih => exact ih (h.advance ht hdone)
  | case6 s id target targets rest ht ih =>
    -- no edge leaves the graph
    have hin : target < n := (hnext.lt id target h.accounts.target_mem).2
    rw [h.coloured.size] at ht
    exact absurd hin ht

/-- What is emitted or on the stack is emitted in the end. -/
theorem mem_emitted_run {p : Nat} (h : p ∈ stack.map Frame.id ∨ p ∈ s.emitted) :
    p ∈ (run next s stack).emitted := by
  fun_induction run next s stack with
  | case1 s => exact h.resolve_left List.not_mem_nil
  | case2 s id rest ih =>
    apply ih
    rcases h with h | h
    · rcases List.mem_cons.1 h with rfl | h
      · exact .inr List.mem_cons_self
      · exact .inl h
    · exact .inr (List.mem_cons_of_mem id h)
  | case3 s id target targets rest ht hfresh ih =>
    exact ih (h.imp_left (List.mem_cons_of_mem target))
  | case4 s id target targets rest ht hentered ih => exact ih h
  | case5 s id target targets rest ht hdone ih => exact ih h
  | case6 s id target targets rest ht ih => exact ih h

theorem invariant_visit (hnext : Proper next n)
    (h : s.Invariant next n []) (id : Nat) : (visit next s id).Invariant next n [] := by
  rw [visit]
  split
  · next hid =>
    split
    · next hfresh => exact invariant_run hnext (h.start hid hfresh)
    · exact h
  · exact h

/-- A visit emits the package, if that has not been done before. -/
theorem mem_emitted_visit (h : s.Invariant next n []) (hid : id < n) {p : Nat}
    (hp : p = id ∨ p ∈ s.emitted) : p ∈ (visit next s id).emitted := by
  rw [← h.coloured.size] at hid
  rw [visit, dif_pos hid]
  split
  · next hfresh =>
    apply mem_emitted_run
    rw [List.map_singleton, List.mem_singleton]
    exact hp
  · next hnot =>
    rcases hp with rfl | hp
    · cases hprog : s.progress[p] with
      | fresh => exact absurd hprog hnot
      | entered =>
        have hmem := (h.coloured.entered p hid).1 hprog
        cases hmem
      | done => exact (h.coloured.done p hid).1 hprog
    · exact hp

/-- After visits to all members of a list, the invariant holds and they are emitted. -/
theorem invariant_foldl_visit (hnext : Proper next n)
    (ids : List Nat) (hids : ∀ id ∈ ids, id < n) (h : s.Invariant next n []) :
    (ids.foldl (visit next) s).Invariant next n [] ∧
      ∀ p, p ∈ ids ∨ p ∈ s.emitted → p ∈ (ids.foldl (visit next) s).emitted := by
  induction ids generalizing s with
  | nil => exact ⟨h, fun p hp => hp.resolve_left List.not_mem_nil⟩
  | cons id rest ih =>
    have hid : id < n := hids id List.mem_cons_self
    obtain ⟨hinv, hmem⟩ := ih (fun i hi => hids i (List.mem_cons_of_mem id hi))
      (invariant_visit hnext h id)
    refine ⟨hinv, ?_⟩
    intro p hp
    apply hmem
    rw [List.mem_cons, or_assoc] at hp
    rcases hp with hp | hp | hp
    · exact .inr (mem_emitted_visit h hid (.inl hp))
    · exact .inl hp
    · exact .inr (mem_emitted_visit h hid (.inr hp))

theorem invariant_all (hnext : Proper next n) :
    (all next n).Invariant next n [] :=
  (invariant_foldl_visit hnext _ (fun _ => List.mem_range.1) (.init next n)).1

/-- The whole search emits every package exactly once. -/
theorem perm_emitted_all (hnext : Proper next n) :
    (all next n).emitted.Perm (List.range n) := by
  obtain ⟨hinv, hmem⟩ := invariant_foldl_visit hnext (List.range n) (fun _ => List.mem_range.1)
    (.init next n)
  refine (List.perm_ext_iff_of_nodup hinv.coloured.nodup List.nodup_range).2 ?_
  intro p
  constructor
  · intro hp
    exact List.mem_range.2 (hinv.coloured.lt p hp)
  · intro hp
    exact hmem p (.inl hp)

end Search

end Depcheck

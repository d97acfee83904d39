import Depcheck.Proofs.PackageSet.InPlace

/-!
# Histories of a package set

A caller adds packages, prepares and verifies the set, marks packages, and asks questions, in any
order. As long as the ids that it hands in are ids of the set, and there are ids for all packages, no
operation stops, and a refused one leaves the workspace as it was (`operations_never_stop`). An operation
that needs a prepared set is refused exactly when packages were added since the last preparation, or
there was none.
-/

namespace Depcheck

namespace PackageSet

/-! ## Operations -/

/-- What a caller does with a package set. -/
inductive Operation : Type 1 where
  | add (p : Package)
  | addAll (ps : List Package)
  | prepare
  | verify
  | mark (selection : List Nat)
  | ask {α : Type} (q : Query α)

namespace Operation

/-- What an operation returns. -/
def Answer : Operation → Type
  | .add _ | .prepare | .verify => Nat
  | .addAll _ => Unit
  | .mark _ => Marking
  | @ask α _ => α

/-- The ids that the caller hands in. -/
def ids : Operation → List Nat
  | .mark selection => selection
  | .ask q => q.ids
  | _ => []

/-- Does the operation need a prepared set? -/
def needsPreparation : Operation → Bool
  | .verify | .mark _ => true
  | .ask q => q.needsPreparation
  | _ => false

/-- The number of packages that the operation adds. -/
def additions : Operation → Nat
  | .add _ => 1
  | .addAll ps => ps.length
  | _ => 0

end Operation

/-- The answer to an operation with the set afterwards, or why the operation is refused. -/
def perform (s : PackageSet) : (op : Operation) → Except Error (op.Answer × PackageSet)
  | .add p => .ok (s.packages.size, s.add p)
  | .addAll ps => .ok ((), s.addAll ps)
  | .prepare => s.prepare.errorCount.map fun n => (n, s.prepare)
  | .verify => s.verify.bind fun s' => s'.errorCount.map fun n => (n, s')
  | .mark selection => s.mark selection
  | .ask q => (s.answer q).map fun x => (x, s)

end PackageSet

namespace Workspace

open PackageSet (Operation)
open Procedure

def perform : (op : Operation) → Procedure op.Answer
  | .add p => add p
  | .addAll ps => addAll ps
  | .prepare => prepare
  | .verify => verify
  | .mark selection => mark selection
  | .ask q => ask q

/-- No operation changes a field and is then refused. -/
theorem keeps_perform (op : Operation) : (perform op).Keeps := by
  cases op with
  | add p => exact (accepts_add p).keeps
  | addAll ps => exact (accepts_addAll ps).keeps
  | prepare => exact accepts_prepare.keeps
  | verify => exact keeps_verify
  | mark selection => exact keeps_mark selection
  | ask q => exact (leaves_ask q).keeps

/-- Only additions and preparations change the packages. -/
theorem packages_perform {op : Operation} (hprepare : op ≠ .prepare) (hadds : op.additions = 0) :
    (perform op).Leaves Workspace.packages := by
  cases op with
  | add p => cases hadds
  | addAll ps =>
    rw [List.eq_nil_of_length_eq_zero hadds]
    exact leaves_pure ()
  | prepare => exact absurd rfl hprepare
  | verify => exact packages_verify
  | mark selection => exact packages_mark selection
  | ask q => exact leaves_ask q

/-- The caller hands in ids of the workspace only, and adds no more packages than there are ids. -/
def Allows (w : Workspace) (op : Operation) : Prop :=
  (∀ id ∈ op.ids, id < w.packages.size) ∧ w.packages.size + op.additions ≤ capacity

/-- The workspace after a number of operations, refused ones among them. -/
def after? (w : Workspace) (ops : List Operation) : Option Workspace :=
  ops.foldlM (fun w op => ((perform op).runOn w).map Prod.snd) w

/-- Every operation is allowed when its turn comes. -/
def AllowsAll : Workspace → List Operation → Prop
  | _, [] => True
  | w, op :: rest => w.Allows op ∧ ∀ r w', (perform op).runOn w = some (r, w') → w'.AllowsAll rest

theorem AllowsAll.of_append {w : Workspace} {ops later : List Operation}
    (h : w.AllowsAll (ops ++ later)) : w.AllowsAll ops := by
  induction ops generalizing w with
  | nil => trivial
  | cons op rest ih => exact ⟨h.1, fun r w' hw' => ih (h.2 r w' hw')⟩

theorem AllowsAll.after {w w' : Workspace} {ops later : List Operation}
    (h : w.AllowsAll (ops ++ later)) (hw' : w.after? ops = some w') : w'.AllowsAll later := by
  induction ops generalizing w with
  | nil =>
    cases hw'
    exact h
  | cons op rest ih =>
    rw [after?, List.foldlM_cons] at hw'
    obtain ⟨w₁, hw₁, hw'⟩ := Option.bind_eq_some_iff.1 hw'
    obtain ⟨⟨r, _⟩, hperform, rfl⟩ := Option.map_eq_some_iff.1 hw₁
    exact ih (h.2 r _ hperform) hw'

/-- There is one state per package, and a verification only beside indexes, both of just these
packages. -/
structure InOrder (w : Workspace) : Prop where
  states : w.states.size = w.packages.size
  run : w.run.isSome → w.index.isSome
  indexed : ∀ index, w.index = some index → (w.context index).Indexed
  inRange : ∀ v, w.run = some v → v.InRange w.packages.size

end Workspace

namespace PackageSet

variable {s s' : PackageSet}

/-! ## One operation -/

theorem Reachable.addAll (h : s.Reachable) (ps : List Package) : (s.addAll ps).Reachable := by
  induction ps generalizing s with
  | nil => exact h
  | cons p rest ih => exact ih (h.add p)

theorem Reachable.perform (h : s.Reachable) {op : Operation} {x : op.Answer}
    (hs : s.perform op = .ok (x, s')) : s'.Reachable := by
  cases op with
  | add p =>
    cases hs
    exact h.add p
  | addAll ps =>
    cases hs
    exact h.addAll ps
  | prepare =>
    cases hs
    exact h.prepare
  | verify =>
    obtain ⟨s₁, hverify, hs⟩ := bind_eq_ok.1 hs
    obtain ⟨n, _, heq⟩ := map_eq_ok hs
    cases heq
    exact h.verify hverify
  | mark selection => exact h.mark hs
  | ask q =>
    obtain ⟨_, _, heq⟩ := map_eq_ok hs
    cases heq
    exact h

theorem length_arrange_le (unique : Bool) (ps : List Package) :
    (arrange unique ps).length ≤ ps.length := by
  have hsublist := (eraseRepsBy_sublist (isRepeat unique) (ps.mergeSort fun p q =>
    (p.compareNewestFirst q).isLE)).length_le
  rwa [List.length_mergeSort] at hsublist

theorem size_prepare_le (s : PackageSet) : s.prepare.packages.size ≤ s.packages.size := by
  have h := length_arrange_le s.config.uniqueNames s.packages.toList
  rwa [← packages_prepare, Array.length_toList, Array.length_toList] at h

theorem analysis_addAll_cons (s : PackageSet) (p : Package) (ps : List Package) :
    (s.addAll (p :: ps)).analysis = none := by
  induction ps generalizing s p with
  | nil => rfl
  | cons q rest ih => exact ih (s.add p) q

/-- A set is prepared after an operation that prepares it, and stays prepared until a package is
added. -/
theorem isSome_analysis_perform {op : Operation} {x : op.Answer}
    (hs : s.perform op = .ok (x, s')) :
    s'.analysis.isSome ↔ op = .prepare ∨ op.additions = 0 ∧ s.analysis.isSome := by
  cases op with
  | add p =>
    cases hs
    simp [add, Operation.additions]
  | addAll ps =>
    cases hs
    cases ps with
    | nil => simp [addAll, Operation.additions]
    | cons p rest => simp [analysis_addAll_cons, Operation.additions]
  | prepare =>
    cases hs
    simp [prepare_eq, verifyWith]
  | verify =>
    obtain ⟨s₁, hverify, hs⟩ := bind_eq_ok.1 hs
    obtain ⟨n, _, heq⟩ := map_eq_ok hs
    cases heq
    obtain ⟨a, ha, rfl⟩ := map_eq_ok hverify
    simp [verifyWith, analyzed_eq_ok.1 ha, Operation.additions]
  | mark selection =>
    obtain ⟨_, _, _, rfl⟩ := mark_eq_ok hs
    simp [Operation.additions]
  | ask q =>
    obtain ⟨_, _, heq⟩ := map_eq_ok hs
    cases heq
    simp [Operation.additions]

theorem of_perform_eq_error {op : Operation} {e : Error} (hs : s.perform op = .error e) :
    op ≠ .prepare ∧ op.additions = 0 := by
  cases op with
  | add | addAll | prepare => cases hs
  | verify | mark | ask => simp [Operation.additions]

/-- An operation is refused exactly when it needs a prepared set and there is none. -/
theorem perform_eq_notPrepared {op : Operation} :
    s.perform op = .error .notPrepared ↔ op.needsPreparation = true ∧ s.analysis = none := by
  cases op with
  | add | addAll | prepare =>
    constructor
    · intro h
      cases h
    · rintro ⟨h, _⟩
      cases h
  | verify =>
    rw [perform, verify, analyzed]
    cases s.analysis with
    | none => simp [Except.bind, Except.map, Operation.needsPreparation]
    | some a =>
      constructor
      · intro h
        cases h
      · rintro ⟨_, h⟩
        cases h
  | mark selection => exact (map_eq_error.trans run_eq_notPrepared).trans (and_iff_right rfl).symm
  | ask q => exact map_eq_error.trans (answer_eq_notPrepared q)

/-- On the workspace of a set every allowed operation does what it does on the set. -/
theorem runOn_perform (h : s.Invariant) {op : Operation} (hop : s.apart.Allows op) :
    (Workspace.perform op).runOn s.apart = some (s.outcome (s.perform op)) := by
  obtain ⟨hids, hsize⟩ := hop
  have hcap : s.packages.size ≤ Workspace.capacity := (Nat.le_add_right _ _).trans hsize
  cases op with
  | add p => exact runOn_add hsize p
  | addAll ps => exact runOn_addAll hsize
  | prepare => exact runOn_prepare ((size_prepare_le s).trans hcap)
  | verify => exact runOn_verify_apart h hcap
  | mark selection => exact runOn_mark h hids
  | ask q =>
    refine (runOn_ask h hcap q hids).trans ?_
    show _ = some (s.outcome ((s.answer q).map fun x => (x, s)))
    cases s.answer q with
    | error e => rfl
    | ok x => rfl

theorem outcome_eq_error {α : Type} {r : Except Error (α × PackageSet)} {e : Error} {w : Workspace} :
    s.outcome r = (.error e, w) ↔ r = .error e ∧ w = s.apart := by
  cases r with
  | error e' =>
    rw [outcome, Prod.mk.injEq, Except.error.injEq, Except.error.injEq, eq_comm (a := s.apart)]
  | ok found =>
    constructor
    · intro h
      cases h
    · rintro ⟨h, _⟩
      cases h

/-- An allowed operation leads from the workspace of a set to that of a set. -/
theorem exists_apart_perform (h : s.Reachable) {op : Operation} (hop : s.apart.Allows op) :
    ∃ r, ∃ s' : PackageSet, (Workspace.perform op).runOn s.apart = some (r, s'.apart) ∧
      s'.Reachable ∧
      (s'.analysis.isSome ↔ op = .prepare ∨ op.additions = 0 ∧ s.analysis.isSome) := by
  rw [runOn_perform h.invariant hop]
  cases hs : s.perform op with
  | error e =>
    obtain ⟨hprepare, hadds⟩ := of_perform_eq_error hs
    exact ⟨.error e, s, rfl, h, by simp [hprepare, hadds]⟩
  | ok found =>
    obtain ⟨x, s'⟩ := found
    exact ⟨.ok x, s', rfl, h.perform hs, isSome_analysis_perform hs⟩

/-! ## Histories -/

/-- Was the set prepared, and no package added since then? -/
def Prepared (ops : List Operation) : Prop :=
  ∃ before later, ops = before ++ .prepare :: later ∧ ∀ op ∈ later, op.additions = 0

theorem not_prepared_nil : ¬Prepared [] := by
  rintro ⟨before, later, heq, _⟩
  exact List.append_ne_nil_of_right_ne_nil before (List.cons_ne_nil _ _) heq.symm

theorem prepared_append_singleton {ops : List Operation} {op : Operation} :
    Prepared (ops ++ [op]) ↔ op = .prepare ∨ op.additions = 0 ∧ Prepared ops := by
  constructor
  · rintro ⟨before, later, heq, hlater⟩
    rcases later.eq_nil_or_concat with rfl | ⟨later, last, rfl⟩
    · obtain ⟨_, hlast⟩ := List.append_inj' heq rfl
      exact .inl (List.cons.inj hlast).1
    · rw [List.concat_eq_append] at heq hlater
      rw [← List.cons_append, ← List.append_assoc] at heq
      obtain ⟨rfl, hlast⟩ := List.append_inj' heq rfl
      obtain ⟨rfl, _⟩ := List.cons.inj hlast
      have hop := hlater op (List.mem_append_right later List.mem_cons_self)
      exact .inr ⟨hop, before, later, rfl, fun o ho => hlater o (List.mem_append_left _ ho)⟩
  · rintro (rfl | ⟨hop, before, later, rfl, hlater⟩)
    · exact ⟨ops, [], rfl, by simp⟩
    · refine ⟨before, later ++ [op], by simp, ?_⟩
      intro o ho
      rcases List.mem_append.1 ho with ho | ho
      · exact hlater o ho
      · rw [List.mem_singleton.1 ho]
        exact hop

theorem after?_append_singleton (w : Workspace) (ops : List Operation) (op : Operation) :
    w.after? (ops ++ [op]) =
      (w.after? ops).bind fun w' => ((Workspace.perform op).runOn w').map Prod.snd := by
  rw [Workspace.after?, List.foldlM_append, ← Workspace.after?]
  cases w.after? ops with
  | none => rfl
  | some w' =>
    show (((Workspace.perform op).runOn w').map Prod.snd).bind some = _
    exact Option.bind_fun_some _

/-- An allowed history leads from the workspace of a set to that of a set. -/
theorem exists_apart_after (h : s.Reachable) (hnone : s.analysis = none) {ops : List Operation}
    (hops : s.apart.AllowsAll ops) :
    ∃ s' : PackageSet, s.apart.after? ops = some s'.apart ∧ s'.Reachable ∧
      (s'.analysis.isSome ↔ Prepared ops) := by
  induction ops using List.reverseRecOn with
  | nil => exact ⟨s, rfl, h, by simp [hnone, not_prepared_nil]⟩
  | append_singleton ops op ih =>
    obtain ⟨s', hs', hreach, hprepared⟩ := ih hops.of_append
    have hop : s'.apart.Allows op := (hops.after hs').1
    obtain ⟨r, s'', hperform, hreach', hprepared'⟩ := exists_apart_perform hreach hop
    refine ⟨s'', ?_, hreach', ?_⟩
    · rw [after?_append_singleton, hs', Option.bind_some, hperform]
      rfl
    · rw [hprepared', prepared_append_singleton, hprepared]

theorem Invariant.inOrder (h : s.Invariant) : s.apart.InOrder where
  states := h.size_states
  run := by
    show (s.analysis.map Analysis.run).isSome → (s.analysis.map Analysis.index).isSome
    rw [Option.isSome_map, Option.isSome_map]
    exact id
  indexed := by
    intro index hindex
    obtain ⟨a, ha, rfl⟩ := Option.map_eq_some_iff.1 hindex
    exact (h.knows a ha).1
  inRange := by
    intro v hv
    obtain ⟨a, ha, rfl⟩ := Option.map_eq_some_iff.1 hv
    exact h.inRange ha

theorem ofConfig_eq_ok {config : Config} (h : ofConfig config = .ok s) :
    ∃ platform, s = { config, platform } := by
  obtain ⟨_, _, h⟩ := bind_eq_ok.1 h
  obtain ⟨platform, _, h⟩ := bind_eq_ok.1 h
  cases h
  exact ⟨platform, rfl⟩

/-- No operation of an allowed history stops, and the workspace is in order after each: it is that of a
package set. A further operation that is allowed does not stop, and is refused for want of a preparation
exactly when it needs one and the history does not leave the set prepared. No refusal, of an allowed
operation or not, changes the workspace. -/
theorem operations_never_stop {config : Config} {s₀ : PackageSet} {ops : List Operation}
    (hconfig : ofConfig config = .ok s₀) (hops : s₀.apart.AllowsAll ops) :
    ∀ done, done <+: ops →
      ∃ w, s₀.apart.after? done = some w ∧ w.InOrder ∧ (∃ s, Reachable s ∧ s.apart = w) ∧
        ∀ op, (w.Allows op →
            ((Workspace.perform op).runOn w).isSome ∧
            ((∃ w', (Workspace.perform op).runOn w = some (.error .notPrepared, w')) ↔
              op.needsPreparation = true ∧ ¬Prepared done)) ∧
          ∀ e w', (Workspace.perform op).runOn w = some (.error e, w') → w' = w := by
  rintro done ⟨later, rfl⟩
  obtain ⟨platform, rfl⟩ := ofConfig_eq_ok hconfig
  obtain ⟨s, hs, hreach, hprepared⟩ :=
    exists_apart_after (Reachable.empty config platform) rfl hops.of_append
  refine ⟨s.apart, hs, hreach.invariant.inOrder, ⟨s, hreach, rfl⟩, fun op => ⟨?_, ?_⟩⟩
  · intro hop
    have hperform := runOn_perform hreach.invariant hop
    refine ⟨by rw [hperform]; rfl, ?_⟩
    rw [hperform, ← hprepared, Bool.not_eq_true, Option.isSome_eq_false_iff,
      Option.isNone_iff_eq_none, ← perform_eq_notPrepared]
    simp only [Option.some.injEq, outcome_eq_error, exists_and_left, exists_eq, and_true]
  · exact fun e w' => Workspace.keeps_perform op s.apart e w'

/-- A set that offers nothing beside its packages. -/
def bareConfig : Config := { platform := { stock := false } }

def toolPackages : List Package :=
  [{ name := "user", evr := { version := "1" },
     requires := [.ofParts "tool" (by decide) none {}] },
   { name := "tool", evr := { version := "1" } }]

def toolHistory : List Operation :=
  [.addAll toolPackages, .prepare, .mark [1], .verify, .ask (.dependents 0)]

theorem allowsAll_toolHistory :
    (apart { config := bareConfig, platform := {} }).AllowsAll toolHistory := by
  let added : PackageSet := addAll { config := bareConfig, platform := {} } toolPackages
  have hprepared : added.prepare.packages.size = 2 := by
    show (arrange _ _).toArray.size = 2
    cbv
  have hle : 2 ≤ Workspace.capacity := by decide
  refine ⟨⟨by simp [Operation.ids], by decide⟩, fun r w hw => ?_⟩
  cases hw.symm.trans (runOn_addAll (by decide))
  refine ⟨⟨by simp [Operation.ids], hle⟩, fun r w hw => ?_⟩
  cases hw.symm.trans (runOn_prepare (hprepared.trans_le hle))
  refine ⟨⟨?_, hprepared.trans_le hle⟩, fun r w hw => ?_⟩
  · intro id hid
    rw [List.mem_singleton.1 hid]
    exact Nat.lt_of_lt_of_eq (by decide) hprepared.symm
  -- marking, verifying and asking leave the two packages as they are
  have hmarked : w.packages.size = 2 :=
    (congrArg Array.size (Workspace.packages_perform (by simp) rfl _ _ _ hw)).trans hprepared
  refine ⟨⟨by simp [Operation.ids], hmarked.trans_le hle⟩, fun r w' hw' => ?_⟩
  have hverified : w'.packages.size = 2 :=
    (congrArg Array.size (Workspace.packages_perform (by simp) rfl _ _ _ hw')).trans hmarked
  refine ⟨⟨?_, hverified.trans_le hle⟩, fun _ _ _ => trivial⟩
  intro id hid
  rw [List.mem_singleton.1 hid]
  exact Nat.lt_of_lt_of_eq (by decide) hverified.symm

/-- Only before the preparation there is nothing to verify. -/
theorem operations_never_stop_tools :
    let s₀ : PackageSet := { config := bareConfig, platform := {} }
    ofConfig bareConfig = .ok s₀ ∧ s₀.apart.AllowsAll toolHistory ∧
      (∃ w, s₀.apart.after? (toolHistory.take 1) = some w ∧
        (Workspace.perform .verify).runOn w = some (.error .notPrepared, w)) ∧
      ∃ w, s₀.apart.after? toolHistory = some w ∧ w.InOrder ∧
        ∀ op, w.Allows op → ∀ w', (Workspace.perform op).runOn w ≠ some (.error .notPrepared, w') := by
  intro s₀
  have hconfig : ofConfig bareConfig = .ok s₀ := by cbv
  have h := operations_never_stop hconfig allowsAll_toolHistory
  refine ⟨hconfig, allowsAll_toolHistory, ?_, ?_⟩
  · have hearly : ¬Prepared (toolHistory.take 1) := by
      intro hprepared
      rcases prepared_append_singleton.1
        (show Prepared ([] ++ [.addAll toolPackages]) from hprepared) with heq | ⟨hadds, _⟩
      · cases heq
      · cases hadds
    obtain ⟨w, hw, _, _, hops⟩ := h _ (List.take_prefix 1 _)
    have hadded : s₀.apart.after? (toolHistory.take 1) = some (s₀.addAll toolPackages).apart := by
      show ((Workspace.addAll toolPackages).runOn s₀.apart).map Prod.snd >>= pure = _
      rw [runOn_addAll (by decide)]
      rfl
    have hallows : w.Allows .verify := by
      cases hw.symm.trans hadded
      exact ⟨by simp [Operation.ids], by decide⟩
    obtain ⟨w', hw'⟩ := ((hops .verify).1 hallows).2.2 ⟨rfl, hearly⟩
    obtain rfl := (hops .verify).2 _ _ hw'
    exact ⟨w', hw, hw'⟩
  · have hlate : Prepared toolHistory :=
      ⟨[.addAll toolPackages], [.mark [1], .verify, .ask (.dependents 0)], rfl,
        by simp [Operation.additions]⟩
    obtain ⟨w, hw, horder, _, hops⟩ := h _ (List.prefix_refl _)
    refine ⟨w, hw, horder, fun op hop w' hw' => ?_⟩
    exact ((((hops op).1 hop).2.1 ⟨w', hw'⟩).2) hlate

end PackageSet

end Depcheck

import Depcheck.Proofs.Verification.Figures

/-!
# Runs on used tables

A run starts from a table of states that earlier runs and markings have written to. It forgets what
runs have found and does not look at marks: on any table it finds what it finds on a fresh one
(`map_unmark_verify`). Each pass commutes with dropping the marks, and no pass changes a mark, so two
runs differ in the marks only, and these are the ones that were there before (`verify_forgets`).
-/

namespace Depcheck

/-- Without what was found and without marks, nothing is left of a state. -/
theorem map_unmark_clearDerived (states : Array PackageState) :
    (states.map PackageState.clearDerived).map PackageState.unmark =
      Array.replicate states.size {} := by
  ext id hid hid'
  · simp
  · simp [PackageState.clearDerived, PackageState.unmark]

namespace Graph

variable {g : Graph} {u : PackageState → PackageState}

theorem obsoletedBy_map (hunmet : ∀ s, (u s).unmet = s.unmet) (states : Array PackageState) :
    g.obsoletedBy (states.map u) = g.obsoletedBy states := by
  unfold obsoletedBy
  simp only [PackageState.flag_map PackageState.unmet hunmet]

/-- The pass looks at the flag for unmet requirements only. -/
theorem markObsoleted_map (hunmet : ∀ s, (u s).unmet = s.unmet)
    (hset : ∀ s, u s.setObsoleted = (u s).setObsoleted) (states : Array PackageState) :
    g.markObsoleted (states.map u) = (g.markObsoleted states).map u := by
  unfold markObsoleted
  rw [obsoletedBy_map hunmet, PackageState.map_foldl_modify hset]

end Graph

namespace Context

variable {ctx : Context} {passes : Passes} {states : Array PackageState}

/-- Apart from the marks, a run leaves what it leaves when it starts from a fresh table. -/
theorem map_unmark_verify (states : Array PackageState) :
    (ctx.verify passes states).2.map PackageState.unmark =
      (ctx.verify passes (Array.replicate states.size {})).2 := by
  have htaint : ∀ (g : Graph) (stack : List Nat),
      (g.taint (states.map PackageState.clearDerived) stack).map PackageState.unmark =
        g.taint ((Array.replicate states.size {}).map PackageState.clearDerived) stack := by
    intro g stack
    have hfresh : (Array.replicate states.size {}).map PackageState.clearDerived =
        Array.replicate states.size {} := Array.map_replicate
    rw [← Graph.taint_map (u := .unmark) (fun _ => rfl) fun _ => rfl, map_unmark_clearDerived, hfresh]
  rw [verify, verify]
  cases passes.conflicts with
  | true =>
    show (Graph.markObsoleted _ (Graph.taint _ _ _)).map _ = Graph.markObsoleted _ (Graph.taint _ _ _)
    rw [← Graph.markObsoleted_map (u := .unmark) (fun _ => rfl) fun _ => rfl, htaint]
  | false => exact htaint _ _

/-- A run leaves alone every flag that none of its passes sets or clears. -/
theorem flag_verify (flag : PackageState → Bool) (hclear : ∀ s, flag s.clearDerived = flag s)
    (hunmet : ∀ s, flag s.setUnmet = flag s) (hobsolete : ∀ s, flag s.setObsoleted = flag s)
    (id : Nat) : flag ((ctx.verify passes states).2.getD id {}) = flag (states.getD id {}) := by
  have htaint : ∀ (g : Graph) (stack : List Nat),
      flag ((g.taint (states.map PackageState.clearDerived) stack).getD id {}) =
        flag (states.getD id {}) := by
    intro g stack
    rw [Graph.flag_taint flag hunmet, PackageState.flag_map flag hclear]
  rw [verify]
  cases passes.conflicts with
  | true =>
    show flag ((Graph.markObsoleted _ (Graph.taint _ _ _)).getD id {}) = _
    rw [Graph.markObsoleted, PackageState.flag_foldl_modify flag hobsolete, htaint]
  | false => exact htaint _ _

theorem sameMarks_verify (states : Array PackageState) :
    SameMarks (ctx.verify passes states).2 states where
  size := size_verify passes states
  hand := flag_verify PackageState.hand (fun _ => rfl) (fun _ => rfl) fun _ => rfl
  dep := flag_verify PackageState.dep (fun _ => rfl) (fun _ => rfl) fun _ => rfl

/-- The counts of a run can be read off the states that it leaves, and nothing else that it finds
comes from the states. -/
theorem verify_eq_of_sameFindings {states' : Array PackageState}
    (h : SameFindings (ctx.verify passes states).2 (ctx.verify passes states').2) :
    (ctx.verify passes states).1 = (ctx.verify passes states').1 := by
  have hsize : states.size = states'.size := by
    rw [← size_verify passes states, h.size, size_verify]
  have htainted : (ctx.verify passes states).1.tainted = (ctx.verify passes states').1.tainted := by
    rw [tainted_verify_eq_length, tainted_verify_eq_length, hsize]
    simp only [h.unmet]
  have hobsoleted :
      (ctx.verify passes states).1.obsoleted = (ctx.verify passes states').1.obsoleted := by
    rw [obsoleted_verify_eq_length, obsoleted_verify_eq_length, hsize]
    simp only [h.obsoleted]
  have hrest : (ctx.verify passes states').1 =
      { (ctx.verify passes states).1 with
        tainted := (ctx.verify passes states').1.tainted
        obsoleted := (ctx.verify passes states').1.obsoleted } := rfl
  rw [hrest, ← htainted, ← hobsoleted]

/-- Two runs on tables with one state per package find the same, whatever earlier runs have left in
the tables, and each keeps the marks of its own table. -/
theorem verify_forgets {states' : Array PackageState} (hsize : states.size = ctx.packages.size)
    (hsize' : states'.size = ctx.packages.size) :
    (ctx.verify passes states).1 = (ctx.verify passes states').1 ∧
      SameFindings (ctx.verify passes states).2 (ctx.verify passes states').2 ∧
      SameMarks (ctx.verify passes states).2 states ∧
      SameMarks (ctx.verify passes states').2 states' := by
  have hfindings : SameFindings (ctx.verify passes states).2 (ctx.verify passes states').2 := by
    apply SameFindings.of_map_unmark
    rw [map_unmark_verify, map_unmark_verify, hsize, hsize']
  exact ⟨verify_eq_of_sameFindings hfindings, hfindings, sameMarks_verify states,
    sameMarks_verify states'⟩

/-- The states of the mail agent and its servers after a marking, with flags that no run leaves. -/
def staleStates : Array PackageState :=
  #[{ hand := true }, { dep := true, unmet := true }, { unmet := true, obsoleted := true }]

/-- The flag on the server that cannot be installed does not stop the walk, the one on the server that
can be installed is gone, and the marks are there. -/
theorem verify_forgets_stale :
    staleStates.size = spareContext.packages.size ∧
      (Array.replicate 3 ({} : PackageState)).size = spareContext.packages.size ∧
      (spareContext.verify {} staleStates).1 = spareRun.1 ∧
      ((spareContext.verify {} staleStates).2.getD 0 {}).unmet = true ∧
      ((spareContext.verify {} staleStates).2.getD 2 {}).unmet = false ∧
      ((spareContext.verify {} staleStates).2.getD 0 {}).hand = true := by
  have hsize : staleStates.size = spareContext.packages.size := rfl
  have hsize' : (Array.replicate 3 ({} : PackageState)).size = spareContext.packages.size := rfl
  have hflag : ∀ id, (spareRun.2.getD id {}).unmet = #[true, true, false].getD id false :=
    fun _ => PackageState.flag_of_map PackageState.unmet rfl unmet_spare
  obtain ⟨hrun, hfindings, hmarks, _⟩ := @verify_forgets spareContext {} staleStates _ hsize hsize'
  exact ⟨hsize, hsize', hrun, (hfindings.unmet 0).trans (hflag 0), (hfindings.unmet 2).trans (hflag 2),
    hmarks.hand 0⟩

end Context

end Depcheck

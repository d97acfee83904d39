import Depcheck.Proofs.Resolution.Matches
import Depcheck.Proofs.Verification.Outcomes

/-!
# Violations

A violation is a candidate of an `rpmlib(...)` requirement that is not the package manager. It takes
all candidates away from the requirement, which is then met by the platform or not at all
(`resolve_of_mem_violations`). A run reports the violations of the answers that it computed, so each
of them goes back to an outcome that is its requirement's own resolution
(`exists_outcome_of_mem_violations`).
-/

namespace Depcheck

namespace Context

variable {ctx : Context} {req : Capability} {v : RpmlibViolation}

/-- The violations of a resolution are those of its lookup. -/
theorem violations_resolve (req : Capability) : (ctx.resolve req).2 = (ctx.admitted? req).2 := by
  have hlookup : (ctx.lookup req).2 = (ctx.admitted? req).2 := by
    unfold lookup
    rcases ctx.admitted? req with ⟨_ | ids, vs⟩
    · rfl
    · rfl
  rw [← hlookup, resolve]
  rcases ctx.lookup req with ⟨_ | _ | ⟨id, rest⟩, vs⟩
  · rfl
  · rfl
  · dsimp only
    split
    · rfl
    · rfl

/-- The violations are the candidates of an `rpmlib(...)` requirement under another name than the
package manager's. -/
theorem mem_violations :
    v ∈ (ctx.resolve req).2 ↔
      req.flags.rpmlib = true ∧ v.capability = req.name ∧
        ∃ ids, ctx.candidates? req = some ids ∧ v.provider ∈ ids ∧
          (ctx.package v.provider).name ≠ ctx.manager := by
  have hbad : ∀ ids, v ∈ (ctx.intruders ids).map (fun id => ⟨id, req.name⟩) ↔
      v.capability = req.name ∧ v.provider ∈ ids ∧ (ctx.package v.provider).name ≠ ctx.manager := by
    intro ids
    obtain ⟨provider, capability⟩ := v
    simp only [intruders, List.mem_map, List.mem_filter, bne_iff_ne, RpmlibViolation.mk.injEq]
    constructor
    · rintro ⟨id, hid, rfl, rfl⟩
      exact ⟨rfl, hid⟩
    · rintro ⟨rfl, hid⟩
      exact ⟨provider, hid, rfl, rfl⟩
  rw [violations_resolve, admitted?]
  cases ctx.candidates? req with
  | none => simp
  | some ids =>
    cases req.flags.rpmlib with
    | false => simp
    | true =>
      have hids := hbad ids
      cases hnone : ctx.intruders ids with
      | nil => simpa [hnone] using hids
      | cons id rest => simpa [hnone] using hids

/-- Where there is a violation, the platform alone is asked. -/
theorem resolve_of_mem_violations (hv : v ∈ (ctx.resolve req).2) :
    (ctx.resolve req).1 = if ctx.platform.provides req then .builtin else .absent := by
  rw [violations_resolve] at hv
  have hnone : (ctx.admitted? req).1 = none := by
    unfold admitted? at hv ⊢
    cases hc : ctx.candidates? req with
    | none => rfl
    | some ids =>
      simp only [hc] at hv ⊢
      split at hv
      · next hrpm =>
        rw [if_pos hrpm]
        split at hv
        · cases hv
        · rfl
      · cases hv
  rw [resolve, lookup]
  generalize ctx.admitted? req = admitted at hnone ⊢
  obtain ⟨found, vs⟩ := admitted
  obtain rfl : found = none := hnone
  cases ctx.platform.provides req with
  | false => rfl
  | true => rfl

theorem exists_outcome_of_mem_resolveAll {memo : Memo (Resolution × List RpmlibViolation)}
    {ds : List Demand} (hv : v ∈ (ctx.resolveAll memo ds).violations) :
    ∃ o ∈ (ctx.resolveAll memo ds).table,
      o.resolution = (ctx.resolve o.requirement).1 ∧ v ∈ (ctx.resolve o.requirement).2 := by
  induction ds generalizing memo with
  | nil => cases hv
  | cons d rest ih =>
    rw [resolveAll] at hv ⊢
    rcases List.mem_append.1 hv with hv | hv
    · -- only an answer that was computed brings violations
      refine ⟨_, List.mem_cons_self, ?_⟩
      unfold Memo.fetch at hv ⊢
      cases hentry : memo.entries[d.requirement.text]? with
      | some answer =>
        rw [hentry] at hv
        cases hv
      | none =>
        rw [hentry] at hv
        exact ⟨rfl, hv⟩
    · obtain ⟨o, ho, hown⟩ := ih hv
      exact ⟨o, List.mem_cons_of_mem _ ho, hown⟩

/-- A violation of a run was found by an answer that the run computed. -/
theorem exists_outcome_of_mem_violations (hv : v ∈ ctx.outcomes.violations) :
    ∃ o ∈ ctx.outcomes.table,
      o.resolution = (ctx.resolve o.requirement).1 ∧ v ∈ (ctx.resolve o.requirement).2 :=
  exists_outcome_of_mem_resolveAll hv

end Context

end Depcheck

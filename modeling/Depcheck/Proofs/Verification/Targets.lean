import Depcheck.Proofs.Resolution.Matches
import Depcheck.Proofs.Verification.Outcomes

/-!
# The targets of an outcome

An outcome leads to what its requirement was matched to, unless the requirer is among the matches.
Whatever a run matched is some package of the list.
-/

namespace Depcheck

/-- A requirement leads to all its matches unless its owner is one of them. -/
theorem Outcome.targets_of_not_mem {o : Outcome} {m : List Nat} (hres : o.resolution = .matched m)
    (hself : o.owner ∉ m) : o.targets = m := by
  have htargets : o.targets = (excludeSelf? o.owner m).getD [] := by rw [Outcome.targets, hres]
  rw [htargets, excludeSelf?, if_neg hself]
  rfl

/-- An outcome with targets was matched to them, and they leave out the requirer. -/
theorem Outcome.resolution_of_mem_targets {o : Outcome} {t : Nat} (h : t ∈ o.targets) :
    o.resolution = .matched o.targets ∧ o.owner ∉ o.targets := by
  cases hres : o.resolution with
  | absent =>
    rw [Outcome.targets, hres] at h
    cases h
  | builtin =>
    rw [Outcome.targets, hres] at h
    cases h
  | mismatch =>
    rw [Outcome.targets, hres] at h
    cases h
  | matched m =>
    have htargets : o.targets = (excludeSelf? o.owner m).getD [] := by rw [Outcome.targets, hres]
    by_cases hself : o.owner ∈ m
    · rw [htargets, excludeSelf?, if_pos hself] at h
      cases h
    · rw [htargets, excludeSelf?, if_neg hself]
      exact ⟨rfl, hself⟩

namespace Context

variable {ctx : Context}

theorem owner_lt_of_mem_table {o : Outcome} (ho : o ∈ ctx.outcomes.table) :
    o.owner < ctx.packages.size := by
  obtain ⟨p, hp, _⟩ := mem_demands.1 (mem_demands_of_mem_table ho)
  exact lt_of_getElem? hp

theorem requires_of_mem_table {o : Outcome} (ho : o ∈ ctx.outcomes.table) :
    (ctx.package o.owner).requires[o.position]? = some o.requirement := by
  obtain ⟨p, hp, hreq⟩ := mem_demands.1 (mem_demands_of_mem_table ho)
  rw [package_eq_of_getElem? hp]
  exact hreq

/-- Whatever matches a requirement is some package of the list, and there is one. -/
theorem of_resolve_eq_matched (hidx : ctx.Indexed) {req : Capability} {m : List Nat}
    (h : (ctx.resolve req).1 = .matched m) : m ≠ [] ∧ ∀ q ∈ m, q < ctx.packages.size := by
  obtain ⟨rfl, hne⟩ := resolve_eq_matched_iff.1 h
  refine ⟨hne, ?_⟩
  intro q hq
  exact lt_of_mem_matchesOf hidx hq

theorem matched_of_mem_table (hidx : ctx.Indexed) {o : Outcome} (ho : o ∈ ctx.outcomes.table)
    {m : List Nat} (hres : o.resolution = .matched m) :
    m ≠ [] ∧ ∀ q ∈ m, q < ctx.packages.size := by
  obtain ⟨d, _, _, hd⟩ := exists_resolve_of_mem_table ho
  exact of_resolve_eq_matched hidx (hd.trans hres)

/-- All targets of an outcome are packages of the list. -/
theorem lt_of_mem_targets (hidx : ctx.Indexed) {o : Outcome} (ho : o ∈ ctx.outcomes.table) {t : Nat}
    (ht : t ∈ o.targets) : t < ctx.packages.size :=
  (matched_of_mem_table hidx ho (Outcome.resolution_of_mem_targets ht).1).2 t ht

end Context

end Depcheck

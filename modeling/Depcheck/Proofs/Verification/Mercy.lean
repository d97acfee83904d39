import Depcheck.Proofs.Lists
import Depcheck.Proofs.Resolution.Matches
import Depcheck.Proofs.Verification.Outcomes
import Depcheck.Proofs.Verification.Problems

/-!
# Strict and lenient runs

A lenient run takes a capability without a version for any version. It looks up the same candidates
and may only keep more of them, so what is unmet in it is unmet in the strict run of the same
packages, for the same reason (`unmetKind?_of_lenient`). The memo does not come between the two: in
both runs it keeps the answer for the first requirement of a text, and that is the same requirement.
-/

namespace Depcheck

theorem Capability.isSatisfiedBy_lenient {req cap : Capability}
    (h : req.isSatisfiedBy cap true = true) : req.isSatisfiedBy cap false = true := by
  unfold isSatisfiedBy at h ⊢
  rw [Bool.and_eq_true] at h ⊢
  refine ⟨h.1, ?_⟩
  cases hreq : req.constraint with
  | none => rfl
  | some r =>
    cases hcap : cap.constraint with
    | none => rfl
    | some c =>
      rw [hreq, hcap] at h
      exact h.2

theorem Package.satisfies_lenient {p : Package} {req : Capability}
    (h : p.satisfies req true = true) : p.satisfies req false = true := by
  unfold satisfies at h ⊢
  rw [Bool.or_eq_true, List.any_eq_true] at h ⊢
  rcases h with hname | ⟨c, hc, hsat⟩
  · exact .inl hname
  · exact .inr ⟨c, hc, Capability.isSatisfiedBy_lenient hsat⟩

/-- Is the problem a requirement whose name nothing provides? -/
def Problem.isAbsent : Problem → Bool
  | .unmet _ ⟨_, .absent⟩ => true
  | _ => false

theorem Problem.isAbsent_eq (p : Problem) : p.isAbsent = (p.isAbsent && p.isUnmet) := by
  cases p with
  | unmet package u => exact (Bool.and_true _).symm
  | rpmlibViolation provider capability => rfl
  | prereqLoop cycle broken => rfl
  | fileConflict path packages => rfl

theorem Resolution.unmetKind?_eq_absent {res : Resolution} :
    res.unmetKind? = some .absent ↔ res = .absent := by
  cases res <;> simp [unmetKind?]

namespace Context

variable {ctx : Context}

/-- The same packages and configuration, with the given treatment of capabilities without a
version. -/
def withStrict (ctx : Context) (strict : Bool) : Context := { ctx with strict }

/-! ## One requirement -/

theorem lookup_withStrict (strict : Bool) (req : Capability) :
    (ctx.withStrict strict).lookup req = ctx.lookup req := rfl

theorem resolve_eq_absent_iff {req : Capability} :
    (ctx.resolve req).1 = .absent ↔ (ctx.lookup req).1 = none := by
  unfold resolve
  obtain ⟨found, vs⟩ := ctx.lookup req
  rcases found with _ | _ | ⟨id, ids⟩
  · simp
  · simp
  · cases h : ctx.filterVersion req (id :: ids) <;> simp [h]

theorem resolve_eq_mismatch_iff {req : Capability} :
    (ctx.resolve req).1 = .mismatch ↔
      ∃ ids, (ctx.lookup req).1 = some ids ∧ ids ≠ [] ∧ ctx.filterVersion req ids = [] := by
  unfold resolve
  obtain ⟨found, vs⟩ := ctx.lookup req
  rcases found with _ | _ | ⟨id, ids⟩
  · simp
  · simp
  · cases h : ctx.filterVersion req (id :: ids) <;> simp [h]

/-- Whatever passes the filter of the strict run passes that of the lenient one. -/
theorem filterVersion_lenient {req : Capability} {ids : List Nat} {id : Nat}
    (h : id ∈ (ctx.withStrict true).filterVersion req ids) :
    id ∈ (ctx.withStrict false).filterVersion req ids := by
  obtain ⟨hid, hsat⟩ := mem_filterVersion.1 h
  refine mem_filterVersion.2 ⟨hid, ?_⟩
  intro hversioned
  exact Package.satisfies_lenient (hsat hversioned)

theorem absent_withStrict_iff {req : Capability} :
    ((ctx.withStrict false).resolve req).1 = .absent ↔
      ((ctx.withStrict true).resolve req).1 = .absent := by
  rw [resolve_eq_absent_iff, resolve_eq_absent_iff, lookup_withStrict, lookup_withStrict]

theorem mismatch_of_lenient {req : Capability}
    (h : ((ctx.withStrict false).resolve req).1 = .mismatch) :
    ((ctx.withStrict true).resolve req).1 = .mismatch := by
  obtain ⟨ids, hlookup, hne, hnone⟩ := resolve_eq_mismatch_iff.1 h
  refine resolve_eq_mismatch_iff.2 ⟨ids, hlookup, hne, ?_⟩
  rw [List.eq_nil_iff_forall_not_mem] at hnone ⊢
  intro id hid
  exact hnone id (filterVersion_lenient hid)

/-- A requirement that the lenient run leaves unmet is unmet in the strict run, for the same
reason. -/
theorem unmetKind?_of_lenient {req : Capability} {kind : UnmetKind}
    (h : ((ctx.withStrict false).resolve req).1.unmetKind? = some kind) :
    ((ctx.withStrict true).resolve req).1.unmetKind? = some kind := by
  cases hres : ((ctx.withStrict false).resolve req).1 with
  | absent =>
    rw [absent_withStrict_iff.1 hres, ← hres]
    exact h
  | mismatch =>
    rw [mismatch_of_lenient hres, ← hres]
    exact h
  | builtin =>
    rw [hres] at h
    cases h
  | matched ids =>
    rw [hres] at h
    cases h

/-! ## All requirements -/

variable {passes : Passes} {states : Array PackageState}

/-- What a run lists for a requirement of a package, if it lists anything. -/
def unmetProblem? (ctx : Context) (d : Demand) : Option Problem :=
  ((ctx.kept? d.requirement.text).bind Resolution.unmetKind?).map fun kind =>
    .unmet (ctx.idText d.owner) ⟨d.requirement.text, kind⟩

/-- The unmet requirements stand in the order of the requirements. -/
theorem filter_isUnmet_verify :
    (ctx.verify passes states).1.problems.filter Problem.isUnmet =
      (demands ctx.packages).filterMap ctx.unmetProblem? := by
  have hunmet : (ctx.verify passes states).1.problems.filter Problem.isUnmet =
      (ctx.unmetOf ctx.outcomes.table).map fun entry => .unmet entry.1 entry.2 := by
    rw [problems_verify]
    simp [List.filter_map, Problem.isUnmet, Function.comp_def, violationProblem, loopProblem,
      fileProblem]
  rw [hunmet, ← toDemand_table, List.filterMap_map]
  unfold unmetOf
  rw [List.map_filterMap]
  apply List.filterMap_congr
  intro o ho
  show _ = ctx.unmetProblem? o.toDemand
  unfold unmetProblem? Outcome.unmet?
  rw [kept?_of_mem_table ho, Option.map_map, Option.map_map]
  rfl

theorem filter_isAbsent_verify :
    (ctx.verify passes states).1.problems.filter Problem.isAbsent =
      (demands ctx.packages).filterMap fun d => (ctx.unmetProblem? d).filter Problem.isAbsent := by
  rw [← List.filter_filterMap, ← filter_isUnmet_verify, List.filter_filter]
  apply List.filter_congr
  intro p _
  exact Problem.isAbsent_eq p

theorem unmetProblem?_eq_some_iff {d : Demand} {p : Problem} :
    ctx.unmetProblem? d = some p ↔
      ∃ f kind, first? (demands ctx.packages) d.requirement.text = some f ∧
        (ctx.resolve f.requirement).1.unmetKind? = some kind ∧
        .unmet (ctx.idText d.owner) ⟨d.requirement.text, kind⟩ = p := by
  unfold unmetProblem?
  rw [kept?_eq, Option.map_eq_some_iff]
  simp only [Option.bind_eq_some_iff, Option.map_eq_some_iff, exists_exists_and_eq_and]
  constructor
  · rintro ⟨kind, ⟨f, hf, hkind⟩, hp⟩
    exact ⟨f, kind, hf, hkind, hp⟩
  · rintro ⟨f, kind, hf, hkind, hp⟩
    exact ⟨kind, ⟨f, hf, hkind⟩, hp⟩

-- Both runs keep the answer for the same requirement, as they go through the same packages.

theorem unmetProblem?_of_lenient {d : Demand} {p : Problem}
    (h : (ctx.withStrict false).unmetProblem? d = some p) :
    (ctx.withStrict true).unmetProblem? d = some p := by
  obtain ⟨f, kind, hf, hkind, hp⟩ := unmetProblem?_eq_some_iff.1 h
  exact unmetProblem?_eq_some_iff.2 ⟨f, kind, hf, unmetKind?_of_lenient hkind, hp⟩

theorem unmetProblem?_of_strict {d : Demand} {p : Problem} (habsent : p.isAbsent = true)
    (h : (ctx.withStrict true).unmetProblem? d = some p) :
    (ctx.withStrict false).unmetProblem? d = some p := by
  obtain ⟨f, kind, hf, hkind, rfl⟩ := unmetProblem?_eq_some_iff.1 h
  refine unmetProblem?_eq_some_iff.2 ⟨f, kind, hf, ?_, rfl⟩
  cases kind with
  | absent =>
    rw [Resolution.unmetKind?_eq_absent] at hkind ⊢
    exact absent_withStrict_iff.2 hkind
  | versionMismatch => cases habsent

/-- What the lenient run lists as unmet is listed by the strict run in the same order, and what the
strict run lists besides is provided, but never in a version that would do. -/
theorem unmet_of_lenient_sublist (ctx : Context) (passes : Passes)
    (states states' : Array PackageState) :
    (((ctx.withStrict false).verify passes states).1.problems.filter Problem.isUnmet).Sublist
        (((ctx.withStrict true).verify passes states').1.problems.filter Problem.isUnmet) ∧
      ((ctx.withStrict false).verify passes states).1.problems.filter Problem.isAbsent =
        ((ctx.withStrict true).verify passes states').1.problems.filter Problem.isAbsent := by
  constructor
  · rw [filter_isUnmet_verify, filter_isUnmet_verify]
    exact filterMap_sublist_filterMap (fun _ _ => unmetProblem?_of_lenient) _
  · rw [filter_isAbsent_verify, filter_isAbsent_verify]
    apply List.filterMap_congr
    intro d _
    ext p
    rw [Option.filter_eq_some_iff, Option.filter_eq_some_iff]
    constructor
    · rintro ⟨h, habsent⟩
      exact ⟨unmetProblem?_of_lenient h, habsent⟩
    · rintro ⟨h, habsent⟩
      exact ⟨unmetProblem?_of_strict habsent h, habsent⟩

/-- An application needs version 2 of what a package provides without saying which version it is. -/
def unversionedContext : Context :=
  let packages : Array Package :=
    #[{ name := "app", evr := { version := "1" },
        requires := [.ofParts "codec" (by decide) (some (.exactly { version := "2" })) {}] },
      { name := "base", evr := { version := "1" },
        provides := [.ofParts "codec" (by decide) none {}] }]
  { packages, index := .build packages none, platform := {}, manager := "rpm", strict := true }

example : ((unversionedContext.withStrict true).verify {} (Array.replicate 2 {})).1.problems =
    [.unmet "app-1" ⟨"codec = 2", .versionMismatch⟩] := by cbv

example : ((unversionedContext.withStrict false).verify {} (Array.replicate 2 {})).1.problems =
    [] := by cbv

end Context

end Depcheck

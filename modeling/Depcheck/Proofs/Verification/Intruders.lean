import Depcheck.Proofs.Verification.Problems
import Depcheck.Proofs.Verification.Transparency
import Depcheck.Proofs.Verification.Violations

/-!
# Intruders

A run notes violations only when it computes an answer, which is once for every text. So the ones it
lists are those of the first requirement of each text (`mem_violations_outcomes`). In packages that
come from records the text determines the name, and with it all violations
(`violations_resolve_of_text_eq`), so the answers that are taken from the memo would have added
none. What is left is a statement about the packages alone (`violation_listed_iff_intruder`).
-/

namespace Depcheck

namespace Context

variable {ctx : Context} {v : RpmlibViolation}

/-- Does a package carry the name without being the package manager? -/
def IsIntruder (ctx : Context) (id : Nat) (name : String) : Prop :=
  id < ctx.packages.size ∧ (ctx.package id).name ≠ ctx.manager ∧
    ((ctx.package id).name = name ∨ ∃ c ∈ (ctx.package id).provides, c.name = name)

/-! ## What one requirement reveals -/

theorem not_isPath_of_isRpmlibName {req : Capability} (h : isRpmlibName req.name = true) :
    req.isPath = false := by
  unfold isRpmlibName at h
  obtain ⟨rest, hname⟩ := List.isPrefixOf_iff_prefix.1 h
  unfold Capability.isPath
  rw [← hname]
  rfl

theorem mem_candidates?_iff {req : Capability} (hpath : req.isPath = false) {id : Nat} :
    (∃ ids, ctx.candidates? req = some ids ∧ id ∈ ids) ↔ id ∈ ctx.index.provided.ids req.name := by
  unfold candidates? NameIndex.ids
  rw [hpath]
  cases ctx.index.provided.lookup? req.name with
  | none => simp
  | some ids => simp

theorem mem_provided_ids_iff (hidx : ctx.Indexed) {name : String} {id : Nat} :
    id ∈ ctx.index.provided.ids name ↔
      id < ctx.packages.size ∧
        ((ctx.package id).name = name ∨ ∃ c ∈ (ctx.package id).provides, c.name = name) := by
  obtain ⟨only, hidx⟩ := hidx
  rw [hidx, Index.mem_provided_build]
  unfold Package.providedNames
  simp only [List.mem_cons, List.mem_map]
  constructor
  · rintro ⟨p, hp, hname⟩
    rw [package_eq_of_getElem? hp]
    exact ⟨lt_of_getElem? hp, hname.imp_left Eq.symm⟩
  · rintro ⟨hid, hname⟩
    exact ⟨_, getElem?_packages hid, hname.imp_left Eq.symm⟩

/-- The violations of a requirement for an `rpmlib(...)` name are the packages that carry the name,
other than the manager; no other requirement has any. -/
theorem mem_violations_resolve_iff (hidx : ctx.Indexed) {req : Capability} (hreq : req.Loaded) :
    v ∈ (ctx.resolve req).2 ↔
      isRpmlibName req.name = true ∧ v.capability = req.name ∧
        ctx.IsIntruder v.provider req.name := by
  rw [mem_violations, hreq.rpmlib_eq]
  refine and_congr_right fun hrpmlib => and_congr_right fun _ => ?_
  have hcarries : (∃ ids, ctx.candidates? req = some ids ∧ v.provider ∈ ids) ↔
      v.provider < ctx.packages.size ∧ ((ctx.package v.provider).name = req.name ∨
        ∃ c ∈ (ctx.package v.provider).provides, c.name = req.name) := by
    rw [mem_candidates?_iff (not_isPath_of_isRpmlibName hrpmlib), mem_provided_ids_iff hidx]
  unfold IsIntruder
  constructor
  · rintro ⟨ids, hids, hmem, hname⟩
    obtain ⟨hlt, hcarried⟩ := hcarries.1 ⟨ids, hids, hmem⟩
    exact ⟨hlt, hname, hcarried⟩
  · rintro ⟨hlt, hname, hcarried⟩
    obtain ⟨ids, hids, hmem⟩ := hcarries.2 ⟨hlt, hcarried⟩
    exact ⟨ids, hids, hmem, hname⟩

/-! ## What the memo reveals -/

theorem violations_resolveAll_cons (memo : Memo (Resolution × List RpmlibViolation)) (d : Demand)
    (rest : List Demand) :
    (ctx.resolveAll memo (d :: rest)).violations =
      (if memo.entries[d.requirement.text]? = none then (ctx.resolve d.requirement).2 else []) ++
        (ctx.resolveAll (memo.fetch d.requirement.text fun _ => ctx.resolve d.requirement).2.2
          rest).violations := by
  rw [resolveAll]
  unfold Memo.fetch
  cases memo.entries[d.requirement.text]? with
  | none => rfl
  | some answer => rfl

/-- A pass over demands adds the violations of the first requirement of each text that the memo does
not know yet. -/
theorem mem_violations_resolveAll {memo : Memo (Resolution × List RpmlibViolation)}
    {ds : List Demand} :
    v ∈ (ctx.resolveAll memo ds).violations ↔
      ∃ d, first? ds d.requirement.text = some d ∧
        memo.entries[d.requirement.text]? = none ∧ v ∈ (ctx.resolve d.requirement).2 := by
  induction ds generalizing memo with
  | nil =>
    constructor
    · intro h
      cases h
    · rintro ⟨_, hd, _⟩
      cases hd
  | cons d rest ih =>
    rw [violations_resolveAll_cons, List.mem_append, ih]
    constructor
    · rintro (hv | ⟨f, hf, hentry, hv⟩)
      · split at hv
        · next hentry => exact ⟨d, by rw [first?_cons, if_pos rfl], hentry, hv⟩
        · cases hv
      · -- the memo knows the text of `d` from here on, so `f` has another text
        rw [Memo.entries_fetch] at hentry
        split at hentry
        · cases hentry
        · next hne => exact ⟨f, by rw [first?_cons, if_neg hne, hf], hentry, hv⟩
    · rintro ⟨f, hf, hentry, hv⟩
      rw [first?_cons] at hf
      by_cases htext : d.requirement.text = f.requirement.text
      · rw [if_pos htext] at hf
        obtain rfl := Option.some.inj hf
        left
        rw [if_pos hentry]
        exact hv
      · rw [if_neg htext] at hf
        right
        refine ⟨f, hf, ?_, hv⟩
        rw [Memo.entries_fetch, if_neg htext]
        exact hentry

/-- A run lists the violations of the first requirement of each text. -/
theorem mem_violations_outcomes :
    v ∈ ctx.outcomes.violations ↔
      ∃ d, first? (demands ctx.packages) d.requirement.text = some d ∧
        v ∈ (ctx.resolve d.requirement).2 := by
  unfold outcomes
  rw [mem_violations_resolveAll]
  simp

theorem violations_resolve_of_text_eq {a b : Capability} (ha : a.Loaded) (hb : b.Loaded)
    (h : a.text = b.text) : (ctx.resolve a).2 = (ctx.resolve b).2 := by
  have hname : a.name = b.name := by
    rcases (Capability.text_eq_iff ha hb).1 h with ⟨hname, _⟩ | hc | hc
    · exact hname
    · exact hc.1
    · exact hc.1.symm
  have hrpmlib : a.flags.rpmlib = b.flags.rpmlib := by
    rw [ha.rpmlib_eq, hb.rpmlib_eq, hname]
  rw [violations_resolve, violations_resolve, admitted?_congr hname hrpmlib]

/-- The memo hides no violation. -/
theorem mem_violations_of_mem_demands (hload : FromRecords ctx.packages) {d : Demand}
    (hd : d ∈ demands ctx.packages) (hv : v ∈ (ctx.resolve d.requirement).2) :
    v ∈ ctx.outcomes.violations := by
  obtain ⟨f, hf, hmem, htext⟩ := exists_first? hd
  refine mem_violations_outcomes.2 ⟨f, ?_, ?_⟩
  · rw [htext]
    exact hf
  · rw [violations_resolve_of_text_eq (loaded_of_mem_demands hload hmem)
      (loaded_of_mem_demands hload hd) htext]
    exact hv

/-! ## What the list of problems shows -/

/-- A run of packages that come from records lists a provider for an `rpmlib(...)` name exactly when
a package of this text other than the manager carries the name, and some package requires it;
and whatever a requirement reveals on its own is listed. -/
theorem violation_listed_iff_intruder (hidx : ctx.Indexed) (hload : FromRecords ctx.packages)
    (passes : Passes) (states : Array PackageState) :
    (∀ provider capability,
      .rpmlibViolation provider capability ∈ (ctx.verify passes states).1.problems ↔
        (∃ q, ctx.IsIntruder q capability ∧ ctx.idText q = provider) ∧
          isRpmlibName capability = true ∧
          ∃ p ∈ ctx.packages, ∃ r ∈ p.requires, r.name = capability) ∧
    ∀ d ∈ demands ctx.packages, ∀ v ∈ (ctx.resolve d.requirement).2,
      ctx.violationProblem v ∈ (ctx.verify passes states).1.problems := by
  constructor
  · intro provider capability
    rw [mem_problems_iff_violation, ← exists_mem_demands]
    constructor
    · rintro ⟨v, hv, rfl, rfl⟩
      obtain ⟨d, hfirst, hv⟩ := mem_violations_outcomes.1 hv
      have hd : d ∈ demands ctx.packages := List.mem_of_find?_eq_some hfirst
      obtain ⟨hrpmlib, hname, hintruder⟩ :=
        (mem_violations_resolve_iff hidx (loaded_of_mem_demands hload hd)).1 hv
      rw [hname]
      exact ⟨⟨v.provider, hintruder, rfl⟩, hrpmlib, d, hd, rfl⟩
    · rintro ⟨⟨q, hintruder, rfl⟩, hrpmlib, d, hd, rfl⟩
      refine ⟨⟨q, d.requirement.name⟩, mem_violations_of_mem_demands hload hd ?_, rfl, rfl⟩
      exact (mem_violations_resolve_iff hidx (loaded_of_mem_demands hload hd)).2
        ⟨hrpmlib, rfl, hintruder⟩
  · intro d hd v hv
    exact mem_problems_iff_violation.2 ⟨v, mem_violations_of_mem_demands hload hd hv, rfl, rfl⟩

/-- An application asks twice for a feature, in two texts. Besides the package manager another
package pretends to have it. -/
def fakePackages : Array Package :=
  #[{ name := "app", evr := { version := "1" },
      requires :=
        [.ofParts "rpmlib(PayloadIsXz)" (by decide) (some (.exactly { version := "4" })) {},
         .ofParts "rpmlib(PayloadIsXz)" (by decide) none {}] },
    { name := "rpm", evr := { version := "4" },
      provides := [.ofParts "rpmlib(PayloadIsXz)" (by decide) none {}] },
    { name := "fake", evr := { version := "1" },
      provides := [.ofParts "rpmlib(PayloadIsXz)" (by decide) none {}] }]

def fakeContext : Context where
  packages := fakePackages
  index := .build fakePackages none
  platform := {}
  manager := "rpm"
  strict := true

theorem fromRecords_fake : FromRecords fakePackages :=
  .of_mapM
    [{ name := "app", version := "1",
       requires := ["rpmlib(PayloadIsXz) = 4", "rpmlib(PayloadIsXz)"] },
     { name := "rpm", version := "4", provides := ["rpmlib(PayloadIsXz)"] },
     { name := "fake", version := "1", provides := ["rpmlib(PayloadIsXz)"] }]
    rfl

/-- The other package is listed and the manager is not. -/
theorem violation_listed_iff_intruder_fake :
    fakeContext.Indexed ∧ FromRecords fakeContext.packages ∧
      .rpmlibViolation "fake-1" "rpmlib(PayloadIsXz)" ∈
        (fakeContext.verify {} (Array.replicate 3 {})).1.problems ∧
      .rpmlibViolation "rpm-4" "rpmlib(PayloadIsXz)" ∉
        (fakeContext.verify {} (Array.replicate 3 {})).1.problems := by
  have hidx : fakeContext.Indexed := ⟨none, rfl⟩
  have hload : FromRecords fakeContext.packages := fromRecords_fake
  obtain ⟨hlisted, _⟩ :=
    violation_listed_iff_intruder hidx hload {} (Array.replicate 3 {})
  refine ⟨hidx, hload, (hlisted _ _).2 ⟨⟨2, ?_, rfl⟩, by decide, ?_⟩, ?_⟩
  · exact ⟨by decide, by decide, .inr ⟨_, List.mem_cons_self, rfl⟩⟩
  · exact ⟨fakePackages[0], Array.getElem_mem _, _, List.mem_cons_self, rfl⟩
  · intro h
    obtain ⟨⟨q, ⟨hlt, hname, _⟩, htext⟩, _⟩ := (hlisted _ _).1 h
    have hlt : q < 3 := hlt
    obtain rfl | rfl | rfl : q = 0 ∨ q = 1 ∨ q = 2 := by omega
    · exact absurd htext (by decide)
    · exact hname rfl
    · exact absurd htext (by decide)

end Context

end Depcheck

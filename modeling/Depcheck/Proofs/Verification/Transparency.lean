import Depcheck.Proofs.Capability.Text
import Depcheck.Proofs.Verification.Outcomes

/-!
# Transparency of the memo

A run gives a requirement the answer that was kept under its text. Where the platform is a list of
capabilities, the answer depends on name and constraint alone (`resolve_congr_of_loaded`), and these
are what the text determines, up to an epoch that is spelled out. So the memo is transparent exactly
when the requirements that collide in this way are resolved alike.
-/

namespace Depcheck

namespace Context

variable {ctx : Context} {a b : Capability}

theorem candidates?_congr (hname : a.name = b.name) : ctx.candidates? a = ctx.candidates? b := by
  rw [candidates?, candidates?, Capability.isPath, Capability.isPath, hname]

theorem admitted?_congr (hname : a.name = b.name) (hrpmlib : a.flags.rpmlib = b.flags.rpmlib) :
    ctx.admitted? a = ctx.admitted? b := by
  rw [admitted?, admitted?, candidates?_congr hname, hname, hrpmlib]

theorem isSatisfiedBy_congr (hname : a.name = b.name) (hk : a.constraint = b.constraint)
    (cap : Capability) (strict : Bool) : a.isSatisfiedBy cap strict = b.isSatisfiedBy cap strict := by
  rw [Capability.isSatisfiedBy, Capability.isSatisfiedBy, hname, hk]

theorem satisfies_congr (hname : a.name = b.name) (hk : a.constraint = b.constraint) (p : Package)
    (strict : Bool) : p.satisfies a strict = p.satisfies b strict := by
  rw [Package.satisfies, Package.satisfies, Package.satisfiesByName, Package.satisfiesByName, hname,
    hk]
  simp only [isSatisfiedBy_congr hname hk]

/-- A list of platform capabilities looks at the name and the constraint of a requirement only. -/
theorem provides_congr (platform : Platform) (hname : a.name = b.name)
    (hk : a.constraint = b.constraint) : platform.provides a = platform.provides b := by
  rw [Platform.provides, Platform.provides, hname]
  simp only [isSatisfiedBy_congr hname hk]

theorem lookup_congr (hname : a.name = b.name) (hrpmlib : a.flags.rpmlib = b.flags.rpmlib)
    (hprovides : ctx.platform.provides a = ctx.platform.provides b) :
    ctx.lookup a = ctx.lookup b := by
  rw [lookup, lookup, admitted?_congr hname hrpmlib, hprovides]

theorem filterVersion_congr (hname : a.name = b.name) (hk : a.constraint = b.constraint)
    (ids : List Nat) : ctx.filterVersion a ids = ctx.filterVersion b ids := by
  rw [filterVersion, filterVersion, Capability.isVersioned, Capability.isVersioned, hk]
  simp only [satisfies_congr hname hk]

/-- What a requirement is resolved to depends on its name and constraint, on whether it is left to the
package manager, and on what the platform says. -/
theorem resolve_congr (hname : a.name = b.name) (hk : a.constraint = b.constraint)
    (hrpmlib : a.flags.rpmlib = b.flags.rpmlib)
    (hprovides : ctx.platform.provides a = ctx.platform.provides b) :
    ctx.resolve a = ctx.resolve b := by
  rw [resolve, resolve, lookup_congr hname hrpmlib hprovides]
  simp only [filterVersion_congr hname hk]

theorem resolve_congr_of_loaded {platform : Platform} (hplatform : ctx.platform = platform)
    (ha : a.Loaded) (hb : b.Loaded) (hname : a.name = b.name)
    (hk : a.constraint = b.constraint) : ctx.resolve a = ctx.resolve b := by
  apply resolve_congr hname hk
  · rw [ha.rpmlib_eq, hb.rpmlib_eq, hname]
  · rw [hplatform]
    exact provides_congr platform hname hk

theorem loaded_of_mem_demands {packages : Array Package} (hload : FromRecords packages)
    {d : Demand} (hd : d ∈ demands packages) : d.requirement.Loaded := by
  obtain ⟨p, hp, hr⟩ := mem_demands.1 hd
  obtain ⟨r, hr'⟩ := hload p (Array.mem_of_getElem? hp)
  exact PackageRecord.loaded_of_toPackage hr' (List.mem_of_getElem? hr)

/-- An answer that is not the requirement's own is that of a requirement which collides with it. -/
theorem resolution_eq_or_collides {platform : Platform} (hplatform : ctx.platform = platform)
    (hload : FromRecords ctx.packages) {o : Outcome} (ho : o ∈ ctx.outcomes.table) :
    o.resolution = (ctx.resolve o.requirement).1 ∨
      ∃ d ∈ demands ctx.packages, o.resolution = (ctx.resolve d.requirement).1 ∧
        (d.requirement.Collides o.requirement ∨ o.requirement.Collides d.requirement) := by
  obtain ⟨d, hd, htext, hres⟩ := exists_resolve_of_mem_table ho
  have hloadd := loaded_of_mem_demands hload hd
  have hloado := loaded_of_mem_demands hload (mem_demands_of_mem_table ho)
  rcases (Capability.text_eq_iff hloadd hloado).1 htext with ⟨hname, hk⟩ | hc | hc
  · left
    rw [← hres, resolve_congr_of_loaded hplatform hloadd hloado hname hk]
  · exact .inr ⟨d, hd, hres.symm, .inl hc⟩
  · exact .inr ⟨d, hd, hres.symm, .inr hc⟩

/-- Whatever capabilities the platform lists, the memo changes no answer exactly when requirements that
collide are resolved alike. -/
theorem transparent_iff {platform : Platform} (hplatform : ctx.platform = platform)
    (hload : FromRecords ctx.packages) :
    (∀ o ∈ ctx.outcomes.table, o.resolution = (ctx.resolve o.requirement).1) ↔
      ∀ d ∈ demands ctx.packages, ∀ d' ∈ demands ctx.packages,
        d.requirement.Collides d'.requirement →
          (ctx.resolve d.requirement).1 = (ctx.resolve d'.requirement).1 := by
  constructor
  · intro h d hd d' hd' hc
    -- colliding requirements have one text, and so one answer was kept for both
    obtain ⟨res, hkept, ho⟩ := exists_outcome hd
    obtain ⟨res', hkept', ho'⟩ := exists_outcome hd'
    have htext := hc.text_eq (loaded_of_mem_demands hload hd) (loaded_of_mem_demands hload hd')
    have hres : res = res' := by
      rw [htext, hkept'] at hkept
      exact (Option.some.inj hkept).symm
    calc
      (ctx.resolve d.requirement).1 = res := (h _ ho).symm
      _ = res' := hres
      _ = (ctx.resolve d'.requirement).1 := h _ ho'
  · intro h o ho
    rcases resolution_eq_or_collides hplatform hload ho with hres | ⟨d, hd, hres, hc | hc⟩
    · exact hres
    · rw [hres]
      exact h d hd o.toDemand (mem_demands_of_mem_table ho) hc
    · rw [hres]
      exact (h o.toDemand (mem_demands_of_mem_table ho) d hd hc).symm

/-- A package `foo` whose version spells an epoch, required once with that epoch and once with the
spelling. -/
def spelledPackages : Array Package :=
  #[{ name := "a", evr := { version := "1" },
      requires :=
        [.ofParts "foo" (by decide) (some (.exactly { epoch := some 1, version := "2" })) {}] },
    { name := "b", evr := { version := "1" },
      requires := [.ofParts "foo" (by decide) (some (.exactly { version := "1:2" })) {}] },
    { name := "foo", evr := { version := "1:2" } }]

def spelledContext : Context where
  packages := spelledPackages
  index := .build spelledPackages none
  platform := ({} : Platform)
  manager := "rpm"
  strict := false

theorem fromRecords_spelled : FromRecords spelledPackages :=
  .of_mapM
    [{ name := "a", version := "1", requires := ["foo = 1:2"] },
     { name := "b", version := "1", requires := ["foo = :1:2"] },
     { name := "foo", version := "1:2" }]
    rfl

/-- The second requirement is matched on its own, and a mismatch after the first one. -/
theorem not_transparent_spelled :
    FromRecords spelledContext.packages ∧
      spelledContext.outcomes.table.map
          (fun o => (o.resolution, (spelledContext.resolve o.requirement).1)) =
        [(.mismatch, .mismatch), (.mismatch, .matched [2])] := by
  refine ⟨fromRecords_spelled, ?_⟩
  decide +kernel

theorem transparent_iff_spelled :
    spelledContext.platform = ({} : Platform) ∧ FromRecords spelledContext.packages ∧
      ((∀ o ∈ spelledContext.outcomes.table,
          o.resolution = (spelledContext.resolve o.requirement).1) ↔
        ∀ d ∈ demands spelledContext.packages, ∀ d' ∈ demands spelledContext.packages,
          d.requirement.Collides d'.requirement →
            (spelledContext.resolve d.requirement).1 =
              (spelledContext.resolve d'.requirement).1) := by
  have hplatform : spelledContext.platform = ({} : Platform) := rfl
  have hload : FromRecords spelledContext.packages := fromRecords_spelled
  exact ⟨hplatform, hload, transparent_iff hplatform hload⟩

end Context

end Depcheck

import Mathlib
import Depcheck.Proofs.Graph.Conflicts
import Depcheck.Proofs.Index.Buckets
import Depcheck.Proofs.Lists
import Depcheck.Proofs.Resolution.Matches
import Depcheck.Proofs.Verification.Outcomes
import Depcheck.Verification.Run

/-!
# Declared conflicts

Which packages a declared conflict hits can be told by looking at every package in turn. `Hits` says
how, and mentions no index; the conflict edges are these hits and no others, the record of each edge
being the first one that hits (`conflicts_iff_hits`).
-/

namespace Depcheck

/-- The conflict `c`, declared by `p`, hits `q`: it is satisfied there, by a package of the same name
if it is a bastard one, and the two are no builds of one version for different architectures. -/
structure Package.Hits (strict : Bool) (p : Package) (c : Capability) (q : Package) : Prop where
  satisfied : q.satisfies c strict = true
  same_name : c.flags.bastard = true → p.name = q.name
  not_multilib : ¬(p.name = q.name ∧ p.compareEvr q = .eq ∧ p.arch ≠ q.arch)

namespace Package

variable {p q : Package} {c : Capability} {strict : Bool}

theorem isMultilibOf_iff :
    p.isMultilibOf q = true ↔ p.name = q.name ∧ p.compareEvr q = .eq ∧ p.arch ≠ q.arch := by
  unfold isMultilibOf compareNameEvr compareName sameArch
  simp only [Bool.and_eq_true, Bool.not_eq_true', beq_iff_eq, beq_eq_false_iff_ne,
    Ordering.then_eq_eq, Std.LawfulEqCmp.compare_eq_iff_eq, and_assoc]

/-- A package provides the name of all that it satisfies. -/
theorem mem_providedNames_of_satisfies (h : q.satisfies c strict = true) :
    c.name ∈ q.providedNames := by
  rw [satisfies, Bool.or_eq_true] at h
  rw [providedNames, List.mem_cons, List.mem_map]
  rcases h with hown | hcap
  · rw [satisfiesByName, Bool.and_eq_true, beq_iff_eq] at hown
    exact .inl hown.1.symm
  · obtain ⟨d, hd, hsat⟩ := List.any_eq_true.1 hcap
    rw [Capability.isSatisfiedBy, Bool.and_eq_true, beq_iff_eq] at hsat
    exact .inr ⟨d, hd, hsat.1.symm⟩

/-- Whatever provides the name satisfies an unversioned record. -/
theorem satisfies_of_mem_providedNames (hv : c.isVersioned = false)
    (h : c.name ∈ q.providedNames) : q.satisfies c strict = true := by
  have hnone : c.constraint = none := Option.not_isSome_iff_eq_none.1 (by
    rw [← Capability.isVersioned, hv]
    exact Bool.false_ne_true)
  rw [satisfies, Bool.or_eq_true]
  rcases List.mem_cons.1 h with hown | hcap
  · left
    rw [satisfiesByName, hnone, ← hown]
    simp
  · obtain ⟨d, hd, hname⟩ := List.mem_map.1 hcap
    right
    refine List.any_eq_true.2 ⟨d, hd, ?_⟩
    rw [Capability.isSatisfiedBy, hnone, hname]
    simp

/-- Among the packages that provide its name, a conflict hits those that it should. -/
theorem conflictHits_iff (h : c.name ∈ q.providedNames) :
    p.conflictHits c q strict = true ↔ p.Hits strict c q := by
  have hbastard : (!c.flags.bastard || p.name == q.name) = true ↔
      (c.flags.bastard = true → p.name = q.name) := by
    cases c.flags.bastard <;> simp
  have hversion : (!c.isVersioned || q.satisfies c strict) = true ↔
      q.satisfies c strict = true := by
    cases hv : c.isVersioned with
    | true => rfl
    | false => exact iff_of_true rfl (satisfies_of_mem_providedNames hv h)
  have hmultilib : (!p.isMultilibOf q) = true ↔
      ¬(p.name = q.name ∧ p.compareEvr q = .eq ∧ p.arch ≠ q.arch) := by
    rw [Bool.not_eq_true', ← Bool.not_eq_true, isMultilibOf_iff]
  rw [conflictHits, Bool.and_eq_true, Bool.and_eq_true, hbastard, hversion, hmultilib]
  constructor
  · rintro ⟨⟨hb, hs⟩, hm⟩
    exact ⟨hs, hb, hm⟩
  · rintro ⟨hs, hb, hm⟩
    exact ⟨⟨hb, hs⟩, hm⟩

end Package

namespace Context

variable {ctx : Context} {p j q : Nat}

/-- The conflict at position `j` of the package `p` hits `q`, another package of the list. -/
def Hits (ctx : Context) (p j q : Nat) : Prop :=
  q ≠ p ∧ q < ctx.packages.size ∧
    ∃ c, (ctx.package p).conflicts[j]? = some c ∧ (ctx.package p).Hits ctx.strict c (ctx.package q)

/-- A hit of an obsoletes record. -/
def HitsAsObsolete (ctx : Context) (p j q : Nat) : Prop :=
  ctx.Hits p j q ∧ ∃ c, (ctx.package p).conflicts[j]? = some c ∧ c.flags.obsoletes = true

/-- Only a package of the list declares conflicts. -/
theorem Hits.lt_size (h : ctx.Hits p j q) : p < ctx.packages.size := by
  obtain ⟨_, _, c, hc, _⟩ := h
  apply Nat.lt_of_not_le
  intro hge
  rw [package, Array.getD_eq_getD_getElem?, Array.getElem?_eq_none hge] at hc
  cases hc

theorem Hits.exists_record (h : ctx.Hits p j q) : ∃ c, (ctx.package p).conflicts[j]? = some c := by
  obtain ⟨_, _, c, hc, _⟩ := h
  exact ⟨c, hc⟩

theorem ids_provided (hidx : ctx.Indexed) (name : String) :
    ctx.index.provided.ids name =
      idsWhere ctx.packages fun p => decide (name ∈ p.providedNames) := by
  obtain ⟨only, hidx⟩ := hidx
  rw [hidx, Index.provided_build, NameIndex.ids_finish_ofPackages]

theorem mem_hitsOf (hidx : ctx.Indexed) {c : Capability} :
    q ∈ ctx.hitsOf p c ↔
      q ≠ p ∧ q < ctx.packages.size ∧ (ctx.package p).Hits ctx.strict c (ctx.package q) := by
  rw [hitsOf, List.mem_filter, ids_provided hidx, mem_idsWhere, Bool.and_eq_true, bne_iff_ne]
  constructor
  · rintro ⟨⟨r, hr, hname⟩, hne, hhits⟩
    have hpkg := package_eq_of_getElem? hr
    rw [hpkg] at hhits ⊢
    exact ⟨hne, (Array.getElem?_eq_some_iff.1 hr).1,
      (Package.conflictHits_iff (of_decide_eq_true hname)).1 hhits⟩
  · rintro ⟨hne, hlt, hhits⟩
    have hname := Package.mem_providedNames_of_satisfies hhits.satisfied
    exact ⟨⟨_, getElem?_packages hlt, decide_eq_true hname⟩, hne,
      (Package.conflictHits_iff hname).2 hhits⟩

theorem hitsOf_pairwise (hidx : ctx.Indexed) (c : Capability) :
    (ctx.hitsOf p c).Pairwise (· < ·) := by
  unfold hitsOf
  rw [ids_provided hidx]
  exact (idsWhere_pairwise _ _).filter _

/-! ## All hits -/

theorem mem_conflictHits (hidx : ctx.Indexed) {h : ConflictHit} :
    h ∈ ctx.conflictHits ↔
      ctx.Hits h.owner h.record h.target ∧
        ∃ c, (ctx.package h.owner).conflicts[h.record]? = some c ∧
          h.obsolete = c.flags.obsoletes := by
  unfold conflictHits
  simp only [List.mem_flatMap, List.mem_map, Prod.exists, List.mk_mem_zipIdx_iff_getElem?,
    Array.getElem?_toList]
  constructor
  · rintro ⟨r, p, hr, c, j, hc, q, hq, rfl⟩
    rw [← package_eq_of_getElem? hr] at hc
    obtain ⟨hne, hlt, hhits⟩ := (mem_hitsOf hidx).1 hq
    exact ⟨⟨hne, hlt, c, hc, hhits⟩, c, hc, rfl⟩
  · rintro ⟨hhits, c, hc, hobsolete⟩
    have hp := getElem?_packages hhits.lt_size
    obtain ⟨hne, hlt, c', hc', hhits⟩ := hhits
    rw [hc] at hc'
    cases hc'
    refine ⟨_, h.owner, hp, c, h.record, hc, h.target, (mem_hitsOf hidx).2 ⟨hne, hlt, hhits⟩, ?_⟩
    rw [← hobsolete]

/-- By package, then by record, then by the package that is hit. -/
def HitBefore (a b : ConflictHit) : Prop :=
  a.owner < b.owner ∨ a.owner = b.owner ∧
    (a.record < b.record ∨ a.record = b.record ∧ a.target < b.target)

theorem conflictHits_pairwise (hidx : ctx.Indexed) : ctx.conflictHits.Pairwise HitBefore := by
  unfold conflictHits
  rw [List.pairwise_flatMap]
  constructor
  · rintro ⟨r, p⟩ _
    rw [List.pairwise_flatMap]
    constructor
    · rintro ⟨c, j⟩ _
      rw [List.pairwise_map]
      refine (hitsOf_pairwise hidx c).imp ?_
      intro q q' hlt
      exact .inr ⟨rfl, .inr ⟨rfl, hlt⟩⟩
    · refine (zipIdx_pairwise r.conflicts).imp ?_
      rintro ⟨c, j⟩ ⟨c', j'⟩ hlt h hh h' hh'
      obtain ⟨q, _, rfl⟩ := List.mem_map.1 hh
      obtain ⟨q', _, rfl⟩ := List.mem_map.1 hh'
      exact .inr ⟨rfl, .inl hlt⟩
  · refine (zipIdx_pairwise ctx.packages.toList).imp ?_
    rintro ⟨r, p⟩ ⟨r', p'⟩ hlt h hh h' hh'
    obtain ⟨⟨c, j⟩, _, hh⟩ := List.mem_flatMap.1 hh
    obtain ⟨⟨c', j'⟩, _, hh'⟩ := List.mem_flatMap.1 hh'
    obtain ⟨q, _, rfl⟩ := List.mem_map.1 hh
    obtain ⟨q', _, rfl⟩ := List.mem_map.1 hh'
    exact .inl hlt

/-- The number of hits is the number of triples of a package, a record of it and a package that the
record hits. -/
theorem encard_hits (hidx : ctx.Indexed) :
    {h : Nat × Nat × Nat | ctx.Hits h.1 h.2.1 h.2.2}.encard = ctx.conflictHits.length := by
  let triple : ConflictHit → Nat × Nat × Nat := fun h => (h.owner, h.record, h.target)
  have hnodup : (ctx.conflictHits.map triple).Nodup := by
    rw [List.Nodup, List.pairwise_map]
    refine (conflictHits_pairwise hidx).imp ?_
    intro a b hbefore heq
    obtain ⟨hp, hj, hq⟩ : a.owner = b.owner ∧ a.record = b.record ∧ a.target = b.target := by
      simpa [triple] using heq
    unfold HitBefore at hbefore
    omega
  rw [← List.length_map triple]
  refine encard_eq_length hnodup ?_
  rintro ⟨p, j, q⟩
  rw [Set.mem_ofPred_eq, List.mem_map]
  constructor
  · intro hhits
    obtain ⟨c, hc⟩ := hhits.exists_record
    exact ⟨⟨p, j, c.flags.obsoletes, q⟩, (mem_conflictHits hidx).2 ⟨hhits, c, hc, rfl⟩, rfl⟩
  · rintro ⟨h, hh, heq⟩
    cases heq
    exact ((mem_conflictHits hidx).1 hh).1

/-! ## Edges -/

theorem exists_mem_hitsOn (hidx : ctx.Indexed) :
    (∃ h ∈ hitsOn ctx.conflictHits p q, h.record = j) ↔ ctx.Hits p j q := by
  constructor
  · rintro ⟨h, hh, rfl⟩
    obtain ⟨hmem, rfl, rfl⟩ := mem_hitsOn.1 hh
    exact ((mem_conflictHits hidx).1 hmem).1
  · intro hhits
    obtain ⟨c, hc⟩ := hhits.exists_record
    exact ⟨⟨p, j, c.flags.obsoletes, q⟩,
      mem_hitsOn.2 ⟨(mem_conflictHits hidx).2 ⟨hhits, c, hc, rfl⟩, rfl, rfl⟩, rfl⟩

/-- The hits of one package on another come in the order of their records. -/
theorem hitsOn_pairwise (hidx : ctx.Indexed) :
    (hitsOn ctx.conflictHits p q).Pairwise fun a b => a.record < b.record := by
  refine ((conflictHits_pairwise hidx).filter _).imp_of_mem ?_
  intro a b ha hb hbefore
  obtain ⟨_, hap, haq⟩ := mem_hitsOn.1 ha
  obtain ⟨_, hbp, hbq⟩ := mem_hitsOn.1 hb
  unfold HitBefore at hbefore
  omega

theorem obsolete_hitsOn (hidx : ctx.Indexed) :
    (hitsOn ctx.conflictHits p q).any ConflictHit.obsolete = true ↔
      ∃ j, ctx.HitsAsObsolete p j q := by
  rw [List.any_eq_true]
  constructor
  · rintro ⟨h, hh, hobsolete⟩
    obtain ⟨hmem, rfl, rfl⟩ := mem_hitsOn.1 hh
    obtain ⟨hhits, c, hc, heq⟩ := (mem_conflictHits hidx).1 hmem
    exact ⟨h.record, hhits, c, hc, heq ▸ hobsolete⟩
  · rintro ⟨j, hhits, c, hc, hobsolete⟩
    exact ⟨⟨p, j, c.flags.obsoletes, q⟩,
      mem_hitsOn.2 ⟨(mem_conflictHits hidx).2 ⟨hhits, c, hc, rfl⟩, rfl, rfl⟩, hobsolete⟩

variable {g : Graph}

theorem addConflicts_eq_addHits (g : Graph) : ctx.addConflicts g = g.addHits ctx.conflictHits := rfl

/-- What an edge says: its record is the first that hits its target, and it is marked as obsolete
when some obsoletes record hits it. -/
theorem mem_conflicts_addConflicts (hidx : ctx.Indexed) (hempty : ∀ id, g.conflicts id = [])
    {e : ConflictEdge} (he : e ∈ (ctx.addConflicts g).conflicts p) :
    (ctx.Hits p e.record e.target ∧ ∀ j < e.record, ¬ctx.Hits p j e.target) ∧
      (e.flags.obsolete = true ↔ ∃ j, ctx.HitsAsObsolete p j e.target) := by
  rw [addConflicts_eq_addHits, Graph.mem_conflicts_addHits hempty, mergedConflict?] at he
  obtain ⟨_, hmerged⟩ := he
  obtain ⟨first, hfirst, heq⟩ := Option.map_eq_some_iff.1 hmerged
  obtain ⟨rest, hrow⟩ := List.head?_eq_some_iff.1 hfirst
  have hrecord : e.record = first.record := by rw [← heq]
  have hobsolete : e.flags.obsolete =
      (hitsOn ctx.conflictHits p e.target).any ConflictHit.obsolete := by
    conv_lhs => rw [← heq]
  refine ⟨⟨?_, ?_⟩, ?_⟩
  · refine (exists_mem_hitsOn hidx).1 ⟨first, ?_, hrecord.symm⟩
    rw [hrow]
    exact List.mem_cons_self
  · -- an earlier record would stand before the first hit
    intro j hj hhits
    obtain ⟨h, hh, rfl⟩ := (exists_mem_hitsOn hidx).2 hhits
    have hordered := hitsOn_pairwise hidx (p := p) (q := e.target)
    rw [hrow] at hh hordered
    rcases List.mem_cons.1 hh with rfl | hh
    · omega
    · have := (List.pairwise_cons.1 hordered).1 h hh
      omega
  · rw [hobsolete]
    exact obsolete_hitsOn hidx

theorem exists_conflict_iff (hidx : ctx.Indexed) (hsize : g.size = ctx.packages.size)
    (hempty : ∀ id, g.conflicts id = []) :
    (∃ e ∈ (ctx.addConflicts g).conflicts p, e.target = q) ↔ ∃ j, ctx.Hits p j q := by
  constructor
  · rintro ⟨e, he, rfl⟩
    exact ⟨e.record, (mem_conflicts_addConflicts hidx hempty he).1.1⟩
  · rintro ⟨j, hhits⟩
    obtain ⟨h, hh, _⟩ := (exists_mem_hitsOn hidx).2 hhits
    obtain ⟨first, rest, hrow⟩ := List.exists_cons_of_ne_nil (List.ne_nil_of_mem hh)
    have hp : p < g.size := by
      rw [hsize]
      exact hhits.lt_size
    let e : ConflictEdge := ⟨q, first.record,
      { conflict := true, obsolete := (first :: rest).any ConflictHit.obsolete }⟩
    refine ⟨e, (Graph.mem_conflicts_addHits hempty).2 ⟨hp, ?_⟩, rfl⟩
    show mergedConflict? q (hitsOn ctx.conflictHits p q) = some e
    rw [hrow]
    rfl

/-- The conflict edges are the declared conflicts that hit. -/
theorem conflicts_iff_hits (hidx : ctx.Indexed) (hsize : g.size = ctx.packages.size)
    (hempty : ∀ id, g.conflicts id = []) :
    (∀ p q, (∃ e ∈ (ctx.addConflicts g).conflicts p, e.target = q) ↔ ∃ j, ctx.Hits p j q) ∧
    (∀ p, ∀ e ∈ (ctx.addConflicts g).conflicts p,
      (e.flags.obsolete = true ↔ ∃ j, ctx.HitsAsObsolete p j e.target) ∧
      ctx.Hits p e.record e.target ∧ ∀ j < e.record, ¬ctx.Hits p j e.target) ∧
    (∀ p, ((ctx.addConflicts g).conflicts p).Pairwise fun a b => a.target < b.target) ∧
    {h : Nat × Nat × Nat | ctx.Hits h.1 h.2.1 h.2.2}.encard = ctx.conflictHits.length := by
  refine ⟨?_, ?_, Graph.ascending_addHits hempty, encard_hits hidx⟩
  · intro p q
    exact exists_conflict_iff hidx hsize hempty
  · intro p e he
    obtain ⟨hfirst, hobsolete⟩ := mem_conflicts_addConflicts hidx hempty he
    exact ⟨hobsolete, hfirst⟩

/-- A package with three records, a build of it for another architecture, an older version, and a
package that two of the records hit. -/
def multilibPackages : Array Package :=
  #[{ name := "new", evr := { version := "2" }, arch := some "x86_64",
      provides := [.ofParts "api" (by decide) none {}],
      conflicts :=
        [.ofParts "api" (by decide) none { conflict := true },
         .ofParts "old" (by decide) none { conflict := true, obsoletes := true },
         .ofParts "new" (by decide) none { conflict := true, bastard := true }] },
    { name := "new", evr := { version := "2" }, arch := some "i686",
      provides := [.ofParts "api" (by decide) none {}] },
    { name := "new", evr := { version := "1" }, arch := some "x86_64" },
    { name := "old", evr := { version := "1" },
      provides := [.ofParts "api" (by decide) none {}] }]

def multilibContext : Context where
  packages := multilibPackages
  index := .build multilibPackages none
  platform := {}
  manager := "rpm"
  strict := true

theorem conflicts_multilib :
    ((multilibContext.addConflicts (.ofSize 4)).conflicts 0).map
        (fun e => (e.target, e.record, e.flags.obsolete)) = [(2, 2, false), (3, 0, true)] ∧
      multilibContext.conflictHits.length = 3 := by
  constructor
  · cbv
  · cbv

/-- The package itself and its other build are not hit; the two records that hit one package share
an edge. -/
theorem conflicts_iff_hits_multilib :
    multilibContext.Indexed ∧ (Graph.ofSize 4).size = multilibContext.packages.size ∧
      (∀ id, (Graph.ofSize 4).conflicts id = []) ∧
      (∃ j, multilibContext.Hits 0 j 3) ∧ (¬∃ j, multilibContext.Hits 0 j 1) ∧
      {h : Nat × Nat × Nat | multilibContext.Hits h.1 h.2.1 h.2.2}.encard = 3 := by
  have hidx : multilibContext.Indexed := ⟨none, rfl⟩
  have hsize : (Graph.ofSize 4).size = multilibContext.packages.size := rfl
  have hempty : ∀ id, (Graph.ofSize 4).conflicts id = [] := Graph.conflicts_ofSize 4
  obtain ⟨hedges, _, _, hcount⟩ := conflicts_iff_hits hidx hsize hempty
  have htargets : ∀ q, (∃ j, multilibContext.Hits 0 j q) ↔ q ∈ [2, 3] := by
    intro q
    have hmap := congrArg (List.map Prod.fst) conflicts_multilib.1
    rw [List.map_map] at hmap
    rw [← hedges 0 q, show [2, 3] = _ from hmap.symm, List.mem_map]
    rfl
  refine ⟨hidx, hsize, hempty, (htargets 3).2 (by decide), fun h => ?_, ?_⟩
  · exact absurd ((htargets 1).1 h) (by decide)
  · rw [hcount, conflicts_multilib.2]
    rfl

end Context

end Depcheck

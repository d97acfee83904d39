import Depcheck.Proofs.Index.Membership
import Depcheck.Proofs.Version.Order
import Depcheck.Resolution.Lookup

/-!
# The matches of a requirement

A requirement is matched by the packages that the lookup finds and the version filter keeps.
`resolve_eq_matched_iff` says that a resolution names exactly these, `matchesOf_pairwise` that the
preferred one comes first, and `lt_of_mem_matchesOf` that each of them is a package of the list from
which the index was built.
-/

namespace Depcheck

namespace Context

variable {ctx : Context} {req : Capability}

/-- The index is one of the packages, with or without a restriction to some directories. -/
def Indexed (ctx : Context) : Prop := ∃ only, ctx.index = .build ctx.packages only

/-- What the lookup finds and the filter keeps, the preferred package first. -/
def matchesOf (ctx : Context) (req : Capability) : List Nat :=
  ctx.filterVersion req ((ctx.lookup req).1.getD [])

theorem mem_filterVersion {ids : List Nat} {id : Nat} :
    id ∈ ctx.filterVersion req ids ↔
      id ∈ ids ∧ (req.isVersioned = true → (ctx.package id).satisfies req ctx.strict = true) := by
  rw [filterVersion, List.mem_mergeSort]
  by_cases h : req.isVersioned = true
  · simp [h]
  · simp [h]

@[simp] theorem filterVersion_nil : ctx.filterVersion req [] = [] := by
  rw [List.eq_nil_iff_forall_not_mem]
  intro id h
  exact absurd (mem_filterVersion.1 h).1 List.not_mem_nil

/-- A requirement that is matched is matched by all that passes lookup and filter. -/
theorem resolve_eq_matched_iff {ms : List Nat} :
    (ctx.resolve req).1 = .matched ms ↔ ctx.matchesOf req = ms ∧ ms ≠ [] := by
  rw [resolve, matchesOf]
  obtain ⟨found, vs⟩ := ctx.lookup req
  rcases found with _ | _ | ⟨id, ids⟩
  · simp only [Option.getD_none, filterVersion_nil, reduceCtorEq, false_iff]
    rintro ⟨rfl, h⟩
    exact h rfl
  · simp only [Option.getD_some, filterVersion_nil, reduceCtorEq, false_iff]
    rintro ⟨rfl, h⟩
    exact h rfl
  · simp only [Option.getD_some]
    cases hm : ctx.filterVersion req (id :: ids) with
    | nil =>
      simp only [reduceCtorEq, false_iff]
      rintro ⟨rfl, h⟩
      exact h rfl
    | cons m rest =>
      constructor
      · intro h
        cases h
        exact ⟨rfl, List.cons_ne_nil m rest⟩
      · rintro ⟨rfl, _⟩
        rfl

/-! ## The preferred match -/

theorem preferred_trans (a b c : Nat) (hab : ctx.preferred a b = true)
    (hbc : ctx.preferred b c = true) : ctx.preferred a c = true :=
  @Std.TransCmp.isLE_trans _ Package.compareNameEvr _ _ _ _ hbc hab

theorem preferred_total (a b : Nat) : (ctx.preferred a b || ctx.preferred b a) = true := by
  have hswap : (ctx.package a).compareNameEvr (ctx.package b) =
      ((ctx.package b).compareNameEvr (ctx.package a)).swap := Std.OrientedCmp.eq_swap
  rw [preferred, preferred, hswap]
  cases (ctx.package b).compareNameEvr (ctx.package a) <;> rfl

/-- No match is preferred to an earlier one. -/
theorem matchesOf_pairwise :
    (ctx.matchesOf req).Pairwise fun a b => ctx.preferred a b = true :=
  List.pairwise_mergeSort preferred_trans preferred_total _

/-- The first match is the greatest by name and version. -/
theorem isLE_of_head_matchesOf {t : Nat} (h : (ctx.matchesOf req).head? = some t) {q : Nat}
    (hq : q ∈ ctx.matchesOf req) :
    ((ctx.package q).compareNameEvr (ctx.package t)).isLE = true := by
  obtain ⟨rest, hrest⟩ := List.head?_eq_some_iff.1 h
  have hsorted : (ctx.matchesOf req).Pairwise fun a b => ctx.preferred a b = true :=
    matchesOf_pairwise
  rw [hrest] at hsorted hq
  rcases List.mem_cons.1 hq with rfl | hq
  · have hself : (ctx.package q).compareNameEvr (ctx.package q) = .eq := Std.ReflCmp.compare_self
    rw [hself]
    rfl
  · exact (List.pairwise_cons.1 hsorted).1 q hq

/-! ## Matches are packages -/

theorem lt_of_getElem? {p : Package} {id : Nat} (h : ctx.packages[id]? = some p) :
    id < ctx.packages.size :=
  (Array.getElem?_eq_some_iff.1 h).1

theorem package_eq_of_getElem? {p : Package} {id : Nat} (h : ctx.packages[id]? = some p) :
    ctx.package id = p := by
  rw [package, Array.getD_eq_getD_getElem?, h, Option.getD_some]

theorem getElem?_packages {id : Nat} (h : id < ctx.packages.size) :
    ctx.packages[id]? = some (ctx.package id) := by
  rw [package, Array.getD_eq_getD_getElem?, Array.getElem?_eq_getElem h, Option.getD_some]

theorem lt_of_mem_owners (hidx : ctx.Indexed) {place : Place} {o : Owner}
    (h : o ∈ ctx.index.files.owners place) : o.id < ctx.packages.size := by
  obtain ⟨only, hidx⟩ := hidx
  rw [hidx] at h
  obtain ⟨p, hp, _⟩ := Index.mem_owners_build.1 h
  exact lt_of_getElem? hp

theorem lt_of_mem_candidates? (hidx : ctx.Indexed) {ids : List Nat}
    (h : ctx.candidates? req = some ids) {id : Nat} (hid : id ∈ ids) :
    id < ctx.packages.size := by
  rw [candidates?] at h
  split at h
  · next bucket hb =>
    cases h
    obtain ⟨only, hidx⟩ := hidx
    have hmem : id ∈ (Index.build ctx.packages only).provided.ids req.name := by
      rw [← hidx, NameIndex.ids, hb]
      exact hid
    obtain ⟨p, hp, _⟩ := Index.mem_provided_build.1 hmem
    exact lt_of_getElem? hp
  · have files : ∀ id ∈ ctx.index.files.fileOwners req.name, id < ctx.packages.size := by
      intro id hid
      obtain ⟨o, ho, rfl⟩ := List.mem_map.1 hid
      exact lt_of_mem_owners hidx ((List.mem_filter.1 ho).1)
    have dirs : ∀ id ∈ ctx.index.files.dirOwners req.name, id < ctx.packages.size := by
      intro id hid
      obtain ⟨o, ho, rfl⟩ := List.mem_map.1 hid
      exact lt_of_mem_owners hidx ((List.mem_filter.1 ho).1)
    split at h
    · split at h
      · split at h
        · cases h
        · cases h
          exact dirs id hid
      · cases h
        exact files id hid
    · cases h

/-- The lookup finds candidates, or nothing that would need a package. -/
theorem lookup_subset_candidates {ids : List Nat} (h : (ctx.lookup req).1 = some ids)
    {id : Nat} (hid : id ∈ ids) : ∃ all, ctx.candidates? req = some all ∧ id ∈ all := by
  rw [lookup, admitted?] at h
  cases hc : ctx.candidates? req with
  | none =>
    simp only [hc] at h
    split at h
    · cases h
      cases hid
    · cases h
  | some all =>
    refine ⟨all, rfl, ?_⟩
    simp only [hc] at h
    split at h
    · next found vs heq =>
      cases h
      split at heq
      · split at heq
        · cases heq
          cases hid
        · cases heq
      · cases heq
        exact hid
    · split at h
      · cases h
        cases hid
      · cases h

theorem lt_of_mem_matchesOf (hidx : ctx.Indexed) {id : Nat} (h : id ∈ ctx.matchesOf req) :
    id < ctx.packages.size := by
  have hfound := (mem_filterVersion.1 h).1
  cases hl : (ctx.lookup req).1 with
  | none => simp [hl] at hfound
  | some ids =>
    rw [hl, Option.getD_some] at hfound
    obtain ⟨all, hall, hid⟩ := lookup_subset_candidates hl hfound
    exact lt_of_mem_candidates? hidx hall hid

end Context

end Depcheck

import Mathlib
import Depcheck.Proofs.Index.Buckets
import Depcheck.Proofs.Lists
import Depcheck.Proofs.Resolution.Matches

/-!
# Resolution without an index

What a requirement resolves to can be told by looking at every package in turn. `Scan` says how,
and mentions neither an index nor a sort; `resolve_eq_iff_scan` says that the indexed resolution
gives this answer and no other.
-/

namespace Depcheck

namespace Context

variable {ctx : Context} {req : Capability}

/-- The index is one of the packages, with all their directories. -/
def FullyIndexed (ctx : Context) : Prop := ctx.index = .build ctx.packages none

/-! ## Candidates -/

/-- The packages called `name` and those that provide a capability of that name. -/
def carriers (ctx : Context) (name : String) : List Nat :=
  idsWhere ctx.packages fun p => p.name == name || p.provides.any fun c => c.name == name

def listers (ctx : Context) (path : String) (isDir : Bool) : List Nat :=
  idsWhere ctx.packages fun p => p.lists path isDir

/-- The candidates of `req`: the carriers of its name, or else, for a path, the packages that
install it as a file, or else those that declare it as a directory. -/
def scanned (ctx : Context) (req : Capability) : List Nat :=
  if ctx.carriers req.name ≠ [] ∨ req.isPath = false then ctx.carriers req.name
  else if ctx.listers req.name false ≠ [] then ctx.listers req.name false
  else ctx.listers req.name true

theorem scanned_pairwise : (ctx.scanned req).Pairwise (· < ·) := by
  unfold scanned
  split
  · exact idsWhere_pairwise _ _
  · split
    · exact idsWhere_pairwise _ _
    · exact idsWhere_pairwise _ _

theorem decide_mem_providedNames (p : Package) (name : String) :
    decide (name ∈ p.providedNames) =
      (p.name == name || p.provides.any fun c => c.name == name) := by
  rw [Bool.eq_iff_iff]
  simp only [Package.providedNames, decide_eq_true_eq, List.mem_cons, List.mem_map,
    Bool.or_eq_true, beq_iff_eq, List.any_eq_true, eq_comm (a := name)]

theorem mem_carriers {name : String} {id : Nat} :
    id ∈ ctx.carriers name ↔ id < ctx.packages.size ∧ name ∈ (ctx.package id).providedNames := by
  rw [carriers, idsWhere, List.mem_filter, List.mem_range, ← decide_mem_providedNames,
    decide_eq_true_eq, package]

theorem lookup?_provided (hidx : ctx.FullyIndexed) (name : String) :
    ctx.index.provided.lookup? name =
      if ctx.carriers name = [] then none else some (ctx.carriers name) := by
  have hfilled : ctx.index.provided.Filled := by
    rw [hidx, Index.provided_build]
    exact NameIndex.filled_finish (NameIndex.filled_ofPackages _ _)
  have hids : ctx.index.provided.ids name = ctx.carriers name := by
    rw [hidx, Index.provided_build, NameIndex.ids_finish_ofPackages, carriers]
    simp only [decide_mem_providedNames]
  rw [NameIndex.lookup?_eq_of_filled hfilled, hids]

theorem candidates?_eq (hidx : ctx.FullyIndexed) :
    ctx.candidates? req = if ctx.scanned req = [] then none else some (ctx.scanned req) := by
  have hfiles : ctx.index.files.fileOwners req.name = ctx.listers req.name false := by
    rw [hidx, Index.fileOwners_build, listers]
  have hdirs : ctx.index.files.dirOwners req.name = ctx.listers req.name true := by
    rw [hidx, Index.dirOwners_build, listers]
  rw [candidates?, lookup?_provided hidx, hfiles, hdirs, scanned]
  cases ctx.carriers req.name with
  | cons id ids => simp
  | nil =>
    cases req.isPath with
    | false => simp
    | true =>
      cases ctx.listers req.name false with
      | cons id ids => simp
      | nil => cases ctx.listers req.name true <;> simp

/-! ## The order of the matches -/

/-- Where `a` stands before `b`: descending by name and version, and ascending by id where these
agree. -/
def Before (ctx : Context) (a b : Nat) : Prop :=
  (ctx.package b).compareNameEvr (ctx.package a) = .lt ∨
    (ctx.package b).compareNameEvr (ctx.package a) = .eq ∧ a < b

instance : Std.Asymm ctx.Before where
  asymm := by
    intro a b hab hba
    have hswap : (ctx.package a).compareNameEvr (ctx.package b) =
        ((ctx.package b).compareNameEvr (ctx.package a)).swap := Std.OrientedCmp.eq_swap
    rw [Before] at hab hba
    rw [hswap] at hba
    rcases hab with hab | ⟨hab, hlt⟩
    · simp [hab] at hba
    · simp [hab] at hba
      omega

theorem ne_of_before {a b : Nat} (h : ctx.Before a b) : a ≠ b := by
  rintro rfl
  exact Std.Asymm.asymm a a h h

/-- The sort keeps the order of members that compare equal. -/
theorem mergeSort_preferred_pairwise {ids : List Nat} (h : ids.Pairwise (· < ·)) :
    (ids.mergeSort ctx.preferred).Pairwise ctx.Before := by
  have hnd : (ids.mergeSort ctx.preferred).Nodup :=
    List.nodup_mergeSort.2 (h.imp Nat.ne_of_lt)
  rw [List.pairwise_iff_forall_sublist]
  intro a b hab
  have hpref : ((ctx.package b).compareNameEvr (ctx.package a)).isLE :=
    List.pairwise_iff_forall_sublist.1
      (List.pairwise_mergeSort preferred_trans preferred_total ids) hab
  rcases Ordering.isLE_iff_eq_lt_or_eq_eq.1 hpref with hlt | heq
  · exact .inl hlt
  · refine .inr ⟨heq, ?_⟩
    by_contra hle
    have hmem : ∀ x ∈ [a, b], x ∈ ids := fun x hx => List.mem_mergeSort.1 (hab.subset hx)
    have hne : a ≠ b := by
      rintro rfl
      exact Nat.lt_irrefl _ (idxOf_lt_of_sublist hnd hab)
    -- `b` stands before `a` in `ids`, and a stable sort would leave them so
    have hids : [b, a].Sublist ids := pair_sublist_of_lt h (hmem b (by simp)) (hmem a (by simp))
      (by omega)
    have hback : ctx.preferred b a = true := by
      have hself : (ctx.package a).compareNameEvr (ctx.package b) = .eq :=
        Std.OrientedCmp.eq_symm heq
      rw [preferred, hself]
      rfl
    have hba : [b, a].Sublist (ids.mergeSort ctx.preferred) :=
      List.pair_sublist_mergeSort preferred_trans preferred_total hback hids
    have := idxOf_lt_of_sublist hnd hab
    have := idxOf_lt_of_sublist hnd hba
    omega

theorem filterVersion_pairwise {ids : List Nat} (h : ids.Pairwise (· < ·)) :
    (ctx.filterVersion req ids).Pairwise ctx.Before := by
  rw [filterVersion]
  split
  · exact mergeSort_preferred_pairwise (h.filter _)
  · exact mergeSort_preferred_pairwise h

/-! ## The answer -/

/-- The candidates count: there are some, and they are not providers of an `rpmlib(...)` name. -/
def HasCandidates (ctx : Context) (req : Capability) : Prop :=
  ctx.scanned req ≠ [] ∧ req.flags.rpmlib = false

/-- There is no candidate, or a package other than the package manager provides the
`rpmlib(...)` name. -/
def LacksCandidates (ctx : Context) (req : Capability) : Prop :=
  ctx.scanned req = [] ∨
    req.flags.rpmlib = true ∧ ∃ id ∈ ctx.scanned req, (ctx.package id).name ≠ ctx.manager

/-- The package is a candidate of `req` and satisfies its version, if it has one. -/
def Fits (ctx : Context) (req : Capability) (id : Nat) : Prop :=
  id ∈ ctx.scanned req ∧
    (req.isVersioned = true → (ctx.package id).satisfies req ctx.strict = true)

/-- What looking through the packages answers. -/
inductive Scan (ctx : Context) (req : Capability) : Resolution → Prop
  | manager : ctx.scanned req ≠ [] → req.flags.rpmlib = true →
      (∀ id ∈ ctx.scanned req, (ctx.package id).name = ctx.manager) → Scan ctx req .builtin
  | platform : ctx.LacksCandidates req → ctx.platform.provides req = true → Scan ctx req .builtin
  | absent : ctx.LacksCandidates req → ctx.platform.provides req = false → Scan ctx req .absent
  | mismatch : ctx.HasCandidates req → (∀ id, ¬ ctx.Fits req id) → Scan ctx req .mismatch
  | matched {ids : List Nat} : ctx.HasCandidates req → ids ≠ [] →
      (∀ id, id ∈ ids ↔ ctx.Fits req id) → ids.Nodup → ids.Pairwise ctx.Before →
      Scan ctx req (.matched ids)

theorem lookup_of_lacksCandidates (hidx : ctx.FullyIndexed) (h : ctx.LacksCandidates req) :
    (ctx.lookup req).1 = if ctx.platform.provides req then some [] else none := by
  have hnone : (ctx.admitted? req).1 = none := by
    rw [admitted?, candidates?_eq hidx]
    rcases h with hempty | ⟨hrpm, id, hid, hname⟩
    · rw [if_pos hempty]
    · have hbad : id ∈ ctx.intruders (ctx.scanned req) := by
        simp [intruders, hid, hname]
      rw [if_neg (List.ne_nil_of_mem hid)]
      simp only [hrpm, if_true]
      split
      · next hnil => simp [hnil] at hbad
      · rfl
  rw [lookup]
  split
  · next h => simp [h] at hnone
  · rfl

theorem lookup_of_manager (hidx : ctx.FullyIndexed) (hne : ctx.scanned req ≠ [])
    (hrpm : req.flags.rpmlib = true)
    (hall : ∀ id ∈ ctx.scanned req, (ctx.package id).name = ctx.manager) :
    (ctx.lookup req).1 = some [] := by
  have hclean : ctx.intruders (ctx.scanned req) = [] := by
    simpa [intruders] using hall
  rw [lookup, admitted?, candidates?_eq hidx, if_neg hne]
  simp [hrpm, hclean]

theorem lookup_of_hasCandidates (hidx : ctx.FullyIndexed) (h : ctx.HasCandidates req) :
    (ctx.lookup req).1 = some (ctx.scanned req) := by
  rw [lookup, admitted?, candidates?_eq hidx, if_neg h.1]
  simp [h.2]

theorem cases_scanned (ctx : Context) (req : Capability) :
    ctx.HasCandidates req ∨
      (ctx.scanned req ≠ [] ∧ req.flags.rpmlib = true ∧
        ∀ id ∈ ctx.scanned req, (ctx.package id).name = ctx.manager) ∨
      ctx.LacksCandidates req := by
  rw [HasCandidates, LacksCandidates]
  grind

/-- The answer that follows from what the lookup found. -/
def decided (ctx : Context) (req : Capability) : Option (List Nat) → Resolution
  | none => .absent
  | some [] => .builtin
  | some ids =>
    if ctx.filterVersion req ids = [] then .mismatch else .matched (ctx.filterVersion req ids)

theorem resolve_eq_decided : (ctx.resolve req).1 = ctx.decided req (ctx.lookup req).1 := by
  rw [resolve]
  obtain ⟨found, vs⟩ := ctx.lookup req
  rcases found with _ | _ | ⟨id, ids⟩
  · rfl
  · rfl
  · cases hm : ctx.filterVersion req (id :: ids) with
    | nil => simp [decided, hm]
    | cons m ms => simp [decided, hm]

theorem resolve_of_hasCandidates (hidx : ctx.FullyIndexed) (h : ctx.HasCandidates req) :
    (ctx.resolve req).1 =
      if ctx.filterVersion req (ctx.scanned req) = [] then .mismatch
      else .matched (ctx.filterVersion req (ctx.scanned req)) := by
  rw [resolve_eq_decided, lookup_of_hasCandidates hidx h]
  cases hs : ctx.scanned req with
  | nil => exact absurd hs h.1
  | cons id ids => rfl

theorem resolve_of_manager (hidx : ctx.FullyIndexed) (hne : ctx.scanned req ≠ [])
    (hrpm : req.flags.rpmlib = true)
    (hall : ∀ id ∈ ctx.scanned req, (ctx.package id).name = ctx.manager) :
    (ctx.resolve req).1 = .builtin := by
  rw [resolve_eq_decided, lookup_of_manager hidx hne hrpm hall, decided]

theorem resolve_of_lacksCandidates (hidx : ctx.FullyIndexed) (h : ctx.LacksCandidates req) :
    (ctx.resolve req).1 = if ctx.platform.provides req then .builtin else .absent := by
  rw [resolve_eq_decided, lookup_of_lacksCandidates hidx h]
  split <;> rfl

theorem scan_resolve (hidx : ctx.FullyIndexed) : ctx.Scan req (ctx.resolve req).1 := by
  rcases ctx.cases_scanned req with hhas | ⟨hne, hrpm, hall⟩ | hlacks
  · have hfits : ∀ id, id ∈ ctx.filterVersion req (ctx.scanned req) ↔ ctx.Fits req id :=
      fun id => mem_filterVersion
    rw [resolve_of_hasCandidates hidx hhas]
    split
    · next hnil =>
      refine .mismatch hhas fun id hid => ?_
      rw [← hfits, hnil] at hid
      cases hid
    · next hne =>
      have hsorted : (ctx.filterVersion req (ctx.scanned req)).Pairwise ctx.Before :=
        filterVersion_pairwise scanned_pairwise
      exact .matched hhas hne hfits (hsorted.imp ne_of_before) hsorted
  · rw [resolve_of_manager hidx hne hrpm hall]
    exact .manager hne hrpm hall
  · rw [resolve_of_lacksCandidates hidx hlacks]
    split
    · next hp => exact .platform hlacks hp
    · next hp => exact .absent hlacks (by simpa using hp)

theorem resolve_of_scan (hidx : ctx.FullyIndexed) {res : Resolution} (h : ctx.Scan req res) :
    (ctx.resolve req).1 = res := by
  cases h with
  | manager hne hrpm hall => exact resolve_of_manager hidx hne hrpm hall
  | platform hlacks hp => rw [resolve_of_lacksCandidates hidx hlacks, if_pos hp]
  | absent hlacks hp => rw [resolve_of_lacksCandidates hidx hlacks, if_neg (by simp [hp])]
  | mismatch hhas hnone =>
    have hnil : ctx.filterVersion req (ctx.scanned req) = [] :=
      List.eq_nil_iff_forall_not_mem.2 fun id hid => hnone id (mem_filterVersion.1 hid)
    rw [resolve_of_hasCandidates hidx hhas, if_pos hnil]
  | @matched ids hhas hne hmem hnd hsorted =>
    -- a strictly ordered list is known by its members
    have heq : ctx.filterVersion req (ctx.scanned req) = ids := by
      refine List.Pairwise.eq_of_mem_iff (filterVersion_pairwise scanned_pairwise) hsorted ?_
      intro id
      rw [hmem]
      exact mem_filterVersion
    rw [resolve_of_hasCandidates hidx hhas, heq, if_neg hne]

/-- Resolving with the index and looking through all packages give the same answer. -/
theorem resolve_eq_iff_scan (hidx : ctx.FullyIndexed) (res : Resolution) :
    (ctx.resolve req).1 = res ↔ ctx.Scan req res := by
  constructor
  · rintro rfl
    exact scan_resolve hidx
  · exact resolve_of_scan hidx

/-- Three packages install a path as a file, two of them in the same version; a fourth declares it
as a directory. -/
def toolPackages : Array Package :=
  #[{ name := "tool", evr := { version := "1" }, files := .ofPaths ["/usr/bin/tool"] },
    { name := "tool", evr := { version := "2" }, files := .ofPaths ["/usr/bin/tool"] },
    { name := "layout", evr := { version := "3" }, files := .ofPaths ["/usr/bin/tool/"] },
    { name := "tool", evr := { version := "2" },
      files := .ofPaths ["/usr/share/doc", "/usr/bin/tool"] }]

def toolContext : Context where
  packages := toolPackages
  index := .build toolPackages none
  platform := {}
  manager := "rpm"
  strict := true

theorem resolve_eq_iff_scan_tool :
    toolContext.FullyIndexed ∧
      toolContext.Scan (.ofParts "/usr/bin/tool" (by decide) none {}) (.matched [1, 3, 0]) := by
  have hidx : toolContext.FullyIndexed := rfl
  exact ⟨hidx, (resolve_eq_iff_scan hidx _).1 (by cbv)⟩

end Context

end Depcheck

import Depcheck.Proofs.Package.Identity
import Depcheck.Proofs.PackageSet.Arrange
import Depcheck.Proofs.Verification.Diagnostics

/-!
# Packages and their identities

A package is named by its identity in the diagnostics and when it is looked up. In a prepared set no
build stands twice, so packages in one form have identities of their own; between different forms
identities can be shared. `identities_unique_iff` says when no two packages share one, when a package
is found by its identity, and when its entry in the diagnostics is its own.
-/

namespace Depcheck

namespace PackageSet

variable {s : PackageSet} {ps : List Package}

/-! ## The order of the packages -/

theorem arrange_pairwise (unique : Bool) (ps : List Package) :
    (arrange unique ps).Pairwise fun p q => p.compareNewestFirst q = .lt := by
  cases unique with
  | false => exact arrange_false_pairwise ps
  | true =>
    refine (arrange_true_pairwise ps).imp ?_
    intro p q hlt
    rw [Package.compareNewestFirst, Package.compareName, compare_lt_iff_lt.2 hlt]
    rfl

/-- The packages stand in the order of a prepared set, each before all later ones, and their versions and
releases have no dash. -/
structure Ordered (s : PackageSet) : Prop where
  newestFirst : ∀ i < s.size, ∀ j < i, (s.package j).compareNewestFirst (s.package i) = .lt
  dashless : ∀ i < s.size, (s.package i).evr.Dashless

theorem ordered_prepare (config : Config) (platform : Oracle) (hload : FromRecords ps.toArray) :
    (addAll { config, platform } ps).prepare.Ordered := by
  let s := (addAll { config, platform } ps).prepare
  have hpackages : s.packages.toList = arrange config.uniqueNames ps :=
    packages_prepare_addAll config platform ps
  have hsorted : s.packages.toList.Pairwise fun p q => p.compareNewestFirst q = .lt := by
    rw [hpackages]
    exact arrange_pairwise config.uniqueNames ps
  have hget : ∀ i (h : i < s.size), s.package i = s.packages.toList[i] := by
    intro i h
    rw [package, Array.getD_eq_getD_getElem?, Array.getElem?_eq_getElem h]
    rfl
  refine ⟨?_, ?_⟩
  · intro i hi j hji
    rw [hget i hi, hget j (hji.trans hi)]
    exact List.pairwise_iff_getElem.1 hsorted j i (hji.trans hi) hi hji
  · intro i hi
    have hmem : s.package i ∈ ps := by
      apply mem_of_mem_arrange
      rw [← hpackages, hget i hi]
      exact List.getElem_mem _
    obtain ⟨r, hr⟩ := hload _ (List.mem_toArray.2 hmem)
    exact PackageRecord.dashless_of_toPackage hr

namespace Ordered

variable {i j : Nat}

/-- No two packages are the same build. -/
theorem not_sameBuild (h : s.Ordered) (hi : i < s.size) (hj : j < s.size) (hne : i ≠ j) :
    ¬(s.package i).SameBuild (s.package j) := by
  intro hsame
  have heq := Package.compareNewestFirst_eq_iff.2 hsame
  rcases Nat.lt_or_gt_of_ne hne with hlt | hlt
  · rw [h.newestFirst j hj i hlt] at heq
    cases heq
  · have hback := h.newestFirst i hi j hlt
    rw [Std.OrientedCmp.eq_symm heq] at hback
    cases hback

/-- Packages with one identity are in one form only if they are one package. -/
theorem sameForm_iff (h : s.Ordered) (hi : i < s.size) (hj : j < s.size)
    (htext : s.idText i = s.idText j) : (s.package i).SameForm (s.package j) ↔ i = j := by
  constructor
  · intro hform
    by_contra hne
    obtain ⟨hname, hevr⟩ := hform.eq_of_idText (h.dashless i hi) (h.dashless j hj) htext
    refine h.not_sameBuild hi hj hne ⟨hname, ?_, hform.arch⟩
    rw [Package.compareEvr, hevr]
    exact Std.ReflCmp.compare_self
  · rintro rfl
    exact ⟨⟨rfl, rfl⟩, rfl⟩

/-- A package without an architecture stands before all others of its version. -/
theorem nevr_ne_idText (h : s.Ordered) (hi : i < s.size) (hji : j < i)
    (harch : (s.package i).arch = none) (hshape : (s.package j).evr.SameShape (s.package i).evr) :
    (s.package j).nevr ≠ s.idText i := by
  intro htext
  rw [idText, Package.idText, harch] at htext
  obtain ⟨hname, hevr⟩ :=
    Package.eq_of_nevr (h.dashless j (hji.trans hi)) (h.dashless i hi) hshape htext
  have hlt := h.newestFirst i hi j hji
  have hsame : (s.package i).compareEvr (s.package j) = .eq := by
    rw [Package.compareEvr, hevr]
    exact Std.ReflCmp.compare_self
  rw [Package.compareNewestFirst, Package.compareName_eq_iff.2 hname, hsame, harch] at hlt
  cases hother : (s.package j).arch with
  | none =>
    rw [hother] at hlt
    cases hlt
  | some a =>
    rw [hother] at hlt
    cases hlt

end Ordered

/-! ## Finding a package -/

/-- A package is found by its identity unless one before it goes by the same text. -/
theorem lookupPackage_idText_iff {i : Nat} (hi : i < s.size) :
    s.lookupPackage (s.idText i) = .ok i ↔
      ∀ j < i, s.idText j ≠ s.idText i ∧ (s.package j).nevr ≠ s.idText i := by
  let answers (id : Nat) : Bool :=
    (s.package id).idText == s.idText i || (s.package id).nevr == s.idText i
  have hself : answers i = true := by
    rw [Bool.or_eq_true]
    exact .inl (beq_self_eq_true _)
  have hfirst : s.ids.find? answers = some i ↔
      ∀ j < i, s.idText j ≠ s.idText i ∧ (s.package j).nevr ≠ s.idText i := by
    rw [ids, List.find?_range_eq_some]
    simp only [hself, List.mem_range, answers, Bool.not_eq_true', Bool.or_eq_false_iff,
      beq_eq_false_iff_ne, true_and]
    exact and_iff_right hi
  rw [← hfirst]
  unfold lookupPackage
  cases hfound : s.ids.find? answers with
  | none => exact absurd hself (List.find?_eq_none.1 hfound i (List.mem_range.2 hi))
  | some id =>
    show Except.ok id = Except.ok i ↔ some id = some i
    simp

/-! ## Identities -/

/-- In a prepared set of packages from records identities are unique exactly when packages that share one
are always in one form. A package is found by its identity exactly when no package before it goes by
this text in another form, with or without its architecture; and its entry in the diagnostics holds
its own unmet requirements and no more exactly when no other package of the same identity has any. -/
theorem identities_unique_iff (config : Config) (platform : Oracle)
    (hload : FromRecords ps.toArray) :
    let s := (addAll { config, platform } ps).prepare
    ((∀ i < s.size, ∀ j < s.size, s.idText i = s.idText j → i = j) ↔
      ∀ i < s.size, ∀ j < s.size, s.idText i = s.idText j →
        (s.package i).SameForm (s.package j)) ∧
    (∀ i < s.size, s.lookupPackage (s.idText i) = .ok i ↔
      ∀ j < i, (s.idText j = s.idText i → (s.package j).SameForm (s.package i)) ∧
        ((s.package j).nevr = s.idText i →
          (s.package i).arch = none ∧ (s.package j).evr.SameShape (s.package i).evr)) ∧
    ∃ v, s.run = .ok v ∧ ∀ i < s.size,
      v.diagnostics.under (s.idText i) = v.unmetOf i ↔
        ∀ j < s.size, s.idText j = s.idText i → j ≠ i → v.unmetOf j = [] := by
  intro s
  have hs : s.Ordered := ordered_prepare config platform hload
  refine ⟨?_, ?_, ?_⟩
  · constructor
    · intro hunique i hi j hj htext
      exact (hs.sameForm_iff hi hj htext).2 (hunique i hi j hj htext)
    · intro hform i hi j hj htext
      exact (hs.sameForm_iff hi hj htext).1 (hform i hi j hj htext)
  · intro i hi
    rw [lookupPackage_idText_iff hi]
    refine forall_congr' fun j => forall_congr' fun hji => and_congr ?_ ?_
    · constructor
      · intro hne htext
        exact absurd htext hne
      · intro hform htext
        exact hji.ne ((hs.sameForm_iff (hji.trans hi) hi htext).1 (hform htext))
    · constructor
      · intro hne htext
        exact absurd htext hne
      · intro hform htext
        obtain ⟨harch, hshape⟩ := hform htext
        exact hs.nevr_ne_idText hi hji harch hshape htext
  · refine ⟨_, rfl, ?_⟩
    intro i hi
    exact Context.under_verify_eq_unmetOf_iff i

/-- Versions that end in the architecture of another package. -/
def dottedPackages : List Package :=
  [{ name := "app", evr := { version := "1" }, arch := some "noarch" },
   { name := "app", evr := { version := "1.noarch" }, arch := some "x86_64" },
   { name := "zlib", evr := { version := "1" }, arch := some "x86_64",
     requires := [.ofParts "zlib" (by decide) (some (.exactly { version := "3" })) {}] },
   { name := "zlib", evr := { version := "1.x86_64" },
     requires := [.ofParts "zlib" (by decide) (some (.exactly { version := "4" })) {}] }]

def dottedSet : PackageSet := (addAll { config := {}, platform := {} } dottedPackages).prepare

theorem fromRecords_dotted : FromRecords dottedPackages.toArray :=
  .of_mapM
    [{ name := "app", version := "1", arch := some "noarch" },
     { name := "app", version := "1.noarch", arch := some "x86_64" },
     { name := "zlib", version := "1", arch := some "x86_64", requires := ["zlib = 3"] },
     { name := "zlib", version := "1.x86_64", requires := ["zlib = 4"] }]
    rfl

/-- Two packages share an identity and an entry in the diagnostics, and by the identity of another one
the package before it is found. -/
theorem identities_shared_dotted :
    FromRecords dottedPackages.toArray ∧
      dottedSet.ids.map dottedSet.idText =
        ["app-1.noarch.x86_64", "app-1.noarch", "zlib-1.x86_64", "zlib-1.x86_64"] ∧
      dottedSet.lookupPackage "app-1.noarch" = .ok 0 ∧
      dottedSet.run.map Verification.diagnostics =
        .ok [("zlib-1.x86_64", [⟨"zlib = 4", .versionMismatch⟩, ⟨"zlib = 3", .versionMismatch⟩])] := by
  refine ⟨fromRecords_dotted, ?_, ?_, ?_⟩
  · cbv
  · cbv
  · cbv

/-- A compiler in two versions and a package that needs a third one, all with a release. -/
def releasedPackages : List Package :=
  [{ name := "gcc", evr := { version := "2", release := some "1" } },
   { name := "gcc", evr := { version := "1", release := some "1" } },
   { name := "make", evr := { version := "1", release := some "1" },
     requires := [.ofParts "gcc" (by decide) (some (.exactly { version := "3" })) {}] }]

def releasedSet : PackageSet := (addAll { config := {}, platform := {} } releasedPackages).prepare

theorem fromRecords_released : FromRecords releasedPackages.toArray :=
  .of_mapM
    [{ name := "gcc", version := "2", release := some "1" },
     { name := "gcc", version := "1", release := some "1" },
     { name := "make", version := "1", release := some "1", requires := ["gcc = 3"] }]
    rfl

theorem identities_unique_iff_released :
    FromRecords releasedPackages.toArray ∧
      (∀ i < releasedSet.size, ∀ j < releasedSet.size,
        releasedSet.idText i = releasedSet.idText j → i = j) ∧
      releasedSet.lookupPackage (releasedSet.idText 1) = .ok 1 ∧
      ∃ v, releasedSet.run = .ok v ∧
        v.diagnostics.under (releasedSet.idText 2) = v.unmetOf 2 := by
  have hpackages : releasedSet.packages = releasedPackages.toArray := by cbv
  have hplain : ∀ i < releasedSet.size, (releasedSet.package i).evr.epoch = none ∧
      (releasedSet.package i).evr.release = some "1" ∧ (releasedSet.package i).arch = none := by
    rw [size, hpackages]
    simp only [package, hpackages]
    decide
  have hform : ∀ i < releasedSet.size, ∀ j < releasedSet.size,
      (releasedSet.package i).SameForm (releasedSet.package j) := by
    intro i hi j hj
    obtain ⟨hepoch, hrelease, harch⟩ := hplain i hi
    obtain ⟨hepoch', hrelease', harch'⟩ := hplain j hj
    exact ⟨⟨by rw [hepoch, hepoch'], by rw [hrelease, hrelease']⟩, by rw [harch, harch']⟩
  have hsize : releasedSet.size = 3 := by
    rw [size, hpackages]
    rfl
  have h1 : 1 < releasedSet.size := by omega
  have h2 : 2 < releasedSet.size := by omega
  obtain ⟨hunique, hlookup, v, hv, hdiag⟩ := identities_unique_iff {} {} fromRecords_released
  have hdistinct := hunique.2 fun i hi j hj _ => hform i hi j hj
  refine ⟨fromRecords_released, hdistinct, (hlookup 1 h1).2 ?_, v, hv, (hdiag 2 h2).2 ?_⟩
  · intro j hj
    have hpair := hform j (hj.trans h1) 1 h1
    exact ⟨fun _ => hpair, fun _ => ⟨(hplain 1 h1).2.2, hpair.evr⟩⟩
  · intro j hj htext hne
    exact absurd (hdistinct j hj 2 h2 htext) hne

end PackageSet

end Depcheck

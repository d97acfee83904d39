import Depcheck.Proofs.Version.Density

/-!
# Versions that two constraints share

Comparisons for dependencies look at releases only when both versions have one, so `1` equals both
`1-1` and `1-2`, which differ. Between versions that differ, and below and above them, there are
always others; so constraints that overlap share a version (`overlaps_comm_and_shared`). The
converse holds except where a shared version is compared without its release: `= 1` and `< 1-2`
share `1-1`, and they do not overlap (`shared_iff_overlaps_or_meets`).
-/

namespace Depcheck

open Std (TransCmp OrientedCmp ReflCmp)
open Version (Fits compareText exists_compareText exists_of_fits)

namespace Evr

instance : TransCmp fun a b : Evr => compareText a.version b.version where
  eq_swap := fun {a b} => @OrientedCmp.eq_swap _ compareText _ a.version b.version
  isLE_trans := fun {a b c} => @TransCmp.isLE_trans _ compareText _ a.version b.version c.version

theorem compareEpochVersion_eq_compareLex :
    compareEpochVersion =
      compareLex (compareOn epochValue) fun a b => compareText a.version b.version := rfl

instance : TransCmp compareEpochVersion := by
  rw [compareEpochVersion_eq_compareLex]
  infer_instance

theorem compareGivenRelease_swap (r r' : Option String) :
    compareGivenRelease r r' = (compareGivenRelease r' r).swap := by
  cases r with
  | none => cases r' <;> rfl
  | some r =>
    cases r' with
    | none => rfl
    | some r' => exact @OrientedCmp.eq_swap _ compareText _ r r'

instance : OrientedCmp compareMatching where
  eq_swap := by
    intro a b
    rw [compareMatching, compareMatching, Ordering.swap_then,
      @OrientedCmp.eq_swap _ compareEpochVersion _ a b, compareGivenRelease_swap]

theorem compareMatching_of_epochVersion_lt {a b : Evr} (h : compareEpochVersion a b = .lt) :
    compareMatching a b = .lt := by
  rw [compareMatching, h]
  rfl

theorem compareMatching_of_epochVersion_gt {a b : Evr} (h : compareEpochVersion a b = .gt) :
    compareMatching a b = .gt := by
  rw [compareMatching, h]
  rfl

theorem compareMatching_of_ne {a b : Evr} (h : compareEpochVersion a b ≠ .eq) :
    compareMatching a b = compareEpochVersion a b := by
  cases hab : compareEpochVersion a b with
  | lt => exact compareMatching_of_epochVersion_lt hab
  | eq => exact absurd hab h
  | gt => exact compareMatching_of_epochVersion_gt hab

theorem compareMatching_of_eq {a b : Evr} (h : compareEpochVersion a b = .eq) :
    compareMatching a b = compareGivenRelease a.release b.release := by
  rw [compareMatching, h]
  rfl

theorem compareMatching_of_release_none {v : Evr} (h : v.release = none) (a : Evr) :
    compareMatching v a = compareEpochVersion v a := by
  rw [compareMatching, h]
  exact Ordering.then_eq

/-! ## Versions in between -/

/-- Another version text in the same epoch, without a release. -/
def withVersion (e : Evr) (m : String) : Evr := { e with version := m, release := none }

theorem compareEpochVersion_of_epoch_eq {a b : Evr}
    (h : Ord.compare a.epochValue b.epochValue = .eq) :
    compareEpochVersion a b = compareText a.version b.version := by
  rw [compareEpochVersion, h]
  rfl

theorem compareEpochVersion_of_epoch_lt {a b : Evr}
    (h : Ord.compare a.epochValue b.epochValue = .lt) : compareEpochVersion a b = .lt := by
  rw [compareEpochVersion, h]
  rfl

theorem compareEpochVersion_withVersion (e : Evr) (m : String) :
    compareEpochVersion (e.withVersion m) e = compareText m e.version :=
  compareEpochVersion_of_epoch_eq Std.ReflOrd.compare_self

/-- Between two epochs there is room on either side. -/
theorem exists_of_epoch_lt {a b : Evr} (hab : Ord.compare a.epochValue b.epochValue = .lt)
    {o o' : Ordering} (h : o = .gt ∨ o' = .lt) :
    ∃ v : Evr, v.release = none ∧ compareEpochVersion v a = o ∧ compareEpochVersion v b = o' := by
  rcases h with rfl | rfl
  · obtain ⟨m, hm⟩ := exists_compareText b.version o'
    refine ⟨b.withVersion m, rfl, ?_, (compareEpochVersion_withVersion b m).trans hm⟩
    exact OrientedCmp.gt_of_lt (compareEpochVersion_of_epoch_lt hab)
  · obtain ⟨m, hm⟩ := exists_compareText a.version o
    exact ⟨a.withVersion m, rfl, (compareEpochVersion_withVersion a m).trans hm,
      compareEpochVersion_of_epoch_lt hab⟩

theorem exists_of_fits_epochVersion {a b : Evr} {o o' : Ordering}
    (h : Fits (compareEpochVersion a b) o o') :
    ∃ v : Evr, v.release = none ∧ compareEpochVersion v a = o ∧ compareEpochVersion v b = o' := by
  cases hab : Ord.compare a.epochValue b.epochValue with
  | lt =>
    rw [compareEpochVersion_of_epoch_lt hab] at h
    exact exists_of_epoch_lt hab h
  | eq =>
    rw [compareEpochVersion_of_epoch_eq hab] at h
    obtain ⟨m, hma, hmb⟩ := exists_of_fits h
    refine ⟨a.withVersion m, rfl, (compareEpochVersion_withVersion a m).trans hma, ?_⟩
    exact (compareEpochVersion_of_epoch_eq (a := a.withVersion m) hab).trans hmb
  | gt =>
    have hba := OrientedCmp.lt_of_gt hab
    rw [← Version.fits_comm, compareEpochVersion_of_epoch_lt hba] at h
    obtain ⟨v, hv, hvb, hva⟩ := exists_of_epoch_lt hba h
    exact ⟨v, hv, hva, hvb⟩

/-- The version `e` with another release. -/
def withRelease (e : Evr) (r : Option String) : Evr := { e with release := r }

theorem compareMatching_withRelease {e a : Evr} (h : compareEpochVersion e a = .eq)
    (r : Option String) : compareMatching (e.withRelease r) a = compareGivenRelease r a.release :=
  compareMatching_of_eq (a := e.withRelease r) h

/-- All outcomes that fit occur. -/
theorem exists_of_fits_matching {a b : Evr} {o o' : Ordering}
    (h : Fits (compareMatching a b) o o') :
    ∃ v, compareMatching v a = o ∧ compareMatching v b = o' := by
  by_cases hfit : Fits (compareEpochVersion a b) o o'
  · obtain ⟨v, hv, hva, hvb⟩ := exists_of_fits_epochVersion hfit
    exact ⟨v, (compareMatching_of_release_none hv a).trans hva,
      (compareMatching_of_release_none hv b).trans hvb⟩
  · -- only releases tell the two versions apart
    have heq : compareEpochVersion a b = .eq := by
      refine Decidable.byContradiction fun hne => hfit ?_
      rw [← compareMatching_of_ne hne]
      exact h
    rw [compareMatching_of_eq heq] at h
    rw [heq] at hfit
    cases ha : a.release with
    | none =>
      rw [ha] at h
      exact absurd h hfit
    | some r =>
      cases hb : b.release with
      | none =>
        rw [ha, hb] at h
        exact absurd h hfit
      | some r' =>
        rw [ha, hb] at h
        obtain ⟨m, hm, hm'⟩ := exists_of_fits h
        refine ⟨a.withRelease (some m), ?_, ?_⟩
        · rw [compareMatching_withRelease ReflCmp.compare_self, ha]
          exact hm
        · rw [compareMatching_withRelease heq, hb]
          exact hm'

/-- Outcomes that do not fit need versions that only differ in the release, and one of the two
comparisons leaves the release out. -/
theorem fits_or_without_release (a b v : Evr) :
    Fits (compareMatching a b) (compareMatching v a) (compareMatching v b) ∨
      compareEpochVersion a b = .eq ∧
        match a.release, b.release with
        | some _, some _ => compareMatching v a = .eq ∧ compareMatching v b = .eq
        | none, some _ => compareMatching v a = .eq
        | some _, none => compareMatching v b = .eq
        | none, none => False := by
  have hfit := Version.fits_of_transCmp compareEpochVersion a b v
  by_cases hab : compareEpochVersion a b = .eq
  · have hcongr : compareEpochVersion v a = compareEpochVersion v b := TransCmp.congr_right hab
    by_cases hva : compareEpochVersion v a = .eq
    · have hvb := hcongr.symm.trans hva
      rw [compareMatching_of_eq hab, compareMatching_of_eq hva, compareMatching_of_eq hvb]
      cases ha : a.release with
      | none =>
        cases hb : b.release with
        | none => cases v.release <;> exact .inl rfl
        | some r' => cases v.release <;> exact .inr ⟨hab, rfl⟩
      | some r =>
        cases hb : b.release with
        | none => cases v.release <;> exact .inr ⟨hab, rfl⟩
        | some r' =>
          cases hv : v.release with
          | none => exact .inr ⟨hab, rfl, rfl⟩
          | some q => exact .inl (Version.fits_of_transCmp compareText r r' q)
    · left
      have hvb : compareEpochVersion v b ≠ .eq := hcongr ▸ hva
      rw [compareMatching_of_ne hva, compareMatching_of_ne hvb, hcongr]
      exact Version.fits_self hvb _
  · left
    rw [compareMatching_of_ne hab]
    cases hlt : compareEpochVersion a b with
    | lt =>
      rw [hlt] at hfit
      exact hfit.imp compareMatching_of_epochVersion_gt compareMatching_of_epochVersion_lt
    | eq => exact absurd hlt hab
    | gt =>
      rw [hlt] at hfit
      exact hfit.imp compareMatching_of_epochVersion_lt compareMatching_of_epochVersion_gt

end Evr

/-! ## Constraints -/

theorem Capability.isSatisfiedBy_of_constraints {req cap : Capability} {r c : Constraint}
    (hname : req.name = cap.name) (hreq : req.constraint = some r) (hcap : cap.constraint = some c)
    (strict : Bool) : req.isSatisfiedBy cap strict = c.overlaps r := by
  rw [isSatisfiedBy, hname, hreq, hcap, beq_self_eq_true, Bool.true_and]

theorem Relation.exists_admits {r : Relation} (h : r.isEmpty = false) : ∃ o, r.admits o = true := by
  refine Decidable.byContradiction fun hnone => ?_
  have hempty : r.isEmpty = true := Relation.isEmpty_eq_true_iff.2 fun o => by
    refine Bool.eq_false_iff.2 fun ho => hnone ⟨o, ho⟩
  rw [h] at hempty
  cases hempty

namespace Constraint

/-- Some version passes both constraints. -/
def SharesVersion (a b : Constraint) : Prop :=
  ∃ v, a.isSatisfiedBy v = true ∧ b.isSatisfiedBy v = true

/-- The constraints are about one version, and one of them compares a shared version without its
release: a version without release when both have one, any other when only one of them has. -/
def MeetsWithoutRelease (a b : Constraint) : Prop :=
  a.evr.compareEpochVersion b.evr = .eq ∧
    match a.evr.release, b.evr.release with
    | some _, some _ => a.relation.equal = true ∧ b.relation.equal = true
    | none, some _ => a.relation.equal = true
    | some _, none => b.relation.equal = true
    | none, none => False

variable {a b : Constraint}

theorem SharesVersion.symm (h : a.SharesVersion b) : b.SharesVersion a :=
  Exists.imp (fun _ => And.symm) h

/-- A relation lets some outcome through, so one outcome settles the other. -/
theorem admits_or_iff (c d : Ordering) :
    (a.relation.admits c || b.relation.admits d) = true ↔
      ∃ o o', (o = c ∨ o' = d) ∧ a.relation.admits o = true ∧ b.relation.admits o' = true := by
  rw [Bool.or_eq_true_iff]
  constructor
  · rintro (h | h)
    · obtain ⟨o', ho'⟩ := Relation.exists_admits b.relation_nonempty
      exact ⟨c, o', .inl rfl, h, ho'⟩
    · obtain ⟨o, ho⟩ := Relation.exists_admits a.relation_nonempty
      exact ⟨o, d, .inr rfl, ho, h⟩
  · rintro ⟨o, o', rfl | rfl, ho, ho'⟩
    · exact .inl ho
    · exact .inr ho'

/-- Constraints overlap when their relations let through outcomes that fit. -/
theorem overlaps_iff_fits :
    a.overlaps b = true ↔
      ∃ o o', Fits (a.evr.compareMatching b.evr) o o' ∧ a.relation.admits o = true ∧
        b.relation.admits o' = true := by
  rw [overlaps]
  cases a.evr.compareMatching b.evr with
  | lt => exact admits_or_iff .gt .lt
  | eq =>
    simp only [Bool.or_eq_true, Bool.and_eq_true]
    constructor
    · rintro ((⟨ha, hb⟩ | ⟨ha, hb⟩) | ⟨ha, hb⟩)
      · exact ⟨.eq, .eq, rfl, ha, hb⟩
      · exact ⟨.lt, .lt, rfl, ha, hb⟩
      · exact ⟨.gt, .gt, rfl, ha, hb⟩
    · rintro ⟨o, o', rfl, ho, ho'⟩
      cases o with
      | lt => exact .inl (.inr ⟨ho, ho'⟩)
      | eq => exact .inl (.inl ⟨ho, ho'⟩)
      | gt => exact .inr ⟨ho, ho'⟩
  | gt => exact admits_or_iff .lt .gt

theorem overlaps_comm (a b : Constraint) : a.overlaps b = b.overlaps a := by
  refine Bool.eq_iff_iff.2 ?_
  rw [overlaps_iff_fits, overlaps_iff_fits]
  constructor
  · rintro ⟨o, o', hfit, ho, ho'⟩
    exact ⟨o', o, Version.fits_comm.2 hfit, ho', ho⟩
  · rintro ⟨o', o, hfit, ho', ho⟩
    exact ⟨o, o', Version.fits_comm.1 hfit, ho, ho'⟩

theorem sharesVersion_of_overlaps (h : a.overlaps b = true) : a.SharesVersion b := by
  obtain ⟨o, o', hfit, ho, ho'⟩ := overlaps_iff_fits.1 h
  obtain ⟨v, hva, hvb⟩ := Evr.exists_of_fits_matching hfit
  exact ⟨v, by rw [isSatisfiedBy, hva, ho], by rw [isSatisfiedBy, hvb, ho']⟩

/-- A constraint without release that takes its own version shares one with every constraint on a
release of that version. -/
theorem sharesVersion_of_release_none (h : a.evr.compareEpochVersion b.evr = .eq)
    (ha : a.evr.release = none) {r : String} (hb : b.evr.release = some r)
    (heq : a.relation.equal = true) : a.SharesVersion b := by
  obtain ⟨o, ho⟩ := Relation.exists_admits b.relation_nonempty
  obtain ⟨m, hm⟩ := exists_compareText r o
  have hva : (b.evr.withRelease (some m)).compareMatching a.evr = .eq := by
    rw [Evr.compareMatching_withRelease (OrientedCmp.eq_symm h), ha]
    rfl
  have hvb : (b.evr.withRelease (some m)).compareMatching b.evr = o := by
    rw [Evr.compareMatching_withRelease ReflCmp.compare_self, hb]
    exact hm
  exact ⟨b.evr.withRelease (some m), by rw [isSatisfiedBy, hva]; exact heq,
    by rw [isSatisfiedBy, hvb, ho]⟩

theorem MeetsWithoutRelease.sharesVersion (h : a.MeetsWithoutRelease b) : a.SharesVersion b := by
  obtain ⟨heq, h⟩ := h
  cases ha : a.evr.release with
  | none =>
    cases hb : b.evr.release with
    | none =>
      rw [ha, hb] at h
      exact h.elim
    | some r =>
      rw [ha, hb] at h
      exact sharesVersion_of_release_none heq ha hb h
  | some r =>
    cases hb : b.evr.release with
    | none =>
      rw [ha, hb] at h
      exact (sharesVersion_of_release_none (OrientedCmp.eq_symm heq) hb ha h).symm
    | some r' =>
      rw [ha, hb] at h
      -- the version without a release equals both
      have hva : (a.evr.withRelease none).compareMatching a.evr = .eq := by
        rw [Evr.compareMatching_withRelease ReflCmp.compare_self]
        rfl
      have hvb : (a.evr.withRelease none).compareMatching b.evr = .eq := by
        rw [Evr.compareMatching_withRelease heq]
        rfl
      exact ⟨a.evr.withRelease none, by rw [isSatisfiedBy, hva]; exact h.1,
        by rw [isSatisfiedBy, hvb]; exact h.2⟩

theorem SharesVersion.overlaps_or (h : a.SharesVersion b) :
    a.overlaps b = true ∨ a.MeetsWithoutRelease b := by
  obtain ⟨v, ha, hb⟩ := h
  rw [isSatisfiedBy] at ha hb
  rcases Evr.fits_or_without_release a.evr b.evr v with hfit | ⟨heq, hout⟩
  · exact .inl (overlaps_iff_fits.2 ⟨_, _, hfit, ha, hb⟩)
  · right
    refine ⟨heq, ?_⟩
    split at hout
    · rw [hout.1] at ha
      rw [hout.2] at hb
      exact ⟨ha, hb⟩
    · rw [hout] at ha
      exact ha
    · rw [hout] at hb
      exact hb
    · exact hout

/-- Overlap is symmetric, and constraints that overlap share a version. -/
theorem overlaps_comm_and_shared (a b : Constraint) :
    a.overlaps b = b.overlaps a ∧ (a.overlaps b = true → a.SharesVersion b) :=
  ⟨overlaps_comm a b, sharesVersion_of_overlaps⟩

/-- The constraint `> 1-1`. -/
def laterRelease : Constraint := ⟨.gt, { version := "1", release := some "1" }, rfl⟩

/-- The constraint `< 1-2`. -/
def earlierRelease : Constraint := ⟨.lt, { version := "1", release := some "2" }, rfl⟩

/-- There is room between two releases that follow each other. -/
theorem overlaps_comm_and_shared_between :
    laterRelease.overlaps earlierRelease = true ∧
      laterRelease.overlaps earlierRelease = earlierRelease.overlaps laterRelease ∧
        laterRelease.SharesVersion earlierRelease := by
  have hover : laterRelease.overlaps earlierRelease = true := by decide +kernel
  obtain ⟨hcomm, hshared⟩ := overlaps_comm_and_shared laterRelease earlierRelease
  exact ⟨hover, hcomm, hshared hover⟩

/-- Constraints share a version when they overlap, and besides only when they meet without release.
So a versioned capability is refused to a requirement that it shares a version with exactly when
the two meet without release and do not overlap. -/
theorem shared_iff_overlaps_or_meets (a b : Constraint) :
    (a.SharesVersion b ↔ a.overlaps b = true ∨ a.MeetsWithoutRelease b) ∧
      ∀ (req cap : Capability) (strict : Bool), req.name = cap.name → req.constraint = some b →
        cap.constraint = some a →
          ((a.SharesVersion b ∧ req.isSatisfiedBy cap strict = false) ↔
            (a.MeetsWithoutRelease b ∧ a.overlaps b = false)) := by
  have hiff : a.SharesVersion b ↔ a.overlaps b = true ∨ a.MeetsWithoutRelease b := by
    constructor
    · exact SharesVersion.overlaps_or
    · rintro (h | h)
      · exact sharesVersion_of_overlaps h
      · exact h.sharesVersion
  refine ⟨hiff, ?_⟩
  intro req cap strict hname hreq hcap
  rw [Capability.isSatisfiedBy_of_constraints hname hreq hcap, hiff]
  constructor
  · rintro ⟨h | h, hover⟩
    · rw [h] at hover
      cases hover
    · exact ⟨h, hover⟩
  · rintro ⟨h, hover⟩
    exact ⟨.inr h, hover⟩

/-- The constraint `= 1`, which every release of version 1 passes. -/
def wholeVersion : Constraint := .exactly { version := "1" }

/-- The version `1-1` passes `= 1` and `< 1-2`, which do not overlap. -/
theorem not_overlaps_earlierRelease :
    wholeVersion.isSatisfiedBy { version := "1", release := some "1" } = true ∧
      earlierRelease.isSatisfiedBy { version := "1", release := some "1" } = true ∧
        wholeVersion.overlaps earlierRelease = false := by
  decide +kernel

/-- The requirement `libgcc < 1-2`. -/
def requiresEarlier : Capability := .ofParts "libgcc" (by decide) (some earlierRelease) {}

/-- The provided capability `libgcc = 1`. -/
def providesWhole : Capability := .ofParts "libgcc" (by decide) (some wholeVersion) {}

theorem shared_iff_overlaps_or_meets_earlierRelease :
    wholeVersion.SharesVersion earlierRelease ∧
      requiresEarlier.isSatisfiedBy providesWhole false = false := by
  have hmeets : wholeVersion.MeetsWithoutRelease earlierRelease := ⟨by decide +kernel, rfl⟩
  have hover : wholeVersion.overlaps earlierRelease = false := by decide +kernel
  obtain ⟨_, hrefused⟩ := shared_iff_overlaps_or_meets wholeVersion earlierRelease
  exact (hrefused requiresEarlier providesWhole false rfl rfl rfl).2 ⟨hmeets, hover⟩

end Constraint

end Depcheck

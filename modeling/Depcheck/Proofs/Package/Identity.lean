import Depcheck.Proofs.Capability.Text

/-!
# What the identity of a package determines

The text by which a package is named ends in its version, and this in the release, neither of which
has a dash in a package that was loaded from a record. So the text is cut into its parts from the end,
as long as it is known which parts there are: packages in one form with one identity agree in name,
version and architecture (`Package.SameForm.eq_of_idText`).
-/

namespace Depcheck

namespace Evr

/-- Neither the version nor the release has a dash. -/
structure Dashless (e : Evr) : Prop where
  version : '-' ∉ e.version.toList
  release : ∀ r, e.release = some r → '-' ∉ r.toList

/-- Both have an epoch or neither has, and both have a release or neither has. -/
structure SameShape (e f : Evr) : Prop where
  epoch : e.epoch.isSome = f.epoch.isSome
  release : e.release.isSome = f.release.isSome

theorem SameShape.not_spellsEpoch {e f : Evr} (h : e.SameShape f) : ¬e.SpellsEpoch f := by
  rintro ⟨he, _, n, hf, _⟩
  have := h.epoch
  rw [he, hf] at this
  cases this

theorem SameShape.symm {e f : Evr} (h : e.SameShape f) : f.SameShape e :=
  ⟨h.epoch.symm, h.release.symm⟩

theorem text_of_release_none {e : Evr} (h : e.release = none) : e.text = e.frontText := by
  rw [text_eq_frontText, h]
  exact String.append_empty

theorem toList_text_of_release {e : Evr} {r : String} (h : e.release = some r) :
    e.text.toList = e.frontText.toList ++ '-' :: r.toList := by
  rw [text_eq_frontText, h]
  show (e.frontText ++ ("-" ++ r)).toList = _
  rw [String.toList_append, String.toList_append]
  rfl

end Evr

namespace Package

variable {p q : Package}

theorem toList_nevr (p : Package) : p.nevr.toList = p.name.toList ++ '-' :: p.evr.text.toList := by
  show ((p.name ++ "-") ++ p.evr.text).toList = _
  rw [String.toList_append, String.toList_append, List.append_assoc]
  rfl

/-- The text without the architecture, cut at its last dashes. -/
theorem eq_of_nevr (hp : p.evr.Dashless) (hq : q.evr.Dashless) (hshape : p.evr.SameShape q.evr)
    (h : p.nevr = q.nevr) : p.name = q.name ∧ p.evr = q.evr := by
  have hlist := congrArg String.toList h
  rw [toList_nevr, toList_nevr] at hlist
  have hcut : p.name.toList = q.name.toList ∧ p.evr.frontText.toList = q.evr.frontText.toList ∧
      p.evr.release = q.evr.release := by
    have hfront := Evr.not_mem_frontText hp.version
    have hfront' := Evr.not_mem_frontText hq.version
    cases hr : p.evr.release with
    | none =>
      have hr' : q.evr.release = none := by simpa [hr] using hshape.release.symm
      rw [Evr.text_of_release_none hr, Evr.text_of_release_none hr'] at hlist
      obtain ⟨hname, htext⟩ := Text.append_cons_inj_last hfront hfront' hlist
      exact ⟨hname, htext, hr'.symm⟩
    | some r =>
      obtain ⟨r', hr'⟩ : ∃ r', q.evr.release = some r' := by
        rw [← Option.isSome_iff_exists, ← hshape.release, hr]
        rfl
      rw [Evr.toList_text_of_release hr, Evr.toList_text_of_release hr', ← List.cons_append,
        ← List.cons_append, ← List.append_assoc, ← List.append_assoc] at hlist
      obtain ⟨hrest, hrel⟩ :=
        Text.append_cons_inj_last (hp.release r hr) (hq.release r' hr') hlist
      obtain ⟨hname, htext⟩ := Text.append_cons_inj_last hfront hfront' hrest
      exact ⟨hname, htext, by rw [hr', String.toList_inj.1 hrel]⟩
  obtain ⟨hname, hfront, hrel⟩ := hcut
  refine ⟨String.toList_inj.1 hname, ?_⟩
  rcases (Evr.frontText_eq_iff hrel).1 (String.toList_inj.1 hfront) with heq | hspells | hspells
  · exact heq
  · exact absurd hspells hshape.not_spellsEpoch
  · exact absurd hspells hshape.symm.not_spellsEpoch

/-- The texts that name both packages are made of the same parts. -/
structure SameForm (p q : Package) : Prop where
  evr : p.evr.SameShape q.evr
  arch : p.arch = q.arch

theorem nevr_eq_of_idText (harch : p.arch = q.arch) (h : p.idText = q.idText) : p.nevr = q.nevr := by
  rw [idText, idText, harch] at h
  cases ha : q.arch with
  | none =>
    rw [ha] at h
    exact h
  | some a =>
    rw [ha] at h
    have hlist := congrArg String.toList h
    change ((p.nevr ++ ".") ++ a).toList = ((q.nevr ++ ".") ++ a).toList at hlist
    rw [String.toList_append, String.toList_append, String.toList_append, String.toList_append]
      at hlist
    exact String.toList_inj.1 (List.append_cancel_right (List.append_cancel_right hlist))

/-- Packages in one form with one identity are the same build. -/
theorem SameForm.eq_of_idText (hform : p.SameForm q) (hp : p.evr.Dashless) (hq : q.evr.Dashless)
    (h : p.idText = q.idText) : p.name = q.name ∧ p.evr = q.evr :=
  eq_of_nevr hp hq hform.evr (nevr_eq_of_idText hform.arch h)

end Package

/-! ## Loading -/

namespace PackageRecord

variable {r : PackageRecord}

/-- What is checked of the name, the version and the release. -/
theorem checkIdentity_eq_ok (h : r.checkIdentity = .ok ()) :
    Text.trim r.name.toList ≠ [] ∧ ¬r.name.toList.any Text.isBlank = true ∧
      ¬(r.version = "" ∨ '-' ∈ r.version.toList) ∧
      ∀ release, r.release = some release → release ≠ "" ∧ '-' ∉ release.toList := by
  rw [checkIdentity] at h
  split at h
  · cases h
  · next hname =>
    split at h
    · cases h
    · next hblank =>
      split at h
      · cases h
      · next hversion =>
        split at h
        · cases h
        · next hrelease =>
          refine ⟨hname, hblank, hversion, ?_⟩
          intro release heq
          rw [heq] at hrelease
          simpa using hrelease

/-- A record with a dash in its version or release is refused. -/
theorem dashless_of_checkIdentity (h : r.checkIdentity = .ok ()) :
    Evr.Dashless ⟨r.epoch, r.version, r.release⟩ := by
  obtain ⟨_, _, hversion, hrelease⟩ := checkIdentity_eq_ok h
  exact ⟨fun hmem => hversion (.inr hmem), fun release heq => (hrelease release heq).2⟩

theorem dashless_of_toPackage {p : Package} (h : r.toPackage = .ok p) : p.evr.Dashless := by
  obtain ⟨hidentity, _, _, hevr, _⟩ := toPackage_eq_ok h
  rw [hevr]
  exact dashless_of_checkIdentity hidentity

end PackageRecord

end Depcheck

import Mathlib
import Depcheck.Proofs.Package.Identity
import Depcheck.Proofs.Version.Reading

/-!
# Reading back the full name of a package

The full name of a package with a release ends in its version and its release. Loading refuses
dashes in both, so whatever is read from the full name has the name of the package, and the version
is read from the text of its version. That is the version itself, except where this text says
something else: `1:2` is the text of version `2` in epoch 1 also when it is a version without an
epoch, and blanks at the ends of a text do not count. The packages whose full name is read as
themselves are those that are free of this (`Package.parseNamed_nevr_iff`).
-/

namespace Depcheck

namespace Package

/-- What loading establishes for the parts of a full name. -/
structure CleanParts (p : Package) : Prop where
  name_ne_empty : p.name ≠ ""
  name_not_blank : ∀ c ∈ p.name.toList, Text.isBlank c = false
  separable : p.evr.Separable
  dashless : p.evr.Dashless

theorem cleanParts_of_toPackage {r : PackageRecord} {p : Package} (h : r.toPackage = .ok p) :
    p.CleanParts := by
  obtain ⟨hidentity, _, hname, hevr, _⟩ := PackageRecord.toPackage_eq_ok h
  obtain ⟨htrim, hblank, hversion, hrelease⟩ := PackageRecord.checkIdentity_eq_ok hidentity
  refine ⟨?_, ?_, ⟨?_, ?_, ?_⟩, ?_⟩
  · rw [hname]
    intro hempty
    exact htrim (by rw [hempty]; rfl)
  · rw [hname]
    intro c hc
    exact Bool.eq_false_iff.2 fun hb => hblank (List.any_eq_true.2 ⟨c, hc, hb⟩)
  · rw [hevr]
    exact fun hempty => hversion (.inl hempty)
  · rw [hevr]
    exact fun hdash => hversion (.inr hdash)
  · rw [hevr]
    exact fun hempty => (hrelease "" hempty).1 rfl
  · rw [hevr]
    exact PackageRecord.dashless_of_checkIdentity hidentity

end Package

namespace Evr

/-- Blanks behind the text of a version do not matter to its reading. -/
theorem parseChars_append_trimEnd (s t : List Char) :
    parseChars (s ++ Text.trimEnd t) = parseChars (s ++ t) := by
  obtain ⟨blanks, ht, hblanks⟩ := Text.eq_trimEnd_append_blanks t
  have htrim : Text.trim (s ++ t) = Text.trim (s ++ Text.trimEnd t) := by
    rw [← Text.trim_append_blanks hblanks (s ++ Text.trimEnd t), List.append_assoc, ← ht]
  rw [parseChars, parseChars, htrim]

end Evr

namespace Package

variable {p : Package}

theorem CleanParts.toList_name_ne_nil (h : p.CleanParts) : p.name.toList ≠ [] := by
  simpa using h.name_ne_empty

theorem toList_nevr_of_release {rel : String} (hrel : p.evr.release = some rel) :
    p.nevr.toList = (p.name.toList ++ '-' :: p.evr.frontText.toList) ++ '-' :: rel.toList := by
  rw [toList_nevr, Evr.toList_text_of_release hrel, List.append_assoc, List.cons_append]

/-- A full name loses nothing but the blanks at the end of its release. -/
theorem CleanParts.trim_nevr (h : p.CleanParts) {rel : String} (hrel : p.evr.release = some rel) :
    Text.trim p.nevr.toList = (p.name.toList ++ '-' :: p.evr.frontText.toList) ++
      '-' :: Text.trimEnd rel.toList := by
  obtain ⟨blanks, ht, hblanks⟩ := Text.eq_trimEnd_append_blanks rel.toList
  have hcut : p.nevr.toList = ((p.name.toList ++ '-' :: p.evr.frontText.toList) ++
      '-' :: Text.trimEnd rel.toList) ++ blanks := by
    rw [List.append_assoc, List.cons_append, ← ht, toList_nevr_of_release hrel]
  rw [hcut, Text.trim_append_blanks hblanks]
  apply Text.trim_eq_self
  · rw [List.append_assoc, Text.head?_append_of_ne_nil h.toList_name_ne_nil]
    exact fun c hc => h.name_not_blank c (List.mem_of_mem_head? hc)
  · intro c hc
    rw [Text.getLast?_append_of_ne_nil _ (List.cons_ne_nil _ _)] at hc
    cases hrest : Text.trimEnd rel.toList with
    | nil =>
      rw [hrest] at hc
      obtain rfl : '-' = c := Option.some.inj hc
      decide
    | cons d rest =>
      rw [hrest, List.getLast?_cons_cons, ← hrest] at hc
      exact Text.isBlank_of_mem_getLast?_trimEnd hc

/-- The full name is cut at its last two dashes, and the rest is read as the text of the
version. -/
theorem CleanParts.parseNamed_nevr (h : p.CleanParts) {rel : String}
    (hrel : p.evr.release = some rel) :
    Evr.parseNamed p.nevr =
      if Text.trimEnd rel.toList = [] then .error ⟨String.ofList (Text.trim p.nevr.toList)⟩
      else (Evr.parse p.evr.text).map fun e => (p.name, e) := by
  have hdash : '-' ∉ Text.trimEnd rel.toList := by
    obtain ⟨blanks, ht, _⟩ := Text.eq_trimEnd_append_blanks rel.toList
    intro hmem
    exact h.dashless.release rel hrel (ht ▸ List.mem_append_left _ hmem)
  have hlast := Text.splitLast_append (a := p.name.toList ++ '-' :: p.evr.frontText.toList) hdash
  have hfirst := Text.splitLast_append (a := p.name.toList)
    (Evr.not_mem_frontText h.dashless.version)
  have htext : Evr.parseChars (p.evr.frontText.toList ++ '-' :: Text.trimEnd rel.toList) =
      Evr.parse p.evr.text := by
    rw [List.append_cons, Evr.parseChars_append_trimEnd, ← List.append_cons,
      ← Evr.toList_text_of_release hrel]
    rfl
  rw [Evr.parseNamed, h.trim_nevr hrel]
  simp only [hlast, hfirst, h.toList_name_ne_nil, false_or, htext, String.ofList_toList]

/-- Whatever is read from a full name has the name of the package, and the version is read from the
text of its version. -/
theorem CleanParts.of_parseNamed_nevr (h : p.CleanParts) {rel : String}
    (hrel : p.evr.release = some rel) {name : String} {e : Evr}
    (hread : Evr.parseNamed p.nevr = .ok (name, e)) :
    name = p.name ∧ Evr.parse p.evr.text = .ok e := by
  rw [h.parseNamed_nevr hrel] at hread
  split at hread
  · cases hread
  · obtain ⟨e', he', heq⟩ := map_eq_ok hread
    cases heq
    exact ⟨rfl, he'⟩

theorem CleanParts.parseNamed_of_end_not_blank (h : p.CleanParts) {rel : String}
    (hrel : p.evr.release = some rel)
    (hend : ∀ c ∈ p.evr.text.toList.getLast?, Text.isBlank c = false) :
    Evr.parseNamed p.nevr = (Evr.parse p.evr.text).map fun e => (p.name, e) := by
  have hne : rel.toList ≠ [] := by
    intro hnil
    apply h.separable.release_ne_empty
    rw [hrel, String.toList_eq_nil_iff.1 hnil]
  have htrim : Text.trimEnd rel.toList ≠ [] := by
    obtain ⟨blanks, ht, hblanks⟩ := Text.eq_trimEnd_append_blanks rel.toList
    intro hnil
    rw [hnil, List.nil_append] at ht
    have hlast : p.evr.text.toList.getLast? = blanks.getLast? := by
      rw [Evr.toList_text_of_release hrel, List.append_cons,
        Text.getLast?_append_of_ne_nil _ hne, ht]
    have hmem := List.getLast?_eq_some_getLast (ht ▸ hne)
    have hblank := hblanks _ (List.mem_of_mem_getLast? hmem)
    rw [hend _ (hlast ▸ hmem)] at hblank
    cases hblank
  rw [h.parseNamed_nevr hrel, if_neg htrim]

/-- Of a package with a release the full name always gives back the name, and the version is read
from the text of its version. So name and version are both given back exactly when this text is
unambiguous and does not end with a blank. -/
theorem parseNamed_nevr_iff {r : PackageRecord} (h : r.toPackage = .ok p)
    (hrel : p.evr.release.isSome = true) :
    (∀ name e, Evr.parseNamed p.nevr = .ok (name, e) →
        name = p.name ∧ Evr.parse p.evr.text = .ok e) ∧
      (Evr.parseNamed p.nevr = .ok (p.name, p.evr) ↔
        p.evr.Unambiguous ∧ ∀ c ∈ p.evr.text.toList.getLast?, Text.isBlank c = false) := by
  have hclean := cleanParts_of_toPackage h
  obtain ⟨rel, hrel⟩ := Option.isSome_iff_exists.1 hrel
  refine ⟨fun name e => hclean.of_parseNamed_nevr hrel, ?_⟩
  constructor
  · intro hread
    obtain ⟨_, hevr⟩ := hclean.of_parseNamed_nevr hrel hread
    have hwell := Evr.wellFormed_of_parseChars hevr
    exact ⟨(Evr.parseChars_text_iff hwell).1 hevr, hwell.end_not_blank⟩
  · rintro ⟨hunamb, hend⟩
    have hevr : Evr.parse p.evr.text = .ok p.evr :=
      (Evr.parseChars_text_iff ⟨hclean.separable, hend⟩).2 hunamb
    rw [hclean.parseNamed_of_end_not_blank hrel hend, hevr]
    rfl

/-- A package whose version has a colon and no epoch. -/
def colonVersion : Package where
  name := "app"
  evr := { version := "1:2", release := some "1" }

/-- The colon is taken for that of an epoch. -/
theorem parseNamed_nevr_colonVersion :
    PackageRecord.toPackage { name := "app", version := "1:2", release := some "1" } =
        .ok colonVersion ∧
      colonVersion.nevr = "app-1:2-1" ∧
      Evr.parseNamed colonVersion.nevr =
        .ok ("app", { epoch := some 1, version := "2", release := some "1" }) ∧
      Evr.parseNamed colonVersion.nevr ≠ .ok (colonVersion.name, colonVersion.evr) := by
  have hread : Evr.parseNamed colonVersion.nevr =
      .ok ("app", { epoch := some 1, version := "2", release := some "1" }) := by cbv
  refine ⟨rfl, rfl, hread, ?_⟩
  rw [hread]
  intro heq
  cases heq

/-- A package with dashes in its name, and with an epoch in front of a version with a colon. -/
def dashedName : Package where
  name := "glibc-common"
  evr := { epoch := some 1, version := "2:38", release := some "4.fc39" }

theorem parseNamed_nevr_iff_dashedName :
    PackageRecord.toPackage
        { name := "glibc-common", epoch := some 1, version := "2:38", release := some "4.fc39" } =
        .ok dashedName ∧
      dashedName.evr.release.isSome = true ∧
      Evr.parseNamed dashedName.nevr = .ok (dashedName.name, dashedName.evr) := by
  have hload : PackageRecord.toPackage
      { name := "glibc-common", epoch := some 1, version := "2:38", release := some "4.fc39" } =
        .ok dashedName := rfl
  refine ⟨hload, rfl, (parseNamed_nevr_iff hload rfl).2.2 ⟨?_, ?_⟩⟩
  · intro hnone
    cases hnone
  · have hlast : dashedName.evr.text.toList.getLast? = some '9' := by decide
    intro c hc
    obtain rfl : '9' = c := Option.some.inj (hlast.symm.trans hc)
    decide

end Package

end Depcheck

import Depcheck.Package.Record
import Depcheck.Proofs.Except
import Depcheck.Proofs.Version.Text

/-!
# What the text of a capability determines

A name that was read has no blank, so a text is cut at its first space into the name and the
constraint. Two capabilities of packages that were loaded from records have one text when they
agree in name and constraint, and otherwise only when they collide (`text_eq_iff`).
-/

namespace Depcheck

namespace Capability

/-- What reading establishes for a capability. -/
structure Loaded (c : Capability) : Prop where
  not_mem_name : ' ' ∉ c.name.toList
  not_mem_version : ∀ k, c.constraint = some k → '-' ∉ k.evr.version.toList
  rpmlib_eq : c.flags.rpmlib = isRpmlibName c.name

/-- Both have one name, and constraints of which the first spells the epoch of the second. -/
def Collides (a b : Capability) : Prop :=
  a.name = b.name ∧ ∃ k k', a.constraint = some k ∧ b.constraint = some k' ∧ k.Collides k'

variable {a b : Capability}

theorem text_eq_name (h : a.constraint = none) : a.text = a.name := by
  rw [text, h]

theorem toList_text {k : Constraint} (h : a.constraint = some k) :
    a.text.toList = a.name.toList ++ ' ' :: k.text.toList := by
  rw [text, h]
  show ((a.name ++ " ") ++ k.text).toList = _
  rw [String.toList_append, String.toList_append, List.append_assoc]
  rfl

/-- Equal texts come from equal names and constraints, or from capabilities that collide. -/
theorem text_eq_iff (ha : a.Loaded) (hb : b.Loaded) :
    a.text = b.text ↔
      (a.name = b.name ∧ a.constraint = b.constraint) ∨ a.Collides b ∨ b.Collides a := by
  constructor
  · intro h
    cases hk : a.constraint with
    | none =>
      cases hk' : b.constraint with
      | none =>
        rw [text_eq_name hk, text_eq_name hk'] at h
        exact .inl ⟨h, rfl⟩
      | some k' =>
        -- only one of the texts has a space
        refine absurd ?_ ha.not_mem_name
        rw [← text_eq_name hk, h, toList_text hk']
        simp
    | some k =>
      cases hk' : b.constraint with
      | none =>
        refine absurd ?_ hb.not_mem_name
        rw [← text_eq_name hk', ← h, toList_text hk]
        simp
      | some k' =>
        have hlist := congrArg String.toList h
        rw [toList_text hk, toList_text hk'] at hlist
        obtain ⟨hname, htext⟩ := Text.append_cons_inj ha.not_mem_name hb.not_mem_name hlist
        have hname := String.toList_inj.1 hname
        rcases (Constraint.text_eq_iff (ha.not_mem_version k hk) (hb.not_mem_version k' hk')).1
          (String.toList_inj.1 htext) with rfl | hc | hc
        · exact .inl ⟨hname, rfl⟩
        · exact .inr (.inl ⟨hname, k, k', hk, hk', hc⟩)
        · exact .inr (.inr ⟨hname.symm, k', k, hk', hk, hc⟩)
  · rintro (⟨hname, hk⟩ | ⟨hname, k, k', hk, hk', hc⟩ | ⟨hname, k', k, hk', hk, hc⟩)
    · rw [text, text, hname, hk]
    · apply String.toList_inj.1
      rw [toList_text hk, toList_text hk', hname, (Constraint.text_eq_iff (ha.not_mem_version k hk)
        (hb.not_mem_version k' hk')).2 (.inr (.inl hc))]
    · apply String.toList_inj.1
      rw [toList_text hk, toList_text hk', hname, (Constraint.text_eq_iff (ha.not_mem_version k hk)
        (hb.not_mem_version k' hk')).2 (.inr (.inr hc))]

theorem Collides.text_eq (ha : a.Loaded) (hb : b.Loaded) (h : a.Collides b) : a.text = b.text :=
  (text_eq_iff ha hb).2 (.inr (.inl h))

/-! ## Reading -/

theorem not_mem_of_any_isBlank {s : List Char} (h : ¬s.any Text.isBlank = true) : ' ' ∉ s := by
  intro hmem
  exact h (List.any_eq_true.2 ⟨' ', hmem, by decide⟩)

theorem loaded_ofParts {name : String} (h : name ≠ "") {k : Option Constraint}
    (hname : ' ' ∉ name.toList) (hk : ∀ c, k = some c → '-' ∉ c.evr.version.toList) :
    (ofParts name h k {}).Loaded := by
  refine ⟨hname, hk, ?_⟩
  show (false || isRpmlibName name) = isRpmlibName name
  exact Bool.false_or _

theorem Loaded.withFlags {flags : CapabilityFlags} (ha : a.Loaded) (h : flags.rpmlib = false) :
    (a.withFlags flags).Loaded := by
  refine ⟨ha.not_mem_name, ha.not_mem_version, ?_⟩
  show (a.flags.rpmlib || flags.rpmlib) = isRpmlibName a.name
  rw [h, Bool.or_false, ha.rpmlib_eq]

theorem loaded_of_ofChars {s : List Char} (h : ofChars s = .ok a) : a.Loaded := by
  rw [ofChars] at h
  split at h
  · cases h
  · split at h
    · split at h
      · cases h
      · next hblank =>
        cases h
        apply loaded_ofParts
        · rw [String.toList_ofList]
          exact not_mem_of_any_isBlank hblank
        · intro c hc
          cases hc
    · split at h
      · cases h
      · split at h
        · cases h
        · next hblank =>
          split at h
          · cases h
          · next k hk =>
            cases h
            apply loaded_ofParts
            · rw [String.toList_ofList]
              exact not_mem_of_any_isBlank hblank
            · intro c hc
              cases hc
              exact Constraint.not_mem_version_of_parseChars hk

theorem loaded_of_parse {s : String} (h : parse s = .ok a) : a.Loaded := by
  rw [parse] at h
  exact loaded_of_ofChars (eq_ok_of_mapError h)

end Capability

/-! ## Loading -/

namespace PackageRecord

variable {r : PackageRecord}

theorem loaded_of_readCapability {field : RecordField} {flags : CapabilityFlags} {text : String}
    {c : Capability} (hflags : flags.rpmlib = false)
    (h : r.readCapability field flags text = .ok c) : c.Loaded := by
  rw [readCapability] at h
  split at h
  · cases h
  · next hparse =>
    cases h
    apply (Capability.loaded_of_parse hparse).withFlags
    show (flags.rpmlib || false) = false
    rw [hflags, Bool.or_false]

/-- What loading checks, and where the parts of a loaded package come from. -/
theorem toPackage_eq_ok {p : Package} (h : r.toPackage = .ok p) :
    r.checkIdentity = .ok () ∧ r.checkFiles r.files = .ok () ∧
      p.name = r.name ∧ p.evr = ⟨r.epoch, r.version, r.release⟩ ∧ p.arch = r.arch ∧
      ∃ requires pre preun,
        r.requires.mapM (r.readCapability .requires {}) = .ok requires ∧
        r.requiresPre.mapM (r.readCapability .requiresPre { prereq := true }) = .ok pre ∧
        r.requiresPreun.mapM (r.readCapability .requiresPreun { prereqUn := true }) = .ok preun ∧
        p.requires = requires ++ pre ++ preun := by
  rw [toPackage] at h
  obtain ⟨_, hidentity, h⟩ := bind_eq_ok.1 h
  obtain ⟨_, _, h⟩ := bind_eq_ok.1 h
  obtain ⟨requires, hrequires, h⟩ := bind_eq_ok.1 h
  obtain ⟨pre, hpre, h⟩ := bind_eq_ok.1 h
  obtain ⟨preun, hpreun, h⟩ := bind_eq_ok.1 h
  obtain ⟨_, _, h⟩ := bind_eq_ok.1 h
  obtain ⟨_, _, h⟩ := bind_eq_ok.1 h
  obtain ⟨_, hfiles, h⟩ := bind_eq_ok.1 h
  cases h
  exact ⟨hidentity, hfiles, rfl, rfl, rfl, requires, pre, preun, hrequires, hpre, hpreun, rfl⟩

/-- Every requirement of a package that was loaded from a record was read. -/
theorem loaded_of_toPackage {p : Package} (h : r.toPackage = .ok p) {c : Capability}
    (hc : c ∈ p.requires) : c.Loaded := by
  obtain ⟨_, _, _, _, _, requires, pre, preun, hrequires, hpre, hpreun, heq⟩ := toPackage_eq_ok h
  rw [heq] at hc
  rcases List.mem_append.1 hc with hc | hc
  · rcases List.mem_append.1 hc with hc | hc
    · obtain ⟨_, _, hread⟩ := exists_of_mem_mapM hrequires hc
      exact loaded_of_readCapability rfl hread
    · obtain ⟨_, _, hread⟩ := exists_of_mem_mapM hpre hc
      exact loaded_of_readCapability rfl hread
  · obtain ⟨_, _, hread⟩ := exists_of_mem_mapM hpreun hc
    exact loaded_of_readCapability rfl hread

end PackageRecord

/-- All packages come from records. -/
def FromRecords (packages : Array Package) : Prop :=
  ∀ p ∈ packages, ∃ r : PackageRecord, r.toPackage = .ok p

/-- What is loaded from a list of records comes from records. -/
theorem FromRecords.of_mapM (records : List PackageRecord) {ps : List Package}
    (h : records.mapM PackageRecord.toPackage = .ok ps) : FromRecords ps.toArray := by
  intro p hp
  obtain ⟨r, _, hr⟩ := exists_of_mem_mapM h (List.mem_toArray.1 hp)
  exact ⟨r, hr⟩

end Depcheck

import Mathlib.Logic.Function.Defs
import Depcheck.Proofs.Except
import Depcheck.Version.Constraint

/-!
# What the text of a version determines

The text of a version has its epoch before the first colon and its release after the first dash.
The dash is never part of a version that was read, but a colon can be: `:1:2` is read as the
version `1:2` without an epoch, and written `1:2`, the text of version `2` in epoch 1. Apart from
this, different versions have different texts (`Evr.text_eq_iff`), and so have different
constraints (`Constraint.text_eq_iff`).
-/

namespace Depcheck

/-- A text is cut in only one way at the first place of a character. -/
theorem Text.append_cons_inj {sep : Char} {a b a' b' : List Char} (ha : sep ∉ a) (ha' : sep ∉ a')
    (h : a ++ sep :: b = a' ++ sep :: b') : a = a' ∧ b = b' := by
  have hcut := splitFirst_append (b := b) ha
  rw [h, splitFirst_append ha'] at hcut
  obtain ⟨rfl, rfl⟩ := Prod.mk.inj (Option.some.inj hcut)
  exact ⟨rfl, rfl⟩

/-- A text is cut in only one way at the last place of a character. -/
theorem Text.append_cons_inj_last {sep : Char} {a b a' b' : List Char} (hb : sep ∉ b) (hb' : sep ∉ b')
    (h : a ++ sep :: b = a' ++ sep :: b') : a = a' ∧ b = b' := by
  have hcut := splitLast_append (a := a) hb
  rw [h, splitLast_append hb'] at hcut
  obtain ⟨rfl, rfl⟩ := Prod.mk.inj (Option.some.inj hcut)
  exact ⟨rfl, rfl⟩

theorem not_mem_toList_repr {c : Char} (hc : c.isDigit = false) (n : Nat) :
    c ∉ (Nat.repr n).toList := by
  intro h
  rw [Nat.toList_repr] at h
  have hdigit := Nat.isDigit_of_mem_toDigits (by omega) (by omega) h
  rw [hc] at hdigit
  exact Bool.noConfusion hdigit

theorem repr_injective : Function.Injective Nat.repr := by
  intro m n h
  have hdigits : Nat.toDigits 10 m = Nat.toDigits 10 n := by
    rw [← Nat.toList_repr, ← Nat.toList_repr, h]
  rw [← Nat.ofDigitChars_ten_toDigits (n := m), hdigits, Nat.ofDigitChars_ten_toDigits]

/-! ## Versions -/

namespace Evr

/-- The version of `e`, which has no epoch, is spelled with the epoch of `f` at its start, and
they agree in all else. -/
def SpellsEpoch (e f : Evr) : Prop :=
  e.epoch = none ∧ e.release = f.release ∧
    ∃ n, f.epoch = some n ∧ e.version = s!"{n.toNat}:{f.version}"

/-- Everything before the release. -/
def frontText (e : Evr) : String := (e.epoch.elim "" fun n => s!"{n.toNat}:") ++ e.version

theorem text_eq_frontText (e : Evr) :
    e.text = e.frontText ++ e.release.elim "" fun r => "-" ++ r := rfl

theorem toList_frontText_some {e : Evr} {n : UInt32} (h : e.epoch = some n) :
    e.frontText.toList = (Nat.repr n.toNat).toList ++ ':' :: e.version.toList := by
  rw [frontText, h]
  show ((toString n.toNat ++ ":") ++ e.version).toList = _
  rw [String.toList_append, String.toList_append, List.append_assoc]
  rfl

theorem frontText_none {e : Evr} (h : e.epoch = none) : e.frontText = e.version := by
  rw [frontText, h]
  exact String.empty_append

theorem not_mem_frontText {e : Evr} (h : '-' ∉ e.version.toList) : '-' ∉ e.frontText.toList := by
  cases he : e.epoch with
  | none =>
    rw [frontText_none he]
    exact h
  | some n =>
    rw [toList_frontText_some he]
    intro hmem
    rcases List.mem_append.1 hmem with hmem | hmem
    · exact not_mem_toList_repr (by decide) _ hmem
    · rcases List.mem_cons.1 hmem with hmem | hmem
      · exact absurd hmem (by decide)
      · exact h hmem

theorem frontText_eq_spelled {e f : Evr} (he : e.epoch = none) {n : UInt32}
    (hf : f.epoch = some n) (h : e.frontText = f.frontText) :
    e.version = s!"{n.toNat}:{f.version}" := by
  rw [frontText_none he] at h
  rw [h, frontText, hf]
  rfl

/-- The text before the release determines epoch and version, unless an epoch is spelled out. -/
theorem frontText_eq_iff {e e' : Evr} (hr : e.release = e'.release) :
    e.frontText = e'.frontText ↔ e = e' ∨ e.SpellsEpoch e' ∨ e'.SpellsEpoch e := by
  constructor
  · intro h
    cases he : e.epoch with
    | none =>
      cases he' : e'.epoch with
      | none =>
        rw [frontText_none he, frontText_none he'] at h
        left
        cases e
        cases e'
        simp_all
      | some n => exact .inr (.inl ⟨he, hr, n, he', frontText_eq_spelled he he' h⟩)
    | some n =>
      cases he' : e'.epoch with
      | none => exact .inr (.inr ⟨he', hr.symm, n, he, frontText_eq_spelled he' he h.symm⟩)
      | some n' =>
        have hlist := congrArg String.toList h
        rw [toList_frontText_some he, toList_frontText_some he'] at hlist
        obtain ⟨hn, hv⟩ := Text.append_cons_inj (not_mem_toList_repr (by decide) _)
          (not_mem_toList_repr (by decide) _) hlist
        have hn : n = n' := UInt32.toNat_inj.1 (repr_injective (String.toList_inj.1 hn))
        have hv : e.version = e'.version := String.toList_inj.1 hv
        left
        cases e
        cases e'
        simp_all
  · rintro (rfl | ⟨he, _, n, he', hv⟩ | ⟨he', _, n, he, hv⟩)
    · rfl
    · rw [frontText_none he, hv, frontText, he']
      rfl
    · rw [frontText_none he', hv, frontText, he]
      rfl

/-- Equal texts come from equal versions, or from one that spells the epoch of the other. -/
theorem text_eq_iff {e e' : Evr} (h : '-' ∉ e.version.toList) (h' : '-' ∉ e'.version.toList) :
    e.text = e'.text ↔ e = e' ∨ e.SpellsEpoch e' ∨ e'.SpellsEpoch e := by
  have hf := not_mem_frontText h
  have hf' := not_mem_frontText h'
  constructor
  · intro htext
    have hlist := congrArg String.toList htext
    rw [text_eq_frontText, text_eq_frontText, String.toList_append, String.toList_append] at hlist
    cases hr : e.release with
    | none =>
      cases hr' : e'.release with
      | none =>
        refine (frontText_eq_iff (hr.trans hr'.symm)).1 (String.toList_inj.1 ?_)
        simpa [hr, hr'] using hlist
      | some r' =>
        -- only one of the texts has a dash
        refine absurd ?_ hf
        rw [hr, hr'] at hlist
        simp at hlist
        simp [hlist]
    | some r =>
      cases hr' : e'.release with
      | none =>
        refine absurd ?_ hf'
        rw [hr, hr'] at hlist
        simp at hlist
        simp [← hlist]
      | some r' =>
        rw [hr, hr'] at hlist
        obtain ⟨hfront, hrest⟩ := Text.append_cons_inj hf hf' (by simpa using hlist)
        have : r = r' := String.toList_inj.1 hrest
        subst this
        exact (frontText_eq_iff (hr.trans hr'.symm)).1 (String.toList_inj.1 hfront)
  · intro heq
    have hr : e.release = e'.release := by
      rcases heq with rfl | ⟨_, hr, _⟩ | ⟨_, hr, _⟩
      · rfl
      · exact hr
      · exact hr.symm
    rw [text_eq_frontText, text_eq_frontText, (frontText_eq_iff hr).2 heq, hr]

/-! ## Reading -/

/-- A version that was read has no dash. -/
theorem not_mem_version_of_ofChars? {s : List Char} {e : Evr} (h : ofChars? s = some e) :
    '-' ∉ e.version.toList := by
  rw [ofChars?] at h
  obtain ⟨⟨epoch, rest⟩, _, h⟩ := Option.bind_eq_some_iff.1 h
  obtain ⟨⟨v, r⟩, hvr, h⟩ := Option.bind_eq_some_iff.1 h
  obtain rfl := Option.some.inj h
  show '-' ∉ (String.ofList v).toList
  rw [String.toList_ofList]
  rw [readRelease?] at hvr
  split at hvr
  · next hnone =>
    split at hvr
    · cases hvr
    · cases hvr
      exact Text.splitFirst_eq_none_iff.1 hnone
  · next hsome =>
    split at hvr
    · cases hvr
    · cases hvr
      exact (Text.eq_append_of_splitFirst hsome).2

theorem not_mem_version_of_parseChars {s : List Char} {e : Evr} (h : parseChars s = .ok e) :
    '-' ∉ e.version.toList := by
  rw [parseChars] at h
  split at h
  · next hsome =>
    cases h
    exact not_mem_version_of_ofChars? hsome
  · cases h

end Evr

/-! ## Relations and constraints -/

theorem Relation.text_injective : Function.Injective Relation.text := by
  rintro ⟨l, e, g⟩ ⟨l', e', g'⟩
  revert l e g l' e' g'
  decide

theorem Relation.not_mem_text (r : Relation) : ' ' ∉ r.text.toList := by
  obtain ⟨l, e, g⟩ := r
  revert l e g
  decide

namespace Constraint

/-- Both relate to the same version, or one to a version that spells the epoch of the other's. -/
def Collides (k k' : Constraint) : Prop := k.relation = k'.relation ∧ k.evr.SpellsEpoch k'.evr

theorem toList_text (k : Constraint) :
    k.text.toList = k.relation.text.toList ++ ' ' :: k.evr.text.toList := by
  show ((k.relation.text ++ " ") ++ k.evr.text).toList = _
  rw [String.toList_append, String.toList_append, List.append_assoc]
  rfl

theorem ext {k k' : Constraint} (hr : k.relation = k'.relation) (he : k.evr = k'.evr) : k = k' := by
  cases k
  cases k'
  subst hr he
  rfl

/-- Equal texts come from equal constraints, or from constraints that collide. -/
theorem text_eq_iff {k k' : Constraint} (h : '-' ∉ k.evr.version.toList)
    (h' : '-' ∉ k'.evr.version.toList) :
    k.text = k'.text ↔ k = k' ∨ k.Collides k' ∨ k'.Collides k := by
  constructor
  · intro htext
    have hlist := congrArg String.toList htext
    rw [toList_text, toList_text] at hlist
    obtain ⟨hr, he⟩ := Text.append_cons_inj (Relation.not_mem_text _) (Relation.not_mem_text _) hlist
    have hr := Relation.text_injective (String.toList_inj.1 hr)
    rcases (Evr.text_eq_iff h h').1 (String.toList_inj.1 he) with he | he | he
    · exact .inl (ext hr he)
    · exact .inr (.inl ⟨hr, he⟩)
    · exact .inr (.inr ⟨hr.symm, he⟩)
  · intro heq
    have hr : k.relation = k'.relation := by
      rcases heq with rfl | ⟨hr, _⟩ | ⟨hr, _⟩
      · rfl
      · exact hr
      · exact hr.symm
    have he : k.evr.text = k'.evr.text := by
      refine (Evr.text_eq_iff h h').2 ?_
      rcases heq with rfl | ⟨_, he⟩ | ⟨_, he⟩
      · exact .inl rfl
      · exact .inr (.inl he)
      · exact .inr (.inr he)
    rw [text, text, hr, he]

theorem not_mem_version_of_parseChars {s : List Char} {k : Constraint}
    (h : parseChars s = .ok k) : '-' ∉ k.evr.version.toList := by
  rw [parseChars] at h
  split at h
  · obtain ⟨e, he, rfl⟩ := map_eq_ok h
    exact Evr.not_mem_version_of_parseChars he
  · split at h
    · cases h
    · obtain ⟨e, he, rfl⟩ := map_eq_ok h
      exact Evr.not_mem_version_of_parseChars he

end Constraint

end Depcheck

import Depcheck.Proofs.Text.Ends
import Depcheck.Proofs.Version.Text

/-!
# Reading back the text of a version

The text of a version that was read is read as this version again, with one exception. After an
empty epoch a version can have what has no place at the start of a text: `:1:2` is read as the
version `1:2` without an epoch, whose text has epoch 1, and the version of `: 1` loses its blank.
Versions whose text is free of this are unambiguous, and just these survive
(`Evr.parseChars_text_iff`); the same holds for constraints (`Constraint.parseChars_text_iff`).
-/

namespace Depcheck

namespace Evr

/-! ## Epochs -/

theorem decimalValue_repr (n : Nat) : Text.decimalValue (Nat.repr n).toList = n := by
  rw [Nat.toList_repr]
  exact (Nat.ofDigitChars_eq_foldl (b := 10)).symm.trans Nat.ofDigitChars_ten_toDigits

theorem isDigit_of_mem_repr {n : Nat} {c : Char} (h : c ∈ (Nat.repr n).toList) :
    c.isDigit = true := by
  rw [Nat.toList_repr] at h
  exact Nat.isDigit_of_mem_toDigits (by omega) (by omega) h

theorem repr_ne_nil (n : Nat) : (Nat.repr n).toList ≠ [] := by
  rw [Nat.toList_repr]
  exact Nat.toDigits_ne_nil

/-- The text of an epoch is read as this epoch. -/
theorem readEpoch?_repr (n : UInt32) : readEpoch? (Nat.repr n.toNat).toList = some n := by
  have hplus : '+' ∉ (Nat.repr n.toNat).toList := not_mem_toList_repr (by decide) _
  rw [readEpoch?, if_pos, decimalValue_repr, UInt32.ofNat_toNat]
  · refine ⟨repr_ne_nil _, ?_, ?_⟩
    · exact List.all_eq_true.2 fun c hc => isDigit_of_mem_repr hc
    · rw [decimalValue_repr]
      exact UInt32.toNat_lt_size n
  · intro rest heq
    rw [heq] at hplus
    exact hplus List.mem_cons_self

theorem readEpochPart?_repr (n : UInt32) :
    readEpochPart? (Nat.repr n.toNat).toList = some (some n) := by
  rw [readEpochPart?]
  · rw [readEpoch?_repr]
    rfl
  · exact repr_ne_nil _

/-! ## The rest of a version -/

/-- What stands behind the epoch. -/
def bodyText (e : Evr) : String := e.version ++ e.release.elim "" fun r => "-" ++ r

theorem text_of_epoch_none {e : Evr} (h : e.epoch = none) : e.text = e.bodyText := by
  rw [text_eq_frontText, frontText_none h]
  rfl

theorem toList_text_of_epoch {e : Evr} {n : UInt32} (h : e.epoch = some n) :
    e.text.toList = (Nat.repr n.toNat).toList ++ ':' :: e.bodyText.toList := by
  rw [text_eq_frontText, String.toList_append, toList_frontText_some h, bodyText,
    String.toList_append, List.append_assoc]
  rfl

/-- The version can be told from the release. -/
structure Separable (e : Evr) : Prop where
  version_ne_empty : e.version ≠ ""
  not_mem_version : '-' ∉ e.version.toList
  release_ne_empty : e.release ≠ some ""

theorem toList_bodyText (e : Evr) :
    e.bodyText.toList =
      e.version.toList ++ e.release.elim [] fun r => '-' :: r.toList := by
  rw [bodyText, String.toList_append]
  cases e.release with
  | none => rfl
  | some r =>
    show e.version.toList ++ ("-" ++ r).toList = _
    rw [String.toList_append]
    rfl

theorem readRelease?_bodyText {e : Evr} (h : e.Separable) :
    readRelease? e.bodyText.toList = some (e.version.toList, e.release.map String.toList) := by
  have hversion : e.version.toList ≠ [] := by simpa using h.version_ne_empty
  rw [toList_bodyText, readRelease?]
  cases hr : e.release with
  | none =>
    have hcut : Text.splitFirst '-' e.version.toList = none :=
      Text.splitFirst_eq_none_iff.2 h.not_mem_version
    simp [hcut, hversion]
  | some r =>
    have hrelease : r.toList ≠ [] := by
      intro hnil
      refine h.release_ne_empty ?_
      rw [hr, String.toList_eq_nil_iff.1 hnil]
    have hcut : Text.splitFirst '-' (e.version.toList ++ '-' :: r.toList) =
        some (e.version.toList, r.toList) := Text.splitFirst_append h.not_mem_version
    simp [hcut, hversion, hrelease]

/-- What was read as version and release is written as it was. -/
theorem of_readRelease? {s v : List Char} {r : Option (List Char)}
    (h : readRelease? s = some (v, r)) :
    s = v ++ r.elim [] ('-' :: ·) ∧ v ≠ [] ∧ '-' ∉ v ∧ r ≠ some [] := by
  rw [readRelease?] at h
  split at h
  · next hnone =>
    split at h
    · cases h
    · next hs =>
      cases h
      refine ⟨(List.append_nil _).symm, hs, Text.splitFirst_eq_none_iff.1 hnone, ?_⟩
      intro hr
      cases hr
  · next hsome =>
    split at h
    · cases h
    · next hempty =>
      cases h
      obtain ⟨hs, hv⟩ := Text.eq_append_of_splitFirst hsome
      obtain ⟨hv', hr⟩ := not_or.1 hempty
      exact ⟨hs, hv', hv, fun heq => hr (Option.some.inj heq)⟩

/-! ## Whole versions -/

/-- A version is read off its epoch and what stands behind that. -/
theorem ofChars?_eq_some_iff {s : List Char} {e : Evr} :
    ofChars? s = some e ↔
      readEpochPrefix? s = some (e.epoch, e.bodyText.toList) ∧ e.Separable := by
  constructor
  · intro h
    rw [ofChars?] at h
    obtain ⟨⟨epoch, rest⟩, hepoch, h⟩ := Option.bind_eq_some_iff.1 h
    obtain ⟨⟨v, r⟩, hvr, h⟩ := Option.bind_eq_some_iff.1 h
    obtain rfl := Option.some.inj h
    obtain ⟨hrest, hv, hdash, hr⟩ := of_readRelease? hvr
    refine ⟨?_, ?_, ?_, ?_⟩
    · rw [hepoch, toList_bodyText, hrest]
      cases r <;> simp
    · simpa using hv
    · simpa using hdash
    · cases r <;> simp_all
  · rintro ⟨hepoch, h⟩
    rw [ofChars?, hepoch]
    show (readRelease? e.bodyText.toList).bind _ = _
    rw [readRelease?_bodyText h]
    cases e with
    | mk epoch version release => cases release <;> simp

/-- Either nothing was taken for an epoch, or what stands before the first colon. -/
theorem of_readEpochPrefix? {s rest : List Char} {epoch : Option UInt32}
    (h : readEpochPrefix? s = some (epoch, rest)) :
    (epoch = none ∧ rest = s ∧ ':' ∉ s) ∨
      ∃ p, s = p ++ ':' :: rest ∧ readEpochPart? p = some epoch := by
  rw [readEpochPrefix?] at h
  split at h
  · next hnone =>
    cases h
    exact .inl ⟨rfl, rfl, Text.splitFirst_eq_none_iff.1 hnone⟩
  · next p rest' hsome =>
    obtain ⟨epoch', hepoch, heq⟩ := Option.map_eq_some_iff.1 h
    cases heq
    exact .inr ⟨p, (Text.eq_append_of_splitFirst hsome).1, hepoch⟩

theorem readEpochPrefix?_text {e : Evr} (h : e.epoch = none → ':' ∉ e.text.toList) :
    readEpochPrefix? e.text.toList = some (e.epoch, e.bodyText.toList) := by
  rw [readEpochPrefix?]
  cases he : e.epoch with
  | none =>
    rw [Text.splitFirst_eq_none_iff.2 (h he), text_of_epoch_none he]
  | some n =>
    have hcolon : ':' ∉ (Nat.repr n.toNat).toList := not_mem_toList_repr (by decide) _
    rw [toList_text_of_epoch he, Text.splitFirst_append hcolon]
    show Option.map _ (readEpochPart? _) = _
    rw [readEpochPart?_repr]
    rfl

theorem parseChars_eq_ok {s : List Char} {e : Evr} :
    parseChars s = .ok e ↔ ofChars? (Text.trim s) = some e := by
  rw [parseChars]
  cases ofChars? (Text.trim s) with
  | none => simp
  | some e' => simp

theorem bodyText_ne_nil {e : Evr} (h : e.Separable) : e.bodyText.toList ≠ [] := by
  rw [toList_bodyText]
  refine List.append_ne_nil_of_left_ne_nil ?_ _
  simpa using h.version_ne_empty

theorem getLast?_text {e : Evr} (h : e.Separable) :
    e.text.toList.getLast? = e.bodyText.toList.getLast? := by
  cases he : e.epoch with
  | none => rw [text_of_epoch_none he]
  | some n =>
    rw [toList_text_of_epoch he, List.append_cons, Text.getLast?_append_of_ne_nil _
      (bodyText_ne_nil h)]

theorem toList_text_ne_nil {e : Evr} (h : e.Separable) : e.text.toList ≠ [] := by
  intro hnil
  have hlast := getLast?_text h
  rw [hnil, eq_comm, List.getLast?_nil, List.getLast?_eq_none_iff] at hlast
  exact bodyText_ne_nil h hlast

/-- What reading establishes for a version: its text does not end with a blank either. -/
structure WellFormed (e : Evr) : Prop extends Separable e where
  end_not_blank : ∀ c ∈ e.text.toList.getLast?, Text.isBlank c = false

theorem wellFormed_of_parseChars {s : List Char} {e : Evr} (h : parseChars s = .ok e) :
    e.WellFormed := by
  obtain ⟨hepoch, hsep⟩ := ofChars?_eq_some_iff.1 (parseChars_eq_ok.1 h)
  refine ⟨hsep, ?_⟩
  -- the text ends as the text that was read
  have hlast : e.text.toList.getLast? = (Text.trim s).getLast? := by
    rw [getLast?_text hsep]
    rcases of_readEpochPrefix? hepoch with ⟨_, hbody, _⟩ | ⟨p, hs, _⟩
    · rw [hbody]
    · rw [hs, List.append_cons, Text.getLast?_append_of_ne_nil _ (bodyText_ne_nil hsep)]
  intro c hc
  rw [hlast] at hc
  exact Text.isBlank_of_mem_getLast?_trim hc

/-- The text of a version without epoch does not look as if it had one, nor does it start with a
blank. -/
def Unambiguous (e : Evr) : Prop :=
  e.epoch = none →
    ':' ∉ e.text.toList ∧ ∀ c ∈ e.text.toList.head?, Text.isBlank c = false

theorem head_not_blank {e : Evr} (h : e.Unambiguous) :
    ∀ c ∈ e.text.toList.head?, Text.isBlank c = false := by
  cases he : e.epoch with
  | none => exact (h he).2
  | some n =>
    intro c hc
    rw [toList_text_of_epoch he, Text.head?_append_of_ne_nil (repr_ne_nil _)] at hc
    exact Text.isBlank_of_isDigit (isDigit_of_mem_repr (List.mem_of_mem_head? hc))

/-- The text of a version is read as this version when it is unambiguous, and only then. -/
theorem parseChars_text_iff {e : Evr} (h : e.WellFormed) :
    parseChars e.text.toList = .ok e ↔ e.Unambiguous := by
  rw [parseChars_eq_ok]
  constructor
  · intro hread he
    obtain ⟨hepoch, _⟩ := ofChars?_eq_some_iff.1 hread
    rw [he, ← text_of_epoch_none he] at hepoch
    rcases of_readEpochPrefix? hepoch with ⟨_, htrim, hcolon⟩ | ⟨p, htrim, hp⟩
    · rw [htrim]
      exact ⟨hcolon, fun c hc => Text.isBlank_of_mem_head?_trim hc⟩
    · -- a colon in front would make the text longer than it is
      have hlen := Text.length_trim_le e.text.toList
      rw [htrim, List.length_append, List.length_cons] at hlen
      omega
  · intro hunamb
    rw [Text.trim_eq_self (head_not_blank hunamb) h.end_not_blank]
    exact ofChars?_eq_some_iff.2
      ⟨readEpochPrefix?_text fun he => (hunamb he).1, h.toSeparable⟩

/-- A character that is no blank and separates nothing. -/
def isPlainChar (c : Char) : Bool := !Text.isBlank c && c != '-' && c != ':'

theorem isPlainChar_iff {c : Char} :
    isPlainChar c = true ↔ Text.isBlank c = false ∧ c ≠ '-' ∧ c ≠ ':' := by
  simp [isPlainChar, and_assoc]

/-- Version and release are free of blanks, dashes and colons. -/
structure Plain (e : Evr) : Prop where
  version_ne_empty : e.version ≠ ""
  version_chars : e.version.toList.all isPlainChar = true
  release_ne_empty : e.release ≠ some ""
  release_chars : e.release.all (fun r => r.toList.all isPlainChar) = true

theorem Plain.body_chars {e : Evr} (h : e.Plain) :
    ∀ c ∈ e.bodyText.toList, Text.isBlank c = false ∧ c ≠ ':' := by
  intro c hc
  rw [toList_bodyText] at hc
  rcases List.mem_append.1 hc with hc | hc
  · obtain ⟨hblank, _, hcolon⟩ := isPlainChar_iff.1 (List.all_eq_true.1 h.version_chars c hc)
    exact ⟨hblank, hcolon⟩
  · have hchars := h.release_chars
    cases hr : e.release with
    | none =>
      rw [hr] at hc
      cases hc
    | some r =>
      rw [hr] at hc hchars
      rcases List.mem_cons.1 hc with rfl | hc
      · decide
      · obtain ⟨hblank, _, hcolon⟩ := isPlainChar_iff.1 (List.all_eq_true.1 hchars c hc)
        exact ⟨hblank, hcolon⟩

theorem Plain.wellFormed {e : Evr} (h : e.Plain) : e.WellFormed := by
  have hsep : e.Separable := by
    refine ⟨h.version_ne_empty, ?_, h.release_ne_empty⟩
    intro hdash
    obtain ⟨_, hne, _⟩ := isPlainChar_iff.1 (List.all_eq_true.1 h.version_chars '-' hdash)
    exact hne rfl
  refine ⟨hsep, ?_⟩
  rw [getLast?_text hsep]
  exact fun c hc => (h.body_chars c (List.mem_of_mem_getLast? hc)).1

theorem Plain.unambiguous {e : Evr} (h : e.Plain) : e.Unambiguous := by
  intro he
  rw [text_of_epoch_none he]
  refine ⟨?_, fun c hc => (h.body_chars c (List.mem_of_mem_head? hc)).1⟩
  intro hcolon
  exact (h.body_chars ':' hcolon).2 rfl

theorem parseChars_cons_blank {c : Char} (hc : Text.isBlank c = true) (s : List Char) :
    parseChars (c :: s) = parseChars s := by
  rw [parseChars, parseChars, Text.trim_cons_blank hc]

end Evr

/-! ## Constraints -/

theorem Relation.ofOperator?_text {s : List Char} {r : Relation} (h : ofOperator? s = some r) :
    ofOperator? r.text.toList = some r := by
  unfold ofOperator? at h
  split at h <;> cases h <;> decide

theorem Relation.all_isOperatorChar_text (r : Relation) :
    r.text.toList.all Constraint.isOperatorChar = true := by
  obtain ⟨l, e, g⟩ := r
  revert l e g
  decide

theorem Relation.isOperatorChar_of_mem_text {r : Relation} {c : Char} (h : c ∈ r.text.toList) :
    Constraint.isOperatorChar c = true :=
  List.all_eq_true.1 r.all_isOperatorChar_text c h

theorem Relation.text_ne_nil {r : Relation} (h : r.isEmpty = false) : r.text.toList ≠ [] := by
  obtain ⟨l, e, g⟩ := r
  revert l e g
  decide

namespace Constraint

theorem isBlank_of_isOperatorChar {c : Char} (h : isOperatorChar c = true) :
    Text.isBlank c = false := by
  simp only [isOperatorChar, Bool.or_eq_true, beq_iff_eq] at h
  rcases h with ((rfl | rfl) | rfl) | rfl <;> decide

/-- Behind an operator a constraint is read as a version. -/
theorem parseChars_of_operator {s op rest : List Char} {r : Relation}
    (hs : Text.trim s = op ++ rest) (hop : ∀ c ∈ op, isOperatorChar c = true)
    (hrest : ∀ c ∈ rest.head?, isOperatorChar c = false)
    (h : Relation.ofOperator? op = some r) :
    parseChars s =
      (Evr.parseChars rest).map fun e => ⟨r, e, Relation.isEmpty_of_ofOperator? h⟩ := by
  have htake : (Text.trim s).takeWhile isOperatorChar = op := by
    rw [hs, Text.takeWhile_run hop hrest]
  have hdrop : (Text.trim s).dropWhile isOperatorChar = rest := by
    rw [hs, Text.dropWhile_run hop hrest]
  rw [parseChars]
  split
  · next hnil =>
    rw [← htake, hnil] at h
    cases h
  · split
    · next hnone =>
      rw [htake, h] at hnone
      cases hnone
    · next r' hsome =>
      rw [htake, h] at hsome
      cases hsome
      rw [hdrop]

/-- What reading establishes for a constraint: its relation has an operator. -/
structure WellFormed (k : Constraint) : Prop where
  operator : Relation.ofOperator? k.relation.text.toList = some k.relation
  evr : k.evr.WellFormed

theorem wellFormed_of_parseChars {s : List Char} {k : Constraint} (h : parseChars s = .ok k) :
    k.WellFormed := by
  rw [parseChars] at h
  split at h
  · obtain ⟨e, he, rfl⟩ := map_eq_ok h
    exact ⟨Relation.ofOperator?_text (s := ['=']) rfl, Evr.wellFormed_of_parseChars he⟩
  · split at h
    · cases h
    · next hop =>
      obtain ⟨e, he, rfl⟩ := map_eq_ok h
      exact ⟨Relation.ofOperator?_text hop, Evr.wellFormed_of_parseChars he⟩

variable {k : Constraint}

/-- A constraint is written with an operator in front. -/
theorem isOperatorChar_of_mem_head?_text {c : Char} (h : c ∈ k.text.toList.head?) :
    isOperatorChar c = true := by
  rw [toList_text, Text.head?_append_of_ne_nil (Relation.text_ne_nil k.relation_nonempty)] at h
  exact Relation.isOperatorChar_of_mem_text (List.mem_of_mem_head? h)

theorem toList_text_ne_nil (k : Constraint) : k.text.toList ≠ [] := by
  rw [toList_text]
  exact List.append_ne_nil_of_right_ne_nil _ (List.cons_ne_nil _ _)

theorem WellFormed.end_not_blank (h : k.WellFormed) :
    ∀ c ∈ k.text.toList.getLast?, Text.isBlank c = false := by
  rw [toList_text, List.append_cons,
    Text.getLast?_append_of_ne_nil _ (Evr.toList_text_ne_nil h.evr.toSeparable)]
  exact h.evr.end_not_blank

/-- The text of a constraint is read as this constraint when its version is unambiguous, and only
then. -/
theorem parseChars_text_iff (h : k.WellFormed) :
    parseChars k.text.toList = .ok k ↔ k.evr.Unambiguous := by
  have htrim : Text.trim k.text.toList = k.relation.text.toList ++ ' ' :: k.evr.text.toList := by
    rw [← toList_text]
    refine Text.trim_eq_self ?_ h.end_not_blank
    exact fun c hc => isBlank_of_isOperatorChar (isOperatorChar_of_mem_head?_text hc)
  have hstop : ∀ c ∈ (' ' :: k.evr.text.toList).head?, isOperatorChar c = false := by
    intro c hc
    cases hc
    decide
  have hread : parseChars k.text.toList = (Evr.parseChars k.evr.text.toList).map fun e =>
      ⟨k.relation, e, k.relation_nonempty⟩ := by
    rw [parseChars_of_operator htrim (fun _ => Relation.isOperatorChar_of_mem_text) hstop
      h.operator, Evr.parseChars_cons_blank (by decide)]
  rw [hread, ← Evr.parseChars_text_iff h.evr]
  constructor
  · intro hk
    obtain ⟨e, he, heq⟩ := map_eq_ok hk
    rw [he, ← heq]
  · intro he
    rw [he]
    rfl

/-- The relation has an operator and the version is plain. -/
structure Plain (k : Constraint) : Prop where
  relation : k.relation ∈ [Relation.eq, .gt, .lt, .ge, .le, .ne]
  evr : k.evr.Plain

theorem Plain.wellFormed (h : k.Plain) : k.WellFormed := by
  refine ⟨?_, h.evr.wellFormed⟩
  have hall : ∀ r ∈ [Relation.eq, .gt, .lt, .ge, .le, .ne],
      Relation.ofOperator? r.text.toList = some r := by decide
  exact hall k.relation h.relation

end Constraint

end Depcheck

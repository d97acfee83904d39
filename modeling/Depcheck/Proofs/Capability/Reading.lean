import Mathlib.Data.List.TakeWhile
import Depcheck.Proofs.Capability.Text
import Depcheck.Proofs.Version.Reading

/-!
# Reading back the text of a capability

The text of a capability that was read is read as this capability again exactly when the version in
it is unambiguous (`Capability.parse_text_iff`): `x = :1:2` is written `x = 1:2`, which is read with
epoch 1. Names and versions without blanks, operators, dashes and colons are always read back, so
their texts tell them apart (`Capability.parse_text_of_plain`).
-/

namespace Depcheck

namespace Capability

theorem ext {a b : Capability} (hname : a.name = b.name) (hconstraint : a.constraint = b.constraint)
    (hflags : a.flags = b.flags) : a = b := by
  cases a
  cases b
  cases hname
  cases hconstraint
  cases hflags
  rfl

/-- What reading establishes for a capability. -/
structure WellFormed (c : Capability) : Prop where
  not_blank : ∀ ch ∈ c.name.toList, Text.isBlank ch = false
  not_operator : ∀ ch ∈ c.name.toList, Constraint.isOperatorChar ch = false
  constraint : ∀ k, c.constraint = some k → k.WellFormed
  flags : c.flags = { rpmlib := isRpmlibName c.name }

theorem wellFormed_ofParts {name : String} {h : name ≠ ""} {k : Option Constraint}
    (hblank : ∀ ch ∈ name.toList, Text.isBlank ch = false)
    (hop : ∀ ch ∈ name.toList, Constraint.isOperatorChar ch = false)
    (hk : ∀ c, k = some c → c.WellFormed) : (ofParts name h k {}).WellFormed := by
  refine ⟨hblank, hop, hk, ?_⟩
  show CapabilityFlags.union {} { rpmlib := isRpmlibName name } = _
  simp [CapabilityFlags.union, ofParts]

theorem not_isBlank_of_any {s : List Char} (h : ¬s.any Text.isBlank = true) :
    ∀ ch ∈ s, Text.isBlank ch = false := by
  intro ch hch
  exact Bool.eq_false_iff.2 fun hblank => h (List.any_eq_true.2 ⟨ch, hch, hblank⟩)

theorem wellFormed_of_ofChars {s : List Char} {c : Capability} (h : ofChars s = .ok c) :
    c.WellFormed := by
  rw [ofChars] at h
  split at h
  · cases h
  · split at h
    · next hrest =>
      split at h
      · cases h
      · next hblank =>
        cases h
        refine wellFormed_ofParts ?_ ?_ ?_
        · rw [String.toList_ofList]
          exact not_isBlank_of_any hblank
        · rw [String.toList_ofList]
          intro ch hch
          simpa using List.dropWhile_eq_nil_iff.1 hrest ch hch
        · intro k hk
          cases hk
    · split at h
      · cases h
      · split at h
        · cases h
        · next hblank =>
          split at h
          · cases h
          · next k hk =>
            cases h
            refine wellFormed_ofParts ?_ ?_ ?_
            · rw [String.toList_ofList]
              exact not_isBlank_of_any hblank
            · rw [String.toList_ofList]
              intro ch hch
              simpa using List.mem_takeWhile_imp (Text.mem_of_mem_trim hch)
            · intro k' hk'
              cases hk'
              exact Constraint.wellFormed_of_parseChars hk

theorem parse_eq_ok {s : String} {c : Capability} :
    parse s = .ok c ↔ ofChars (Text.trim s.toList) = .ok c := by
  constructor
  · exact eq_ok_of_mapError
  · intro h
    rw [parse, h]
    rfl

theorem wellFormed_of_parse {s : String} {c : Capability} (h : parse s = .ok c) : c.WellFormed :=
  wellFormed_of_ofChars (parse_eq_ok.1 h)

variable {c : Capability}

theorem WellFormed.ofParts_eq (h : c.WellFormed) {name : String} (hname : name = c.name)
    (hne : name ≠ "") {k : Option Constraint} (hk : c.constraint = k) :
    ofParts name hne k {} = c := by
  subst hname hk
  refine ext rfl rfl ?_
  rw [h.flags]
  show CapabilityFlags.union {} { rpmlib := isRpmlibName c.name } = _
  simp [CapabilityFlags.union]

theorem toList_name_ne_nil (c : Capability) : c.name.toList ≠ [] := by
  simpa using c.name_ne_empty

theorem WellFormed.not_any_isBlank (h : c.WellFormed) : ¬c.name.toList.any Text.isBlank = true := by
  intro hany
  obtain ⟨ch, hch, hblank⟩ := List.any_eq_true.1 hany
  rw [h.not_blank ch hch] at hblank
  cases hblank

theorem WellFormed.trim_name (h : c.WellFormed) : Text.trim c.name.toList = c.name.toList := by
  refine Text.trim_eq_self ?_ ?_
  · exact fun ch hch => h.not_blank ch (List.mem_of_mem_head? hch)
  · exact fun ch hch => h.not_blank ch (List.mem_of_mem_getLast? hch)

theorem WellFormed.trim_text (h : c.WellFormed) : Text.trim c.text.toList = c.text.toList := by
  cases hk : c.constraint with
  | none =>
    rw [text_eq_name hk]
    exact h.trim_name
  | some k =>
    rw [toList_text hk]
    refine Text.trim_eq_self ?_ ?_
    · rw [Text.head?_append_of_ne_nil c.toList_name_ne_nil]
      exact fun ch hch => h.not_blank ch (List.mem_of_mem_head? hch)
    · rw [List.append_cons, Text.getLast?_append_of_ne_nil _ k.toList_text_ne_nil]
      exact (h.constraint k hk).end_not_blank

/-- A name alone is read as an unversioned capability. -/
theorem WellFormed.ofChars_text_of_none (h : c.WellFormed) (hk : c.constraint = none) :
    ofChars c.text.toList = .ok c := by
  have hdrop : c.name.toList.dropWhile (!Constraint.isOperatorChar ·) = [] :=
    List.dropWhile_eq_nil_iff.2 fun ch hch => by simp [h.not_operator ch hch]
  rw [text_eq_name hk, ofChars, dif_neg c.toList_name_ne_nil, dif_pos hdrop,
    if_neg h.not_any_isBlank]
  exact congrArg Except.ok (h.ofParts_eq String.ofList_toList _ hk)

theorem ofParts_congr {name name' : String} (hname : name = name') (h : name ≠ "") (h' : name' ≠ "")
    (k : Option Constraint) (flags : CapabilityFlags) :
    ofParts name h k flags = ofParts name' h' k flags := by
  subst hname
  rfl

/-- A name is cut off at the operator, and the rest is read as a constraint. -/
theorem WellFormed.ofChars_text_of_some (h : c.WellFormed) {k : Constraint}
    (hk : c.constraint = some k) :
    ofChars c.text.toList =
      match Constraint.parseChars k.text.toList with
      | .error e => .error (.version e)
      | .ok k' => .ok (ofParts c.name c.name_ne_empty (some k') {}) := by
  have hrun : ∀ ch ∈ c.name.toList ++ [' '], (!Constraint.isOperatorChar ch) = true := by
    intro ch hch
    rcases List.mem_append.1 hch with hch | hch
    · simp [h.not_operator ch hch]
    · cases List.mem_singleton.1 hch
      decide
  have hstop : ∀ ch ∈ k.text.toList.head?, (!Constraint.isOperatorChar ch) = false := by
    intro ch hch
    simp [Constraint.isOperatorChar_of_mem_head?_text hch]
  have htext : c.text.toList = (c.name.toList ++ [' ']) ++ k.text.toList := by
    rw [toList_text hk, List.append_cons]
  have htake : c.text.toList.takeWhile (!Constraint.isOperatorChar ·) = c.name.toList ++ [' '] := by
    rw [htext, Text.takeWhile_run hrun hstop]
  have hdrop : c.text.toList.dropWhile (!Constraint.isOperatorChar ·) = k.text.toList := by
    rw [htext, Text.dropWhile_run hrun hstop]
  have hname : Text.trim (c.text.toList.takeWhile (!Constraint.isOperatorChar ·)) =
      c.name.toList := by
    rw [htake, Text.trim_append_blank (by decide), h.trim_name]
  have hnil : c.text.toList ≠ [] := by
    rw [htext]
    exact List.append_ne_nil_of_right_ne_nil _ k.toList_text_ne_nil
  rw [ofChars, dif_neg hnil, dif_neg (by rw [hdrop]; exact k.toList_text_ne_nil),
    dif_neg (by rw [hname]; exact c.toList_name_ne_nil),
    if_neg (by rw [hname]; exact h.not_any_isBlank), hdrop]
  cases Constraint.parseChars k.text.toList with
  | error e => rfl
  | ok k' =>
    refine congrArg Except.ok (ofParts_congr ?_ _ _ _ _)
    rw [hname, String.ofList_toList]

/-- The text of a capability is read as this capability when its version is unambiguous, and only
then. -/
theorem WellFormed.reads_back_iff (h : c.WellFormed) :
    parse c.text = .ok c ↔ ∀ k, c.constraint = some k → k.evr.Unambiguous := by
  rw [parse_eq_ok, h.trim_text]
  cases hk : c.constraint with
  | none =>
    rw [h.ofChars_text_of_none hk]
    simp
  | some k =>
    have hread : ofChars c.text.toList = .ok c ↔ Constraint.parseChars k.text.toList = .ok k := by
      rw [h.ofChars_text_of_some hk]
      cases Constraint.parseChars k.text.toList with
      | error e => simp
      | ok k' =>
        constructor
        · intro heq
          have heq := congrArg Capability.constraint (Except.ok.inj heq)
          rw [hk] at heq
          exact congrArg Except.ok (Option.some.inj heq)
        · intro heq
          cases heq
          exact congrArg Except.ok (h.ofParts_eq rfl _ hk)
    rw [hread, Constraint.parseChars_text_iff (h.constraint k hk)]
    simp

/-- A capability that was read is read again from its text exactly when its version is
unambiguous. -/
theorem parse_text_iff {s : String} (h : parse s = .ok c) :
    parse c.text = .ok c ↔ ∀ k, c.constraint = some k → k.evr.Unambiguous :=
  (wellFormed_of_parse h).reads_back_iff

/-- A capability on the version `1:2`, which has no epoch. -/
def spelledOut : Capability := .ofParts "x" (by decide) (some (.exactly { version := "1:2" })) {}

/-- The text of what was read is read as a capability on version `2` in epoch 1. -/
theorem parse_text_ne_spelledOut :
    parse "x = :1:2" = .ok spelledOut ∧ spelledOut.text = "x = 1:2" ∧
      parse spelledOut.text =
        .ok (ofParts "x" (by decide) (some (.exactly { epoch := some 1, version := "2" })) {}) ∧
        parse spelledOut.text ≠ .ok spelledOut := by
  refine ⟨rfl, rfl, rfl, ?_⟩
  decide

/-- A capability on version `1` and release `2`, without epoch. -/
def released : Capability :=
  .ofParts "x" (by decide) (some (.exactly { version := "1", release := some "2" })) {}

/-- Where no second colon follows, an empty epoch does no harm. -/
theorem parse_text_iff_released :
    parse "x==:1-2" = .ok released ∧ parse released.text = .ok released := by
  have hread : parse "x==:1-2" = .ok released := rfl
  refine ⟨hread, (parse_text_iff hread).2 ?_⟩
  intro k hk
  cases hk
  intro _
  refine ⟨by decide, ?_⟩
  intro ch hch
  obtain rfl : '1' = ch := Option.some.inj hch
  decide

/-! ## Plain capabilities -/

/-- The name is free of blanks and operator characters, and the constraint, when there is one, is
plain. -/
structure PlainParts (name : String) (k : Option Constraint) : Prop where
  name_ne_empty : name ≠ ""
  name_chars : name.toList.all (fun ch => !Text.isBlank ch && !Constraint.isOperatorChar ch) = true
  constraint : ∀ c, k = some c → c.Plain

theorem PlainParts.wellFormed {name : String} {k : Option Constraint} (h : PlainParts name k) :
    (ofParts name h.name_ne_empty k {}).WellFormed := by
  have hchars : ∀ ch ∈ name.toList,
      Text.isBlank ch = false ∧ Constraint.isOperatorChar ch = false := by
    intro ch hch
    simpa using List.all_eq_true.1 h.name_chars ch hch
  refine wellFormed_ofParts ?_ ?_ ?_
  · exact fun ch hch => (hchars ch hch).1
  · exact fun ch hch => (hchars ch hch).2
  · exact fun c hc => (h.constraint c hc).wellFormed

theorem PlainParts.parse_text {name : String} {k : Option Constraint} (h : PlainParts name k) :
    parse (ofParts name h.name_ne_empty k {}).text = .ok (ofParts name h.name_ne_empty k {}) :=
  h.wellFormed.reads_back_iff.2 fun c hc => (h.constraint c hc).evr.unambiguous

/-- A plain capability is read from its text, and different ones have different texts. -/
theorem parse_text_of_plain {name : String} {k : Option Constraint} (h : PlainParts name k) :
    parse (ofParts name h.name_ne_empty k {}).text = .ok (ofParts name h.name_ne_empty k {}) ∧
      ∀ {name' : String} {k' : Option Constraint} (h' : PlainParts name' k'),
        (ofParts name h.name_ne_empty k {}).text = (ofParts name' h'.name_ne_empty k' {}).text →
          ofParts name h.name_ne_empty k {} = ofParts name' h'.name_ne_empty k' {} := by
  refine ⟨h.parse_text, ?_⟩
  intro name' k' h' htext
  have hread := h.parse_text
  rw [htext, h'.parse_text] at hread
  exact (Except.ok.inj hread).symm

/-- The constraint `<> 4294967295:1.2~rc1-3.fc40`. -/
def otherThanLatest : Constraint :=
  ⟨.ne, { epoch := some 4294967295, version := "1.2~rc1", release := some "3.fc40" }, rfl⟩

theorem parse_text_of_plain_latest :
    ∃ h : PlainParts "libfoo.so.1()(64bit)" (some otherThanLatest),
      parse "libfoo.so.1()(64bit) <> 4294967295:1.2~rc1-3.fc40" =
        .ok (ofParts "libfoo.so.1()(64bit)" h.name_ne_empty (some otherThanLatest) {}) := by
  have hk : otherThanLatest.Plain := ⟨by decide, ⟨by decide, by decide, by decide, by decide⟩⟩
  have h : PlainParts "libfoo.so.1()(64bit)" (some otherThanLatest) := by
    refine ⟨by decide, by decide, ?_⟩
    intro c hc
    cases hc
    exact hk
  exact ⟨h, (parse_text_of_plain h).1⟩

end Capability

end Depcheck

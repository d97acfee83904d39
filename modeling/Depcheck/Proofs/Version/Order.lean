import Depcheck.Package.Basic

/-!
# The order of versions

Comparing two version texts side by side is comparing their segments from left to right, each row
of segments closed by a mark for the end of the text (`compareChars_eq`). The segments are ordered
by kind, then by length for digit runs without their leading zeros, then by text. So the comparison
of texts is oriented and transitive, and with it are the orders of versions, of packages and of
capabilities that are built on it.
-/

namespace Depcheck

open Std (TransCmp TransOrd)

namespace Version

/-- A piece of a version text, the end of the text among them. -/
inductive Segment where
  | tilde
  | stop
  | letters (run : List Char)
  | digits (run : List Char)

namespace Segment

/-- The kinds in ascending order. -/
def rank : Segment → Nat
  | tilde => 0
  | stop => 1
  | letters _ => 2
  | digits _ => 3

/-- A longer run of digits is greater, whatever the digits are. -/
def size : Segment → Nat
  | digits run => (significant run).length
  | _ => 0

/-- The characters that decide between runs of one kind and size. -/
def text : Segment → List Char
  | letters run => run
  | digits run => significant run
  | _ => []

/-- By kind, then size, then text. -/
instance : Ord Segment :=
  ⟨compareLex (compareOn rank) (compareLex (compareOn size) (compareOn text))⟩

instance : TransOrd Segment :=
  inferInstanceAs (TransCmp (compareLex (compareOn rank) (compareLex (compareOn size)
    (compareOn text))))

theorem compare_eq (a b : Segment) :
    compare a b =
      (compare a.rank b.rank).then ((compare a.size b.size).then (compare a.text b.text)) := rfl

theorem compare_digits (s t : List Char) :
    compare (digits s) (digits t) = compareDigits s t := rfl

theorem compare_letters (s t : List Char) : compare (letters s) (letters t) = compare s t := rfl

end Segment

/-- The segments of a version text, and the end of it. -/
def segments (s : List Char) : List Segment :=
  match _hs : s.dropWhile isSeparator with
  | [] => [.stop]
  | c :: s' =>
    if c = '~' then .tilde :: segments s'
    else if c.isDigit then
      .digits ((c :: s').takeWhile Char.isDigit) :: segments (s'.dropWhile Char.isDigit)
    else .letters ((c :: s').takeWhile Char.isAlpha) :: segments (s'.dropWhile Char.isAlpha)
termination_by s.length
decreasing_by
  all_goals
    have h₁ := (List.dropWhile_suffix (l := s) isSeparator).length_le
    rw [_hs] at h₁
    have h₂ := (List.dropWhile_suffix (l := s') Char.isDigit).length_le
    have h₃ := (List.dropWhile_suffix (l := s') Char.isAlpha).length_le
    simp only [List.length_cons] at h₁
    omega

theorem segments_of_nil {s : List Char} (h : s.dropWhile isSeparator = []) :
    segments s = [.stop] := by
  rw [segments]
  split
  · rfl
  · next hs =>
    rw [h] at hs
    cases hs

theorem segments_of_cons {s s' : List Char} {c : Char} (h : s.dropWhile isSeparator = c :: s') :
    segments s =
      if c = '~' then .tilde :: segments s'
      else if c.isDigit then
        .digits ((c :: s').takeWhile Char.isDigit) :: segments (s'.dropWhile Char.isDigit)
      else
        .letters ((c :: s').takeWhile Char.isAlpha) :: segments (s'.dropWhile Char.isAlpha) := by
  rw [segments]
  split
  · next hs =>
    rw [h] at hs
    cases hs
  · next hs =>
    rw [h] at hs
    cases hs
    rfl

theorem segments_of_digit {s s' : List Char} {c : Char} (h : s.dropWhile isSeparator = c :: s')
    (hc : c ≠ '~') (hdigit : c.isDigit = true) :
    segments s =
      .digits ((c :: s').takeWhile Char.isDigit) :: segments (s'.dropWhile Char.isDigit) := by
  rw [segments_of_cons h, if_neg hc, if_pos hdigit]

theorem segments_of_letter {s s' : List Char} {c : Char} (h : s.dropWhile isSeparator = c :: s')
    (hc : c ≠ '~') (hdigit : ¬c.isDigit = true) :
    segments s =
      .letters ((c :: s').takeWhile Char.isAlpha) :: segments (s'.dropWhile Char.isAlpha) := by
  rw [segments_of_cons h, if_neg hc, if_neg hdigit]

/-- A text that does not go on with a tilde goes on above a tilde and not below the end. -/
theorem exists_segments_of_ne_tilde {s s' : List Char} {c : Char}
    (h : s.dropWhile isSeparator = c :: s') (hc : c ≠ '~') :
    ∃ a rest, segments s = a :: rest ∧ Segment.stop.rank < a.rank := by
  rw [segments_of_cons h, if_neg hc]
  split
  · exact ⟨_, _, rfl, by simp [Segment.rank]⟩
  · exact ⟨_, _, rfl, by simp [Segment.rank]⟩

theorem compare_cons_of_rank_lt {a b : Segment} (h : a.rank < b.rank) (as bs : List Segment) :
    compare (a :: as) (b :: bs) = .lt := by
  rw [List.compare_cons_cons, Segment.compare_eq, Nat.compare_eq_lt.2 h]
  rfl

theorem compare_cons_of_rank_gt {a b : Segment} (h : b.rank < a.rank) (as bs : List Segment) :
    compare (a :: as) (b :: bs) = .gt := by
  rw [List.compare_cons_cons, Segment.compare_eq, Nat.compare_eq_gt.2 h]
  rfl

/-- Comparing two version texts is comparing their segments. -/
theorem compareChars_eq (s t : List Char) :
    compareChars s t = compare (segments s) (segments t) := by
  -- the scan stops at the first difference in kind, and goes on behind two segments of one kind
  fun_induction compareChars s t with
  | case1 s t hs ht =>
    rw [segments_of_nil hs, segments_of_nil ht]
    rfl
  | case2 s t rest hs ht =>
    rw [segments_of_nil hs, segments_of_cons ht, if_pos rfl]
    exact (compare_cons_of_rank_gt (by decide) _ _).symm
  | case3 s t d rest hs ht hd =>
    obtain ⟨a, as, heq, hrank⟩ := exists_segments_of_ne_tilde ht hd
    rw [segments_of_nil hs, heq]
    exact (compare_cons_of_rank_lt hrank _ _).symm
  | case4 s t rest ht hs =>
    rw [segments_of_nil ht, segments_of_cons hs, if_pos rfl]
    exact (compare_cons_of_rank_lt (by decide) _ _).symm
  | case5 s t c rest hs ht hc =>
    obtain ⟨a, as, heq, hrank⟩ := exists_segments_of_ne_tilde hs hc
    rw [segments_of_nil ht, heq]
    exact (compare_cons_of_rank_gt hrank _ _).symm
  | case6 s t c s' d t' hs ht hor hd =>
    obtain rfl : c = '~' := hor.resolve_right hd
    obtain ⟨a, as, heq, hrank⟩ := exists_segments_of_ne_tilde ht hd
    have htilde : Segment.tilde.rank < a.rank := Nat.zero_lt_of_lt hrank
    rw [segments_of_cons hs, if_pos rfl, heq]
    exact (compare_cons_of_rank_lt htilde _ _).symm
  | case7 s t c s' d t' hs ht hor hd hc =>
    obtain rfl : d = '~' := Decidable.not_not.1 hd
    obtain ⟨a, as, heq, hrank⟩ := exists_segments_of_ne_tilde hs hc
    have htilde : Segment.tilde.rank < a.rank := Nat.zero_lt_of_lt hrank
    rw [segments_of_cons ht, if_pos rfl, heq]
    exact (compare_cons_of_rank_gt htilde _ _).symm
  | case8 s t c s' d t' hs ht hor hd hc ih =>
    obtain rfl : d = '~' := Decidable.not_not.1 hd
    obtain rfl : c = '~' := Decidable.not_not.1 hc
    rw [segments_of_cons hs, segments_of_cons ht, if_pos rfl, if_pos rfl, ih]
    rfl
  | case9 s t c s' d t' hs ht hor hc hd ih =>
    obtain ⟨hc', hd'⟩ := not_or.1 hor
    rw [segments_of_digit hs hc' hc, segments_of_digit ht hd' hd, List.compare_cons_cons,
      Segment.compare_digits, ih]
  | case10 s t c s' d t' hs ht hor hc hd =>
    obtain ⟨hc', hd'⟩ := not_or.1 hor
    rw [segments_of_digit hs hc' hc, segments_of_letter ht hd' hd]
    exact (compare_cons_of_rank_gt (by simp [Segment.rank]) _ _).symm
  | case11 s t c s' d t' hs ht hor hc hd =>
    obtain ⟨hc', hd'⟩ := not_or.1 hor
    rw [segments_of_letter hs hc' hc, segments_of_digit ht hd' hd]
    exact (compare_cons_of_rank_lt (by simp [Segment.rank]) _ _).symm
  | case12 s t c s' d t' hs ht hor hc hd ih =>
    obtain ⟨hc', hd'⟩ := not_or.1 hor
    rw [segments_of_letter hs hc' hc, segments_of_letter ht hd' hd, List.compare_cons_cons,
      Segment.compare_letters, ih]

end Version

/-! ## Versions, packages and capabilities -/

namespace Evr

open Version (segments compareChars_eq compareText)

/-- A release as its segments. -/
def releaseSegments (e : Evr) : Option (List Version.Segment) :=
  e.release.map fun r => segments r.toList

theorem compareRelease_eq (a b : Evr) :
    compareRelease a.release b.release = Ord.compare a.releaseSegments b.releaseSegments := by
  rw [releaseSegments, releaseSegments]
  cases a.release with
  | none => cases b.release <;> rfl
  | some r =>
    cases b.release with
    | none => rfl
    | some r' => exact compareChars_eq r.toList r'.toList

/-- Versions compare by epoch, then by the segments of version and release. -/
theorem compare_eq_compareLex :
    compare =
      compareLex (compareLex (compareOn epochValue) (compareOn fun e => segments e.version.toList))
        (compareOn releaseSegments) := by
  ext a b
  show (compareEpochVersion a b).then (compareRelease a.release b.release) = _
  rw [compareRelease_eq, compareEpochVersion, compareText, compareChars_eq]
  rfl

instance : TransCmp compare := by
  rw [compare_eq_compareLex]
  infer_instance

end Evr

namespace Package

theorem compareNameEvr_eq_compareLex :
    compareNameEvr = compareLex (compareOn Package.name) compareEvr := rfl

instance : TransCmp compareEvr where
  eq_swap := fun {p q} => @Std.OrientedCmp.eq_swap _ Evr.compare _ p.evr q.evr
  isLE_trans := fun {p q r} => @TransCmp.isLE_trans _ Evr.compare _ p.evr q.evr r.evr

instance : TransCmp compareNameEvr := by
  rw [compareNameEvr_eq_compareLex]
  infer_instance

end Package

namespace Capability

instance : TransCmp compareConstraint where
  eq_swap := by
    intro a b
    cases a with
    | none => cases b <;> rfl
    | some a =>
      cases b with
      | none => rfl
      | some b => exact @Std.OrientedCmp.eq_swap _ Evr.compare _ a.evr b.evr
  isLE_trans := by
    intro a b c hab hbc
    cases a with
    | none => cases c <;> rfl
    | some a =>
      -- nothing versioned stands before something unversioned
      cases b with
      | none => cases hab
      | some b =>
        cases c with
        | none => cases hbc
        | some c => exact @TransCmp.isLE_trans _ Evr.compare _ a.evr b.evr c.evr hab hbc

instance : TransCmp fun a b : Capability => compareConstraint a.constraint b.constraint where
  eq_swap := fun {a b} => @Std.OrientedCmp.eq_swap _ compareConstraint _ a.constraint b.constraint
  isLE_trans := fun {a b c} =>
    @TransCmp.isLE_trans _ compareConstraint _ a.constraint b.constraint c.constraint

theorem compareNameEvr_eq_compareLex :
    compareNameEvr =
      compareLex (compareOn Capability.name)
        fun a b => compareConstraint a.constraint b.constraint := rfl

instance : TransCmp compareNameEvr := by
  rw [compareNameEvr_eq_compareLex]
  infer_instance

end Capability

end Depcheck

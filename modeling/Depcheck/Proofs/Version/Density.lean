import Depcheck.Proofs.Text.Ends
import Depcheck.Proofs.Version.Order

/-!
# Version texts below, above and between others

A tilde at the end of a version text leads below it and a further segment above it. Of two texts
that differ, the lesser one with a further segment or the greater one with a tilde lies between
them. So version texts are densely ordered, and there is neither a least nor a greatest one.
-/

namespace Depcheck.Version

/-! ## Rows of segments -/

/-- What two rows have in common at the start does not decide. -/
theorem compare_append_left (row s t : List Segment) :
    compare (row ++ s) (row ++ t) = compare s t := by
  induction row with
  | nil => rfl
  | cons a rest ih =>
    rw [List.cons_append, List.cons_append, List.compare_cons_cons, Std.ReflOrd.compare_self, ih]
    rfl

/-- Rows that end alike differ before their ends, so the end of one of them does not matter. -/
theorem compare_append_or {x y : List Segment} {e : Segment}
    (h : compare (x ++ [e]) (y ++ [e]) = .lt) (s : List Segment) {t : List Segment} (ht : t ≠ []) :
    compare (x ++ s) (y ++ [e]) = .lt ∨ compare (x ++ [e]) (y ++ t) = .lt := by
  induction x generalizing y with
  | nil =>
    cases y with
    | nil =>
      rw [Std.ReflOrd.compare_self] at h
      cases h
    | cons b y =>
      right
      rw [List.nil_append, List.cons_append, List.compare_cons_cons] at h ⊢
      cases hb : compare e b with
      | lt => rfl
      | eq =>
        have hne : y ++ t ≠ [] := List.append_ne_nil_of_right_ne_nil y ht
        obtain ⟨c, rest, hrest⟩ := List.exists_cons_of_ne_nil hne
        rw [hrest]
        rfl
      | gt =>
        rw [hb] at h
        cases h
  | cons a x ih =>
    cases y with
    | nil =>
      left
      rw [List.nil_append, List.cons_append, List.compare_cons_cons] at h ⊢
      cases ha : compare a e with
      | lt => rfl
      | eq =>
        rw [ha] at h
        cases x <;> cases h
      | gt =>
        rw [ha] at h
        cases h
    | cons b y =>
      simp only [List.cons_append, List.compare_cons_cons] at h ⊢
      cases hab : compare a b with
      | lt => exact .inl rfl
      | eq =>
        rw [hab] at h
        exact ih h
      | gt =>
        rw [hab] at h
        cases h

/-! ## Texts that go on -/

theorem segments_ne_nil (s : List Char) : segments s ≠ [] := by
  cases hs : s.dropWhile isSeparator with
  | nil => simp [segments_of_nil hs]
  | cons c s' =>
    rw [segments_of_cons hs]
    split
    · simp
    · split <;> simp

theorem segments_congr {s t : List Char} (h : s.dropWhile isSeparator = t.dropWhile isSeparator) :
    segments s = segments t := by
  cases ht : t.dropWhile isSeparator with
  | nil => rw [segments_of_nil (h.trans ht), segments_of_nil ht]
  | cons c t' => rw [segments_of_cons (h.trans ht), segments_of_cons ht]

/-- A text that goes on with what continues no run has its segments, without the end, before those
of the rest. -/
theorem segments_append {t : List Char} (ht : ∀ c ∈ t.head?, c.isAlphanum = false)
    (s : List Char) : segments (s ++ t) = (segments s).dropLast ++ segments t := by
  have hdigit : ∀ c ∈ t.head?, c.isDigit = false := by
    intro c hc
    have := ht c hc
    simp only [Char.isAlphanum, Bool.or_eq_false_iff] at this
    exact this.2
  have halpha : ∀ c ∈ t.head?, c.isAlpha = false := by
    intro c hc
    have := ht c hc
    simp only [Char.isAlphanum, Bool.or_eq_false_iff] at this
    exact this.1
  fun_induction segments s with
  | case1 s hs =>
    refine segments_congr ?_
    rw [List.dropWhile_append, hs]
    rfl
  | case2 s s' hs ih =>
    have hst : (s ++ t).dropWhile isSeparator = '~' :: (s' ++ t) := by
      rw [List.dropWhile_append, hs]
      rfl
    rw [segments_of_cons hst, if_pos rfl, ih, List.dropLast_cons_of_ne_nil (segments_ne_nil _)]
    rfl
  | case3 s c s' hs hc hd ih =>
    have hst : (s ++ t).dropWhile isSeparator = c :: (s' ++ t) := by
      rw [List.dropWhile_append, hs]
      rfl
    rw [segments_of_digit hst hc hd, Text.dropWhile_append_of_head hdigit, ← List.cons_append,
      Text.takeWhile_append_of_head hdigit, ih, List.dropLast_cons_of_ne_nil (segments_ne_nil _)]
    rfl
  | case4 s c s' hs hc hd ih =>
    have hst : (s ++ t).dropWhile isSeparator = c :: (s' ++ t) := by
      rw [List.dropWhile_append, hs]
      rfl
    rw [segments_of_letter hst hc hd, Text.dropWhile_append_of_head halpha, ← List.cons_append,
      Text.takeWhile_append_of_head halpha, ih, List.dropLast_cons_of_ne_nil (segments_ne_nil _)]
    rfl

/-- Every row of segments ends with the end of the text. -/
theorem segments_eq_concat (s : List Char) : segments s = (segments s).dropLast ++ [.stop] := by
  have h := segments_append (t := []) (by simp) s
  rw [List.append_nil, segments_of_nil (s := []) rfl] at h
  exact h

theorem segments_tilde : segments ['~'] = [.tilde, .stop] := by
  have hs : ['~'].dropWhile isSeparator = ['~'] := rfl
  rw [segments_of_cons hs, if_pos rfl, segments_of_nil rfl]

theorem segments_zero : segments ['.', '0'] = [.digits ['0'], .stop] := by
  have hs : ['.', '0'].dropWhile isSeparator = ['0'] := rfl
  rw [segments_of_digit hs (by decide) rfl, segments_of_nil rfl]
  rfl

/-! ## Texts in between -/

/-- The version text with a tilde at its end. -/
def below (s : String) : String := s ++ "~"

/-- The version text with a further segment. -/
def above (s : String) : String := s ++ ".0"

theorem segments_below (s : String) :
    segments (below s).toList = (segments s.toList).dropLast ++ [.tilde, .stop] := by
  rw [below, String.toList_append]
  show segments (s.toList ++ ['~']) = _
  rw [segments_append (by rintro _ ⟨⟩; decide), segments_tilde]

theorem segments_above (s : String) :
    segments (above s).toList = (segments s.toList).dropLast ++ [.digits ['0'], .stop] := by
  rw [above, String.toList_append]
  show segments (s.toList ++ ['.', '0']) = _
  rw [segments_append (by rintro _ ⟨⟩; decide), segments_zero]

theorem compareText_eq (s t : String) :
    compareText s t = compare (segments s.toList) (segments t.toList) := compareChars_eq _ _

instance : Std.TransCmp compareText where
  eq_swap := by
    intro s t
    rw [compareText_eq, compareText_eq]
    exact Std.OrientedCmp.eq_swap
  isLE_trans := by
    intro s t u
    rw [compareText_eq, compareText_eq, compareText_eq]
    exact Std.TransCmp.isLE_trans

theorem compareText_below (s : String) : compareText (below s) s = .lt := by
  rw [compareText_eq, segments_below, segments_eq_concat s.toList, List.dropLast_concat,
    compare_append_left]
  exact compare_cons_of_rank_lt (by decide) _ _

theorem compareText_above (s : String) : compareText s (above s) = .lt := by
  rw [compareText_eq, segments_above, segments_eq_concat s.toList, List.dropLast_concat,
    compare_append_left]
  exact compare_cons_of_rank_lt (by decide) _ _

/-- Version texts are densely ordered. -/
theorem exists_between {s t : String} (h : compareText s t = .lt) :
    ∃ m, compareText s m = .lt ∧ compareText m t = .lt := by
  rw [compareText_eq, segments_eq_concat s.toList, segments_eq_concat t.toList] at h
  rcases compare_append_or h [.digits ['0'], .stop] (t := [.tilde, .stop]) (by simp) with hlt | hlt
  · refine ⟨above s, compareText_above s, ?_⟩
    rw [compareText_eq, segments_above, segments_eq_concat t.toList]
    exact hlt
  · refine ⟨below t, ?_, compareText_below t⟩
    rw [compareText_eq, segments_below, segments_eq_concat s.toList]
    exact hlt

/-! ## Outcomes that go together -/

/-- When two things compare as `c`, a third can compare as `o` with the first and as `o'` with the
second. -/
def Fits : Ordering → Ordering → Ordering → Prop
  | .lt, o, o' => o = .gt ∨ o' = .lt
  | .eq, o, o' => o = o'
  | .gt, o, o' => o = .lt ∨ o' = .gt

theorem fits_swap {c o o' : Ordering} : Fits c.swap o' o ↔ Fits c o o' := by
  cases c with
  | lt => exact Or.comm
  | eq => exact eq_comm
  | gt => exact Or.comm

/-- One outcome for both fits always, unless it is equality. -/
theorem fits_self {o : Ordering} (h : o ≠ .eq) (c : Ordering) : Fits c o o := by
  cases o with
  | lt => cases c <;> simp [Fits]
  | eq => exact absurd rfl h
  | gt => cases c <;> simp [Fits]

section Fits

variable {α : Type} {cmp : α → α → Ordering}

theorem fits_comm [Std.OrientedCmp cmp] {a b : α} {o o' : Ordering} :
    Fits (cmp b a) o' o ↔ Fits (cmp a b) o o' := by
  rw [@Std.OrientedCmp.eq_swap _ cmp _ b a, fits_swap]

/-- Three things that are in order leave no other outcomes. -/
theorem fits_of_transCmp (cmp : α → α → Ordering) [Std.TransCmp cmp] (a b c : α) :
    Fits (cmp a b) (cmp c a) (cmp c b) := by
  cases hab : cmp a b with
  | lt =>
    cases hca : cmp c a with
    | lt => exact .inr (Std.TransCmp.lt_trans hca hab)
    | eq => exact .inr (Std.TransCmp.lt_of_eq_of_lt hca hab)
    | gt => exact .inl rfl
  | eq => exact Std.TransCmp.congr_right hab
  | gt =>
    cases hcb : cmp c b with
    | lt => exact .inl (Std.TransCmp.lt_trans hcb (Std.OrientedCmp.lt_of_gt hab))
    | eq => exact .inl (Std.TransCmp.lt_of_eq_of_lt hcb (Std.OrientedCmp.lt_of_gt hab))
    | gt => exact .inr rfl

end Fits

/-- Every version text has texts below it and above it. -/
theorem exists_compareText (s : String) (o : Ordering) : ∃ m, compareText m s = o := by
  cases o with
  | lt => exact ⟨below s, compareText_below s⟩
  | eq => exact ⟨s, Std.ReflCmp.compare_self⟩
  | gt => exact ⟨above s, Std.OrientedCmp.gt_of_lt (compareText_above s)⟩

theorem exists_of_fits_lt {s t : String} (hst : compareText s t = .lt) {o o' : Ordering}
    (h : o = .gt ∨ o' = .lt) : ∃ m, compareText m s = o ∧ compareText m t = o' := by
  rcases h with rfl | rfl
  · cases o' with
    | lt =>
      obtain ⟨m, hsm, hmt⟩ := exists_between hst
      exact ⟨m, Std.OrientedCmp.gt_of_lt hsm, hmt⟩
    | eq => exact ⟨t, Std.OrientedCmp.gt_of_lt hst, Std.ReflCmp.compare_self⟩
    | gt =>
      obtain ⟨m, hm⟩ := exists_compareText t .gt
      exact ⟨m, Std.TransCmp.gt_trans hm (Std.OrientedCmp.gt_of_lt hst), hm⟩
  · cases o with
    | lt =>
      obtain ⟨m, hm⟩ := exists_compareText s .lt
      exact ⟨m, hm, Std.TransCmp.lt_trans hm hst⟩
    | eq => exact ⟨s, Std.ReflCmp.compare_self, hst⟩
    | gt =>
      obtain ⟨m, hsm, hmt⟩ := exists_between hst
      exact ⟨m, Std.OrientedCmp.gt_of_lt hsm, hmt⟩

/-- All outcomes that fit occur. -/
theorem exists_of_fits {s t : String} {o o' : Ordering} (h : Fits (compareText s t) o o') :
    ∃ m, compareText m s = o ∧ compareText m t = o' := by
  cases hst : compareText s t with
  | lt =>
    rw [hst] at h
    exact exists_of_fits_lt hst h
  | eq =>
    rw [hst] at h
    obtain rfl : o = o' := h
    obtain ⟨m, hm⟩ := exists_compareText s o
    exact ⟨m, hm, (Std.TransCmp.congr_right hst).symm.trans hm⟩
  | gt =>
    rw [hst] at h
    obtain ⟨m, hmt, hms⟩ := exists_of_fits_lt (Std.OrientedCmp.lt_of_gt hst) h.symm
    exact ⟨m, hms, hmt⟩

end Depcheck.Version

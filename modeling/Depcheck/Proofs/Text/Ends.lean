import Mathlib.Data.List.TakeWhile
import Depcheck.Text.Blank

/-!
# The start and the end of a text

A run at the start of a text does not go on into what follows when that begins with another kind of
character. Trimming leaves a part of the text that neither starts nor ends with a blank.
-/

namespace Depcheck.Text

/-! ## Runs at the start -/

section Runs

variable {p : Char → Bool} {t : List Char}

theorem takeWhile_append_of_head (ht : ∀ c ∈ t.head?, p c = false) (s : List Char) :
    (s ++ t).takeWhile p = s.takeWhile p := by
  induction s with
  | nil =>
    cases t with
    | nil => rfl
    | cons c rest => simp [ht c rfl]
  | cons c rest ih => rw [List.cons_append, List.takeWhile_cons, List.takeWhile_cons, ih]

theorem dropWhile_append_of_head (ht : ∀ c ∈ t.head?, p c = false) (s : List Char) :
    (s ++ t).dropWhile p = s.dropWhile p ++ t := by
  induction s with
  | nil =>
    cases t with
    | nil => rfl
    | cons c rest => simp [ht c rfl]
  | cons c rest ih =>
    rw [List.cons_append, List.dropWhile_cons, List.dropWhile_cons, ih]
    split
    · rfl
    · rfl

/-- A run stops where another kind of character follows. -/
theorem takeWhile_run {s : List Char} (hs : ∀ c ∈ s, p c = true)
    (ht : ∀ c ∈ t.head?, p c = false) : (s ++ t).takeWhile p = s := by
  have hstop : t.takeWhile p = [] := takeWhile_append_of_head ht []
  rw [List.takeWhile_append_of_pos hs, hstop, List.append_nil]

theorem dropWhile_run {s : List Char} (hs : ∀ c ∈ s, p c = true)
    (ht : ∀ c ∈ t.head?, p c = false) : (s ++ t).dropWhile p = t := by
  rw [List.dropWhile_append_of_pos hs]
  exact dropWhile_append_of_head ht []

/-- What follows a run does not belong to it. -/
theorem eq_false_of_mem_head?_dropWhile {c : Char} {s : List Char}
    (h : c ∈ (s.dropWhile p).head?) : p c = false := by
  have hhead := List.head?_dropWhile_not p s
  rw [Option.mem_def.1 h] at hhead
  exact hhead

end Runs

/-! ## First and last characters -/

theorem head?_append_of_ne_nil {s : List Char} (h : s ≠ []) (t : List Char) :
    (s ++ t).head? = s.head? := by
  obtain ⟨c, rest, rfl⟩ := List.exists_cons_of_ne_nil h
  rfl

theorem getLast?_append_of_ne_nil (s : List Char) {t : List Char} (h : t ≠ []) :
    (s ++ t).getLast? = t.getLast? := by
  rw [List.getLast?_append, List.getLast?_eq_some_getLast h, Option.some_or]

/-! ## Blanks at the ends -/

/-- A digit is no blank. -/
theorem isBlank_of_isDigit {c : Char} (h : c.isDigit = true) : isBlank c = false := by
  obtain ⟨hlo, hhi⟩ : 48 ≤ c.val ∧ c.val ≤ 57 := by simpa [Char.isDigit] using h
  have hlo : 48 ≤ c.toNat := UInt32.le_iff_toNat_le.1 hlo
  have hhi : c.toNat ≤ 57 := UInt32.le_iff_toNat_le.1 hhi
  simp only [isBlank, blankRanges, List.any_cons, List.any_nil, Bool.or_eq_false_iff,
    Bool.and_eq_false_iff, decide_eq_false_iff_not, and_true]
  omega

theorem trim_cons_blank {c : Char} (hc : isBlank c = true) (s : List Char) :
    trim (c :: s) = trim s := by
  rw [trim, List.dropWhile_cons_of_pos hc, trim]

/-- What is dropped at the end of a text is blank. -/
theorem eq_trimEnd_append_blanks (s : List Char) :
    ∃ t, s = trimEnd s ++ t ∧ ∀ c ∈ t, isBlank c = true := by
  refine ⟨(s.reverse.takeWhile isBlank).reverse, ?_, ?_⟩
  · rw [trimEnd, ← List.reverse_append, List.takeWhile_append_dropWhile, List.reverse_reverse]
  · intro c hc
    exact List.mem_takeWhile_imp (List.mem_reverse.1 hc)

/-- What is trimmed stands at the two ends. -/
theorem eq_append_trim (s : List Char) : ∃ l r, s = l ++ trim s ++ r := by
  obtain ⟨l, hl⟩ := List.dropWhile_suffix (l := s) isBlank
  obtain ⟨r, hr, _⟩ := eq_trimEnd_append_blanks (s.dropWhile isBlank)
  refine ⟨l, r, ?_⟩
  rw [trim, List.append_assoc, ← hr, hl]

theorem length_trim_le (s : List Char) : (trim s).length ≤ s.length := by
  obtain ⟨l, r, hs⟩ := eq_append_trim s
  have hlen := congrArg List.length hs
  simp only [List.length_append] at hlen
  omega

theorem mem_of_mem_trim {c : Char} {s : List Char} (h : c ∈ trim s) : c ∈ s := by
  obtain ⟨l, r, hs⟩ := eq_append_trim s
  rw [hs]
  exact List.mem_append_left r (List.mem_append_right l h)

theorem isBlank_of_mem_getLast?_trimEnd {c : Char} {s : List Char}
    (h : c ∈ (trimEnd s).getLast?) : isBlank c = false := by
  rw [trimEnd, List.getLast?_reverse] at h
  exact eq_false_of_mem_head?_dropWhile h

/-- A trimmed text does not end with a blank. -/
theorem isBlank_of_mem_getLast?_trim {c : Char} {s : List Char} (h : c ∈ (trim s).getLast?) :
    isBlank c = false :=
  isBlank_of_mem_getLast?_trimEnd h

/-- A trimmed text does not start with a blank. -/
theorem isBlank_of_mem_head?_trim {c : Char} {s : List Char} (h : c ∈ (trim s).head?) :
    isBlank c = false := by
  obtain ⟨r, hr, _⟩ := eq_trimEnd_append_blanks (s.dropWhile isBlank)
  refine eq_false_of_mem_head?_dropWhile (s := s) ?_
  rw [trim] at h
  rw [hr, List.head?_append, Option.mem_def.1 h]
  rfl

theorem trim_append_blank {c : Char} (hc : isBlank c = true) (s : List Char) :
    trim (s ++ [c]) = trim s := by
  rw [trim, trim, List.dropWhile_append]
  split
  · next hnil =>
    rw [List.isEmpty_iff.1 hnil, List.dropWhile_cons_of_pos hc]
    rfl
  · rw [trimEnd, List.reverse_append, List.reverse_singleton, List.singleton_append,
      List.dropWhile_cons_of_pos hc, trimEnd]

theorem trim_append_blanks {t : List Char} (ht : ∀ c ∈ t, isBlank c = true) (s : List Char) :
    trim (s ++ t) = trim s := by
  induction t generalizing s with
  | nil => rw [List.append_nil]
  | cons c rest ih =>
    obtain ⟨hc, hrest⟩ := List.forall_mem_cons.1 ht
    rw [List.append_cons, ih hrest, trim_append_blank hc]

end Depcheck.Text

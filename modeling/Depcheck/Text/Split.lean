/-!
# Splitting at a character

A text is cut at the first or at the last place where a character stands. The cut loses the
character itself and nothing else: `eq_append_of_splitFirst` and `eq_append_of_splitLast`.
-/

namespace Depcheck.Text

/-- The text before and after the first `sep`. -/
def splitFirst (sep : Char) : List Char → Option (List Char × List Char)
  | [] => none
  | c :: rest =>
    if c = sep then some ([], rest)
    else (splitFirst sep rest).map fun p => (c :: p.1, p.2)

def splitLast (sep : Char) (s : List Char) : Option (List Char × List Char) :=
  (splitFirst sep s.reverse).map fun p => (p.2.reverse, p.1.reverse)

/-- What stands before the cut is free of the separator. -/
theorem eq_append_of_splitFirst {sep : Char} {s a b : List Char}
    (h : splitFirst sep s = some (a, b)) : s = a ++ sep :: b ∧ sep ∉ a := by
  induction s generalizing a b with
  | nil => simp [splitFirst] at h
  | cons c rest ih =>
    rw [splitFirst] at h
    split at h
    · next hc =>
      simp only [Option.some.injEq, Prod.mk.injEq] at h
      obtain ⟨rfl, rfl⟩ := h
      simp [hc]
    · next hc =>
      obtain ⟨⟨a', b'⟩, hab, heq⟩ := Option.map_eq_some_iff.1 h
      simp only [Prod.mk.injEq] at heq
      obtain ⟨rfl, rfl⟩ := heq
      obtain ⟨rfl, hn⟩ := ih hab
      simp [hn, Ne.symm hc]

theorem splitFirst_eq_none_iff {sep : Char} {s : List Char} :
    splitFirst sep s = none ↔ sep ∉ s := by
  induction s with
  | nil => simp [splitFirst]
  | cons c rest ih =>
    rw [splitFirst]
    split
    · next hc => simp [hc]
    · next hc => simp [ih, Ne.symm hc]

theorem splitFirst_append {sep : Char} {a b : List Char} (h : sep ∉ a) :
    splitFirst sep (a ++ sep :: b) = some (a, b) := by
  induction a with
  | nil => simp [splitFirst]
  | cons c rest ih =>
    simp only [List.mem_cons, not_or] at h
    simp [splitFirst, Ne.symm h.1, ih h.2]

theorem eq_append_of_splitLast {sep : Char} {s a b : List Char}
    (h : splitLast sep s = some (a, b)) : s = a ++ sep :: b ∧ sep ∉ b := by
  obtain ⟨⟨x, y⟩, hxy, heq⟩ := Option.map_eq_some_iff.1 h
  simp only [Prod.mk.injEq] at heq
  obtain ⟨rfl, rfl⟩ := heq
  obtain ⟨hs, hn⟩ := eq_append_of_splitFirst hxy
  refine ⟨?_, by simpa using hn⟩
  rw [← List.reverse_reverse s, hs]
  simp

theorem splitLast_eq_none_iff {sep : Char} {s : List Char} : splitLast sep s = none ↔ sep ∉ s := by
  rw [splitLast, Option.map_eq_none_iff, splitFirst_eq_none_iff, List.mem_reverse]

theorem splitLast_append {sep : Char} {a b : List Char} (h : sep ∉ b) :
    splitLast sep (a ++ sep :: b) = some (a, b) := by
  have hb : sep ∉ b.reverse := by simpa using h
  have : (a ++ sep :: b).reverse = b.reverse ++ sep :: a.reverse := by simp
  rw [splitLast, this, splitFirst_append hb]
  simp

end Depcheck.Text

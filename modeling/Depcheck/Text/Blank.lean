/-!
# Blanks

The blank characters of Unicode (property White_Space) and the trimming of a text. `trim` drops
exactly the blanks at both ends: what is left neither starts nor ends with one.
-/

namespace Depcheck.Text

/-- The code points of the property White_Space, as closed ranges in ascending order. -/
def blankRanges : List (Nat × Nat) :=
  [(0x09, 0x0D), (0x20, 0x20), (0x85, 0x85), (0xA0, 0xA0), (0x1680, 0x1680), (0x2000, 0x200A),
   (0x2028, 0x2029), (0x202F, 0x202F), (0x205F, 0x205F), (0x3000, 0x3000)]

def isBlank (c : Char) : Bool :=
  blankRanges.any fun r => decide (r.1 ≤ c.toNat) && decide (c.toNat ≤ r.2)

def trimEnd (s : List Char) : List Char :=
  (s.reverse.dropWhile isBlank).reverse

def trim (s : List Char) : List Char :=
  trimEnd (s.dropWhile isBlank)

/-- A text that neither starts nor ends with a blank is left alone. -/
theorem trim_eq_self {s : List Char} (hl : ∀ c ∈ s.head?, isBlank c = false)
    (hr : ∀ c ∈ s.getLast?, isBlank c = false) : trim s = s := by
  cases s with
  | nil => rfl
  | cons a rest =>
    have ha : isBlank a = false := hl a (by simp)
    rw [trim, List.dropWhile_cons_of_neg (by simp [ha]), trimEnd]
    cases hrev : (a :: rest).reverse with
    | nil => simp at hrev
    | cons b front =>
      have hb : isBlank b = false := by
        refine hr b ?_
        have : (a :: rest).reverse.head? = some b := by rw [hrev]; rfl
        rw [List.head?_reverse] at this
        simp [this]
      rw [List.dropWhile_cons_of_neg (by simp [hb]), ← hrev, List.reverse_reverse]

end Depcheck.Text

/-!
# Comparing version texts

A version or release text is read as a row of segments: runs of ASCII digits, runs of ASCII
letters, and single tildes. Every other character only separates. `compareText` walks two texts
side by side and decides at the first segment that differs: digit runs by their value, letter runs
by their text, a digit run above a letter run, a further segment above the end of the text, and a
tilde below everything, the end included.
-/

namespace Depcheck.Version

def isSeparator (c : Char) : Bool := !c.isAlphanum && c != '~'

/-- Drops the zeros that lead a run of digits. -/
def significant (digits : List Char) : List Char := digits.dropWhile (· == '0')

/-- Orders two runs of digits by value: the longer one is greater once leading zeros are gone. -/
def compareDigits (s t : List Char) : Ordering :=
  (compare (significant s).length (significant t).length).then
    (compare (significant s) (significant t))

def compareChars (s t : List Char) : Ordering :=
  match _hs : s.dropWhile isSeparator, t.dropWhile isSeparator with
  | [], [] => .eq
  | [], d :: _ => if d = '~' then .gt else .lt
  | c :: _, [] => if c = '~' then .lt else .gt
  | c :: s', d :: t' =>
    if c = '~' ∨ d = '~' then
      if d ≠ '~' then .lt else if c ≠ '~' then .gt else compareChars s' t'
    else if c.isDigit then
      if d.isDigit then
        (compareDigits ((c :: s').takeWhile Char.isDigit) ((d :: t').takeWhile Char.isDigit)).then
          (compareChars (s'.dropWhile Char.isDigit) (t'.dropWhile Char.isDigit))
      else .gt
    else if d.isDigit then .lt
    else
      (compare ((c :: s').takeWhile Char.isAlpha) ((d :: t').takeWhile Char.isAlpha)).then
        (compareChars (s'.dropWhile Char.isAlpha) (t'.dropWhile Char.isAlpha))
termination_by s.length
decreasing_by
  all_goals
    have h₁ := (List.dropWhile_suffix (l := s) isSeparator).length_le
    rw [_hs] at h₁
    have h₂ := (List.dropWhile_suffix (l := s') Char.isDigit).length_le
    have h₃ := (List.dropWhile_suffix (l := s') Char.isAlpha).length_le
    simp only [List.length_cons] at h₁
    omega

def compareText (a b : String) : Ordering := compareChars a.toList b.toList

end Depcheck.Version

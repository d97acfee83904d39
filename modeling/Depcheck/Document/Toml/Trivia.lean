/-!
# Between the parts of a TOML document

Blanks, comments and line breaks stand between the parts of a document. A comment lasts to the end
of its line, and a line ends in a line feed, perhaps with a carriage return before it.
-/

namespace Depcheck.Document.Toml

def isBlank (c : Char) : Bool := c == ' ' || c == '\t'

def skipBlanks (s : List Char) : List Char := s.dropWhile isBlank

/-- A character that texts and comments may hold as it is. -/
def isPlain (c : Char) : Bool := c == '\t' || (decide (0x20 ≤ c.toNat) && c.toNat != 0x7F)

def skipComment (s : List Char) : List Char :=
  match s with
  | '#' :: rest => rest.dropWhile isPlain
  | _ => s

def newline? : List Char → Option (List Char)
  | '\n' :: rest => some rest
  | '\r' :: '\n' :: rest => some rest
  | _ => none

/-- Takes the end of a line off: blanks, perhaps a comment, and a line break or the end. -/
def endOfLine? (s : List Char) : Option (List Char) :=
  match skipComment (skipBlanks s) with
  | [] => some []
  | s => newline? s

def skipTrivia (s : List Char) : List Char :=
  match s with
  | [] => []
  | '\r' :: '\n' :: rest => skipTrivia rest
  | c :: rest =>
    if isBlank c || c == '\n' then skipTrivia rest
    else if c == '#' then skipTrivia (rest.dropWhile isPlain)
    else c :: rest
termination_by s.length
decreasing_by
  all_goals
    have := (List.dropWhile_suffix (l := rest) isPlain).length_le
    simp only [List.length_cons]
    omega

def skipBreaks : List Char → List Char
  | [] => []
  | '\r' :: '\n' :: rest => skipBreaks rest
  | c :: rest => if isBlank c || c == '\n' then skipBreaks rest else c :: rest

theorem length_skipBlanks_le (s : List Char) : (skipBlanks s).length ≤ s.length :=
  (List.dropWhile_suffix isBlank).length_le

theorem length_skipComment_le (s : List Char) : (skipComment s).length ≤ s.length := by
  unfold skipComment
  split
  · exact Nat.le_succ_of_le (List.dropWhile_suffix isPlain).length_le
  · exact Nat.le_refl _

theorem length_lt_of_newline? {s rest : List Char} (h : newline? s = some rest) :
    rest.length < s.length := by
  unfold newline? at h
  split at h <;> simp at h <;> subst h <;> simp only [List.length_cons] <;> omega

theorem length_le_of_endOfLine? {s rest : List Char} (h : endOfLine? s = some rest) :
    rest.length ≤ s.length := by
  have hs := Nat.le_trans (length_skipComment_le (skipBlanks s)) (length_skipBlanks_le s)
  unfold endOfLine? at h
  split at h
  · cases h; simp
  · exact Nat.le_trans (Nat.le_of_lt (length_lt_of_newline? h)) hs

theorem length_skipTrivia_le (s : List Char) : (skipTrivia s).length ≤ s.length := by
  fun_induction skipTrivia s with
  | case1 => simp
  | case2 rest ih => simp only [List.length_cons]; omega
  | case3 c rest _ _ ih => simp only [List.length_cons]; omega
  | case4 c rest _ _ _ ih =>
    have := (List.dropWhile_suffix (l := rest) isPlain).length_le
    simp only [List.length_cons]
    omega
  | case5 => simp

theorem length_skipBreaks_le (s : List Char) : (skipBreaks s).length ≤ s.length := by
  fun_induction skipBreaks s with
  | case1 => simp
  | case2 rest ih => simp only [List.length_cons]; omega
  | case3 c rest _ _ ih => simp only [List.length_cons]; omega
  | case4 => simp

end Depcheck.Document.Toml

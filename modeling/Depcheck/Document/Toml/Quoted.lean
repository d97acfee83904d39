import Depcheck.Document.Toml.Trivia
import Depcheck.Text.Digits

/-!
# Texts in TOML

Texts come in four kinds: in double quotes, where a backslash escapes, or in single quotes, where
nothing does, and either on one line or, in triple quotes, on several. What is read is always at
least the closing quotes.
-/

namespace Depcheck.Document.Toml

def isScalarValue (n : Nat) : Bool :=
  decide (n < 0xD800) || (decide (0xE000 ≤ n) && decide (n ≤ 0x10FFFF))

def codePoint? (digits : List Char) : Option Char := do
  let n ← Text.valueInBase? 16 digits
  if isScalarValue n then some (Char.ofNat n) else none

def readEscape? : List Char → Option (Char × List Char)
  | 'b' :: rest => some ('\x08', rest)
  | 't' :: rest => some ('\t', rest)
  | 'n' :: rest => some ('\n', rest)
  | 'f' :: rest => some ('\x0c', rest)
  | 'r' :: rest => some ('\r', rest)
  | '"' :: rest => some ('"', rest)
  | '\\' :: rest => some ('\\', rest)
  | 'u' :: a :: b :: c :: d :: rest => (codePoint? [a, b, c, d]).map (·, rest)
  | 'U' :: a :: b :: c :: d :: e :: f :: g :: h :: rest =>
    (codePoint? [a, b, c, d, e, f, g, h]).map (·, rest)
  | _ => none

theorem length_lt_of_readEscape? {s rest : List Char} {c : Char}
    (h : readEscape? s = some (c, rest)) : rest.length < s.length := by
  have follows {o : Option Char} {r : List Char} (h : o.map (·, r) = some (c, rest)) : rest = r := by
    obtain ⟨_, _, h⟩ := Option.map_eq_some_iff.1 h
    cases h
    rfl
  unfold readEscape? at h
  split at h
  iterate 7 (· cases h; exact Nat.lt_succ_self _)
  · rw [follows h]; simp only [List.length_cons]; omega
  · rw [follows h]; simp only [List.length_cons]; omega
  · simp at h

/-- Reads the inside of a text of one line in double quotes, up to its closing quote. -/
def readBasic? (s : List Char) : Option (List Char × List Char) :=
  match s with
  | [] => none
  | '"' :: rest => some ([], rest)
  | '\\' :: rest =>
    match _h : readEscape? rest with
    | some (c, rest') => (readBasic? rest').map fun (cs, r) => (c :: cs, r)
    | none => none
  | c :: rest =>
    if isPlain c then (readBasic? rest).map fun (cs, r) => (c :: cs, r) else none
termination_by s.length
decreasing_by
  · exact Nat.lt_succ_of_lt (length_lt_of_readEscape? _h)
  · simp

def readLiteral? : List Char → Option (List Char × List Char)
  | [] => none
  | c :: rest =>
    if c = '\'' then some ([], rest)
    else if isPlain c then (readLiteral? rest).map fun (cs, r) => (c :: cs, r)
    else none

/-- Drops the line break that may follow opening triple quotes. -/
def dropFirstNewline (s : List Char) : List Char := (newline? s).getD s

/-- Takes closing triple quotes off. Up to two more quotes before them belong to the text. -/
def closeTriple? (quote : Char) (s : List Char) : Option (List Char × List Char) :=
  let quotes := s.takeWhile (· == quote)
  if 3 ≤ quotes.length then
    let inside := min (quotes.length - 3) 2
    some (List.replicate inside quote, s.drop (inside + 3))
  else none

/-- Reads the inside of a text of several lines in double quotes. A backslash at the end of a line
takes away the line break and all blanks and line breaks after it. -/
def readBasicLines? (s : List Char) : Option (List Char × List Char) :=
  match closeTriple? '"' s with
  | some found => some found
  | none =>
    match s with
    | [] => none
    | '\\' :: rest =>
      match _hn : newline? (skipBlanks rest) with
      | some after => readBasicLines? (skipBreaks after)
      | none =>
        match _he : readEscape? rest with
        | some (c, rest') => (readBasicLines? rest').map fun (cs, r) => (c :: cs, r)
        | none => none
    | '\r' :: '\n' :: rest => (readBasicLines? rest).map fun (cs, r) => ('\n' :: cs, r)
    | c :: rest =>
      if isPlain c || c == '\n' then (readBasicLines? rest).map fun (cs, r) => (c :: cs, r)
      else none
termination_by s.length
decreasing_by
  · have := length_skipBreaks_le after
    have := length_lt_of_newline? _hn
    have := length_skipBlanks_le rest
    simp only [List.length_cons]
    omega
  · exact Nat.lt_succ_of_lt (length_lt_of_readEscape? _he)
  · simp only [List.length_cons]; omega
  · simp

def readLiteralLines? (s : List Char) : Option (List Char × List Char) :=
  match closeTriple? '\'' s with
  | some found => some found
  | none =>
    match s with
    | [] => none
    | '\r' :: '\n' :: rest => (readLiteralLines? rest).map fun (cs, r) => ('\n' :: cs, r)
    | c :: rest =>
      if isPlain c || c == '\n' then (readLiteralLines? rest).map fun (cs, r) => (c :: cs, r)
      else none

def readText? (s : List Char) : Option (String × List Char) :=
  (match s with
    | '"' :: '"' :: '"' :: rest => readBasicLines? (dropFirstNewline rest)
    | '\'' :: '\'' :: '\'' :: rest => readLiteralLines? (dropFirstNewline rest)
    | '"' :: rest => readBasic? rest
    | '\'' :: rest => readLiteral? rest
    | _ => none).map fun (cs, rest) => (String.ofList cs, rest)

theorem length_lt_of_readBasic? {s cs rest : List Char} (h : readBasic? s = some (cs, rest)) :
    rest.length < s.length := by
  fun_induction readBasic? s generalizing cs with
  | case1 => simp at h
  | case2 => simp_all
  | case3 rest' c rest'' he ih =>
    obtain ⟨⟨_, _⟩, hr, h⟩ := Option.map_eq_some_iff.1 h
    cases h
    have := ih hr
    have := length_lt_of_readEscape? he
    simp only [List.length_cons]
    omega
  | case4 => simp at h
  | case5 c rest' _ _ _ ih =>
    obtain ⟨⟨_, _⟩, hr, h⟩ := Option.map_eq_some_iff.1 h
    cases h
    have := ih hr
    simp only [List.length_cons]
    omega
  | case6 => simp at h

theorem length_lt_of_readLiteral? {s cs rest : List Char}
    (h : readLiteral? s = some (cs, rest)) : rest.length < s.length := by
  fun_induction readLiteral? s generalizing cs with
  | case1 => simp at h
  | case2 => simp_all
  | case3 c rest' _ _ ih =>
    obtain ⟨⟨_, _⟩, hr, h⟩ := Option.map_eq_some_iff.1 h
    cases h
    have := ih hr
    simp only [List.length_cons]
    omega
  | case4 => simp at h

theorem length_lt_of_closeTriple? {quote : Char} {s cs rest : List Char}
    (h : closeTriple? quote s = some (cs, rest)) : rest.length < s.length := by
  simp only [closeTriple?] at h
  split at h
  · next hq =>
    cases h
    have := (List.takeWhile_sublist (l := s) (· == quote)).length_le
    simp only [List.length_drop]
    omega
  · simp at h

theorem length_lt_of_readBasicLines? {s cs rest : List Char}
    (h : readBasicLines? s = some (cs, rest)) : rest.length < s.length := by
  fun_induction readBasicLines? s generalizing cs with
  | case1 s found hc => cases h; exact length_lt_of_closeTriple? hc
  | case2 => simp at h
  | case3 rest' after hn _ ih =>
    have := ih h
    have := length_skipBreaks_le after
    have := length_lt_of_newline? hn
    have := length_skipBlanks_le rest'
    simp only [List.length_cons]
    omega
  | case4 rest' _ c rest'' he _ ih =>
    obtain ⟨⟨_, _⟩, hr, h⟩ := Option.map_eq_some_iff.1 h
    cases h
    have := ih hr
    have := length_lt_of_readEscape? he
    simp only [List.length_cons]
    omega
  | case5 => simp at h
  | case6 rest' _ ih =>
    obtain ⟨⟨_, _⟩, hr, h⟩ := Option.map_eq_some_iff.1 h
    cases h
    have := ih hr
    simp only [List.length_cons]
    omega
  | case7 c rest' _ _ _ _ ih =>
    obtain ⟨⟨_, _⟩, hr, h⟩ := Option.map_eq_some_iff.1 h
    cases h
    have := ih hr
    simp only [List.length_cons]
    omega
  | case8 => simp at h

theorem length_lt_of_readLiteralLines? {s cs rest : List Char}
    (h : readLiteralLines? s = some (cs, rest)) : rest.length < s.length := by
  fun_induction readLiteralLines? s generalizing cs with
  | case1 s found hc => cases h; exact length_lt_of_closeTriple? hc
  | case2 => simp at h
  | case3 rest' _ ih =>
    obtain ⟨⟨_, _⟩, hr, h⟩ := Option.map_eq_some_iff.1 h
    cases h
    have := ih hr
    simp only [List.length_cons]
    omega
  | case4 c rest' _ _ _ ih =>
    obtain ⟨⟨_, _⟩, hr, h⟩ := Option.map_eq_some_iff.1 h
    cases h
    have := ih hr
    simp only [List.length_cons]
    omega
  | case5 => simp at h

theorem length_dropFirstNewline_le (s : List Char) : (dropFirstNewline s).length ≤ s.length := by
  unfold dropFirstNewline
  cases h : newline? s with
  | none => simp
  | some rest => exact Nat.le_of_lt (length_lt_of_newline? h)

theorem length_lt_of_readText? {s rest : List Char} {t : String}
    (h : readText? s = some (t, rest)) : rest.length < s.length := by
  unfold readText? at h
  obtain ⟨⟨_, _⟩, hr, h⟩ := Option.map_eq_some_iff.1 h
  cases h
  split at hr
  · next inside =>
    have := length_lt_of_readBasicLines? hr
    have := length_dropFirstNewline_le inside
    simp only [List.length_cons]
    omega
  · next inside =>
    have := length_lt_of_readLiteralLines? hr
    have := length_dropFirstNewline_le inside
    simp only [List.length_cons]
    omega
  · exact Nat.lt_succ_of_lt (length_lt_of_readBasic? hr)
  · exact Nat.lt_succ_of_lt (length_lt_of_readLiteral? hr)
  · simp at hr

end Depcheck.Document.Toml

import Depcheck.Document.Value
import Depcheck.Text.Digits

/-!
# Tokens of JSON

A text is cut into brackets, commas, colons, and scalars; the four blanks of the format separate. A
text in quotes may not hold a control character, and an escaped surrogate must be one half of a
pair. No zero leads a number, and negative zero is no whole number. Every token takes at least one
character, so the cutting ends.
-/

namespace Depcheck.Document.Json

/-- The smallest parts of a text in JSON. -/
inductive Token where
  | openList
  | closeList
  | openTable
  | closeTable
  | comma
  | colon
  | scalar (v : Value)
deriving Repr

def isBlank (c : Char) : Bool := c == ' ' || c == '\t' || c == '\n' || c == '\r'

/-- The character that a letter after a backslash stands for. -/
def escaped? : Char → Option Char
  | '"' => some '"'
  | '\\' => some '\\'
  | '/' => some '/'
  | 'b' => some '\x08'
  | 'f' => some '\x0c'
  | 'n' => some '\n'
  | 'r' => some '\r'
  | 't' => some '\t'
  | _ => none

/-- Reads the inside of a text up to its closing quote, and returns the code points, surrogates
among them, and what follows the quote. -/
def readCodes? : List Char → Option (List Nat × List Char)
  | '"' :: rest => some ([], rest)
  | '\\' :: 'u' :: a :: b :: c :: d :: rest => do
    let n ← Text.valueInBase? 16 [a, b, c, d]
    let (codes, rest) ← readCodes? rest
    some (n :: codes, rest)
  | '\\' :: c :: rest => do
    let e ← escaped? c
    let (codes, rest) ← readCodes? rest
    some (e.toNat :: codes, rest)
  | c :: rest =>
    if c.toNat < 0x20 then none
    else do
      let (codes, rest) ← readCodes? rest
      some (c.toNat :: codes, rest)
  | [] => none

/-- Joins pairs of surrogates; a surrogate without its other half is refused. -/
def joinSurrogates? : List Nat → Option (List Char)
  | [] => some []
  | n :: rest =>
    if 0xD800 ≤ n ∧ n < 0xDC00 then
      match rest with
      | m :: rest =>
        if 0xDC00 ≤ m ∧ m < 0xE000 then
          (joinSurrogates? rest).map (Char.ofNat (0x10000 + (n - 0xD800) * 0x400 + (m - 0xDC00)) :: ·)
        else none
      | [] => none
    else if 0xDC00 ≤ n ∧ n < 0xE000 then none
    else (joinSurrogates? rest).map (Char.ofNat n :: ·)

def readText? (s : List Char) : Option (String × List Char) := do
  let (codes, rest) ← readCodes? s
  let cs ← joinSurrogates? codes
  some (String.ofList cs, rest)

/-- The digits at the start of a text, at least one, and what follows them. -/
def readDigits? (s : List Char) : Option (List Char × List Char) :=
  match s.takeWhile Char.isDigit with
  | [] => none
  | digits => some (digits, s.dropWhile Char.isDigit)

def readPower? (s : List Char) : Option (List Char × List Char) :=
  match s with
  | c :: rest =>
    if c = '+' ∨ c = '-' then (readDigits? rest).map fun (digits, rest) => (c :: digits, rest)
    else readDigits? s
  | [] => none

def readFraction? (s : List Char) : Option (List Char × List Char) :=
  match s with
  | '.' :: rest => (readDigits? rest).map fun (digits, rest) => ('.' :: digits, rest)
  | _ => some ([], s)

def readExponent? (s : List Char) : Option (List Char × List Char) :=
  match s with
  | c :: rest =>
    if c = 'e' ∨ c = 'E' then (readPower? rest).map fun (digits, rest) => (c :: digits, rest)
    else some ([], s)
  | [] => some ([], s)

def readTail? (s : List Char) : Option (List Char × List Char) := do
  let (fraction, s) ← readFraction? s
  let (exponent, s) ← readExponent? s
  some (fraction ++ exponent, s)

/-- Reads a number without its sign: no zero may lead it. Negative zero is no whole number. -/
def readNumber? (negative : Bool) (s : List Char) : Option (Value × List Char) := do
  let (digits, s) ← readDigits? s
  if digits.length > 1 ∧ digits.head? = some '0' then none
  else
    let (tail, s) ← readTail? s
    let sign := if negative then ['-'] else []
    if tail = [] ∧ !(negative ∧ digits = ['0']) then
      let n : Int := Text.decimalValue digits
      some (.int (if negative then -n else n), s)
    else some (.decimal (String.ofList (sign ++ digits ++ tail)), s)

def readWord? (s : List Char) : Option (Value × List Char) :=
  match s with
  | 't' :: 'r' :: 'u' :: 'e' :: rest => some (.bool true, rest)
  | 'f' :: 'a' :: 'l' :: 's' :: 'e' :: rest => some (.bool false, rest)
  | 'n' :: 'u' :: 'l' :: 'l' :: rest => some (.null, rest)
  | _ => none

/-- Reads the token at the start of a text that does not start with a blank. -/
def readToken? : List Char → Option (Token × List Char)
  | [] => none
  | c :: rest =>
    match c with
    | '[' => some (.openList, rest)
    | ']' => some (.closeList, rest)
    | '{' => some (.openTable, rest)
    | '}' => some (.closeTable, rest)
    | ',' => some (.comma, rest)
    | ':' => some (.colon, rest)
    | '"' => (readText? rest).map fun (t, rest) => (.scalar (.text t), rest)
    | '-' => (readNumber? true rest).map fun (v, rest) => (.scalar v, rest)
    | _ =>
      if c.isDigit then (readNumber? false (c :: rest)).map fun (v, rest) => (.scalar v, rest)
      else (readWord? (c :: rest)).map fun (v, rest) => (.scalar v, rest)

theorem length_lt_of_readCodes? {s rest : List Char} {codes : List Nat}
    (h : readCodes? s = some (codes, rest)) : rest.length < s.length := by
  fun_induction readCodes? s generalizing codes with
  | case1 => simp_all
  | case2 a b c d rest' ih =>
    simp only [bind, Option.bind_eq_some_iff, Prod.exists] at h
    obtain ⟨_, _, _, _, hr, h⟩ := h
    cases h
    have := ih hr
    simp only [List.length_cons]
    omega
  | case3 c rest' _ ih =>
    simp only [bind, Option.bind_eq_some_iff, Prod.exists] at h
    obtain ⟨_, _, _, _, hr, h⟩ := h
    cases h
    have := ih hr
    simp only [List.length_cons]
    omega
  | case4 => simp at h
  | case5 c rest' _ _ _ _ ih =>
    simp only [bind, Option.bind_eq_some_iff, Prod.exists] at h
    obtain ⟨_, _, hr, h⟩ := h
    cases h
    have := ih hr
    simp only [List.length_cons]
    omega
  | case6 => simp at h

theorem length_lt_of_readText? {s rest : List Char} {t : String}
    (h : readText? s = some (t, rest)) : rest.length < s.length := by
  simp only [readText?, bind, Option.bind_eq_some_iff, Prod.exists] at h
  obtain ⟨_, _, hr, _, _, h⟩ := h
  cases h
  exact length_lt_of_readCodes? hr

theorem length_lt_of_readDigits? {s digits rest : List Char}
    (h : readDigits? s = some (digits, rest)) : rest.length < s.length := by
  unfold readDigits? at h
  split at h
  · simp at h
  · next hne =>
    cases h
    have := congrArg List.length (List.takeWhile_append_dropWhile (p := Char.isDigit) (l := s))
    have := List.length_pos_iff.2 hne
    rw [List.length_append] at *
    omega

theorem length_lt_of_readPower? {s digits rest : List Char}
    (h : readPower? s = some (digits, rest)) : rest.length < s.length := by
  unfold readPower? at h
  split at h
  · split at h
    · obtain ⟨⟨_, _⟩, hd, h⟩ := Option.map_eq_some_iff.1 h
      cases h
      exact Nat.lt_succ_of_lt (length_lt_of_readDigits? hd)
    · exact length_lt_of_readDigits? h
  · simp at h

theorem length_le_of_readFraction? {s digits rest : List Char}
    (h : readFraction? s = some (digits, rest)) : rest.length ≤ s.length := by
  unfold readFraction? at h
  split at h
  · obtain ⟨⟨_, _⟩, hd, h⟩ := Option.map_eq_some_iff.1 h
    cases h
    exact Nat.le_succ_of_le (Nat.le_of_lt (length_lt_of_readDigits? hd))
  · cases h; exact Nat.le_refl _

theorem length_le_of_readExponent? {s digits rest : List Char}
    (h : readExponent? s = some (digits, rest)) : rest.length ≤ s.length := by
  unfold readExponent? at h
  split at h
  · split at h
    · obtain ⟨⟨_, _⟩, hd, h⟩ := Option.map_eq_some_iff.1 h
      cases h
      exact Nat.le_succ_of_le (Nat.le_of_lt (length_lt_of_readPower? hd))
    · cases h; exact Nat.le_refl _
  · cases h; exact Nat.le_refl _

theorem length_le_of_readTail? {s digits rest : List Char}
    (h : readTail? s = some (digits, rest)) : rest.length ≤ s.length := by
  simp only [readTail?, bind, Option.bind_eq_some_iff, Prod.exists] at h
  obtain ⟨_, _, hf, _, _, he, h⟩ := h
  cases h
  exact Nat.le_trans (length_le_of_readExponent? he) (length_le_of_readFraction? hf)

theorem length_lt_of_readNumber? {negative : Bool} {s rest : List Char} {v : Value}
    (h : readNumber? negative s = some (v, rest)) : rest.length < s.length := by
  simp only [readNumber?, bind, Option.bind_eq_some_iff, Prod.exists] at h
  obtain ⟨_, _, hd, h⟩ := h
  split at h
  · simp at h
  · simp only [Option.bind_eq_some_iff, Prod.exists] at h
    obtain ⟨_, _, ht, h⟩ := h
    have := length_lt_of_readDigits? hd
    have := length_le_of_readTail? ht
    split at h <;> cases h <;> omega

theorem length_lt_of_readWord? {s rest : List Char} {v : Value}
    (h : readWord? s = some (v, rest)) : rest.length < s.length := by
  unfold readWord? at h
  split at h <;> simp at h <;> obtain ⟨_, rfl⟩ := h <;> simp only [List.length_cons] <;> omega

/-- A token is not empty. -/
theorem length_lt_of_readToken? {s rest : List Char} {t : Token}
    (h : readToken? s = some (t, rest)) : rest.length < s.length := by
  unfold readToken? at h
  split at h
  · simp at h
  · split at h
    iterate 6 (· cases h; exact Nat.lt_succ_self _)
    · obtain ⟨⟨_, _⟩, hr, h⟩ := Option.map_eq_some_iff.1 h
      cases h
      exact Nat.lt_succ_of_lt (length_lt_of_readText? hr)
    · obtain ⟨⟨_, _⟩, hr, h⟩ := Option.map_eq_some_iff.1 h
      cases h
      exact Nat.lt_succ_of_lt (length_lt_of_readNumber? hr)
    · split at h
      · obtain ⟨⟨_, _⟩, hr, h⟩ := Option.map_eq_some_iff.1 h
        cases h
        exact length_lt_of_readNumber? hr
      · obtain ⟨⟨_, _⟩, hr, h⟩ := Option.map_eq_some_iff.1 h
        cases h
        exact length_lt_of_readWord? hr

def tokens? (s : List Char) : Option (List Token) :=
  match s with
  | [] => some []
  | c :: rest =>
    if isBlank c then tokens? rest
    else
      match _h : readToken? (c :: rest) with
      | none => none
      | some (t, rest') => (tokens? rest').map (t :: ·)
termination_by s.length
decreasing_by
  · simp
  · exact length_lt_of_readToken? _h

end Depcheck.Document.Json

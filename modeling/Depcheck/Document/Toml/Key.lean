import Depcheck.Document.Toml.Quoted

/-!
# Keys in TOML

A key is a bare word or a text of one line, or some of these with dots between them. Nothing in a
document is nested too deep: the parts of a key are fewer than `depthLimit`, as are the lists and
inline tables around a value.
-/

namespace Depcheck.Document.Toml

/-- The depth that nesting must not reach. -/
def depthLimit : Nat := 80

def isKeyChar (c : Char) : Bool := c.isAlphanum || c == '_' || c == '-'

def readKeyPart? (s : List Char) : Option (String × List Char) :=
  match s with
  | '"' :: rest => (readBasic? rest).map fun (cs, rest) => (String.ofList cs, rest)
  | '\'' :: rest => (readLiteral? rest).map fun (cs, rest) => (String.ofList cs, rest)
  | _ =>
    match s.takeWhile isKeyChar with
    | [] => none
    | cs => some (String.ofList cs, s.dropWhile isKeyChar)

theorem length_lt_of_readKeyPart? {s rest : List Char} {part : String}
    (h : readKeyPart? s = some (part, rest)) : rest.length < s.length := by
  unfold readKeyPart? at h
  split at h
  · obtain ⟨⟨_, _⟩, hr, h⟩ := Option.map_eq_some_iff.1 h
    cases h
    exact Nat.lt_succ_of_lt (length_lt_of_readBasic? hr)
  · obtain ⟨⟨_, _⟩, hr, h⟩ := Option.map_eq_some_iff.1 h
    cases h
    exact Nat.lt_succ_of_lt (length_lt_of_readLiteral? hr)
  · split at h
    · simp at h
    · next hne =>
      cases h
      have := congrArg List.length (List.takeWhile_append_dropWhile (p := isKeyChar) (l := s))
      have := List.length_pos_iff.2 hne
      rw [List.length_append] at *
      omega

/-- Reads parts of a key with dots between them, and the blanks around each. -/
def readKeyParts? (s : List Char) : Option (List String × List Char) :=
  match _hp : readKeyPart? (skipBlanks s) with
  | none => none
  | some (part, rest) =>
    match _hb : skipBlanks rest with
    | '.' :: rest' => (readKeyParts? rest').map fun (parts, r) => (part :: parts, r)
    | rest => some ([part], rest)
termination_by s.length
decreasing_by
  have := length_lt_of_readKeyPart? _hp
  have := length_skipBlanks_le s
  have := length_skipBlanks_le rest
  rw [_hb, List.length_cons] at this
  omega

theorem length_lt_of_readKeyParts? {s rest : List Char} {key : List String}
    (h : readKeyParts? s = some (key, rest)) : rest.length < s.length := by
  fun_induction readKeyParts? s generalizing key with
  | case1 => simp at h
  | case2 s part rest' hp rest'' hb ih =>
    obtain ⟨⟨_, _⟩, hr, h⟩ := Option.map_eq_some_iff.1 h
    cases h
    have := ih hr
    have := length_lt_of_readKeyPart? hp
    have := length_skipBlanks_le s
    have := length_skipBlanks_le rest'
    rw [hb, List.length_cons] at this
    omega
  | case3 s part rest' hp =>
    cases h
    have := length_lt_of_readKeyPart? hp
    have := length_skipBlanks_le s
    have := length_skipBlanks_le rest'
    omega

def readKey? (s : List Char) : Option (List String × List Char) :=
  (readKeyParts? s).filter fun (key, _) => key.length < depthLimit

theorem length_lt_of_readKey? {s rest : List Char} {key : List String}
    (h : readKey? s = some (key, rest)) : rest.length < s.length :=
  length_lt_of_readKeyParts? (Option.filter_eq_some_iff.1 h).1

end Depcheck.Document.Toml

import Depcheck.Document.Toml.Moment
import Depcheck.Document.Toml.Number
import Depcheck.Document.Toml.Quoted
import Depcheck.Document.Value

/-!
# Scalars in TOML

A scalar is a text, or a word that stands for a truth value, a number, a date or a time. A word ends
where a character comes that no word holds; only between a date and a time it may go on after a
blank.
-/

namespace Depcheck.Document.Toml

def isWordChar (c : Char) : Bool :=
  c.isAlphanum || c == '_' || c == '-' || c == '+' || c == '.' || c == ':'

def splitWord (s : List Char) : List Char × List Char :=
  let word := s.takeWhile isWordChar
  match s.dropWhile isWordChar with
  | ' ' :: rest =>
    let time := rest.takeWhile isWordChar
    if isDate word && isZonedTime time then (word ++ ' ' :: time, rest.dropWhile isWordChar)
    else (word, ' ' :: rest)
  | rest => (word, rest)

theorem splitWord_append (s : List Char) : (splitWord s).1 ++ (splitWord s).2 = s := by
  have whole := List.takeWhile_append_dropWhile (p := isWordChar) (l := s)
  dsimp only [splitWord]
  split
  · next rest hs =>
    rw [hs] at whole
    split
    · simpa [List.takeWhile_append_dropWhile] using whole
    · exact whole
  · exact whole

def wordValue? (word : List Char) : Option Value :=
  if word = "true".toList then some (.bool true)
  else if word = "false".toList then some (.bool false)
  else
    match wholeNumber? word with
    | some n => some (.int n)
    | none =>
      if isDecimal word then some (.decimal (String.ofList word))
      else if isMoment word then some (.moment (String.ofList word))
      else none

/-- Reads a value that holds no other values. -/
def readScalar? (s : List Char) : Option (Value × List Char) :=
  match s with
  | [] => none
  | c :: _ =>
    if c = '"' ∨ c = '\'' then (readText? s).map fun (t, rest) => (.text t, rest)
    else (wordValue? (splitWord s).1).map fun v => (v, (splitWord s).2)

theorem wordValue?_nil : wordValue? [] = none := by decide

theorem length_lt_of_readScalar? {s rest : List Char} {v : Value}
    (h : readScalar? s = some (v, rest)) : rest.length < s.length := by
  unfold readScalar? at h
  split at h
  · simp at h
  · split at h
    · obtain ⟨⟨_, _⟩, hr, h⟩ := Option.map_eq_some_iff.1 h
      cases h
      exact length_lt_of_readText? hr
    · next c cs _ =>
      obtain ⟨_, hv, h⟩ := Option.map_eq_some_iff.1 h
      cases h
      have hw : (splitWord (c :: cs)).1 ≠ [] := fun he => by simp [he, wordValue?_nil] at hv
      have := congrArg List.length (splitWord_append (c :: cs))
      have := List.length_pos_iff.2 hw
      rw [List.length_append] at *
      omega

end Depcheck.Document.Toml

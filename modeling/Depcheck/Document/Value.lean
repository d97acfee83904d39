/-!
# Documents

A document in either format is read into one kind of value: nothing, truth values, whole numbers,
other numbers, dates and times as they are written, texts, lists, and tables whose fields keep their
order and may repeat. A record is taken from a table whose fields all have known names, none of them
twice, or from a list of its fields in order, in which those at the end may be missing.
-/

namespace Depcheck.Document

/-- What a document holds. -/
inductive Value where
  | null
  | bool (b : Bool)
  | int (n : Int)
  /-- A number with a fraction or an exponent, as it is written. -/
  | decimal (text : String)
  /-- A date, a time or both, as it is written. -/
  | moment (text : String)
  | text (s : String)
  | list (items : List Value)
  | table (fields : List (String × Value))
deriving Repr, Inhabited

namespace Value

def bool? : Value → Option Bool
  | .bool b => some b
  | _ => none

def text? : Value → Option String
  | .text s => some s
  | _ => none

/-- A whole number from 0 to 2 ^ 32 - 1. -/
def word? : Value → Option UInt32
  | .int (.ofNat n) => if n < UInt32.size then some (UInt32.ofNat n) else none
  | _ => none

def texts? : Value → Option (List String)
  | .list items => items.mapM text?
  | _ => none

/-- A value that may be nothing. -/
def optional? {α : Type} (read : Value → Option α) : Value → Option (Option α)
  | .null => some none
  | v => (read v).map some

end Value

/-- The names that the fields of a record can have, in order of declaration; of the names of one
field, the first is its own. -/
abbrev FieldNames := List (String × List String)

/-- The fields of a record under their own names. -/
abbrev Fields := List (String × Value)

def FieldNames.resolve? (names : FieldNames) (name : String) : Option String :=
  (names.find? fun n => n.1 == name || n.2.contains name).map Prod.fst

/-- The fields of a table under their own names; an unknown or repeated field is refused. -/
def Fields.ofTable? (names : FieldNames) (fields : List (String × Value)) : Option Fields := do
  let fields ← fields.mapM fun (name, v) => (names.resolve? name).map fun own => (own, v)
  if (fields.map Prod.fst).Nodup then some fields else none

/-- The fields of a record that is written as a table or as a list. A list that is longer than the
record is refused unless `surplus` is allowed. -/
def Fields.ofValue? (surplus : Bool) (names : FieldNames) : Value → Option Fields
  | .table fields => Fields.ofTable? names fields
  | .list items =>
    if items.length ≤ names.length || surplus then some ((names.map Prod.fst).zip items) else none
  | _ => none

/-- Reads a field, or gives the default when it is missing. -/
def Fields.get? {α : Type} (fields : Fields) (name : String) (read : Value → Option α)
    (missing : α) : Option α :=
  match fields.lookup name with
  | none => some missing
  | some v => read v

end Depcheck.Document

import Depcheck.Document.Json.Token

/-!
# Reading JSON

A machine with a stack of open lists and tables builds a value from tokens. There are no comments,
no commas at the end of a list, and nothing may follow the value.
-/

namespace Depcheck.Document.Json

/-- An open list or table with its members so far, the last one first. -/
inductive Frame where
  | list (items : List Value)
  | table (fields : List (String × Value)) (key : String)

/-- What the machine waits for. -/
inductive Mode where
  /-- A value, or the end of a list that has just been opened. -/
  | value (closable : Bool)
  /-- A key, or the end of a table that has just been opened. -/
  | key (closable : Bool) (fields : List (String × Value))
  /-- The colon after a key. -/
  | colon (fields : List (String × Value)) (key : String)
  /-- A comma, or the end of what the value stands in. -/
  | after (v : Value)

structure Machine where
  mode : Mode := .value false
  stack : List Frame := []

namespace Machine

def step? (m : Machine) (t : Token) : Option Machine :=
  match m.mode, t, m.stack with
  | .value _, .scalar v, stack => some ⟨.after v, stack⟩
  | .value _, .openList, stack => some ⟨.value true, .list [] :: stack⟩
  | .value _, .openTable, stack => some ⟨.key true [], stack⟩
  | .value true, .closeList, .list items :: stack => some ⟨.after (.list items.reverse), stack⟩
  | .key _ fields, .scalar (.text k), stack => some ⟨.colon fields k, stack⟩
  | .key true fields, .closeTable, stack => some ⟨.after (.table fields.reverse), stack⟩
  | .colon fields k, .colon, stack => some ⟨.value false, .table fields k :: stack⟩
  | .after v, .comma, .list items :: stack => some ⟨.value false, .list (v :: items) :: stack⟩
  | .after v, .closeList, .list items :: stack =>
    some ⟨.after (.list (v :: items).reverse), stack⟩
  | .after v, .comma, .table fields k :: stack => some ⟨.key false ((k, v) :: fields), stack⟩
  | .after v, .closeTable, .table fields k :: stack =>
    some ⟨.after (.table ((k, v) :: fields).reverse), stack⟩
  | _, _, _ => none

def result? (m : Machine) : Option Value :=
  match m.mode, m.stack with
  | .after v, [] => some v
  | _, _ => none

end Machine

def parse? (s : String) : Option Value := do
  let ts ← tokens? s.toList
  let m ← ts.foldlM Machine.step? {}
  m.result?

end Depcheck.Document.Json

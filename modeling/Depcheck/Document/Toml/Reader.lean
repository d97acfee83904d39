import Depcheck.Document.Toml.Key
import Depcheck.Document.Toml.Scalar

/-!
# Reading TOML

A document is a row of statements: headers of tables, headers of the members of a list of tables,
and assignments. Values are read by a machine with a stack of open lists and inline tables, which
stays below `depthLimit`. The statements then build the table of the document. A key is defined
once: a table has one header at most, a table made by dotted keys has none, and what an assignment
wrote is closed.
-/

namespace Depcheck.Document.Toml

/-- A part of the document while it is being built. -/
inductive Item where
  /-- Written by an assignment, and closed. -/
  | value (v : Value)
  /-- Named by a header, or only on the way to one. -/
  | table (hasHeader : Bool) (fields : List (String × Item))
  /-- Made by dotted keys. -/
  | dotted (fields : List (String × Item))
  /-- The members of a list of tables, the last one first; that one is open. -/
  | tables (members : List (List (String × Item)))
deriving Inhabited

abbrev Items := List (String × Item)

mutual

/-- What a part of the document has become. -/
def Item.close : Item → Value
  | .value v => v
  | .table _ fields => .table (closeFields fields)
  | .dotted fields => .table (closeFields fields)
  | .tables members => .list (closeMembers members).reverse

def closeFields : List (String × Item) → List (String × Value)
  | [] => []
  | (k, item) :: rest => (k, item.close) :: closeFields rest

/-- The members of a list of tables, still in the order in which they are held. -/
def closeMembers : List (List (String × Item)) → List Value
  | [] => []
  | fields :: rest => .table (closeFields fields) :: closeMembers rest

end

namespace Items

/-- Replaces the field `key`, or appends it; the change may refuse what is there. -/
def alter? (key : String) (change : Option Item → Option Item) : Items → Option Items
  | [] => (change none).map fun item => [(key, item)]
  | (k, item) :: rest =>
    if k = key then (change (some item)).map fun item => (k, item) :: rest
    else (alter? key change rest).map ((k, item) :: ·)

def assign? (v : Value) : List String → Items → Option Items
  | [], _ => none
  | [key], fields => fields.alter? key fun
    | none => some (.value v)
    | some _ => none
  | key :: keys, fields => fields.alter? key fun
    | none => (assign? v keys []).map .dotted
    | some (.dotted inner) => (assign? v keys inner).map .dotted
    | some _ => none

/-- Changes the table that a header names, making those on the way. -/
def change? (f : Items → Option Items) : List String → Items → Option Items
  | [], fields => f fields
  | key :: keys, fields => fields.alter? key fun
    | none => (change? f keys []).map (.table false)
    | some (.table hasHeader inner) => (change? f keys inner).map (.table hasHeader)
    | some (.dotted inner) => (change? f keys inner).map .dotted
    | some (.tables (last :: earlier)) => (change? f keys last).map fun last =>
        .tables (last :: earlier)
    | some _ => none

def openTable? (key : String) (fields : Items) : Option Items :=
  fields.alter? key fun
    | none => some (.table true [])
    | some (.table false inner) => some (.table true inner)
    | some _ => none

def openMember? (key : String) (fields : Items) : Option Items :=
  fields.alter? key fun
    | none => some (.tables [[]])
    | some (.tables members) => some (.tables ([] :: members))
    | some _ => none

end Items

def inlineTable? (assignments : List (List String × Value)) : Option Value :=
  (assignments.foldlM (fun fields (key, v) => Items.assign? v key fields) ([] : Items)).map
    fun fields => .table (closeFields fields)

/-- An open list or inline table with its members so far, the last one first. -/
inductive Frame where
  | list (items : List Value)
  | table (assignments : List (List String × Value)) (key : List String)

inductive Mode where
  /-- A value, or the end of an open list. -/
  | value (closable : Bool)
  /-- A key, or the end of an inline table that has just been opened. -/
  | key (closable : Bool) (assignments : List (List String × Value))
  /-- A comma, or the end of what the value stands in. -/
  | after (v : Value)

structure Machine where
  mode : Mode := .value false
  stack : List Frame := []

namespace Machine

/-- Drops what may stand between two parts of a value: anything empty in a list, blanks
elsewhere. -/
def skip (m : Machine) (s : List Char) : List Char :=
  match m.stack with
  | .list _ :: _ => skipTrivia s
  | _ => skipBlanks s

/-- The machine opens a list or an inline table, unless too much is open already. -/
def enter? (mode : Mode) (frame : Frame) (stack : List Frame) : Option Machine :=
  if stack.length + 1 < depthLimit then some ⟨mode, frame :: stack⟩ else none

def step? (m : Machine) (s : List Char) : Option (Machine × List Char) :=
  match m.mode, m.stack, s with
  | .value _, stack, '[' :: rest => (enter? (.value true) (.list []) stack).map (·, rest)
  | .value _, stack, '{' :: rest => (enter? (.key true []) (.table [] []) stack).map (·, rest)
  | .value true, .list items :: stack, ']' :: rest =>
    some (⟨.after (.list items.reverse), stack⟩, rest)
  | .value _, stack, s => (readScalar? s).map fun (v, rest) => (⟨.after v, stack⟩, rest)
  | .key true _, .table _ _ :: stack, '}' :: rest => some (⟨.after (.table []), stack⟩, rest)
  | .key _ assignments, .table _ _ :: stack, s =>
    match readKey? s with
    | some (key, '=' :: rest) => some (⟨.value false, .table assignments key :: stack⟩, rest)
    | _ => none
  | .after v, .list items :: stack, ',' :: rest =>
    some (⟨.value true, .list (v :: items) :: stack⟩, rest)
  | .after v, .list items :: stack, ']' :: rest =>
    some (⟨.after (.list (v :: items).reverse), stack⟩, rest)
  | .after v, .table assignments key :: stack, ',' :: rest =>
    some (⟨.key false ((key, v) :: assignments), .table [] [] :: stack⟩, rest)
  | .after v, .table assignments key :: stack, '}' :: rest =>
    (inlineTable? ((key, v) :: assignments).reverse).map fun t => (⟨.after t, stack⟩, rest)
  | _, _, _ => none

theorem length_skip_le (m : Machine) (s : List Char) : (m.skip s).length ≤ s.length := by
  unfold skip
  split
  · exact length_skipTrivia_le s
  · exact length_skipBlanks_le s

theorem length_lt_of_step? {m m' : Machine} {s rest : List Char}
    (h : m.step? s = some (m', rest)) : rest.length < s.length := by
  unfold step? at h
  split at h
  · obtain ⟨_, _, h⟩ := Option.map_eq_some_iff.1 h
    cases h
    exact Nat.lt_succ_self _
  · obtain ⟨_, _, h⟩ := Option.map_eq_some_iff.1 h
    cases h
    exact Nat.lt_succ_self _
  · cases h; exact Nat.lt_succ_self _
  · obtain ⟨⟨_, _⟩, hr, h⟩ := Option.map_eq_some_iff.1 h
    cases h
    exact length_lt_of_readScalar? hr
  · cases h; exact Nat.lt_succ_self _
  · split at h
    · next hk => cases h; exact Nat.lt_of_succ_lt (length_lt_of_readKey? hk)
    · simp at h
  · cases h; exact Nat.lt_succ_self _
  · cases h; exact Nat.lt_succ_self _
  · cases h; exact Nat.lt_succ_self _
  · obtain ⟨_, _, h⟩ := Option.map_eq_some_iff.1 h
    cases h
    exact Nat.lt_succ_self _
  · simp at h

/-- Runs the machine until a value is read and nothing is open. -/
def run? (m : Machine) (s : List Char) : Option (Value × List Char) :=
  match m.mode, m.stack with
  | .after v, [] => some (v, s)
  | _, _ =>
    match _h : m.step? (m.skip s) with
    | none => none
    | some (m', rest) => m'.run? rest
termination_by s.length
decreasing_by exact Nat.lt_of_lt_of_le (length_lt_of_step? _h) (length_skip_le m s)

theorem length_le_of_run? {m : Machine} {s rest : List Char} {v : Value}
    (h : m.run? s = some (v, rest)) : rest.length ≤ s.length := by
  fun_induction run? m s with
  | case1 => cases h; exact Nat.le_refl _
  | case2 => simp at h
  | case3 m s m' rest' hs _ ih =>
    have := ih h
    have := length_lt_of_step? hs
    have := length_skip_le m s
    omega

end Machine

def readValue? (s : List Char) : Option (Value × List Char) := Machine.run? {} s

/-- A line of a document that is not empty. -/
inductive Statement where
  | table (path : List String)
  | tables (path : List String)
  | assign (key : List String) (v : Value)

/-- Reads a statement at the start of a line, and the end of its last line. -/
def readStatement? (s : List Char) : Option (Statement × List Char) :=
  match skipBlanks s with
  | '[' :: '[' :: rest =>
    match readKey? rest with
    | some (path, ']' :: ']' :: rest) => (endOfLine? rest).map fun rest => (.tables path, rest)
    | _ => none
  | '[' :: rest =>
    match readKey? rest with
    | some (path, ']' :: rest) => (endOfLine? rest).map fun rest => (.table path, rest)
    | _ => none
  | s =>
    match readKey? s with
    | some (key, '=' :: rest) =>
      match readValue? rest with
      | some (v, rest) => (endOfLine? rest).map fun rest => (.assign key v, rest)
      | none => none
    | _ => none

theorem length_lt_of_readStatement? {s rest : List Char} {st : Statement}
    (h : readStatement? s = some (st, rest)) : rest.length < s.length := by
  have hs := length_skipBlanks_le s
  unfold readStatement? at h
  split at h
  · next head =>
    split at h
    · next hk =>
      obtain ⟨_, he, h⟩ := Option.map_eq_some_iff.1 h
      cases h
      have := length_lt_of_readKey? hk
      have := length_le_of_endOfLine? he
      simp only [head, List.length_cons] at *
      omega
    · simp at h
  · next head =>
    split at h
    · next hk =>
      obtain ⟨_, he, h⟩ := Option.map_eq_some_iff.1 h
      cases h
      have := length_lt_of_readKey? hk
      have := length_le_of_endOfLine? he
      simp only [head, List.length_cons] at *
      omega
    · simp at h
  · split at h
    · next hk =>
      split at h
      · next hv =>
        obtain ⟨_, he, h⟩ := Option.map_eq_some_iff.1 h
        cases h
        have := length_lt_of_readKey? hk
        have := Machine.length_le_of_run? hv
        have := length_le_of_endOfLine? he
        simp only [List.length_cons] at *
        omega
      · simp at h
    · simp at h

def statements? (s : List Char) : Option (List Statement) :=
  match _hs : skipTrivia s with
  | [] => some []
  | c :: rest =>
    match _h : readStatement? (c :: rest) with
    | none => none
    | some (st, rest') => (statements? rest').map (st :: ·)
termination_by s.length
decreasing_by
  have := length_lt_of_readStatement? _h
  have := length_skipTrivia_le s
  rw [_hs] at this
  omega

/-- The document so far, and the table that assignments go to. -/
structure Draft where
  root : Items := []
  current : List String := []

def Draft.add? (d : Draft) : Statement → Option Draft
  | .table path => do
    let key ← path.getLast?
    let root ← Items.change? (Items.openTable? key) path.dropLast d.root
    some ⟨root, path⟩
  | .tables path => do
    let key ← path.getLast?
    let root ← Items.change? (Items.openMember? key) path.dropLast d.root
    some ⟨root, path⟩
  | .assign key v => do
    let root ← Items.change? (Items.assign? v key) d.current d.root
    some { d with root }

/-- Drops the mark that may open a document. -/
def dropMark (s : List Char) : List Char :=
  match s with
  | '\ufeff' :: rest => rest
  | _ => s

/-- Reads a text in TOML; the value is a table. -/
def parse? (s : String) : Option Value := do
  let sts ← statements? (dropMark s.toList)
  let d ← sts.foldlM Draft.add? {}
  some (.table (closeFields d.root))

end Depcheck.Document.Toml

import Depcheck.Graph.Basic

/-!
# Building a graph

A requirement and its matches are added to a graph in two steps: the row of the owner takes a new
edge, or merges the matches into the edge that has their first package as its primary; then every
match notes the owner as a dependent. `edges_addMatches` and `mem_dependents_addMatches` say what
is there afterwards, and `Row.at?_upsert` what a row answers for a key. Before anything is added,
and outside the graph, there is nothing (`node_ofSize`, `node_of_le`).
-/

namespace Depcheck

/-! ## Rows -/

namespace Row

variable {α : Type} {key : α → Nat} {fresh : α} {update : α → α} {row : List α}

/-- The first member with the given key. -/
def at? (key : α → Nat) (row : List α) (k : Nat) : Option α := row.find? fun a => key a == k

theorem at?_cons (a : α) (k : Nat) :
    at? key (a :: row) k = if key a = k then some a else at? key row k := by
  by_cases h : key a = k
  · rw [if_pos h, at?, List.find?_cons_of_pos (by simpa using h)]
  · rw [if_neg h, at?, List.find?_cons_of_neg (by simpa using h), ← at?]

theorem at?_eq_none {k : Nat} (h : ∀ a ∈ row, key a ≠ k) : at? key row k = none := by
  rw [at?, List.find?_eq_none]
  intro a ha
  simpa using h a ha

/-- An updated row answers for the key of the update and is as before for every other key. -/
theorem at?_upsert (h : Ascending key row) (hu : ∀ a, key (update a) = key a) (k : Nat) :
    at? key (upsert key fresh update row) k =
      if key fresh = k then some (((at? key row k).map update).getD fresh) else at? key row k := by
  induction row with
  | nil => exact at?_cons fresh k
  | cons a rest ih =>
    obtain ⟨ha, hrest⟩ := List.pairwise_cons.1 h
    rw [upsert, at?_cons a k]
    split
    · next hlt =>
      rw [at?_cons, ih hrest]
      by_cases hk : key fresh = k
      · rw [if_pos hk, if_pos hk, if_neg (by omega), if_neg (by omega)]
      · rw [if_neg hk, if_neg hk]
    · split
      · next heq =>
        rw [at?_cons, hu, heq]
        by_cases hk : key fresh = k
        · rw [if_pos hk, if_pos hk, if_pos hk]
          rfl
        · rw [if_neg hk, if_neg hk, if_neg hk]
      · next hge hne =>
        rw [at?_cons, at?_cons]
        by_cases hk : key fresh = k
        · -- every key of the row lies above the fresh one, so there is nothing to merge with
          have above : at? key rest k = none := by
            apply at?_eq_none
            intro b hb
            have := ha b hb
            omega
          rw [if_pos hk, if_pos hk, if_neg (by omega), above]
          rfl
        · rw [if_neg hk, if_neg hk]

/-- In an ascending row the members are what the row answers for their keys. -/
theorem mem_iff_at? (h : Ascending key row) {a : α} : a ∈ row ↔ at? key row (key a) = some a := by
  constructor
  · intro hmem
    induction row with
    | nil => cases hmem
    | cons b rest ih =>
      obtain ⟨hb, hrest⟩ := List.pairwise_cons.1 h
      rw [at?_cons]
      rcases List.mem_cons.1 hmem with rfl | hmem
      · rw [if_pos rfl]
      · have := hb a hmem
        rw [if_neg (by omega)]
        exact ih hrest hmem
  · exact List.mem_of_find?_eq_some

end Row

/-! ## Edges from matches -/

namespace Edge

/-- The flags that a requirement with these further matches gives its edge. -/
def matchFlags (flags : EdgeFlags) (alternates : List Nat) : EdgeFlags :=
  if alternates = [] then flags else flags.union { multi := true }

/-- The edge of a requirement when there is none to its first match. -/
def ofMatches (requirement : Nat) (flags : EdgeFlags) (primary : Nat) (alternates : List Nat) :
    Edge :=
  ⟨primary, alternates, requirement, matchFlags flags alternates⟩

/-- An edge after the matches of a further requirement: several matches replace the alternates, a
single one leaves them. -/
def absorb (flags : EdgeFlags) (alternates : List Nat) (e : Edge) : Edge :=
  { e with
    alternates := if alternates = [] then e.alternates else alternates
    flags := e.flags.union (matchFlags flags alternates) }

theorem primary_absorb (flags : EdgeFlags) (alternates : List Nat) (e : Edge) :
    (e.absorb flags alternates).primary = e.primary := rfl

end Edge

namespace Graph

variable {g : Graph} {owner requirement : Nat} {flags : EdgeFlags}

theorem node_of_le {id : Nat} (h : g.size ≤ id) : g.node id = {} := by
  rw [size] at h
  rw [node, Array.getD_eq_getD_getElem?, Array.getElem?_eq_none h]
  rfl

theorem edges_of_le {id : Nat} (h : g.size ≤ id) : g.edges id = [] := by
  rw [edges, node_of_le h]

theorem dependents_of_le {id : Nat} (h : g.size ≤ id) : g.dependents id = [] := by
  rw [dependents, node_of_le h]

theorem conflicts_of_le {id : Nat} (h : g.size ≤ id) : g.conflicts id = [] := by
  rw [conflicts, node_of_le h]

theorem lt_size_of_mem_edges {id : Nat} {e : Edge} (h : e ∈ g.edges id) : id < g.size :=
  Nat.lt_of_not_le fun hle => List.ne_nil_of_mem h (edges_of_le hle)

theorem lt_size_of_mem_dependents {id other : Nat} (h : other ∈ g.dependents id) : id < g.size :=
  Nat.lt_of_not_le fun hle => List.ne_nil_of_mem h (dependents_of_le hle)

theorem lt_size_of_mem_conflicts {id : Nat} {e : ConflictEdge} (h : e ∈ g.conflicts id) :
    id < g.size :=
  Nat.lt_of_not_le fun hle => List.ne_nil_of_mem h (conflicts_of_le hle)

theorem node_ofSize (n id : Nat) : (ofSize n).node id = {} := by
  rw [node, ofSize, Array.getD_eq_getD_getElem?, Array.getElem?_replicate]
  split
  · rfl
  · rfl

theorem edges_ofSize (n id : Nat) : (ofSize n).edges id = [] := by
  rw [edges, node_ofSize]

theorem dependents_ofSize (n id : Nat) : (ofSize n).dependents id = [] := by
  rw [dependents, node_ofSize]

theorem conflicts_ofSize (n id : Nat) : (ofSize n).conflicts id = [] := by
  rw [conflicts, node_ofSize]

theorem node_modify_of_le (id other : Nat) (f : Node → Node) (h : g.size ≤ other) :
    (g.modify id f).node other = g.node other := by
  rw [node_of_le h, node_of_le]
  rw [size_modify]
  exact h

/-- A change that leaves a part of every node alone leaves it alone in the graph. -/
theorem node_modify_congr {β : Type} (part : Node → β) (id other : Nat) (f : Node → Node)
    (h : ∀ n, part (f n) = part n) : part ((g.modify id f).node other) = part (g.node other) := by
  by_cases hlt : other < g.size
  · rw [node_modify g id other f hlt]
    split
    · exact h _
    · rfl
  · rw [node_modify_of_le id other f (Nat.le_of_not_lt hlt)]

@[simp] theorem edges_addDependents (targets : List Nat) (id : Nat) :
    (g.addDependents owner targets).edges id = g.edges id := by
  induction targets generalizing g with
  | nil => rfl
  | cons t rest ih =>
    rw [addDependents, List.foldl_cons, ← addDependents, ih]
    apply node_modify_congr Node.edges
    intro n
    rw [Node.addDependent]
    split <;> rfl

@[simp] theorem dependents_upsertEdge (fresh : Edge) (merge : Edge → Edge) (id : Nat) :
    (g.upsertEdge owner fresh merge).dependents id = g.dependents id :=
  node_modify_congr Node.dependents _ _ _ fun _ => rfl

@[simp] theorem size_upsertEdge (fresh : Edge) (merge : Edge → Edge) :
    (g.upsertEdge owner fresh merge).size = g.size :=
  size_modify ..

theorem edges_upsertEdge (fresh : Edge) (merge : Edge → Edge) {id : Nat} (h : id < g.size) :
    (g.upsertEdge owner fresh merge).edges id =
      if owner = id then Row.upsert Edge.primary fresh merge (g.edges id) else g.edges id := by
  rw [edges, upsertEdge, node_modify _ _ _ _ h]
  split <;> rfl

theorem mem_addDependent {n : Node} {id : Nat} :
    id ∈ (n.addDependent owner).dependents ↔ id ∈ n.dependents ∨ id = owner := by
  rw [Node.addDependent]
  split
  · next h =>
    have hmem : owner ∈ n.dependents := List.mem_of_getLast? h
    constructor
    · exact .inl
    · rintro (h | rfl)
      · exact h
      · exact hmem
  · simp

theorem mem_dependents_addDependents (targets : List Nat) {id other : Nat} (h : id < g.size) :
    other ∈ (g.addDependents owner targets).dependents id ↔
      other ∈ g.dependents id ∨ other = owner ∧ id ∈ targets := by
  induction targets generalizing g with
  | nil => simp [addDependents]
  | cons t rest ih =>
    rw [addDependents, List.foldl_cons, ← addDependents, ih (by rw [size_modify]; exact h),
      dependents, node_modify _ _ _ _ h, List.mem_cons]
    by_cases ht : t = id
    · subst ht
      rw [if_pos rfl, mem_addDependent, dependents]
      constructor
      · rintro ((h | h) | h)
        · exact .inl h
        · exact .inr ⟨h, .inl rfl⟩
        · exact .inr ⟨h.1, .inr h.2⟩
      · rintro (h | ⟨h, _⟩)
        · exact .inl (.inl h)
        · exact .inl (.inr h)
    · rw [if_neg ht, dependents]
      constructor
      · rintro (h | h)
        · exact .inl h
        · exact .inr ⟨h.1, .inr h.2⟩
      · rintro (h | ⟨h, rfl | h'⟩)
        · exact .inl h
        · exact absurd rfl ht
        · exact .inr ⟨h, h'⟩

/-! ## One requirement -/

/-- Single and several matches are added in the same two steps. -/
theorem addMatches_cons (primary : Nat) (alternates : List Nat) :
    g.addMatches owner requirement flags (primary :: alternates) =
      (g.upsertEdge owner (.ofMatches requirement flags primary alternates)
        (.absorb flags alternates)).addDependents owner (primary :: alternates) := by
  cases alternates with
  | nil => rfl
  | cons a rest => rfl

theorem addMulti_eq_addMatches (primary : Nat) {alternates : List Nat} (h : alternates ≠ []) :
    g.addMulti owner requirement flags primary alternates =
      g.addMatches owner requirement flags (primary :: alternates) := by
  cases alternates with
  | nil => exact absurd rfl h
  | cons a rest => rfl

@[simp] theorem size_addMatches (ids : List Nat) :
    (g.addMatches owner requirement flags ids).size = g.size := by
  cases ids with
  | nil => rfl
  | cons primary alternates => rw [addMatches_cons, size_addDependents, size_upsertEdge]

theorem edges_addMatches (primary : Nat) (alternates : List Nat) {id : Nat} (h : id < g.size) :
    (g.addMatches owner requirement flags (primary :: alternates)).edges id =
      if owner = id then
        Row.upsert Edge.primary (.ofMatches requirement flags primary alternates)
          (.absorb flags alternates) (g.edges id)
      else g.edges id := by
  rw [addMatches_cons, edges_addDependents, edges_upsertEdge _ _ h]

theorem mem_dependents_addMatches (ids : List Nat) {id other : Nat} (h : id < g.size) :
    other ∈ (g.addMatches owner requirement flags ids).dependents id ↔
      other ∈ g.dependents id ∨ other = owner ∧ id ∈ ids := by
  cases ids with
  | nil => simp [addMatches]
  | cons primary alternates =>
    rw [addMatches_cons, mem_dependents_addDependents _ (by rw [size_upsertEdge]; exact h),
      dependents_upsertEdge]

/-- Adding matches keeps every row ascending. -/
theorem ascending_addMatches (ids : List Nat) {id : Nat}
    (h : Row.Ascending Edge.primary (g.edges id)) :
    Row.Ascending Edge.primary ((g.addMatches owner requirement flags ids).edges id) := by
  cases ids with
  | nil => exact h
  | cons primary alternates =>
    by_cases hid : id < g.size
    · rw [edges_addMatches _ _ hid]
      split
      · exact h.upsert (Edge.primary_absorb _ _)
      · exact h
    · rw [addMatches_cons, edges_addDependents, edges, upsertEdge,
        node_modify_of_le _ _ _ (Nat.le_of_not_lt hid)]
      exact h

end Graph

end Depcheck

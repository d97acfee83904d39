import Mathlib.Data.List.Induction
import Depcheck.Proofs.Graph.Building
import Depcheck.Proofs.Graph.Taint
import Depcheck.Verification.Run

/-!
# The graph of a run

The graph of a run is built from its outcomes in order, and the later passes leave its edges and
dependents alone. A package is a dependent of all that its requirements lead to
(`mem_dependents_requirementGraph`). Requirements of one package that prefer the same provider
share one edge: `at?_requirementGraph` says which edge, in terms of the outcomes that went into it.
-/

namespace Depcheck

/-- Are there several packages that the requirement leads to? -/
def Outcome.isSeveral (o : Outcome) : Bool := decide (1 < o.targets.length)

theorem Outcome.isSeveral_iff {o : Outcome} {t : Nat} (h : o.targets.head? = some t) :
    o.isSeveral = true ↔ o.targets.tail ≠ [] := by
  obtain ⟨rest, hrest⟩ := List.head?_eq_some_iff.1 h
  rw [Outcome.isSeveral, decide_eq_true_eq, hrest, List.tail_cons, List.length_cons,
    ← List.length_pos_iff]
  omega

/-- The outcomes of the package `p` that prefer `t`, in order. -/
def outcomesFor (table : List Outcome) (p t : Nat) : List Outcome :=
  table.filter fun o => o.owner == p && o.targets.head? == some t

theorem outcomesFor_append (table : List Outcome) (o : Outcome) (p t : Nat) :
    outcomesFor (table ++ [o]) p t =
      if o.owner = p ∧ o.targets.head? = some t then outcomesFor table p t ++ [o]
      else outcomesFor table p t := by
  rw [outcomesFor, List.filter_append, ← outcomesFor]
  by_cases h : o.owner = p ∧ o.targets.head? = some t
  · rw [if_pos h, List.filter_cons_of_pos (by simpa using h), List.filter_nil]
  · rw [if_neg h, List.filter_cons_of_neg (by simpa using h), List.filter_nil, List.append_nil]

/-- The edge that outcomes preferring `t` leave together: the position of the first one, the
alternates of the last one with several matches, and the flags of all. -/
def mergedEdge? (t : Nat) (os : List Outcome) : Option Edge :=
  os.head?.map fun first =>
    { primary := t
      alternates := ((os.filter Outcome.isSeveral).getLast?.map fun o => o.targets.tail).getD []
      requirement := first.position
      flags := os.foldl (fun flags o =>
        flags.union (Edge.matchFlags (.ofRequirement o.requirement) o.targets.tail)) {} }

theorem EdgeFlags.union_empty_left (f : EdgeFlags) : EdgeFlags.union {} f = f := by
  simp [EdgeFlags.union]

/-- One more outcome is merged as the graph merges it. -/
theorem mergedEdge?_append (t : Nat) (os : List Outcome) {o : Outcome}
    (h : o.targets.head? = some t) :
    mergedEdge? t (os ++ [o]) =
      some (((mergedEdge? t os).map
        (Edge.absorb (.ofRequirement o.requirement) o.targets.tail)).getD
          (.ofMatches o.position (.ofRequirement o.requirement) t o.targets.tail)) := by
  have hseveral : o.isSeveral = true ↔ o.targets.tail ≠ [] := Outcome.isSeveral_iff h
  cases os with
  | nil =>
    -- the first outcome makes the edge
    by_cases hs : o.targets.tail = []
    · have : o.isSeveral = false := by simpa [hs] using hseveral
      simp [mergedEdge?, Edge.ofMatches, EdgeFlags.union_empty_left, this, hs]
    · have : o.isSeveral = true := hseveral.2 hs
      simp [mergedEdge?, Edge.ofMatches, EdgeFlags.union_empty_left, this]
  | cons first rest =>
    -- a later one is absorbed, and replaces the alternates if it has any
    by_cases hs : o.targets.tail = []
    · have : o.isSeveral = false := by simpa [hs] using hseveral
      simp [mergedEdge?, Edge.absorb, this, hs]
    · have : o.isSeveral = true := hseveral.2 hs
      simp [mergedEdge?, Edge.absorb, this, hs]

/-! ## Requirements -/

namespace Context

variable {ctx : Context}

theorem requirementGraph_append (table : List Outcome) (o : Outcome) :
    ctx.requirementGraph (table ++ [o]) = (ctx.requirementGraph table).addOutcome o := by
  rw [requirementGraph, List.foldl_append]
  rfl

@[simp] theorem size_requirementGraph (table : List Outcome) :
    (ctx.requirementGraph table).size = ctx.packages.size := by
  induction table using List.reverseRecOn with
  | nil => exact Graph.size_ofSize _
  | append_singleton table o ih =>
    rw [requirementGraph_append, Graph.addOutcome, Graph.size_addMatches, ih]

/-- A package depends on all that any of its requirements leads to. -/
theorem mem_dependents_requirementGraph (table : List Outcome) {p q : Nat}
    (hq : q < ctx.packages.size) :
    p ∈ (ctx.requirementGraph table).dependents q ↔
      ∃ o ∈ table, o.owner = p ∧ q ∈ o.targets := by
  induction table using List.reverseRecOn with
  | nil =>
    show p ∈ (Graph.ofSize ctx.packages.size).dependents q ↔ _
    simp [Graph.dependents_ofSize]
  | append_singleton table o ih =>
    rw [requirementGraph_append, Graph.addOutcome,
      Graph.mem_dependents_addMatches _ (by rw [size_requirementGraph]; exact hq), ih]
    constructor
    · rintro (⟨o', ho', h⟩ | ⟨rfl, h⟩)
      · exact ⟨o', List.mem_append_left _ ho', h⟩
      · exact ⟨o, by simp, rfl, h⟩
    · rintro ⟨o', ho', hown, h⟩
      rcases List.mem_append.1 ho' with ho' | ho'
      · exact .inl ⟨o', ho', hown, h⟩
      · rw [List.mem_singleton] at ho'
        subst ho'
        exact .inr ⟨hown.symm, h⟩

theorem ascending_requirementGraph (table : List Outcome) (p : Nat) :
    Row.Ascending Edge.primary ((ctx.requirementGraph table).edges p) := by
  induction table using List.reverseRecOn with
  | nil =>
    show Row.Ascending Edge.primary ((Graph.ofSize ctx.packages.size).edges p)
    rw [Graph.edges_ofSize]
    exact List.Pairwise.nil
  | append_singleton table o ih =>
    rw [requirementGraph_append]
    exact Graph.ascending_addMatches _ ih

theorem edges_addOutcome {g : Graph} (o : Outcome) {p : Nat} (hp : p < g.size) :
    (g.addOutcome o).edges p =
      match o.targets with
      | [] => g.edges p
      | t :: rest =>
        if o.owner = p then
          Row.upsert Edge.primary (.ofMatches o.position (.ofRequirement o.requirement) t rest)
            (.absorb (.ofRequirement o.requirement) rest) (g.edges p)
        else g.edges p := by
  rw [Graph.addOutcome]
  cases o.targets with
  | nil => rfl
  | cons t rest => exact Graph.edges_addMatches t rest hp

/-- The edge of a package to `t` is what its outcomes that prefer `t` leave together. -/
theorem at?_requirementGraph (table : List Outcome) {p : Nat} (hp : p < ctx.packages.size)
    (t : Nat) :
    Row.at? Edge.primary ((ctx.requirementGraph table).edges p) t =
      mergedEdge? t (outcomesFor table p t) := by
  induction table using List.reverseRecOn with
  | nil =>
    show Row.at? Edge.primary ((Graph.ofSize ctx.packages.size).edges p) t = _
    rw [Graph.edges_ofSize]
    rfl
  | append_singleton table o ih =>
    have hasc : Row.Ascending Edge.primary ((ctx.requirementGraph table).edges p) :=
      ascending_requirementGraph table p
    rw [requirementGraph_append, edges_addOutcome o (by rw [size_requirementGraph]; exact hp),
      outcomesFor_append]
    -- the row changes at one key only, and only if the outcome is the package's own
    by_cases hown : o.owner = p
    · cases htargets : o.targets with
      | nil =>
        have hnone : ¬(o.owner = p ∧ ([] : List Nat).head? = some t) := by simp
        rw [if_neg hnone]
        exact ih
      | cons t' rest =>
        simp only [if_pos hown]
        rw [Row.at?_upsert hasc (Edge.primary_absorb _ _)]
        by_cases ht : t' = t
        · subst ht
          have hpref : o.owner = p ∧ (t' :: rest).head? = some t' := ⟨hown, rfl⟩
          rw [if_pos hpref, mergedEdge?_append t' _ (by rw [htargets]; rfl), ← ih, htargets]
          exact if_pos rfl
        · have hother : ¬(o.owner = p ∧ (t' :: rest).head? = some t) := by simp [ht]
          rw [if_neg hother, ← ih]
          exact if_neg ht
    · rw [if_neg fun h => hown h.1, ← ih]
      cases o.targets with
      | nil => rfl
      | cons t' rest => simp only [if_neg hown]

/-! ## The later passes -/

/-- Conflicts add no requirement edge and no dependent. -/
theorem edges_addConflicts (g : Graph) (id : Nat) :
    (ctx.addConflicts g).edges id = g.edges id ∧
      (ctx.addConflicts g).dependents id = g.dependents id := by
  rw [addConflicts]
  generalize ctx.conflictHits = hits
  induction hits generalizing g with
  | nil => exact ⟨rfl, rfl⟩
  | cons h rest ih =>
    rw [List.foldl_cons, (ih _).1, (ih _).2]
    constructor
    · exact Graph.node_modify_congr Node.edges _ _ _ fun _ => rfl
    · exact Graph.node_modify_congr Node.dependents _ _ _ fun _ => rfl

theorem graph_verify (passes : Passes) (states : Array PackageState) (id : Nat) :
    (ctx.verify passes states).1.graph.edges id =
        (ctx.requirementGraph ctx.outcomes.table).edges id ∧
      (ctx.verify passes states).1.graph.dependents id =
        (ctx.requirementGraph ctx.outcomes.table).dependents id := by
  rw [verify]
  cases passes.conflicts with
  | true => exact edges_addConflicts _ id
  | false => exact ⟨rfl, rfl⟩

/-- The obsolete flag does not touch the taint. -/
theorem tainted_markObsoleted {g : Graph} {states : Array PackageState} {id : Nat} :
    Tainted (g.markObsoleted states) id ↔ Tainted states id := by
  have hflag : ((g.markObsoleted states).getD id {}).unmet = (states.getD id {}).unmet :=
    PackageState.flag_foldl_modify PackageState.unmet (f := .setObsoleted) (fun _ => rfl) _
  rw [Tainted, Tainted, hflag]

theorem size_markObsoleted (g : Graph) (states : Array PackageState) :
    (g.markObsoleted states).size = states.size :=
  PackageState.size_foldl_modify _

@[simp] theorem size_verify (passes : Passes) (states : Array PackageState) :
    (ctx.verify passes states).2.size = states.size := by
  rw [verify]
  cases passes.conflicts with
  | true =>
    show (Graph.markObsoleted _ (Graph.taint _ _ _)).size = _
    rw [size_markObsoleted, Graph.size_taint, Array.size_map]
  | false =>
    show (Graph.taint _ _ _).size = _
    rw [Graph.size_taint, Array.size_map]

/-- The packages that a run flags are those that the walk reaches. -/
theorem tainted_verify {passes : Passes} {states : Array PackageState} {id : Nat} :
    Tainted (ctx.verify passes states).2 id ↔
      Tainted ((ctx.requirementGraph ctx.outcomes.table).taint
        (states.map PackageState.clearDerived) (unmetOwners ctx.outcomes.table)) id := by
  rw [verify]
  cases passes.conflicts with
  | true => exact tainted_markObsoleted
  | false => exact Iff.rfl

theorem not_tainted_clearDerived (states : Array PackageState) (id : Nat) :
    ¬Tainted (states.map PackageState.clearDerived) id := by
  rw [Tainted, PackageState.flag_map_eq_false PackageState.unmet rfl fun _ => rfl]
  exact Bool.noConfusion

end Context

end Depcheck

import Mathlib
import Depcheck.Proofs.Verification.RequirementGraph
import Depcheck.Proofs.Verification.Targets

/-!
# What an edge carries

Requirements of one package that prefer the same provider share an edge. The edge keeps the
position of the first of them and carries the targets of the one that settles it: the last with
several matches, or the first when none has several. So an edge carries the matches of its own
requirement exactly when the settling one was resolved in the same way.
-/

namespace Depcheck

/-- The outcome that settles what an edge carries, among those that share it. -/
def settling? (os : List Outcome) : Option Outcome :=
  (os.filter Outcome.isSeveral).getLast?.or os.head?

theorem mem_of_settling? {os : List Outcome} {o : Outcome} (h : settling? os = some o) :
    o ∈ os := by
  rcases Option.or_eq_some_iff.1 h with h | ⟨_, h⟩
  · exact (List.mem_filter.1 (List.mem_of_getLast? h)).1
  · exact List.mem_of_head? h

theorem mem_outcomesFor {table : List Outcome} {p t : Nat} {o : Outcome} :
    o ∈ outcomesFor table p t ↔ o ∈ table ∧ o.owner = p ∧ o.targets.head? = some t := by
  rw [outcomesFor, List.mem_filter]
  simp

/-- A merged edge carries the targets of the outcome that settles it. -/
theorem exists_settling {t : Nat} {os : List Outcome} (hos : ∀ o ∈ os, o.targets.head? = some t)
    {e : Edge} (h : mergedEdge? t os = some e) :
    ∃ o, settling? os = some o ∧ e.targets = o.targets := by
  obtain ⟨first, hfirst, rfl⟩ := Option.map_eq_some_iff.1 h
  have hcons : ∀ o ∈ os, o.targets = t :: o.targets.tail := by
    intro o ho
    obtain ⟨rest, hrest⟩ := List.head?_eq_some_iff.1 (hos o ho)
    rw [hrest, List.tail_cons]
  cases hlast : (os.filter Outcome.isSeveral).getLast? with
  | none =>
    -- no outcome has several targets, so the first has nothing but `t`
    refine ⟨first, ?_, ?_⟩
    · rw [settling?, hlast, hfirst]
      rfl
    · have hmem := List.mem_of_head? hfirst
      have hsingle : first.isSeveral = false := by
        have hnone := List.getLast?_eq_none_iff.1 hlast
        simpa using List.filter_eq_nil_iff.1 hnone first hmem
      rw [Outcome.isSeveral, decide_eq_false_iff_not, hcons first hmem, List.length_cons] at hsingle
      have htail : first.targets.tail = [] := List.eq_nil_of_length_eq_zero (by omega)
      rw [hcons first hmem, htail]
      rfl
  | some o =>
    refine ⟨o, ?_, ?_⟩
    · rw [settling?, hlast]
      rfl
    · have hmem := (List.mem_filter.1 (List.mem_of_getLast? hlast)).1
      rw [hcons o hmem]
      rfl

namespace Context

variable {ctx : Context} {passes : Passes} {states : Array PackageState} {p : Nat}

theorem mem_edges_verify (hp : p < ctx.packages.size) {e : Edge} :
    e ∈ (ctx.verify passes states).1.graph.edges p ↔
      mergedEdge? e.primary (outcomesFor ctx.outcomes.table p e.primary) = some e := by
  rw [(graph_verify passes states p).1, Row.mem_iff_at? (ascending_requirementGraph _ p),
    at?_requirementGraph _ hp]

/-- A package has an edge to whatever one of its outcomes prefers. -/
theorem exists_edge_of_mem_table (hp : p < ctx.packages.size) {o : Outcome}
    (ho : o ∈ ctx.outcomes.table) (howner : o.owner = p) {t : Nat}
    (ht : o.targets.head? = some t) :
    ∃ e ∈ (ctx.verify passes states).1.graph.edges p, e.primary = t := by
  have hmem : o ∈ outcomesFor ctx.outcomes.table p t := mem_outcomesFor.2 ⟨ho, howner, ht⟩
  cases hos : outcomesFor ctx.outcomes.table p t with
  | nil =>
    rw [hos] at hmem
    cases hmem
  | cons first rest =>
    obtain ⟨e, he⟩ : ∃ e, mergedEdge? t (outcomesFor ctx.outcomes.table p t) = some e := by
      rw [hos]
      exact ⟨_, rfl⟩
    have hprimary : e.primary = t := by
      obtain ⟨_, _, rfl⟩ := Option.map_eq_some_iff.1 he
      rfl
    refine ⟨e, (mem_edges_verify hp).2 ?_, hprimary⟩
    rw [hprimary]
    exact he

/-- Only packages of the list have edges. -/
theorem lt_of_mem_edges_verify {e : Edge}
    (he : e ∈ (ctx.verify passes states).1.graph.edges p) : p < ctx.packages.size := by
  rw [(graph_verify passes states p).1] at he
  rw [← size_requirementGraph ctx.outcomes.table]
  exact Graph.lt_size_of_mem_edges he

/-- An edge comes from the outcomes of its owner that prefer its primary: the first gives it the
position, and the settling one its targets. -/
theorem outcomes_of_mem_edges (hp : p < ctx.packages.size) {e : Edge}
    (he : e ∈ (ctx.verify passes states).1.graph.edges p) :
    (∃ first, (outcomesFor ctx.outcomes.table p e.primary).head? = some first ∧
        e.requirement = first.position) ∧
      ∃ o, settling? (outcomesFor ctx.outcomes.table p e.primary) = some o ∧
        e.targets = o.targets := by
  have hmerged := (mem_edges_verify hp).1 he
  constructor
  · obtain ⟨first, hfirst, heq⟩ := Option.map_eq_some_iff.1 hmerged
    refine ⟨first, hfirst, ?_⟩
    rw [← heq]
  · exact exists_settling (fun o ho => (mem_outcomesFor.1 ho).2.2) hmerged

/-- The outcomes that share an edge stand in the order of their requirements. -/
theorem outcomesFor_pairwise (p t : Nat) :
    (outcomesFor ctx.outcomes.table p t).Pairwise fun a b => a.position < b.position := by
  have hsorted := (@table_pairwise ctx).filter fun o =>
    o.owner == p && o.targets.head? == some t
  refine hsorted.imp_of_mem ?_
  intro a b ha hb hbefore
  have hown : a.owner = b.owner :=
    (mem_outcomesFor.1 ha).2.1.trans (mem_outcomesFor.1 hb).2.1.symm
  rcases hbefore with hlt | ⟨_, hlt⟩
  · omega
  · exact hlt

/-- The requirement of an edge is the first of its owner that prefers the primary, and the one that
settles it is the last of those with several matches. -/
theorem position_of_mem_edges (hp : p < ctx.packages.size) {e : Edge}
    (he : e ∈ (ctx.verify passes states).1.graph.edges p) {o : Outcome}
    (ho : settling? (outcomesFor ctx.outcomes.table p e.primary) = some o) {a : Outcome}
    (ha : a ∈ outcomesFor ctx.outcomes.table p e.primary) :
    e.requirement ≤ a.position ∧ (a.isSeveral = true → a.position ≤ o.position) := by
  have hsorted := @outcomesFor_pairwise ctx p e.primary
  obtain ⟨⟨first, hfirst, hpos⟩, _⟩ := outcomes_of_mem_edges hp he
  constructor
  · obtain ⟨rest, hrest⟩ := List.head?_eq_some_iff.1 hfirst
    rw [hrest] at hsorted ha
    rw [hpos]
    rcases List.mem_cons.1 ha with rfl | ha
    · exact Nat.le_refl _
    · exact Nat.le_of_lt ((List.pairwise_cons.1 hsorted).1 a ha)
  · intro hseveral
    have hmem : a ∈ (outcomesFor ctx.outcomes.table p e.primary).filter Outcome.isSeveral :=
      List.mem_filter.2 ⟨ha, hseveral⟩
    rcases Option.or_eq_some_iff.1 ho with hlast | ⟨hnone, _⟩
    · obtain ⟨front, hfront⟩ := List.getLast?_eq_some_iff.1 hlast
      have hseverals := hsorted.filter Outcome.isSeveral
      rw [hfront] at hseverals hmem
      rcases List.mem_append.1 hmem with hmem | hmem
      · have hlt := (List.pairwise_append.1 hseverals).2.2 a hmem o List.mem_cons_self
        exact Nat.le_of_lt hlt
      · rw [List.mem_singleton.1 hmem]
    · rw [List.getLast?_eq_none_iff.1 hnone] at hmem
      cases hmem

/-- An edge carries the matches of its own requirement exactly when the outcome that settles it was
resolved as that requirement is; and then they all satisfy it, the first is the greatest, and the
others are its alternates. -/
theorem targets_eq_matchesOf_iff {pkg : Package} (hp : ctx.packages[p]? = some pkg) {e : Edge}
    (he : e ∈ (ctx.verify passes states).1.graph.edges p) :
    ∃ r o, pkg.requires[e.requirement]? = some r ∧
      settling? (outcomesFor (ctx.verify passes states).1.outcomes p e.primary) = some o ∧
      e.targets = o.targets ∧ p ∉ e.targets ∧
      (e.targets = ctx.matchesOf r ↔ o.resolution = (ctx.resolve r).1) ∧
      (e.targets = ctx.matchesOf r →
        (r.isVersioned = true →
          ∀ q ∈ e.targets, (ctx.package q).satisfies r ctx.strict = true) ∧
        (∀ q ∈ ctx.matchesOf r,
          ((ctx.package q).compareNameEvr (ctx.package e.primary)).isLE = true) ∧
        e.alternates.length = (ctx.matchesOf r).length - 1) := by
  obtain ⟨⟨first, hfirst, hpos⟩, o, ho, htargets⟩ := outcomes_of_mem_edges (lt_of_getElem? hp) he
  have hown := mem_outcomesFor.1 (List.mem_of_head? hfirst)
  obtain ⟨pkg', hpkg', hreq⟩ := mem_demands.1 (mem_demands_of_mem_table hown.1)
  rw [hown.2.1, hp] at hpkg'
  obtain rfl := Option.some.inj hpkg'
  have hset := mem_outcomesFor.1 (mem_of_settling? ho)
  have hmatched := Outcome.resolution_of_mem_targets (List.mem_of_head? hset.2.2)
  refine ⟨first.requirement, o, ?_, ho, htargets, ?_, ?_, ?_⟩
  · rw [hpos]
    exact hreq
  · rw [htargets, ← hset.2.1]
    exact hmatched.2
  · rw [htargets, hmatched.1]
    constructor
    · intro heq
      have hne : o.targets ≠ [] := List.ne_nil_of_mem (List.mem_of_head? hset.2.2)
      exact (resolve_eq_matched_iff.2 ⟨heq.symm, hne⟩).symm
    · intro heq
      exact (resolve_eq_matched_iff.1 heq.symm).1.symm
  · intro heq
    refine ⟨?_, ?_, ?_⟩
    · intro hversioned q hq
      rw [heq] at hq
      exact (mem_filterVersion.1 hq).2 hversioned
    · intro q hq
      have hhead : (ctx.matchesOf first.requirement).head? = some e.primary := by
        rw [← heq]
        rfl
      exact isLE_of_head_matchesOf hhead hq
    · rw [← heq]
      rfl

/-- An application that needs version 2 of a library, and the library in any version. -/
def sharedPackages : Array Package :=
  #[{ name := "app", evr := { version := "1" },
      requires :=
        [.ofParts "lib" (by decide) (some (.exactly { version := "2" })) {},
         .ofParts "lib" (by decide) none {}] },
    { name := "lib", evr := { version := "2" } },
    { name := "lib", evr := { version := "1" } }]

def sharedContext : Context where
  packages := sharedPackages
  index := .build sharedPackages none
  platform := {}
  manager := "rpm"
  strict := false

theorem edges_shared :
    (sharedContext.verify {} (Array.replicate 3 {})).1.graph.edges 0 =
      [⟨1, [2], 0, { multi := true }⟩] := by
  cbv

/-- The edge of the first requirement carries a match that only the second one has. -/
theorem targets_ne_matchesOf_shared :
    (⟨1, [2], 0, { multi := true }⟩ : Edge) ∈
        (sharedContext.verify {} (Array.replicate 3 {})).1.graph.edges 0 ∧
      sharedContext.matchesOf
        (.ofParts "lib" (by decide) (some (.exactly { version := "2" })) {}) = [1] := by
  constructor
  · rw [edges_shared]
    exact List.mem_singleton.2 rfl
  · cbv

theorem targets_eq_matchesOf_iff_shared :
    ∃ r o, sharedPackages[0].requires[0]? = some r ∧
      settling? (outcomesFor (sharedContext.verify {} (Array.replicate 3 {})).1.outcomes 0 1) =
        some o ∧
      [1, 2] = o.targets ∧ 0 ∉ [1, 2] ∧
      ([1, 2] = sharedContext.matchesOf r ↔ o.resolution = (sharedContext.resolve r).1) ∧
      ([1, 2] = sharedContext.matchesOf r →
        (r.isVersioned = true →
          ∀ q ∈ [1, 2], (sharedContext.package q).satisfies r sharedContext.strict = true) ∧
        (∀ q ∈ sharedContext.matchesOf r,
          ((sharedContext.package q).compareNameEvr (sharedContext.package 1)).isLE = true) ∧
        [2].length = (sharedContext.matchesOf r).length - 1) := by
  have he : (⟨1, [2], 0, { multi := true }⟩ : Edge) ∈
      (sharedContext.verify {} (Array.replicate 3 {})).1.graph.edges 0 := by
    rw [edges_shared]
    exact List.mem_singleton.2 rfl
  have hp : sharedContext.packages[0]? = some sharedPackages[0] := rfl
  exact targets_eq_matchesOf_iff hp he

end Context

end Depcheck

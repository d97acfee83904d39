import Mathlib.Order.Bounds.Basic
import Depcheck.Proofs.Verification.EdgeTargets

/-!
# What the requirements of a package say about its edges

A run matches the requirements of a package one after the other and merges those that prefer the
same provider into one edge, in whatever order single matches and several matches come. What is
left does not depend on how the merging goes: `Edge.Gathers` reads every part of an edge off the
matches, and edges to one provider that gather the same matches are equal (`Edge.Gathers.eq`).
-/

namespace Depcheck

/-- The run matched the requirement of `p` at the position `j` to the packages `ids`, and `p` is
not among them. -/
def Verification.Matched (v : Verification) (p j : Nat) (ids : List Nat) : Prop :=
  ∃ o ∈ v.outcomes, o.owner = p ∧ o.position = j ∧ o.resolution = .matched ids ∧ p ∉ ids

/-- The edge gathers all requirements whose matches start with its primary: `matched` says which
matches the requirement at a position has. -/
structure Edge.Gathers (e : Edge) (requires : List Capability) (matched : Nat → List Nat → Prop) :
    Prop where
  /-- The edge names the first of them. -/
  first : IsLeast {j | ∃ rest, matched j (e.primary :: rest)} e.requirement
  prereq : e.flags.prereq = true ↔
    ∃ j rest, matched j (e.primary :: rest) ∧ ∃ r ∈ requires[j]?, r.flags.prereq = true
  prereqUn : e.flags.prereqUn = true ↔
    ∃ j rest, matched j (e.primary :: rest) ∧ ∃ r ∈ requires[j]?, r.flags.prereqUn = true
  multi : e.flags.multi = true ↔ ∃ j rest, matched j (e.primary :: rest) ∧ rest ≠ []
  /-- No other flag is set. -/
  plain : e.flags.conflict = false ∧ e.flags.obsolete = false
  /-- With several matches anywhere, the targets are the matches of the last such requirement. -/
  several : e.flags.multi = true →
    ∃ j, IsGreatest {j | ∃ rest, matched j (e.primary :: rest) ∧ rest ≠ []} j ∧
      ∀ ids, matched j ids ↔ ids = e.targets
  single : e.flags.multi = false → e.targets = [e.primary]

/-- The matches determine the edge. -/
theorem Edge.Gathers.eq {e e' : Edge} {requires : List Capability}
    {matched : Nat → List Nat → Prop} (h : e.Gathers requires matched)
    (h' : e'.Gathers requires matched) (hprimary : e.primary = e'.primary) : e = e' := by
  obtain ⟨primary, alternates, requirement, flags⟩ := e
  obtain ⟨primary', alternates', requirement', flags'⟩ := e'
  obtain rfl : primary = primary' := hprimary
  have hrequirement : requirement = requirement' := h.first.unique h'.first
  have hmulti : flags.multi = flags'.multi := Bool.eq_iff_iff.2 (h.multi.trans h'.multi.symm)
  have hflags : flags = flags' := by
    have hprereq : flags.prereq = flags'.prereq :=
      Bool.eq_iff_iff.2 (h.prereq.trans h'.prereq.symm)
    have hprereqUn : flags.prereqUn = flags'.prereqUn :=
      Bool.eq_iff_iff.2 (h.prereqUn.trans h'.prereqUn.symm)
    have hconflict : flags.conflict = flags'.conflict := h.plain.1.trans h'.plain.1.symm
    have hobsolete : flags.obsolete = flags'.obsolete := h.plain.2.trans h'.plain.2.symm
    cases flags
    cases flags'
    simp_all
  have halternates : alternates = alternates' := by
    cases hm : flags.multi with
    | true =>
      obtain ⟨j, hj, hids⟩ := h.several hm
      obtain ⟨j', hj', hids'⟩ := h'.several (hmulti ▸ hm)
      obtain rfl : j = j' := hj.unique hj'
      have htargets : primary :: alternates = primary :: alternates' :=
        (hids' _).1 ((hids _).2 rfl)
      exact List.tail_eq_of_cons_eq htargets
    | false =>
      have htargets := (h.single hm).trans (h'.single (hmulti ▸ hm)).symm
      exact List.tail_eq_of_cons_eq htargets
  rw [hrequirement, hflags, halternates]

/-! ## Flags -/

/-- A flag that unions respect is set after many of them if it was set at first or if any sets
it. -/
theorem EdgeFlags.flag_foldl_union {α : Type} {flag : EdgeFlags → Bool}
    (hunion : ∀ f g : EdgeFlags, flag (f.union g) = (flag f || flag g)) (gain : α → EdgeFlags)
    (f : EdgeFlags) (as : List α) :
    flag (as.foldl (fun f a => f.union (gain a)) f) = (flag f || as.any fun a => flag (gain a)) := by
  induction as generalizing f with
  | nil => simp
  | cons a rest ih => rw [List.foldl_cons, ih, hunion, List.any_cons, Bool.or_assoc]

/-- The matches set no flag but that for several. -/
theorem Edge.matchFlags_ofRequirement (r : Capability) (alternates : List Nat) :
    Edge.matchFlags (.ofRequirement r) alternates =
      { prereq := r.flags.prereq, prereqUn := r.flags.prereqUn, multi := alternates ≠ [] } := by
  rw [Edge.matchFlags]
  split <;> simp_all [EdgeFlags.ofRequirement, EdgeFlags.union]

/-! ## Outcomes -/

/-- If any outcome has several targets, so does the one that settles. -/
theorem isSeveral_of_settling? {os : List Outcome} {o a : Outcome} (h : settling? os = some o)
    (ha : a ∈ os) (hseveral : a.isSeveral = true) : o.isSeveral = true := by
  rcases Option.or_eq_some_iff.1 h with h | ⟨hnone, _⟩
  · exact (List.mem_filter.1 (List.mem_of_getLast? h)).2
  · have hmem : a ∈ os.filter Outcome.isSeveral := List.mem_filter.2 ⟨ha, hseveral⟩
    rw [List.getLast?_eq_none_iff.1 hnone] at hmem
    cases hmem

namespace Context

variable {ctx : Context} {passes : Passes} {states : Array PackageState} {p : Nat}

/-- The matches that start with `t` are the targets of the outcomes that prefer `t`. -/
theorem matched_cons_iff {j t : Nat} {rest : List Nat} :
    (ctx.verify passes states).1.Matched p j (t :: rest) ↔
      ∃ o ∈ outcomesFor ctx.outcomes.table p t, o.position = j ∧ o.targets = t :: rest := by
  constructor
  · rintro ⟨o, ho, rfl, rfl, hres, hself⟩
    have htargets := Outcome.targets_of_not_mem hres hself
    exact ⟨o, mem_outcomesFor.2 ⟨ho, rfl, by rw [htargets]; rfl⟩, rfl, htargets⟩
  · rintro ⟨o, ho, rfl, htargets⟩
    obtain ⟨hmem, rfl, ht⟩ := mem_outcomesFor.1 ho
    obtain ⟨hres, hself⟩ := Outcome.resolution_of_mem_targets (List.mem_of_head? ht)
    rw [htargets] at hres hself
    exact ⟨o, hmem, rfl, rfl, hres, hself⟩

/-- The same, with the matches left open. -/
theorem exists_matched_iff {t : Nat} {P : Nat → List Nat → Prop} :
    (∃ j rest, (ctx.verify passes states).1.Matched p j (t :: rest) ∧ P j rest) ↔
      ∃ o ∈ outcomesFor ctx.outcomes.table p t, P o.position o.targets.tail := by
  constructor
  · rintro ⟨j, rest, hmatched, h⟩
    obtain ⟨o, ho, rfl, htargets⟩ := matched_cons_iff.1 hmatched
    refine ⟨o, ho, ?_⟩
    rw [htargets]
    exact h
  · rintro ⟨o, ho, h⟩
    obtain ⟨rest, hrest⟩ := List.head?_eq_some_iff.1 (mem_outcomesFor.1 ho).2.2
    rw [hrest] at h
    exact ⟨o.position, rest, matched_cons_iff.2 ⟨o, ho, rfl, hrest⟩, h⟩

/-- The same, with what is asked of the requirement at the position. -/
theorem exists_asked_iff {t : Nat} {asked : Capability → Prop} :
    (∃ j rest, (ctx.verify passes states).1.Matched p j (t :: rest) ∧
        ∃ r ∈ (ctx.package p).requires[j]?, asked r) ↔
      ∃ o ∈ outcomesFor ctx.outcomes.table p t, asked o.requirement := by
  rw [exists_matched_iff]
  refine exists_congr fun o => and_congr_right fun ho => ?_
  obtain ⟨hmem, rfl, _⟩ := mem_outcomesFor.1 ho
  simp [requires_of_mem_table hmem]

theorem nodup_demands (packages : Array Package) : (demands packages).Nodup := by
  refine (demands_pairwise packages).imp ?_
  rintro d _ (hlt | ⟨_, hlt⟩) rfl
  · exact Nat.lt_irrefl _ hlt
  · exact Nat.lt_irrefl _ hlt

/-- There is one outcome for a position. -/
theorem eq_of_position_eq {a b : Outcome} (ha : a ∈ ctx.outcomes.table)
    (hb : b ∈ ctx.outcomes.table) (howner : a.owner = b.owner) (hpos : a.position = b.position) :
    a = b := by
  have hreq : a.requirement = b.requirement := by
    have h := requires_of_mem_table ha
    rw [howner, hpos, requires_of_mem_table hb] at h
    exact (Option.some.inj h).symm
  have hdemand : a.toDemand = b.toDemand := by
    obtain ⟨⟨owner, position, requirement⟩, _⟩ := a
    simp_all
  have hnodup : (ctx.outcomes.table.map Outcome.toDemand).Nodup := by
    rw [toDemand_table]
    exact nodup_demands _
  exact List.inj_on_of_nodup_map hnodup ha hb hdemand

theorem matched_iff_eq_targets {o : Outcome} (ho : o ∈ ctx.outcomes.table) {t : Nat}
    (ht : t ∈ o.targets) {ids : List Nat} :
    (ctx.verify passes states).1.Matched o.owner o.position ids ↔ ids = o.targets := by
  obtain ⟨hres, hself⟩ := Outcome.resolution_of_mem_targets ht
  constructor
  · rintro ⟨o', ho', howner, hpos, hres', _⟩
    obtain rfl := eq_of_position_eq ho' ho howner hpos
    exact Resolution.matched.inj (hres'.symm.trans hres)
  · rintro rfl
    exact ⟨o, ho, rfl, rfl, hres, hself⟩

/-! ## Edges -/

section

variable {e : Edge} (he : e ∈ (ctx.verify passes states).1.graph.edges p)

include he

/-- The flags of an edge are those that its outcomes give it. -/
theorem flag_of_mem_edges {flag : EdgeFlags → Bool}
    (hunion : ∀ f g : EdgeFlags, flag (f.union g) = (flag f || flag g)) (hempty : flag {} = false) :
    flag e.flags = true ↔ ∃ o ∈ outcomesFor ctx.outcomes.table p e.primary,
      flag { prereq := o.requirement.flags.prereq, prereqUn := o.requirement.flags.prereqUn,
             multi := o.targets.tail ≠ [] } = true := by
  obtain ⟨first, _, hmerged⟩ :=
    Option.map_eq_some_iff.1 ((mem_edges_verify (lt_of_mem_edges_verify he)).1 he)
  have hflags := congrArg Edge.flags hmerged
  simp only at hflags
  rw [← hflags, EdgeFlags.flag_foldl_union hunion, hempty, Bool.false_or, List.any_eq_true]
  simp only [Edge.matchFlags_ofRequirement]

theorem multi_iff_of_mem_edges :
    e.flags.multi = true ↔
      ∃ o ∈ outcomesFor ctx.outcomes.table p e.primary, o.targets.tail ≠ [] := by
  rw [flag_of_mem_edges he (fun _ _ => rfl) rfl]
  simp only [decide_eq_true_eq]

theorem isLeast_requirement_of_mem_edges :
    IsLeast {j | ∃ rest, (ctx.verify passes states).1.Matched p j (e.primary :: rest)}
      e.requirement := by
  have hp := lt_of_mem_edges_verify he
  obtain ⟨⟨first, hfirst, hpos⟩, o, ho, _⟩ := outcomes_of_mem_edges hp he
  constructor
  · have hmem := List.mem_of_head? hfirst
    obtain ⟨rest, hrest⟩ := List.head?_eq_some_iff.1 (mem_outcomesFor.1 hmem).2.2
    exact ⟨rest, matched_cons_iff.2 ⟨first, hmem, hpos.symm, hrest⟩⟩
  · rintro j ⟨rest, hmatched⟩
    obtain ⟨a, ha, rfl, _⟩ := matched_cons_iff.1 hmatched
    exact (position_of_mem_edges hp he ho ha).1

/-- An edge to several packages carries the last matches that are several. -/
theorem isGreatest_of_multi (hm : e.flags.multi = true) :
    ∃ j, IsGreatest {j | ∃ rest,
        (ctx.verify passes states).1.Matched p j (e.primary :: rest) ∧ rest ≠ []} j ∧
      ∀ ids, (ctx.verify passes states).1.Matched p j ids ↔ ids = e.targets := by
  have hp := lt_of_mem_edges_verify he
  obtain ⟨_, o, ho, htargets⟩ := outcomes_of_mem_edges hp he
  have hmem := mem_of_settling? ho
  obtain ⟨htable, rfl, hhead⟩ := mem_outcomesFor.1 hmem
  obtain ⟨a, ha, htail⟩ := (multi_iff_of_mem_edges he).1 hm
  have hseveral : o.isSeveral = true := by
    apply isSeveral_of_settling? ho ha
    exact (Outcome.isSeveral_iff (mem_outcomesFor.1 ha).2.2).2 htail
  refine ⟨o.position, ⟨⟨e.alternates, ?_, ?_⟩, ?_⟩, ?_⟩
  · exact matched_cons_iff.2 ⟨o, hmem, rfl, htargets.symm⟩
  · have hne := (Outcome.isSeveral_iff hhead).1 hseveral
    rw [← htargets] at hne
    exact hne
  · rintro j ⟨rest, hmatched, hne⟩
    obtain ⟨b, hb, rfl, hrest⟩ := matched_cons_iff.1 hmatched
    apply (position_of_mem_edges hp he ho hb).2
    apply (Outcome.isSeveral_iff (mem_outcomesFor.1 hb).2.2).2
    rw [hrest]
    exact hne
  · intro ids
    rw [htargets]
    exact matched_iff_eq_targets htable (List.mem_of_head? hhead)

/-- An edge that no requirement makes one to several packages leads to its primary only. -/
theorem targets_of_not_multi (hm : e.flags.multi = false) : e.targets = [e.primary] := by
  obtain ⟨_, o, ho, htargets⟩ := outcomes_of_mem_edges (lt_of_mem_edges_verify he) he
  have hnil : e.alternates = [] := by
    by_contra hne
    have hmulti : e.flags.multi = true := by
      refine (multi_iff_of_mem_edges he).2 ⟨o, mem_of_settling? ho, ?_⟩
      rw [← htargets]
      exact hne
    rw [hm] at hmulti
    cases hmulti
  rw [Edge.targets, hnil]

/-- An edge of a run gathers the requirements of its owner that prefer its primary. -/
theorem gathers_of_mem_edges :
    e.Gathers (ctx.package p).requires ((ctx.verify passes states).1.Matched p) where
  first := isLeast_requirement_of_mem_edges he
  prereq := by rw [exists_asked_iff, flag_of_mem_edges he (fun _ _ => rfl) rfl]
  prereqUn := by rw [exists_asked_iff, flag_of_mem_edges he (fun _ _ => rfl) rfl]
  multi := by
    rw [exists_matched_iff (P := fun _ rest => rest ≠ [])]
    exact multi_iff_of_mem_edges he
  plain := by
    constructor
    · rw [← Bool.not_eq_true, flag_of_mem_edges he (fun _ _ => rfl) rfl]
      simp
    · rw [← Bool.not_eq_true, flag_of_mem_edges he (fun _ _ => rfl) rfl]
      simp
  several := isGreatest_of_multi he
  single := targets_of_not_multi he

end

/-- There is an edge to whatever the matches of some requirement start with. -/
theorem exists_edge_iff {t : Nat} :
    (∃ e ∈ (ctx.verify passes states).1.graph.edges p, e.primary = t) ↔
      ∃ j rest, (ctx.verify passes states).1.Matched p j (t :: rest) := by
  constructor
  · rintro ⟨e, he, rfl⟩
    exact ⟨e.requirement, (isLeast_requirement_of_mem_edges he).1⟩
  · rintro ⟨j, rest, hmatched⟩
    obtain ⟨o, ho, _, _⟩ := matched_cons_iff.1 hmatched
    obtain ⟨htable, rfl, ht⟩ := mem_outcomesFor.1 ho
    exact exists_edge_of_mem_table (owner_lt_of_mem_table htable) htable rfl ht

/-- The requirements of a package determine its edges. The outcomes say for every requirement once
what it was matched to. The edges ascend by primary, lead to what these matches start with, and
each gathers the requirements whose matches start with its primary. -/
theorem edges_determined (ctx : Context) (passes : Passes) (states : Array PackageState) (p : Nat) :
    (ctx.verify passes states).1.outcomes.map Outcome.toDemand = demands ctx.packages ∧
      Row.Ascending Edge.primary ((ctx.verify passes states).1.graph.edges p) ∧
      (∀ t, (∃ e ∈ (ctx.verify passes states).1.graph.edges p, e.primary = t) ↔
        ∃ j rest, (ctx.verify passes states).1.Matched p j (t :: rest)) ∧
      ∀ e ∈ (ctx.verify passes states).1.graph.edges p,
        e.Gathers (ctx.package p).requires ((ctx.verify passes states).1.Matched p) := by
  refine ⟨toDemand_table, ?_, fun _ => exists_edge_iff, fun _ => gathers_of_mem_edges⟩
  rw [(graph_verify passes states p).1]
  exact ascending_requirementGraph _ p

/-- An application that needs `ssl` in any version, then `tls`, which two of the versions provide,
and the latest version before it is installed. -/
def mergingPackages : Array Package :=
  #[{ name := "app", evr := { version := "1" },
      requires :=
        [.ofParts "ssl" (by decide) none {},
         .ofParts "tls" (by decide) none {},
         .ofParts "ssl" (by decide) (some (.exactly { version := "3" })) { prereq := true }] },
    { name := "ssl", evr := { version := "3" }, provides := [.ofParts "tls" (by decide) none {}] },
    { name := "ssl", evr := { version := "2" }, provides := [.ofParts "tls" (by decide) none {}] },
    { name := "ssl", evr := { version := "1" } }]

def mergingContext : Context where
  packages := mergingPackages
  index := .build mergingPackages none
  platform := {}
  manager := "rpm"
  strict := false

/-- Three requirements share the edge: it names the first, leads to the matches of the second, and
is a prerequisite because of the third. -/
theorem edges_determined_merging :
    (mergingContext.verify {} (Array.replicate 4 {})).1.graph.edges 0 =
        [⟨1, [2], 0, { prereq := true, multi := true }⟩] ∧
      ∃ j, IsGreatest {j | ∃ rest, (mergingContext.verify {} (Array.replicate 4 {})).1.Matched 0 j
          (1 :: rest) ∧ rest ≠ []} j ∧
        (mergingContext.verify {} (Array.replicate 4 {})).1.Matched 0 j [1, 2] := by
  have hedges : (mergingContext.verify {} (Array.replicate 4 {})).1.graph.edges 0 =
      [⟨1, [2], 0, { prereq := true, multi := true }⟩] := by cbv
  obtain ⟨_, _, _, hgathers⟩ := edges_determined mergingContext {} (Array.replicate 4 {}) 0
  rw [hedges] at hgathers
  obtain ⟨j, hj, hids⟩ := (hgathers _ (List.mem_singleton.2 rfl)).several rfl
  exact ⟨hedges, j, hj, (hids [1, 2]).2 rfl⟩

end Context

end Depcheck

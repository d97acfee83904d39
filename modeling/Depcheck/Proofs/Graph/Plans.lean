import Depcheck.Proofs.Graph.Built
import Depcheck.Proofs.Graph.Search
import Depcheck.Proofs.Lists

/-!
# Plans

Both plans list every package once and keep to the edges that they follow, those apart that their
loops skip (`plans_respect_prerequisites`); and the loops are exactly what stands in the way of a
perfect order (`plans_report_loops`).
-/

namespace Depcheck

namespace Search

variable {next : Nat → List Nat} {n : Nat}

/-- The last emitted package stands first, and every package stands before what it leads to. -/
theorem before_or_skipped (hnext : Proper next n) {p t : Nat} (ht : t ∈ next p) :
    [p, t].Sublist (all next n).emitted ∨ Skipped (all next n).loops p t := by
  have hp : p ∈ (all next n).emitted :=
    (perm_emitted_all hnext).mem_iff.2 (List.mem_range.2 (hnext.lt p t ht).1)
  exact (invariant_all hnext).ordered p hp t ht

theorem loopsExact_all (hnext : Proper next n) :
    LoopsExact (fun p t => t ∈ next p) (all next n).loops := by
  have hinv := invariant_all hnext
  have hbreaks : Acyclic fun p t => t ∈ next p ∧ ¬ Skipped (all next n).loops p t := by
    apply acyclic_of_rank fun p => (all next n).emitted.idxOf p
    rintro p t ⟨ht, hskip⟩
    have hbefore := (before_or_skipped hnext ht).resolve_right hskip
    exact idxOf_lt_of_sublist hinv.coloured.nodup hbefore
  refine ⟨hinv.reported.genuine, hinv.reported.unique, hbreaks, ?_⟩
  constructor
  · intro hnil
    simpa [hnil, Skipped] using hbreaks
  · intro hacyclic
    rw [List.eq_nil_iff_forall_not_mem]
    intro l hl
    exact (hinv.reported.genuine l hl).not_acyclic hacyclic

end Search

theorem skipped_reverse {loops : List Loop} {p t : Nat} :
    Skipped loops.reverse p t ↔ Skipped loops p t := by
  simp only [Skipped, List.mem_reverse]

theorem LoopsExact.reverse {R : Nat → Nat → Prop} {loops : List Loop} (h : LoopsExact R loops) :
    LoopsExact R loops.reverse where
  genuine := fun l hl => h.genuine l (List.mem_reverse.1 hl)
  unique := by
    rw [List.map_reverse, List.nodup_reverse]
    exact h.unique
  breaks := by
    simp only [skipped_reverse]
    exact h.breaks
  complete := by
    rw [List.reverse_eq_nil_iff]
    exact h.complete

namespace Graph

variable {n : Nat} {g : Graph} {select : Edge → Bool}

/-! ## Orders -/

theorem Tidy.proper_selected (h : g.Tidy) (select : Edge → Bool) :
    Search.Proper (g.selected select) g.size where
  nodup := h.nodup_selected
  lt := fun _ _ ht => h.selects_lt (mem_selected.1 ht)

theorem perm_order_planBy (h : g.Tidy) (select : Edge → Bool) :
    (g.planBy select).order.Perm (List.range g.size) :=
  (List.reverse_perm _).trans (Search.perm_emitted_all (h.proper_selected select))

theorem before_planBy (h : g.Tidy) {p t : Nat} (hs : g.Selects select p t) :
    [t, p].Sublist (g.planBy select).order ∨ Skipped (g.planBy select).loops p t := by
  have hmem : t ∈ g.selected select p := mem_selected.2 hs
  rcases Search.before_or_skipped (h.proper_selected select) hmem with hbefore | hskip
  · exact .inl hbefore.reverse
  · exact .inr (skipped_reverse.2 hskip)

theorem loopsExact_planBy (h : g.Tidy) (select : Edge → Bool) :
    LoopsExact (g.Selects select) (g.planBy select).loops := by
  have hrel : (fun p t => t ∈ g.selected select p) = g.Selects select := by
    funext p t
    exact propext mem_selected
  rw [← hrel]
  exact (Search.loopsExact_all (h.proper_selected select)).reverse

/-- Each plan lists every package once. Before a package it installs what the package needs before
that, and it removes a package before what it needs until then, unless a loop broke there. -/
theorem plans_respect_prerequisites (h : Built n g) :
    (g.installPlan.order.Perm (List.range n) ∧
      ∀ p, ∀ e ∈ g.edges p, e.flags.prereq = true →
        g.installPlan.order.idxOf e.primary < g.installPlan.order.idxOf p ∨
          Skipped g.installPlan.loops p e.primary) ∧
    (g.removalPlan.order.Perm (List.range n) ∧
      ∀ p, ∀ e ∈ g.edges p, e.flags.prereqUn = true →
        g.removalPlan.order.idxOf p < g.removalPlan.order.idxOf e.primary ∨
          Skipped g.removalPlan.loops p e.primary) := by
  have htidy := h.tidy
  have hinstall : g.installPlan.order.Perm (List.range n) := by
    rw [← h.size_eq]
    exact perm_order_planBy htidy _
  have hremoval : g.removalPlan.order.Perm (List.range n) := by
    rw [← h.size_eq]
    exact (List.reverse_perm _).trans (perm_order_planBy htidy _)
  refine ⟨⟨hinstall, ?_⟩, ⟨hremoval, ?_⟩⟩
  · intro p e he hflag
    have hs : g.Selects (·.flags.prereq) p e.primary := ⟨e, he, hflag, rfl⟩
    rcases before_planBy htidy hs with hbefore | hskip
    · exact .inl (idxOf_lt_of_sublist (hinstall.nodup_iff.2 List.nodup_range) hbefore)
    · exact .inr hskip
  · intro p e he hflag
    have hs : g.Selects (·.flags.prereqUn) p e.primary := ⟨e, he, hflag, rfl⟩
    rcases before_planBy htidy hs with hbefore | hskip
    · -- the removal order is read backwards, and so are its pairs
      have hback : [p, e.primary].Sublist g.removalPlan.order := hbefore.reverse
      exact .inl (idxOf_lt_of_sublist (hremoval.nodup_iff.2 List.nodup_range) hback)
    · exact .inr hskip

/-- Three packages that need each other in a ring before they are installed. The first is served by
the third as well, and the third is to be removed before the second. -/
def ringGraph : Graph :=
  let install : EdgeFlags := { prereq := true }
  let remove : EdgeFlags := { prereqUn := true }
  let first := (ofSize 3).addMulti 0 0 install 1 [2]
  let second := first.addSingle 1 0 install 2
  let third := second.addSingle 2 0 install 0
  third.addSingle 2 1 remove 1

theorem built_ringGraph : Built 3 ringGraph := by
  have hfirst : Built 3 ((ofSize 3).addMulti 0 0 { prereq := true } 1 [2]) :=
    .multi 0 0 _ 1 [2] .empty (by decide) (by decide) (by decide) (by decide)
  have hsecond := hfirst.single 1 0 { prereq := true } 2 (by decide) (by decide)
  have hthird := hsecond.single 2 0 { prereq := true } 0 (by decide) (by decide)
  exact hthird.single 2 1 { prereqUn := true } 1 (by decide) (by decide)

theorem plans_respect_prerequisites_ring :
    Built 3 ringGraph ∧
      ringGraph.installPlan.order.Perm (List.range 3) ∧
      (ringGraph.installPlan.order.idxOf 1 < ringGraph.installPlan.order.idxOf 0 ∨
        Skipped ringGraph.installPlan.loops 0 1) ∧
      ringGraph.removalPlan.order.Perm (List.range 3) ∧
      (ringGraph.removalPlan.order.idxOf 2 < ringGraph.removalPlan.order.idxOf 1 ∨
        Skipped ringGraph.removalPlan.loops 2 1) := by
  obtain ⟨⟨hinstall, hbefore⟩, ⟨hremoval, hafter⟩⟩ := plans_respect_prerequisites built_ringGraph
  refine ⟨built_ringGraph, hinstall, ?_, hremoval, ?_⟩
  · exact hbefore 0 ⟨1, [2], 0, { prereq := true, multi := true }⟩ (by decide) rfl
  · exact hafter 2 ⟨1, [], 1, { prereqUn := true }⟩ (by decide) rfl

/-! ## Loops -/

/-- Each plan reports the loops of the edges that it follows, all of them and no others. -/
theorem plans_report_loops (h : Built n g) :
    LoopsExact (g.Selects (·.flags.prereq)) g.installPlan.loops ∧
      LoopsExact (g.Selects (·.flags.prereqUn)) g.removalPlan.loops :=
  ⟨loopsExact_planBy h.tidy _, loopsExact_planBy h.tidy _⟩

/-- In the ring the edge from the third package to the first is skipped. -/
theorem plans_report_loops_ring :
    Built 3 ringGraph ∧
      ringGraph.installPlan.loops = [⟨[0, 1, 2, 0], 2⟩] ∧
      LoopsExact (ringGraph.Selects (·.flags.prereq)) [⟨[0, 1, 2, 0], 2⟩] ∧
      LoopsExact (ringGraph.Selects (·.flags.prereqUn)) [] := by
  have hinstall : ringGraph.installPlan.loops = [⟨[0, 1, 2, 0], 2⟩] := by cbv
  have hremoval : ringGraph.removalPlan.loops = [] := by cbv
  have hexact := plans_report_loops built_ringGraph
  rw [hinstall, hremoval] at hexact
  exact ⟨built_ringGraph, hinstall, hexact⟩

end Graph

end Depcheck

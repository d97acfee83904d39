import Depcheck.Proofs.Graph.Selection
import Depcheck.Proofs.PackageSet.Reachable

/-!
# Marking a selection of a set

On the graph of a run, a marking is sound whatever was marked before, the packages it lists are the
marked ones, and marking all of them again changes nothing (`marking_is_sound_and_stable`). The
marks that are dropped and the findings that stay are those of `states`, so these are kept apart
from the set.
-/

namespace Depcheck

namespace PackageSet

variable {s : PackageSet} {v : Verification} {selection : List Nat}

/-- The edges of the last run lead to packages of the set. -/
theorem Reachable.within_run (hs : s.Reachable) (hv : s.run = .ok v) : v.graph.Within s.size := by
  obtain ⟨a, ha, rfl⟩ := run_eq_ok hv
  obtain ⟨hidx, states, _, hrun⟩ := hs.invariant.knows a ha
  rw [hrun]
  exact Context.within_verify hidx

/-- The set with other states of its packages. -/
def withStates (s : PackageSet) (states : Array PackageState) : PackageSet := { s with states }

theorem mark_withStates (hv : s.run = .ok v) (states : Array PackageState) (selection : List Nat) :
    (s.withStates states).mark selection = .ok ((v.graph.mark states selection).1,
      s.withStates (v.graph.mark states selection).2) := by
  have hrun : (s.withStates states).run = .ok v := hv
  unfold mark
  rw [hrun]
  rfl

theorem mem_marked_withStates {states : Array PackageState} (hsize : states.size = s.size)
    {id : Nat} : id ∈ (s.withStates states).marked ↔ Marked states id := by
  unfold marked ids
  rw [List.mem_filter, List.mem_range]
  refine and_iff_right_of_imp fun hmarked => ?_
  have hlt : id < states.size := Marked.lt_size hmarked
  rw [hsize] at hlt
  exact hlt

theorem nodup_marked (s : PackageSet) : s.marked.Nodup := List.nodup_range.filter _

/-- Where the same packages are marked, the same are listed. -/
theorem marked_withStates_congr {states states' : Array PackageState}
    (h : ∀ id, Marked states id ↔ Marked states' id) :
    (s.withStates states).marked = (s.withStates states').marked := by
  unfold marked
  apply List.filter_congr
  intro id _
  exact Bool.eq_iff_iff.2 (h id)

/-- Marking a selection of a prepared set is possible whatever is marked, sound on the graph of the
last run, changes nothing but the marks, and lists what is marked then; marking all of that again
calls for no dependency and marks the same packages. -/
theorem marking_is_sound_and_stable (hs : s.Reachable) (hv : s.run = .ok v)
    {states : Array PackageState} (hstates : SameFindings states s.states)
    (hselection : ∀ id ∈ selection, id < s.size) :
    ∃ m after, (s.withStates states).mark selection = .ok (m, s.withStates after) ∧
      m.Sound v.graph selection states after ∧
      m.all.Perm (s.withStates after).marked ∧
      ∃ m' after', (s.withStates after).mark m.all = .ok (m', s.withStates after') ∧
        m'.byHand = m.all ∧ m'.asDependency = [] ∧
        (s.withStates after').marked = (s.withStates after).marked := by
  have hsize : states.size = s.size := by
    rw [hstates.size, hs.invariant.size_states]
    rfl
  have hlt : ∀ id ∈ selection, id < states.size := by
    rw [hsize]
    exact hselection
  have hwithin : v.graph.Within states.size := by
    rw [hsize]
    exact hs.within_run hv
  have hsound := Graph.sound_mark hwithin hlt
  have hafter : (v.graph.mark states selection).2.size = s.size := by
    rw [Graph.size_mark, hsize]
  -- what is listed is marked, so it is in the table and closed under the edges
  have hlisted : ∀ id ∈ (v.graph.mark states selection).1.all,
      id < (v.graph.mark states selection).2.size := fun id hid => (hsound.marked_iff.2 hid).lt_size
  obtain ⟨hhand, hnone, hmarked⟩ := Graph.mark_of_closed hsound.nodup hlisted hsound.closed
  refine ⟨_, _, mark_withStates hv states selection, hsound, ?_, _, _, mark_withStates hv _ _,
    hhand, hnone, ?_⟩
  · rw [List.perm_ext_iff_of_nodup hsound.nodup (nodup_marked _)]
    intro id
    rw [mem_marked_withStates hafter, hsound.marked_iff]
  · apply marked_withStates_congr
    intro id
    exact (hmarked id).trans hsound.marked_iff.symm

/-- A program that needs a transport agent, of which there are two versions. The newer one needs the
program in turn, and in a version that is not there. -/
def mailPackages : List Package :=
  [{ name := "mail", evr := { version := "1" },
     requires := [.ofParts "transport" (by decide) none {}] },
   { name := "transport", evr := { version := "8" },
     requires :=
       [.ofParts "mail" (by decide) none {},
        .ofParts "mail" (by decide) (some (.exactly { version := "2" })) {}] },
   { name := "transport", evr := { version := "3" } }]

def mailSet : PackageSet := (addAll { config := {}, platform := {} } mailPackages).prepare

theorem reachable_mailSet : mailSet.Reachable :=
  ((((Reachable.empty {} {}).add _).add _).add _).prepare

theorem mark_mailSet :
    ((mailSet.withStates (mailSet.states.map PackageState.markByHand)).mark [0, 0]).map Prod.fst =
      .ok ⟨[0], [1], [0, 1]⟩ := by
  cbv

/-- With everything marked before, the program is selected twice. The newer agent comes along, and
neither can be installed. -/
theorem marking_is_sound_and_stable_mail :
    mailSet.Reachable ∧
      SameFindings (mailSet.states.map PackageState.markByHand) mailSet.states ∧
      (∀ id ∈ [0, 0], id < mailSet.size) ∧
      ∃ v after, mailSet.run = .ok v ∧
        (⟨[0], [1], [0, 1]⟩ : Marking).Sound v.graph [0, 0]
          (mailSet.states.map PackageState.markByHand) after ∧
        [0, 1].Perm (mailSet.withStates after).marked := by
  obtain ⟨v, hv⟩ : ∃ v, mailSet.run = .ok v := ⟨_, rfl⟩
  have hstates : SameFindings (mailSet.states.map PackageState.markByHand) mailSet.states := by
    refine ⟨Array.size_map, ?_, ?_⟩
    · intro id
      exact PackageState.flag_map PackageState.unmet fun _ => rfl
    · intro id
      exact PackageState.flag_map PackageState.obsoleted fun _ => rfl
  have hselection : ∀ id ∈ [0, 0], id < mailSet.size := by
    have hsize : mailSet.size = 3 := by cbv
    rw [hsize]
    decide
  obtain ⟨m, after, hmark, hsound, hlisted, _⟩ :=
    marking_is_sound_and_stable reachable_mailSet hv hstates hselection
  have hm := mark_mailSet
  rw [hmark] at hm
  cases hm
  exact ⟨reachable_mailSet, hstates, hselection, v, after, hv, hsound, hlisted⟩

end PackageSet

end Depcheck

import Depcheck.Proofs.Index.FileConflicts
import Depcheck.Proofs.PackageSet.Arrange

/-!
# The order of loading

A prepared set depends neither on the order in which distinct builds were added, nor on how often it
is prepared, nor on the order in which the conflicts of the file index come to light
(`prepare_regardless_of_order`). The last is the one place where a run goes through a whole map and
the order of the visits could show, so it is a parameter here: finishing an index changes every bucket
for itself.
-/

namespace Depcheck

/-- An order in which the buckets of the file index are visited. -/
abbrev BucketOrder := List (Place × List Owner) → List (Place × List Owner)

namespace Context

/-- Runs the verification and visits the buckets of the file index in the given order. -/
def verifyVisiting (ctx : Context) (visit : BucketOrder) (passes : Passes)
    (states : Array PackageState) : Verification × Array PackageState :=
  let (run, final) := ctx.verify { passes with fileConflicts := false } states
  let found :=
    if passes.fileConflicts then
      FileIndex.conflictsAmong ctx.packages (visit ctx.index.files.buckets.toList)
    else []
  ({ run with problems := run.problems ++ found.map ctx.fileProblem, fileConflicts := found }, final)

/-- The order of the map is one of the orders. -/
theorem verifyVisiting_id (ctx : Context) (passes : Passes) (states : Array PackageState) :
    ctx.verifyVisiting id passes states = ctx.verify passes states := by
  unfold verifyVisiting verify
  simp [FileIndex.conflicts_eq]

theorem verifyVisiting_congr {ctx : Context} {visit visit' : BucketOrder}
    (h : FileIndex.conflictsAmong ctx.packages (visit ctx.index.files.buckets.toList) =
      FileIndex.conflictsAmong ctx.packages (visit' ctx.index.files.buckets.toList))
    (passes : Passes) (states : Array PackageState) :
    ctx.verifyVisiting visit passes states = ctx.verifyVisiting visit' passes states := by
  unfold verifyVisiting
  rw [h]

end Context

namespace PackageSet

open Package (SameBuild)

variable {s t : PackageSet} {ps : List Package} {visit : BucketOrder}

/-- Verifies the set and visits the buckets of the file index in the given order. -/
def verifyVisiting (visit : BucketOrder) (s : PackageSet) (index : Index) : PackageSet :=
  let (run, states) := (s.context index).verifyVisiting visit s.config.passes s.states
  { s with states, analysis := some ⟨index, run⟩ }

/-- Prepares the set and visits the buckets of the file index in the given order. -/
def prepareVisiting (visit : BucketOrder) (s : PackageSet) : PackageSet :=
  s.arranged.verifyVisiting visit s.arranged.freshIndex

theorem prepareVisiting_id (s : PackageSet) : s.prepareVisiting id = s.prepare := by
  rw [prepareVisiting, verifyVisiting, Context.verifyVisiting_id]
  rfl

/-! ## The three orders -/

/-- Where no two packages are the same build, the order in which they come does not matter. -/
theorem arrange_perm (unique : Bool) {ps' : List Package} (hperm : ps.Perm ps')
    (hdistinct : ps.Pairwise fun p q => ¬p.SameBuild q) : arrange unique ps = arrange unique ps' := by
  have hsort : sorted ps = sorted ps' := by
    refine mergeSort_eq_of_perm hperm (hdistinct.imp ?_)
    intro p q hpq heq
    exact hpq (Package.compareNewestFirst_eq_iff.1 heq)
  rw [arrange_eq, arrange_eq, hsort]

theorem arrange_arrange (unique : Bool) (ps : List Package) :
    arrange unique (arrange unique ps) = arrange unique ps := by
  have hsorted : sorted (arrange unique ps) = arrange unique ps :=
    List.mergeSort_of_pairwise ((sorted_pairwise ps).sublist (eraseRepsBy_sublist _ (sorted ps)))
  rw [arrange_eq, hsorted]
  cases unique with
  | false =>
    refine eraseRepsBy_eq_self isRepeat_false_iff ((arrange_false_pairwise ps).imp ?_)
    intro p q hlt heq
    rw [heq] at hlt
    cases hlt
  | true =>
    refine eraseRepsBy_eq_self isRepeat_true_iff ((arrange_true_pairwise ps).imp ?_)
    intro p q hlt heq
    exact hlt.ne (Package.compareName_eq_iff.1 heq)

/-- What is prepared is settled by the configuration, the platform and the arranged packages. -/
theorem arranged_congr (hconfig : s.config = t.config) (hplatform : s.platform = t.platform)
    (hpackages : arrange s.config.uniqueNames s.packages.toList =
      arrange t.config.uniqueNames t.packages.toList) : s.arranged = t.arranged := by
  unfold arranged
  rw [hpackages, hconfig, hplatform]

theorem arranged_prepare (s : PackageSet) : s.prepare.arranged = s.arranged :=
  arranged_congr rfl rfl (arrange_arrange s.config.uniqueNames s.packages.toList)

theorem prepareVisiting_eq_prepare (hvisit : ∀ buckets, (visit buckets).Perm buckets)
    (hfiles : ∀ p ∈ s.arranged.packages, p.FilesAbsolute) : s.prepareVisiting visit = s.prepare := by
  have hplace : ∀ place, ∀ o ∈ s.arranged.freshIndex.files.owners place, Path.IsPlace place :=
    fun place o => Index.isPlace_of_mem_owners hfiles
  have hfound : FileIndex.conflictsAmong s.arranged.packages
      (visit s.arranged.freshIndex.files.buckets.toList) =
        FileIndex.conflictsAmong s.arranged.packages s.arranged.freshIndex.files.buckets.toList :=
    FileIndex.conflictsAmong_eq_conflicts hplace (hvisit _)
  rw [← prepareVisiting_id, prepareVisiting, prepareVisiting, verifyVisiting, verifyVisiting,
    Context.verifyVisiting_congr hfound]
  rfl

/-- Preparing gives the same set whatever the order in which packages with absolute paths were added,
distinct builds in another order or any list once more, and whatever the order of the visits. -/
theorem prepare_regardless_of_order (config : Config) (platform : Oracle) (ps : List Package)
    (hfiles : ∀ p ∈ ps, p.FilesAbsolute) (visit : BucketOrder)
    (hvisit : ∀ buckets, (visit buckets).Perm buckets) :
    let added := addAll { config, platform } ps
    added.prepareVisiting visit = added.prepare ∧
      (ps.Pairwise (fun p q => ¬p.SameBuild q) →
        ∀ ps' : List Package, ps.Perm ps' →
          (addAll { config, platform } ps').prepareVisiting visit = added.prepare) ∧
      added.prepare.prepareVisiting visit = added.prepare := by
  intro added
  have harranged : ∀ p ∈ added.arranged.packages, p.FilesAbsolute := by
    intro p hp
    have hmem : p ∈ arrange config.uniqueNames ps := by
      rw [← packages_prepare_addAll config platform ps]
      exact Array.mem_toList_iff.2 hp
    exact hfiles p (mem_of_mem_arrange hmem)
  have hsame : ∀ t : PackageSet, t.arranged = added.arranged →
      t.prepareVisiting visit = added.prepare := by
    intro t ht
    rw [prepareVisiting, ht]
    exact prepareVisiting_eq_prepare hvisit harranged
  refine ⟨hsame added rfl, ?_, hsame added.prepare (arranged_prepare added)⟩
  intro hdistinct ps' hperm
  apply hsame
  obtain ⟨hpackages, hconfig, hplatform⟩ := addAll_eq { config, platform } ps
  obtain ⟨hpackages', hconfig', hplatform'⟩ := addAll_eq { config, platform } ps'
  apply arranged_congr
  · rw [hconfig, hconfig']
  · rw [hplatform, hplatform']
  · rw [hconfig, hconfig', hpackages, hpackages']
    simpa using (arrange_perm config.uniqueNames hperm hdistinct).symm

/-- Two packages that share two files, and one that installs a third. -/
def sharingPackages : List Package :=
  [{ name := "b", evr := { version := "1" }, files := .ofPaths ["/e/x", "/y"] },
   { name := "c", evr := { version := "1" }, files := .ofPaths ["/x"] },
   { name := "a", evr := { version := "1" }, files := .ofPaths ["/y", "/e/x"] }]

theorem prepare_regardless_of_order_sharing :
    let empty : PackageSet := { config := { passes := { fileConflicts := true } }, platform := {} }
    (∀ p ∈ sharingPackages, p.FilesAbsolute) ∧
      (∀ buckets, (List.reverse buckets : List (Place × List Owner)).Perm buckets) ∧
      sharingPackages.Pairwise (fun p q => ¬p.SameBuild q) ∧
      sharingPackages.Perm sharingPackages.reverse ∧
      (empty.addAll sharingPackages.reverse).prepareVisiting List.reverse =
        (empty.addAll sharingPackages).prepare ∧
      (empty.addAll sharingPackages).prepare.run.map Verification.fileConflicts =
        .ok [⟨"/e/x", [0, 1]⟩, ⟨"/y", [0, 1]⟩] := by
  intro empty
  have hfiles : ∀ p ∈ sharingPackages, p.FilesAbsolute := by
    simp only [sharingPackages, List.forall_mem_cons]
    refine ⟨⟨_, rfl, by decide⟩, ⟨_, rfl, by decide⟩, ⟨_, rfl, by decide⟩, ?_⟩
    intro p hp
    cases hp
  have hdistinct : sharingPackages.Pairwise fun p q => ¬p.SameBuild q := by decide
  have hperm : sharingPackages.Perm sharingPackages.reverse := (List.reverse_perm _).symm
  refine ⟨hfiles, List.reverse_perm, hdistinct, hperm, ?_, ?_⟩
  · exact (prepare_regardless_of_order { passes := { fileConflicts := true } } {} sharingPackages
      hfiles List.reverse List.reverse_perm).2.1 hdistinct _ hperm
  · cbv

end PackageSet

end Depcheck

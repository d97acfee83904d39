import Depcheck.Proofs.Index.Restriction
import Depcheck.Proofs.Verification.Outcomes
import Depcheck.Verification.Run

/-!
# Verification on another index

A run asks the file index for the owners of required paths and, where it is told to, for the paths that
several packages install. The first are the same on every index that covers the directories of the
required paths (`verify_reindexed`), and the second are kept apart from all else that a run finds
(`withoutFileConflicts_verify`).
-/

namespace Depcheck

/-- Both indexes know the same owners of the path that `req` names, if it names one. -/
def Index.AgreesOn (i j : Index) (req : Capability) : Prop :=
  req.isPath = true → i.files.fileOwners req.name = j.files.fileOwners req.name ∧
    i.files.dirOwners req.name = j.files.dirOwners req.name

/-- Is the problem a path that several packages install? -/
def Problem.isFileConflict : Problem → Bool
  | .fileConflict .. => true
  | _ => false

/-- All that a run found but file conflicts. -/
def Verification.withoutFileConflicts (v : Verification) : Verification :=
  { v with problems := v.problems.filter (!·.isFileConflict), fileConflicts := [] }

/-- The same passes but the one over the file conflicts. -/
def Passes.withoutFileConflicts (passes : Passes) : Passes := { passes with fileConflicts := false }

namespace Context

variable {ctx : Context} {index : Index} {req : Capability}

/-- The same packages under another index. -/
def reindexed (ctx : Context) (index : Index) : Context := { ctx with index }

/-! ## Resolution -/

theorem candidates?_reindexed (hprovided : index.provided = ctx.index.provided)
    (hfiles : index.AgreesOn ctx.index req) :
    (ctx.reindexed index).candidates? req = ctx.candidates? req := by
  unfold candidates?
  simp only [reindexed, hprovided]
  cases ctx.index.provided.lookup? req.name with
  | some ids => rfl
  | none =>
    cases hpath : req.isPath with
    | false => rfl
    | true =>
      obtain ⟨hfile, hdir⟩ := hfiles hpath
      rw [hfile, hdir]

/-- The index is asked for the candidates and nothing else. -/
theorem resolve_reindexed (h : (ctx.reindexed index).candidates? req = ctx.candidates? req) :
    (ctx.reindexed index).resolve req = ctx.resolve req := by
  have hadmitted : (ctx.reindexed index).admitted? req = ctx.admitted? req := by
    rw [admitted?, h]
    rfl
  have hlookup : (ctx.reindexed index).lookup req = ctx.lookup req := by
    rw [lookup, hadmitted]
    rfl
  rw [resolve, hlookup]
  rfl

theorem resolveAll_reindexed {ds : List Demand}
    (h : ∀ d ∈ ds, (ctx.reindexed index).resolve d.requirement = ctx.resolve d.requirement)
    (memo : Memo (Resolution × List RpmlibViolation)) :
    (ctx.reindexed index).resolveAll memo ds = ctx.resolveAll memo ds := by
  induction ds generalizing memo with
  | nil => rfl
  | cons d rest ih =>
    obtain ⟨hd, hrest⟩ := List.forall_mem_cons.1 h
    rw [resolveAll, resolveAll, hd]
    simp only [ih hrest]

theorem outcomes_reindexed (hprovided : index.provided = ctx.index.provided)
    (hfiles : ∀ d ∈ demands ctx.packages, index.AgreesOn ctx.index d.requirement) :
    (ctx.reindexed index).outcomes = ctx.outcomes :=
  resolveAll_reindexed (fun d hd => resolve_reindexed (candidates?_reindexed hprovided (hfiles d hd)))
    {}

/-! ## A whole run -/

theorem addConflicts_reindexed (hprovided : index.provided = ctx.index.provided) (g : Graph) :
    (ctx.reindexed index).addConflicts g = ctx.addConflicts g := by
  have hhits : (ctx.reindexed index).conflictHits = ctx.conflictHits := by
    unfold conflictHits hitsOf
    show ctx.packages.toList.zipIdx.flatMap _ = _
    simp only [reindexed, hprovided]
    rfl
  rw [addConflicts, hhits]
  rfl

theorem verify_reindexed (hprovided : index.provided = ctx.index.provided)
    (hfiles : ∀ d ∈ demands ctx.packages, index.AgreesOn ctx.index d.requirement) (passes : Passes)
    (states : Array PackageState) :
    (ctx.reindexed index).verify passes.withoutFileConflicts states =
      ctx.verify passes.withoutFileConflicts states := by
  unfold verify
  rw [outcomes_reindexed hprovided hfiles]
  simp only [addConflicts_reindexed hprovided]
  rfl

theorem filter_map_of_not_isFileConflict {α : Type} {f : α → Problem}
    (hf : ∀ a, (f a).isFileConflict = false) (as : List α) :
    (as.map f).filter (!·.isFileConflict) = as.map f := by
  rw [List.filter_eq_self, List.forall_mem_map]
  intro a _
  rw [hf, Bool.not_false]

/-- Looking for file conflicts changes nothing else of a run. -/
theorem withoutFileConflicts_verify (ctx : Context) (passes : Passes)
    (states : Array PackageState) :
    (ctx.verify passes states).1.withoutFileConflicts =
        (ctx.verify passes.withoutFileConflicts states).1 ∧
      (ctx.verify passes states).2 = (ctx.verify passes.withoutFileConflicts states).2 := by
  refine ⟨?_, rfl⟩
  have hunmet (us : List (String × Unmet)) :
      (us.map fun entry => Problem.unmet entry.1 entry.2).filter (!·.isFileConflict) =
        us.map fun entry => .unmet entry.1 entry.2 :=
    filter_map_of_not_isFileConflict (fun _ => rfl) us
  have hviolations (vs : List RpmlibViolation) :
      (vs.map ctx.violationProblem).filter (!·.isFileConflict) = vs.map ctx.violationProblem :=
    filter_map_of_not_isFileConflict (fun _ => rfl) vs
  have hloops (ls : List Loop) :
      (ls.map ctx.loopProblem).filter (!·.isFileConflict) = ls.map ctx.loopProblem :=
    filter_map_of_not_isFileConflict (fun _ => rfl) ls
  have hfiles (cs : List FileConflict) :
      (cs.map ctx.fileProblem).filter (!·.isFileConflict) = [] := by
    rw [List.filter_eq_nil_iff, List.forall_mem_map]
    exact fun _ _ => Bool.false_ne_true
  unfold verify Verification.withoutFileConflicts
  simp only [List.filter_append, hunmet, hviolations, hloops, hfiles]
  rfl

end Context

end Depcheck

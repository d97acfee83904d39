import Mathlib
import Depcheck.PackageSet
import Depcheck.Proofs.Package.Order
import Depcheck.Proofs.Sorting

/-!
# What preparing keeps

Preparing a set leaves the first package of every build, in order; or, when names are to be unique,
the newest package of every name (`prepare_keeps`).
-/

namespace Depcheck

namespace PackageSet

open Package (SameBuild compareNewestFirst compareName compareArch)

variable {ps : List Package} {p q : Package}

/-! ## The packages of a prepared set -/

theorem addAll_eq (s : PackageSet) (ps : List Package) :
    (s.addAll ps).packages = s.packages ++ ps ∧ (s.addAll ps).config = s.config ∧
      (s.addAll ps).platform = s.platform := by
  unfold addAll
  induction ps generalizing s with
  | nil => exact ⟨Array.append_empty.symm, rfl, rfl⟩
  | cons p rest ih =>
    obtain ⟨hpackages, hconfig, hplatform⟩ := ih (s.add p)
    rw [List.foldl_cons, hpackages, hconfig, hplatform]
    refine ⟨?_, rfl, rfl⟩
    show (s.packages.push p) ++ rest = s.packages ++ (p :: rest)
    simp

/-- The set with its packages in order, not yet verified. -/
def arranged (s : PackageSet) : PackageSet :=
  let packages := (arrange s.config.uniqueNames s.packages.toList).toArray
  { s with
    packages
    states := Array.replicate packages.size {}
    dependencyDirs := Depcheck.dependencyDirs packages
    analysis := none }

/-- The indexes on which an arranged set is verified. -/
def freshIndex (s : PackageSet) : Index :=
  .build s.packages (if s.config.passes.fileConflicts then none else some s.dependencyDirs)

theorem prepare_eq (s : PackageSet) : s.prepare = s.arranged.verifyWith s.arranged.freshIndex := rfl

theorem packages_prepare (s : PackageSet) :
    s.prepare.packages.toList = arrange s.config.uniqueNames s.packages.toList := rfl

theorem packages_prepare_addAll (config : Config) (platform : Oracle) (ps : List Package) :
    (addAll { config, platform } ps).prepare.packages.toList = arrange config.uniqueNames ps := by
  obtain ⟨hpackages, hconfig, _⟩ := addAll_eq { config, platform } ps
  rw [packages_prepare, hpackages, hconfig]
  simp

/-! ## Repeats -/

theorem isRepeat_false_iff (p q : Package) :
    isRepeat false p q = true ↔ p.compareNewestFirst q = .eq := by
  have hswap : q.compareNameEvr p = .eq ↔ p.compareNameEvr q = .eq :=
    ⟨Std.OrientedCmp.eq_symm, Std.OrientedCmp.eq_symm⟩
  rw [Package.compareNewestFirst_eq_iff, isRepeat, if_neg Bool.false_ne_true, Bool.and_eq_true,
    beq_iff_eq, beq_iff_eq, hswap, Package.compareNameEvr, Ordering.then_eq_eq,
    Package.compareName_eq_iff, SameBuild, and_assoc, eq_comm (a := q.arch)]

theorem isRepeat_true_iff (p q : Package) : isRepeat true p q = true ↔ p.compareName q = .eq := by
  rw [Package.compareName_eq_iff, isRepeat, if_pos rfl, beq_iff_eq, eq_comm]

theorem classOf_newestFirst (p : Package) (ps : List Package) :
    classOf compareNewestFirst p ps = ps.filter fun q => p.SameBuild q := by
  unfold classOf
  congr 1
  funext q
  rw [Bool.eq_iff_iff, beq_iff_eq, decide_eq_true_iff, Package.compareNewestFirst_eq_iff]

/-- The packages in order, repeats included. -/
def sorted (ps : List Package) : List Package :=
  ps.mergeSort fun p q => (p.compareNewestFirst q).isLE

theorem arrange_eq (unique : Bool) (ps : List Package) :
    arrange unique ps = (sorted ps).eraseRepsBy (isRepeat unique) := rfl

theorem classOf_sorted (p : Package) (ps : List Package) :
    classOf compareNewestFirst p (sorted ps) = ps.filter fun q => p.SameBuild q := by
  rw [← classOf_newestFirst]
  exact classOf_mergeSort p ps

theorem sorted_pairwise (ps : List Package) :
    (sorted ps).Pairwise fun p q => (p.compareNewestFirst q).isLE = true :=
  pairwise_mergeSort_isLE ps

theorem mem_of_mem_arrange {unique : Bool} (h : q ∈ arrange unique ps) : q ∈ ps :=
  List.mem_mergeSort.1 ((eraseRepsBy_sublist _ (sorted ps)).subset h)

/-! ## One package of every build -/

theorem arrange_false_pairwise (ps : List Package) :
    (arrange false ps).Pairwise fun p q => p.compareNewestFirst q = .lt :=
  pairwise_lt_eraseRepsBy isRepeat_false_iff (sorted_pairwise ps)

/-- The one package that is left of a build is the first that was added. -/
theorem exists_survivor (hp : p ∈ ps) :
    ∃ q, ps.find? (fun q => p.SameBuild q) = some q ∧
      (arrange false ps).filter (fun q => p.SameBuild q) = [q] := by
  have hclass : (arrange false ps).filter (fun q => p.SameBuild q) =
      (ps.filter fun q => p.SameBuild q).take 1 := by
    rw [← classOf_newestFirst, arrange_eq,
      classOf_eraseRepsBy isRepeat_false_iff (sorted_pairwise ps), classOf_sorted]
  have hself : p ∈ ps.filter fun q => p.SameBuild q := by
    rw [← classOf_newestFirst]
    exact mem_classOf.2 ⟨hp, Std.ReflCmp.compare_self⟩
  obtain ⟨q, rest, hrow⟩ := List.exists_cons_of_ne_nil (List.ne_nil_of_mem hself)
  rw [hrow] at hclass
  refine ⟨q, ?_, hclass⟩
  rw [← List.head?_filter, hrow]
  rfl

/-! ## One package of every name -/

/-- The newest package of its name, for the smallest architecture among the newest, and the first
of this build that was added. -/
structure IsNewest (ps : List Package) (q : Package) : Prop where
  mem : q ∈ ps
  version : ∀ p ∈ ps, p.name = q.name → (p.compareEvr q).isLE = true
  arch : ∀ p ∈ ps, p.name = q.name → p.compareEvr q = .eq → (compareArch q.arch p.arch).isLE = true
  earliest : ps.find? (fun p => q.SameBuild p) = some q

theorem sorted_pairwise_name (ps : List Package) :
    (sorted ps).Pairwise fun p q => (p.compareName q).isLE = true :=
  (sorted_pairwise ps).imp Package.compareName_isLE_of_newestFirst

theorem arrange_true_pairwise (ps : List Package) :
    (arrange true ps).Pairwise fun p q => p.name < q.name := by
  refine (pairwise_lt_eraseRepsBy isRepeat_true_iff (sorted_pairwise_name ps)).imp ?_
  intro p q hlt
  rw [Package.compareName] at hlt
  exact compare_lt_iff_lt.1 hlt

theorem classOf_arrange_true (q : Package) (ps : List Package) :
    classOf compareName q (arrange true ps) = (classOf compareName q (sorted ps)).take 1 :=
  classOf_eraseRepsBy isRepeat_true_iff (sorted_pairwise_name ps) q

theorem exists_name_arrange_true (hp : p ∈ ps) : ∃ q ∈ arrange true ps, q.name = p.name := by
  have hself : p ∈ classOf compareName p (sorted ps) :=
    mem_classOf.2 ⟨List.mem_mergeSort.2 hp, Std.ReflCmp.compare_self⟩
  obtain ⟨q, rest, hrow⟩ := List.exists_cons_of_ne_nil (List.ne_nil_of_mem hself)
  have hq : q ∈ classOf compareName p (arrange true ps) := by
    rw [classOf_arrange_true, hrow]
    exact List.mem_cons_self
  obtain ⟨hmem, hname⟩ := mem_classOf.1 hq
  exact ⟨q, hmem, (Package.compareName_eq_iff.1 hname).symm⟩

/-- What is kept stands before all other packages of its name. -/
theorem classOf_sorted_of_mem (hq : q ∈ arrange true ps) :
    ∃ rest, classOf compareName q (sorted ps) = q :: rest := by
  have hself : q ∈ (classOf compareName q (sorted ps)).take 1 := by
    rw [← classOf_arrange_true]
    exact mem_classOf.2 ⟨hq, Std.ReflCmp.compare_self⟩
  cases hc : classOf compareName q (sorted ps) with
  | nil =>
    rw [hc] at hself
    cases hself
  | cons first rest =>
    rw [hc] at hself
    exact ⟨rest, by rw [List.mem_singleton.1 hself]⟩

theorem newestFirst_of_mem (hq : q ∈ arrange true ps) (hp : p ∈ ps) (hname : p.name = q.name) :
    (q.compareNewestFirst p).isLE = true := by
  obtain ⟨rest, hrow⟩ := classOf_sorted_of_mem hq
  have hmem : p ∈ q :: rest := by
    rw [← hrow]
    exact mem_classOf.2 ⟨List.mem_mergeSort.2 hp, Package.compareName_eq_iff.2 hname.symm⟩
  rcases List.mem_cons.1 hmem with rfl | hmem
  · have hself : p.compareNewestFirst p = .eq := Std.ReflCmp.compare_self
    rw [hself]
    rfl
  · have hclass : (q :: rest).Pairwise fun p q => (p.compareNewestFirst q).isLE = true := by
      rw [← hrow]
      exact (sorted_pairwise ps).filter _
    exact (List.pairwise_cons.1 hclass).1 p hmem

/-- A build is a part of its name, and sorting keeps the order in it. -/
theorem classOf_classOf_sorted (q : Package) (ps : List Package) :
    classOf compareNewestFirst q (classOf compareName q (sorted ps)) =
      ps.filter fun p => q.SameBuild p := by
  rw [← classOf_sorted]
  unfold classOf
  rw [List.filter_filter]
  apply List.filter_congr
  intro p _
  rw [Bool.eq_iff_iff, Bool.and_eq_true, beq_iff_eq, beq_iff_eq,
    Package.compareNewestFirst_eq_iff, Package.compareName_eq_iff]
  exact and_iff_left_of_imp fun h => h.1

theorem isNewest_of_mem_arrange_true (hq : q ∈ arrange true ps) : IsNewest ps q := by
  refine ⟨mem_of_mem_arrange hq, ?_, ?_, ?_⟩
  · intro p hp hname
    exact (Package.newer_of_newestFirst (newestFirst_of_mem hq hp hname) hname.symm).1
  · intro p hp hname heq
    exact (Package.newer_of_newestFirst (newestFirst_of_mem hq hp hname) hname.symm).2 heq
  · obtain ⟨rest, hrow⟩ := classOf_sorted_of_mem hq
    have hbuild := classOf_classOf_sorted q ps
    rw [hrow, classOf_cons_of_eq Std.ReflCmp.compare_self] at hbuild
    rw [← List.head?_filter, ← hbuild]
    rfl

/-- Preparing keeps the first package of every build, in order; with unique names it keeps the newest
package of every name. -/
theorem prepare_keeps (config : Config) (platform : Oracle) (ps : List Package) :
    let arena := (addAll { config, platform } ps).prepare.packages.toList
    (config.uniqueNames = false →
      arena.Pairwise (fun p q => p.compareNewestFirst q = .lt) ∧ (∀ q ∈ arena, q ∈ ps) ∧
      ∀ p ∈ ps, ∃ q, ps.find? (fun q => p.SameBuild q) = some q ∧
        arena.filter (fun q => p.SameBuild q) = [q]) ∧
    (config.uniqueNames = true →
      arena.Pairwise (fun p q => p.name < q.name) ∧ (∀ p ∈ ps, ∃ q ∈ arena, q.name = p.name) ∧
      ∀ q ∈ arena, IsNewest ps q) := by
  intro arena
  have harena : arena = arrange config.uniqueNames ps := packages_prepare_addAll config platform ps
  rw [harena]
  constructor
  · intro hall
    rw [hall]
    exact ⟨arrange_false_pairwise ps, fun q => mem_of_mem_arrange, fun p => exists_survivor⟩
  · intro hunique
    rw [hunique]
    exact ⟨arrange_true_pairwise ps, fun p => exists_name_arrange_true,
      fun q => isNewest_of_mem_arrange_true⟩

/-- One version in two spellings, and the newest version for two architectures. -/
def spelledPackages : List Package :=
  [{ name := "b", evr := { version := "1" } },
   { name := "a", evr := { version := "1.0" } },
   { name := "a", evr := { version := "2" }, arch := some "x86_64" },
   { name := "a", evr := { epoch := some 0, version := "1.00" } },
   { name := "a", evr := { version := "2" }, arch := some "i686" }]

theorem prepare_keeps_spelled :
    (({} : Config).uniqueNames = false ∧
      ({ name := "a", evr := { epoch := some 0, version := "1.00" } } : Package) ∈
        spelledPackages ∧
      ((addAll { config := {}, platform := {} } spelledPackages).prepare.packages.toList.filter
          fun q => SameBuild { name := "a", evr := { epoch := some 0, version := "1.00" } } q) =
        [{ name := "a", evr := { version := "1.0" } }]) ∧
    (({ uniqueNames := true } : Config).uniqueNames = true ∧
      IsNewest spelledPackages
        { name := "a", evr := { version := "2" }, arch := some "i686" }) := by
  refine ⟨⟨rfl, by decide, ?_⟩, rfl, ?_⟩
  · obtain ⟨q, hfirst, hkept⟩ := ((prepare_keeps {} {} spelledPackages).1 rfl).2.2
      { name := "a", evr := { epoch := some 0, version := "1.00" } } (by decide)
    have hq : spelledPackages.find? (fun q => SameBuild
        { name := "a", evr := { epoch := some 0, version := "1.00" } } q) =
          some { name := "a", evr := { version := "1.0" } } := by
      cbv
    rw [hq] at hfirst
    cases hfirst
    exact hkept
  · refine ((prepare_keeps { uniqueNames := true } {} spelledPackages).2 rfl).2.2 _ ?_
    have harena : (addAll { config := { uniqueNames := true }, platform := {} }
        spelledPackages).prepare.packages.toList =
          [{ name := "a", evr := { version := "2" }, arch := some "i686" },
           { name := "b", evr := { version := "1" } }] := by
      cbv
    rw [harena]
    exact List.mem_cons_self

end PackageSet

end Depcheck

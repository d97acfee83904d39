import Mathlib.Data.List.Induction
import Mathlib.Tactic.ByContra
import Depcheck.Proofs.Lists
import Depcheck.Proofs.Package.Paths

/-!
# Files in the order of their first use

A path names an entry of a directory, unless it is empty or has nothing but slashes. The file list
of some paths is read off what they name (`dirs_ofPaths`): each directory stands where it is first
used, and each entry of it where it is first named there.
-/

namespace Depcheck

namespace Path

/-- The directory in which the path names an entry, and the entry. -/
def entry? (path : String) : Option (String × FileEntry) :=
  let (dir, base) := split path
  if base = "" then none else some (dir, ⟨base, namesDirectory path⟩)

/-- The only path that ends in a slash and is not that of a directory is the root, which names no
entry. -/
theorem namesDirectory_iff {path : String} (h : (split path).2 ≠ "") :
    namesDirectory path = true ↔ path.toList.getLast? = some '/' := by
  rw [namesDirectory, Bool.and_eq_true, decide_eq_true_eq, beq_iff_eq, and_iff_right_iff_imp]
  intro hlast
  by_contra hlen
  have hroot : path.toList = ['/'] := by
    obtain ⟨init, htext⟩ := List.getLast?_eq_some_iff.1 hlast
    rw [htext, List.length_append, List.length_singleton] at hlen
    obtain rfl : init = [] := List.length_eq_zero_iff.1 (by omega)
    exact htext
  rw [split, hroot] at h
  exact h rfl

end Path

namespace FileList

variable {dir : String} {e : FileEntry} {uses : List (String × FileEntry)}

theorem add_eq (files : FileList) (path : String) :
    files.add path =
      (Path.entry? path).elim files fun (dir, e) => ⟨addTo dir e files.dirs⟩ := by
  unfold add Path.entry?
  dsimp only
  split <;> rfl

/-- The directories in front that are called otherwise stay as they are. -/
theorem addTo_append {dirs : List Directory} (h : dir ∉ dirs.map Directory.name)
    (behind : List Directory) : addTo dir e (dirs ++ behind) = dirs ++ addTo dir e behind := by
  induction dirs with
  | nil => rfl
  | cons d rest ih =>
    rw [List.map_cons, List.mem_cons, not_or] at h
    rw [List.cons_append, addTo, if_neg (Ne.symm h.1), ih h.2, List.cons_append]

theorem addTo_cons_of_eq {d : Directory} (h : d.name = dir) (behind : List Directory) :
    addTo dir e (d :: behind) = d.add e :: behind := by
  rw [addTo, if_pos h]

theorem ofPaths_concat (paths : List String) (path : String) :
    ofPaths (paths ++ [path]) = (ofPaths paths).add path := by
  rw [ofPaths, List.foldl_concat, ← ofPaths]

/-- What the paths name, in their order. -/
def named (paths : List String) : List (String × FileEntry) := paths.filterMap Path.entry?

/-- What is named in a directory, in the order of the uses. -/
def namedIn (uses : List (String × FileEntry)) (dir : String) : List FileEntry :=
  (uses.filter fun use => use.1 = dir).map Prod.snd

/-- The directory with what is named in it, each entry where it comes first. -/
def group (uses : List (String × FileEntry)) (dir : String) : Directory :=
  ⟨dir, (namedIn uses dir).eraseDups⟩

/-- The directories that are used, each where it comes first. -/
def grouped (uses : List (String × FileEntry)) : List Directory :=
  (uses.map Prod.fst).eraseDups.map (group uses)

@[simp] theorem name_group (uses : List (String × FileEntry)) (dir : String) :
    (group uses dir).name = dir := rfl

theorem map_name_map_group (uses : List (String × FileEntry)) (names : List String) :
    (names.map (group uses)).map Directory.name = names := by
  rw [List.map_map]
  exact List.map_id names

theorem named_concat (paths : List String) (path : String) :
    named (paths ++ [path]) = named paths ++ (Path.entry? path).toList := by
  rw [named, List.filterMap_append]
  cases h : Path.entry? path <;> simp [named, h]

theorem namedIn_eq_nil_iff : namedIn uses dir = [] ↔ dir ∉ uses.map Prod.fst := by
  rw [namedIn, List.map_eq_nil_iff, List.filter_eq_nil_iff, List.mem_map]
  simp only [decide_eq_true_eq]
  constructor
  · rintro h ⟨use, hmem, hdir⟩
    exact h use hmem hdir
  · intro h use hmem hdir
    exact h ⟨use, hmem, hdir⟩

theorem group_concat_self : group (uses ++ [(dir, e)]) dir = (group uses dir).add e := by
  have hnamed : namedIn (uses ++ [(dir, e)]) dir = namedIn uses dir ++ [e] := by
    simp [namedIn]
  rw [group, hnamed, eraseDups_concat, Directory.add]
  simp only [group, List.mem_eraseDups]
  split <;> rfl

theorem group_concat_of_ne {other : String} (h : other ≠ dir) :
    group (uses ++ [(dir, e)]) other = group uses other := by
  simp [group, namedIn, h.symm]

theorem map_group_concat_of_not_mem {names : List String} (h : dir ∉ names) :
    names.map (group (uses ++ [(dir, e)])) = names.map (group uses) :=
  List.map_congr_left fun _ hname => group_concat_of_ne (ne_of_mem_of_not_mem hname h)

/-- One more use changes the group of its directory alone. -/
theorem addTo_map_group {names : List String} (hnodup : names.Nodup) (hdir : dir ∈ names) :
    addTo dir e (names.map (group uses)) = names.map (group (uses ++ [(dir, e)])) := by
  obtain ⟨before, behind, rfl⟩ := List.append_of_mem hdir
  obtain ⟨_, hbehind, hapart⟩ := List.nodup_append.1 hnodup
  have hbefore : dir ∉ before := fun h => hapart dir h dir List.mem_cons_self rfl
  have hnames : dir ∉ (before.map (group uses)).map Directory.name := by
    rwa [map_name_map_group]
  rw [List.map_append, List.map_cons, addTo_append hnames, addTo_cons_of_eq (name_group uses dir),
    List.map_append, List.map_cons, group_concat_self, map_group_concat_of_not_mem hbefore,
    map_group_concat_of_not_mem (List.nodup_cons.1 hbehind).1]

theorem names_grouped (uses : List (String × FileEntry)) :
    (grouped uses).map Directory.name = (uses.map Prod.fst).eraseDups :=
  map_name_map_group uses _

theorem grouped_concat (uses : List (String × FileEntry)) (dir : String) (e : FileEntry) :
    grouped (uses ++ [(dir, e)]) = addTo dir e (grouped uses) := by
  rw [grouped, List.map_append, List.map_singleton, eraseDups_concat]
  by_cases hdir : dir ∈ uses.map Prod.fst
  · rw [if_pos hdir, grouped, addTo_map_group (nodup_eraseDups _) (List.mem_eraseDups.2 hdir)]
  · have hnew : dir ∉ (uses.map Prod.fst).eraseDups := mt List.mem_eraseDups.1 hdir
    have hfirst : group (uses ++ [(dir, e)]) dir = ⟨dir, [e]⟩ := by
      rw [group_concat_self, group, namedIn_eq_nil_iff.2 hdir]
      rfl
    rw [if_neg hdir, List.map_append, List.map_singleton, map_group_concat_of_not_mem hnew, hfirst,
      ← List.append_nil (grouped uses), addTo_append (by rwa [names_grouped])]
    rfl

/-- The directories of a file list are those that its paths use, each with what is named in it. -/
theorem dirs_ofPaths (paths : List String) : (ofPaths paths).dirs = grouped (named paths) := by
  induction paths using List.reverseRecOn with
  | nil => rfl
  | append_singleton paths path ih =>
    rw [ofPaths_concat, add_eq, named_concat]
    cases Path.entry? path with
    | none => rw [Option.toList_none, List.append_nil, Option.elim_none, ih]
    | some use =>
      obtain ⟨dir, e⟩ := use
      rw [Option.toList_some, Option.elim_some, grouped_concat, ih]

/-- A name that stands twice in a directory, once for a directory, is two entries; the root and
repeats are none. -/
example :
    (ofPaths ["/bin/foo", "/usr/share/foo/", "/", "/bin/foo", "/usr/share/foo", "//"]).dirs =
      [⟨"/bin", [⟨"foo", false⟩]⟩, ⟨"/usr/share", [⟨"foo", true⟩, ⟨"foo", false⟩]⟩] := by
  decide

/-- The directories and entries of the file list are those that the paths name, each once and at its
first use. -/
structure Groups (files : FileList) (paths : List String) : Prop where
  names_nodup : (files.dirs.map Directory.name).Nodup
  names_eq : files.dirs.map Directory.name = ((named paths).map Prod.fst).eraseDups
  entries_nodup : ∀ d ∈ files.dirs, d.entries.Nodup
  entries_eq : ∀ d ∈ files.dirs, d.entries = (namedIn (named paths) d.name).eraseDups
  entries_ne_nil : ∀ d ∈ files.dirs, d.entries ≠ []
  mem_iff : ∀ dir e, (∃ d ∈ files.dirs, d.name = dir ∧ e ∈ d.entries) ↔
    ∃ path ∈ paths, Path.split path = (dir, e.base) ∧ e.base ≠ "" ∧
      (e.isDir = true ↔ path.toList.getLast? = some '/')

theorem mem_entries_iff {files : FileList} :
    (dir, e) ∈ files.entries ↔ ∃ d ∈ files.dirs, d.name = dir ∧ e ∈ d.entries := by
  rw [entries, List.mem_flatMap]
  simp only [List.mem_map, Prod.mk.injEq]
  constructor
  · rintro ⟨d, hd, _, he, hname, rfl⟩
    exact ⟨d, hd, hname, he⟩
  · rintro ⟨d, hd, hname, he⟩
    exact ⟨d, hd, e, he, hname, rfl⟩

/-- The file list of some paths groups them. -/
theorem groups_ofPaths (paths : List String) : (ofPaths paths).Groups paths := by
  have hnames := dirs_ofPaths paths ▸ names_grouped (named paths)
  have hgroup : ∀ d ∈ (ofPaths paths).dirs,
      d.entries = (namedIn (named paths) d.name).eraseDups ∧
        d.name ∈ (named paths).map Prod.fst := by
    intro d hd
    rw [dirs_ofPaths] at hd
    obtain ⟨dir, hdir, rfl⟩ := List.mem_map.1 hd
    exact ⟨rfl, List.mem_eraseDups.1 hdir⟩
  constructor
  case names_nodup =>
    rw [hnames]
    exact nodup_eraseDups _
  case names_eq => exact hnames
  case entries_nodup =>
    intro d hd
    rw [(hgroup d hd).1]
    exact nodup_eraseDups _
  case entries_eq => exact fun d hd => (hgroup d hd).1
  case entries_ne_nil =>
    intro d hd hnil
    obtain ⟨hentries, hused⟩ := hgroup d hd
    obtain ⟨e, he⟩ := List.exists_mem_of_ne_nil _ fun h => namedIn_eq_nil_iff.1 h hused
    rw [← List.mem_eraseDups, ← hentries, hnil] at he
    cases he
  case mem_iff =>
    intro dir e
    rw [← mem_entries_iff, mem_entries_ofPaths]
    refine exists_congr fun path => and_congr_right fun _ => ?_
    constructor
    · rintro ⟨hbase, hsplit, hisDir⟩
      rw [hisDir]
      exact ⟨hsplit.symm, by rwa [← hsplit] at hbase, Path.namesDirectory_iff hbase⟩
    · rintro ⟨hsplit, hne, hisDir⟩
      have hbase : (Path.split path).2 ≠ "" := by rwa [hsplit]
      rw [← Path.namesDirectory_iff hbase] at hisDir
      exact ⟨hbase, hsplit.symm, Bool.eq_iff_iff.2 hisDir⟩

end FileList

end Depcheck

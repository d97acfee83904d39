import Std.Data.HashMap
import Std.Data.HashSet
import Depcheck.Proofs.Package.Grouping

/-!
# File lists with positions

A file list is looked through for the directory of a path and for the entry in it. Here the same
paths are entered at the position of the directory, which a map gives, and a set of positions and
entries tells what was entered before. Map and set stay those of the directories (`Coherent`), and
the directories stay those of the file list (`files_ofPaths`).
-/

namespace Depcheck

deriving instance Hashable for FileEntry

/-- A file list with the positions of its directories and the entries that were seen there. -/
structure FileTable where
  dirs : List Directory := []
  positions : Std.HashMap String Nat := {}
  seen : Std.HashSet (Nat × FileEntry) := {}

namespace FileTable

/-- Opens a directory behind the others. -/
def openDirectory (table : FileTable) (dir : String) : FileTable :=
  { table with
    dirs := table.dirs ++ [⟨dir, []⟩]
    positions := table.positions.insert dir table.dirs.length }

/-- The position of the directory called `dir`, which is opened when it is new. -/
def enter (table : FileTable) (dir : String) : FileTable × Nat :=
  match table.positions[dir]? with
  | some pos => (table, pos)
  | none => (table.openDirectory dir, table.dirs.length)

/-- Appends an entry to the directory at a position, unless it was seen there. -/
def record (table : FileTable) (pos : Nat) (e : FileEntry) : FileTable :=
  if (pos, e) ∈ table.seen then table
  else
    { table with
      dirs := table.dirs.modify pos fun d => { d with entries := d.entries ++ [e] }
      seen := table.seen.insert (pos, e) }

/-- Adds a path. A path that names no entry is passed over. -/
def add (table : FileTable) (path : String) : FileTable :=
  match Path.entry? path with
  | none => table
  | some (dir, e) =>
    let (table, pos) := table.enter dir
    table.record pos e

/-- The table of a list of paths. -/
def ofPaths (paths : List String) : FileTable := paths.foldl add {}

/-- The table as a file list. -/
def files (table : FileTable) : FileList := ⟨table.dirs⟩

/-- The number of entries that were seen. -/
def size (table : FileTable) : Nat := table.seen.size

/-- The names of the directories, by position. -/
def names (table : FileTable) : List String := table.dirs.map Directory.name

/-- The positions are those of the directories, each of which has a name of its own, and what was
seen are their entries. -/
structure Coherent (table : FileTable) : Prop where
  names_nodup : table.names.Nodup
  position_iff : ∀ (dir : String) (pos : Nat),
    table.positions[dir]? = some pos ↔ table.names[pos]? = some dir
  seen_iff : ∀ (pos : Nat) (e : FileEntry),
    (pos, e) ∈ table.seen ↔ ∃ d, table.dirs[pos]? = some d ∧ e ∈ d.entries
  size_eq : table.size = (table.dirs.map fun d => d.entries.length).sum

variable {table : FileTable} {dir : String} {pos : Nat} {e : FileEntry}

theorem coherent_empty : Coherent {} := by
  constructor
  case names_nodup => exact List.nodup_nil
  case position_iff => simp [names]
  case seen_iff => simp
  case size_eq => exact Std.HashSet.size_empty

theorem names_getElem? (table : FileTable) (pos : Nat) :
    table.names[pos]? = table.dirs[pos]?.map Directory.name := List.getElem?_map

theorem lt_of_names_getElem? (h : table.names[pos]? = some dir) : pos < table.dirs.length := by
  obtain ⟨hlt, _⟩ := List.getElem?_eq_some_iff.1 h
  rwa [names, List.length_map] at hlt

/-! ## Opening a directory -/

theorem dirs_openDirectory (table : FileTable) (dir : String) :
    (table.openDirectory dir).dirs = table.dirs ++ [⟨dir, []⟩] := rfl

theorem names_openDirectory (table : FileTable) (dir : String) :
    (table.openDirectory dir).names = table.names ++ [dir] := List.map_append

/-- A directory that has no position is not there. -/
theorem Coherent.not_mem_names (h : table.Coherent) (hnew : table.positions[dir]? = none) :
    dir ∉ table.names := by
  intro hdir
  obtain ⟨pos, hpos⟩ := List.mem_iff_getElem?.1 hdir
  rw [← h.position_iff, hnew] at hpos
  cases hpos

theorem Coherent.openDirectory (h : table.Coherent) (hnew : dir ∉ table.names) :
    (table.openDirectory dir).Coherent := by
  constructor
  case names_nodup =>
    rw [names_openDirectory]
    exact List.concat_eq_append ▸ h.names_nodup.concat hnew
  case position_iff =>
    intro other pos
    rw [names_openDirectory, getElem?_concat_eq_some_iff, ← h.position_iff]
    show (table.positions.insert dir table.dirs.length)[other]? = some pos ↔ _
    rw [Std.HashMap.getElem?_insert]
    by_cases hother : dir = other
    · subst hother
      have hnone : table.positions[dir]? ≠ some pos := by
        rw [Ne, h.position_iff]
        exact fun hpos => hnew (List.mem_of_getElem? hpos)
      simp [hnone, names, eq_comm]
    · simp [hother]
  case seen_iff =>
    intro pos e
    show (pos, e) ∈ table.seen ↔ _
    rw [h.seen_iff, dirs_openDirectory]
    refine exists_congr fun d => ?_
    rw [getElem?_concat_eq_some_iff]
    constructor
    · rintro ⟨hd, he⟩
      exact ⟨.inl hd, he⟩
    · rintro ⟨hd | ⟨_, rfl⟩, he⟩
      · exact ⟨hd, he⟩
      · cases he
  case size_eq =>
    show table.size = _
    rw [h.size_eq, dirs_openDirectory, List.map_append, List.sum_append]
    rfl

theorem Coherent.enter (h : table.Coherent) (dir : String) : (table.enter dir).1.Coherent := by
  unfold FileTable.enter
  split
  · exact h
  · next hnew => exact h.openDirectory (h.not_mem_names hnew)

/-- The position is that of the directory. -/
theorem Coherent.names_enter (h : table.Coherent) (dir : String) :
    (table.enter dir).1.names[(table.enter dir).2]? = some dir := by
  unfold FileTable.enter
  split
  · next pos hpos => exact (h.position_iff dir pos).1 hpos
  · rw [names_openDirectory, getElem?_concat_eq_some_iff]
    exact .inr ⟨(List.length_map _).symm, rfl⟩

/-- An entry of the directory comes to the same place whether the directory was opened or not. -/
theorem Coherent.addTo_enter (h : table.Coherent) (dir : String) (e : FileEntry) :
    FileList.addTo dir e (table.enter dir).1.dirs = FileList.addTo dir e table.dirs := by
  unfold FileTable.enter
  split
  · rfl
  · next hnew =>
    have hdir := h.not_mem_names hnew
    calc FileList.addTo dir e (table.dirs ++ [⟨dir, []⟩])
        = table.dirs ++ FileList.addTo dir e [⟨dir, []⟩] := FileList.addTo_append hdir _
      _ = table.dirs ++ [⟨dir, [e]⟩] := by simp [FileList.addTo, Directory.add]
      _ = FileList.addTo dir e (table.dirs ++ []) := (FileList.addTo_append hdir []).symm
      _ = FileList.addTo dir e table.dirs := by rw [List.append_nil]

/-! ## Recording an entry -/

theorem dirs_record_of_not_mem (hseen : (pos, e) ∉ table.seen) :
    (table.record pos e).dirs =
      table.dirs.modify pos fun d => { d with entries := d.entries ++ [e] } := by
  rw [record, if_neg hseen]

/-- The seen entries are those that need not be appended. -/
theorem Coherent.dirs_record (h : table.Coherent) (pos : Nat) (e : FileEntry) :
    (table.record pos e).dirs = table.dirs.modify pos fun d => d.add e := by
  by_cases hseen : (pos, e) ∈ table.seen
  · rw [record, if_pos hseen]
    obtain ⟨d, hd, he⟩ := (h.seen_iff pos e).1 hseen
    refine (List.modify_id pos table.dirs).symm.trans (modify_congr fun d' hd' => ?_)
    obtain rfl : d = d' := Option.some.inj (hd.symm.trans hd')
    rw [Directory.add, if_pos he]
    rfl
  · rw [dirs_record_of_not_mem hseen]
    refine modify_congr fun d hd => ?_
    have he : e ∉ d.entries := fun he => hseen ((h.seen_iff pos e).2 ⟨d, hd, he⟩)
    rw [Directory.add, if_neg he]

theorem names_record (table : FileTable) (pos : Nat) (e : FileEntry) :
    (table.record pos e).names = table.names := by
  unfold record
  split
  · rfl
  · ext1 i
    rw [names_getElem?, names_getElem?, List.getElem?_modify]
    cases table.dirs[i]? with
    | none => rfl
    | some d =>
      show some (if pos = i then _ else d).name = some d.name
      split <;> rfl

theorem positions_record (table : FileTable) (pos : Nat) (e : FileEntry) :
    (table.record pos e).positions = table.positions := by
  unfold record
  split <;> rfl

theorem mem_seen_record {other : Nat × FileEntry} :
    other ∈ (table.record pos e).seen ↔ other ∈ table.seen ∨ other = (pos, e) := by
  unfold record
  split
  · next hseen =>
    constructor
    · exact .inl
    · rintro (hother | rfl)
      · exact hother
      · exact hseen
  · show other ∈ table.seen.insert (pos, e) ↔ _
    rw [Std.HashSet.mem_insert, beq_iff_eq, or_comm, eq_comm]

theorem size_record_of_not_mem (hseen : (pos, e) ∉ table.seen) :
    (table.record pos e).size = table.size + 1 := by
  rw [record, if_neg hseen]
  show (table.seen.insert (pos, e)).size = _
  rw [Std.HashSet.size_insert, if_neg hseen]
  rfl

theorem Coherent.record (h : table.Coherent) (hpos : pos < table.dirs.length) (e : FileEntry) :
    (table.record pos e).Coherent := by
  constructor
  case names_nodup =>
    rw [names_record]
    exact h.names_nodup
  case position_iff =>
    rw [names_record, positions_record]
    exact h.position_iff
  case seen_iff =>
    intro i f
    rw [h.dirs_record, mem_seen_record, h.seen_iff, List.getElem?_modify]
    by_cases hi : pos = i
    · subst hi
      simp [List.getElem?_eq_getElem hpos, Directory.mem_entries_add]
    · simp [hi, Ne.symm hi]
  case size_eq =>
    by_cases hseen : (pos, e) ∈ table.seen
    · rw [FileTable.record, if_pos hseen]
      exact h.size_eq
    · rw [dirs_record_of_not_mem hseen]
      obtain ⟨before, d, behind, hdirs, _, hmodify⟩ := List.exists_of_modify
        (fun d : Directory => { d with entries := d.entries ++ [e] }) hpos
      rw [size_record_of_not_mem hseen, h.size_eq, hmodify, hdirs]
      simp only [List.map_append, List.map_cons, List.sum_append, List.sum_cons,
        List.length_append, List.length_singleton]
      omega

/-! ## Adding paths -/

/-- The directory at the position is the one that is found by its name. -/
theorem Coherent.addTo_eq_modify (h : table.Coherent) (hpos : table.names[pos]? = some dir)
    (e : FileEntry) :
    FileList.addTo dir e table.dirs = table.dirs.modify pos fun d => d.add e := by
  obtain ⟨before, d, behind, hdirs, rfl, hmodify⟩ :=
    List.exists_of_modify (fun d => d.add e) (lt_of_names_getElem? hpos)
  have hnames : table.names = before.map Directory.name ++ d.name :: behind.map Directory.name := by
    rw [names, hdirs, List.map_append, List.map_cons]
  have hname : d.name = dir := by
    simpa [hnames] using hpos
  have hbefore : dir ∉ before.map Directory.name := by
    intro hdir
    have hapart := (List.nodup_append.1 (hnames ▸ h.names_nodup)).2.2
    exact hapart dir hdir d.name List.mem_cons_self hname.symm
  rw [hmodify, hdirs, FileList.addTo_append hbefore, FileList.addTo_cons_of_eq hname]

theorem Coherent.add (h : table.Coherent) (path : String) : (table.add path).Coherent := by
  unfold FileTable.add
  split
  · exact h
  · next dir e _ =>
    exact (h.enter dir).record (lt_of_names_getElem? (h.names_enter dir)) e

/-- A path is added to the table as to the file list. -/
theorem Coherent.files_add (h : table.Coherent) (path : String) :
    (table.add path).files = table.files.add path := by
  rw [FileList.add_eq, FileTable.add]
  cases Path.entry? path with
  | none => rfl
  | some use =>
    obtain ⟨dir, e⟩ := use
    have hdirs : ((table.enter dir).1.record (table.enter dir).2 e).dirs =
        FileList.addTo dir e table.dirs := by
      rw [(h.enter dir).dirs_record, ← (h.enter dir).addTo_eq_modify (h.names_enter dir),
        h.addTo_enter]
    exact congrArg FileList.mk hdirs

theorem coherent_ofPaths (paths : List String) : (ofPaths paths).Coherent :=
  List.foldlRecOn paths add coherent_empty fun _ h path _ => Coherent.add h path

theorem files_ofPaths (paths : List String) : (ofPaths paths).files = FileList.ofPaths paths := by
  induction paths using List.reverseRecOn with
  | nil => rfl
  | append_singleton paths path ih =>
    rw [FileList.ofPaths_concat, ← ih, ← (coherent_ofPaths paths).files_add, ofPaths,
      List.foldl_concat, ← ofPaths]

/-- Whatever paths are added: the file list has each directory that they use and each entry that
they name, once and where it comes first, and the table is this file list with its positions and the
number of its entries. -/
theorem paths_grouped_by_first_use (paths : List String) :
    (ofPaths paths).files = FileList.ofPaths paths ∧
      (ofPaths paths).size = (FileList.ofPaths paths).size ∧
      (ofPaths paths).Coherent ∧ (FileList.ofPaths paths).Groups paths := by
  have hfiles := files_ofPaths paths
  have hcoherent := coherent_ofPaths paths
  refine ⟨hfiles, ?_, hcoherent, FileList.groups_ofPaths paths⟩
  rw [← hfiles, hcoherent.size_eq, FileList.size, FileList.entries, List.length_flatMap]
  simp only [List.length_map]
  rfl

end FileTable

end Depcheck

import Mathlib.Data.List.DropRight
import Depcheck.Package.Basic

/-!
# Installed paths

An entry of a file list stands at a place, the directory and the name below it. The place of an
absolute path is read back from the path that joins the two (`split_join`), so no two such places are
written alike. A relative path has no such place: `x` lies in the directory without a name, whose
entry `x` is written `/x`.
-/

namespace Depcheck

namespace Path

theorem normalizeChars_eq (s : List Char) :
    normalizeChars s = if s.length > 1 then s.rdropWhile (· == '/') else s := rfl

theorem normalizeChars_prefix (s : List Char) : normalizeChars s <+: s := by
  rw [normalizeChars_eq]
  split
  · exact List.rdropWhile_prefix _ s
  · exact List.prefix_refl s

/-- A path that does not end in a slash is left as it is. -/
theorem normalizeChars_append {base : List Char} (dir : List Char) (hne : base ≠ [])
    (hslash : '/' ∉ base) : normalizeChars (dir ++ '/' :: base) = dir ++ '/' :: base := by
  rw [normalizeChars_eq]
  split
  · rw [List.rdropWhile_eq_self_iff]
    intro h
    have hlast : (dir ++ '/' :: base).getLast h ∈ base := by
      rw [List.getLast_append_of_ne_nil h (List.cons_ne_nil _ _), List.getLast_cons hne]
      exact List.getLast_mem hne
    simp only [beq_iff_eq]
    intro heq
    exact hslash (heq ▸ hlast)
  · rfl

theorem splitChars_append {base : List Char} (dir : List Char) (hne : base ≠ [])
    (hslash : '/' ∉ base) :
    splitChars (dir ++ '/' :: base) = (if dir = [] then ['/'] else dir, base) := by
  rw [splitChars, normalizeChars_append dir hne hslash, Text.splitLast_append hslash]
  cases dir with
  | nil => rfl
  | cons c rest => rfl

/-- The directory and the name of an absolute path. -/
structure IsPlace (place : String × String) : Prop where
  dir : place.1 ≠ ""
  base : place.2 ≠ ""
  slash : '/' ∉ place.2.toList

theorem isPlace_ofList {dir base : List Char} (hdir : dir ≠ []) (hbase : base ≠ [])
    (hslash : '/' ∉ base) : IsPlace (String.ofList dir, String.ofList base) where
  dir := by simpa using hdir
  base := by simpa using hbase
  slash := by simpa using hslash

/-- What is left of an absolute path is empty or begins with a slash. -/
theorem slash_mem_normalizeChars {path : String} (habs : isAbsolute path = true)
    (hne : normalizeChars path.toList ≠ []) : '/' ∈ normalizeChars path.toList := by
  rw [isAbsolute, List.isPrefixOf_iff_prefix] at habs
  obtain ⟨tail, htail⟩ := habs
  obtain ⟨more, hmore⟩ := normalizeChars_prefix path.toList
  obtain ⟨c, rest, hcons⟩ := List.exists_cons_of_ne_nil hne
  rw [hcons, ← htail] at hmore
  have hc : c = '/' := (List.cons.inj hmore).1
  rw [hcons, hc]
  exact List.mem_cons_self

/-- Only what has no slash lies in the directory without a name. -/
theorem slash_not_mem_of_splitChars {s : List Char} (h : (splitChars s).1 = []) :
    '/' ∉ normalizeChars s := by
  rw [← Text.splitLast_eq_none_iff]
  rw [splitChars] at h
  cases hcut : Text.splitLast '/' (normalizeChars s) with
  | none => rfl
  | some cut =>
    obtain ⟨dir, base⟩ := cut
    rw [hcut] at h
    cases dir with
    | nil => cases h
    | cons c rest => cases h

theorem isPlace_split {path : String} (habs : isAbsolute path = true)
    (hbase : (split path).2 ≠ "") : IsPlace (split path) := by
  have hne : (splitChars path.toList).2 ≠ [] := by
    simpa [split] using hbase
  unfold split
  unfold splitChars at hne ⊢
  cases h : Text.splitLast '/' (normalizeChars path.toList) with
  | some cut =>
    obtain ⟨dir, base⟩ := cut
    obtain ⟨_, hslash⟩ := Text.eq_append_of_splitLast h
    rw [h] at hne
    cases dir with
    | nil => exact isPlace_ofList (List.cons_ne_nil _ _) hne hslash
    | cons c rest => exact isPlace_ofList (List.cons_ne_nil _ _) hne hslash
  | none =>
    rw [h] at hne
    exact absurd (slash_mem_normalizeChars habs hne) (Text.splitLast_eq_none_iff.1 h)

/-- The path of a place leads back to it. -/
theorem split_join {place : String × String} (h : IsPlace place) :
    split (join place.1 place.2) = place := by
  obtain ⟨dir, base⟩ := place
  have hbase : base.toList ≠ [] := by simpa using h.base
  have hdir : dir.toList ≠ [] := by simpa using h.dir
  unfold split join
  by_cases hroot : dir = "/"
  · have htext : ("/" ++ base).toList = [] ++ '/' :: base.toList := by simp
    rw [if_pos hroot, htext, splitChars_append [] hbase h.slash, hroot]
    simp
  · have htext : (dir ++ "/" ++ base).toList = dir.toList ++ '/' :: base.toList := by simp
    rw [if_neg hroot, htext, splitChars_append dir.toList hbase h.slash, if_neg hdir]
    simp

end Path

/-! ## The entries of a file list -/

theorem Directory.mem_entries_add {d : Directory} {new e : FileEntry} :
    e ∈ (d.add new).entries ↔ e ∈ d.entries ∨ e = new := by
  rw [add]
  split
  · next hnew =>
    constructor
    · exact .inl
    · rintro (he | rfl)
      · exact he
      · exact hnew
  · rw [List.mem_append, List.mem_singleton]

theorem Directory.name_add (d : Directory) (new : FileEntry) : (d.add new).name = d.name := by
  rw [add]
  split <;> rfl

namespace FileList

theorem mem_entries_cons {d : Directory} {dirs : List Directory} {name : String} {e : FileEntry} :
    (name, e) ∈ entries ⟨d :: dirs⟩ ↔ name = d.name ∧ e ∈ d.entries ∨ (name, e) ∈ entries ⟨dirs⟩ := by
  rw [entries, List.flatMap_cons, List.mem_append, ← entries, List.mem_map]
  constructor
  · rintro (⟨x, hx, heq⟩ | h)
    · obtain ⟨rfl, rfl⟩ := Prod.mk.inj heq
      exact .inl ⟨rfl, hx⟩
    · exact .inr h
  · rintro (⟨rfl, he⟩ | h)
    · exact .inl ⟨e, he, rfl⟩
    · exact .inr h

theorem mem_entries_addTo {dir name : String} {e new : FileEntry} {dirs : List Directory} :
    (name, e) ∈ entries ⟨addTo dir new dirs⟩ ↔
      (name, e) ∈ entries ⟨dirs⟩ ∨ name = dir ∧ e = new := by
  induction dirs with
  | nil => simp [addTo, entries]
  | cons d rest ih =>
    rw [addTo]
    split
    · next hd =>
      rw [mem_entries_cons, mem_entries_cons, Directory.mem_entries_add, Directory.name_add, hd]
      tauto
    · rw [mem_entries_cons, mem_entries_cons, ih, or_assoc]

/-- Adding a path adds the entry that it names, if it names one. -/
theorem mem_entries_add {files : FileList} {path name : String} {e : FileEntry} :
    (name, e) ∈ (files.add path).entries ↔
      (name, e) ∈ files.entries ∨
        (Path.split path).2 ≠ "" ∧ (name, e.base) = Path.split path ∧
          e.isDir = Path.namesDirectory path := by
  obtain ⟨base, isDir⟩ := e
  unfold add
  cases hsplit : Path.split path with
  | mk dir own =>
    by_cases hown : own = ""
    · simp [hown]
    · simp only [if_neg hown, mem_entries_addTo, FileEntry.mk.injEq, Prod.mk.injEq]
      tauto

theorem mem_entries_ofPaths {paths : List String} {name : String} {e : FileEntry} :
    (name, e) ∈ (ofPaths paths).entries ↔
      ∃ path ∈ paths, (Path.split path).2 ≠ "" ∧ (name, e.base) = Path.split path ∧
        e.isDir = Path.namesDirectory path := by
  have h : ∀ files : FileList, (name, e) ∈ (paths.foldl add files).entries ↔
      (name, e) ∈ files.entries ∨
        ∃ path ∈ paths, (Path.split path).2 ≠ "" ∧ (name, e.base) = Path.split path ∧
          e.isDir = Path.namesDirectory path := by
    induction paths with
    | nil => simp
    | cons path rest ih =>
      intro files
      rw [List.foldl_cons, ih, mem_entries_add, List.exists_mem_cons_iff, or_assoc]
  rw [ofPaths, h]
  simp [entries]

end FileList

/-- All files of the package were added by absolute paths. -/
def Package.FilesAbsolute (p : Package) : Prop :=
  ∃ paths, p.files = FileList.ofPaths paths ∧ ∀ path ∈ paths, Path.isAbsolute path = true

theorem Package.FilesAbsolute.isPlace {p : Package} (h : p.FilesAbsolute) {name : String}
    {e : FileEntry} (he : (name, e) ∈ p.files.entries) : Path.IsPlace (name, e.base) := by
  obtain ⟨paths, hfiles, habs⟩ := h
  rw [hfiles, FileList.mem_entries_ofPaths] at he
  obtain ⟨path, hpath, hbase, hsplit, _⟩ := he
  rw [hsplit]
  exact Path.isPlace_split (habs path hpath) hbase

end Depcheck

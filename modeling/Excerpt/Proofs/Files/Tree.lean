import Excerpt.Files.Tree

/-!
This module contains what names lead to in a tree in which nothing lies below a file. However a name is written, as long
as it has no two dots in it, it leads to what is at its path, and that can be told from the listed paths alone. Two dots
undo the step into a directory. A file is found under no name at all unless it is listed.
-/

namespace Excerpt
namespace FileTree

structure Consistent (tree : FileTree) : Prop where
  ne_nil : ∀ file ∈ tree.files, file.1 ≠ []
  directories : ∀ file ∈ tree.files, ∀ path ∈ tree.directories, ¬ file.1 <+: path
  files : ∀ file ∈ tree.files, ∀ other ∈ tree.files, file.1 <+: other.1 → other.1 = file.1

structure Descends (c : Text) : Prop where
  ne_nil : c ≠ []
  ne_dot : c ≠ ['.']
  ne_dots : c ≠ ['.', '.']
  length_le : (Utf8.encode c).length ≤ maxComponentSize

def entryAt (tree : FileTree) (path : List Text) : Entry :=
  match tree.files.lookup path with
  | some data => .file data
  | none =>
    if tree.isDirectory path then
      .directory
    else if ∃ file ∈ tree.files, file.1 <+: path then
      .unavailable .notDirectory
    else
      .unavailable .notFound

section

variable {tree : FileTree} {path below base components : List Text} {data : Bytes} {c : Text}

theorem mem_files_of_lookup (h : tree.files.lookup path = some data) : (path, data) ∈ tree.files := by
  obtain ⟨front, back, hfiles, _⟩ := List.lookup_eq_some_iff.mp h
  simp [hfiles]

theorem isDirectory_iff :
    tree.isDirectory path = true
      ↔ path = [] ∨ (∃ directory ∈ tree.directories, path <+: directory) ∨ ∃ file ∈ tree.files, path <+: file.1 := by
  simp [isDirectory, or_assoc]

theorem isDirectory_above (hfront : path <+: below) (h : tree.isDirectory below = true) :
    tree.isDirectory path = true := by
  rw [isDirectory_iff] at h ⊢
  rcases h with rfl | ⟨directory, hmem, hbelow⟩ | ⟨file, hmem, hbelow⟩
  . exact .inl (List.prefix_nil.mp hfront)
  . exact .inr (.inl ⟨directory, hmem, hfront.trans hbelow⟩)
  . exact .inr (.inr ⟨file, hmem, hfront.trans hbelow⟩)

theorem Consistent.not_isDirectory {file : List Text × Bytes} (h : tree.Consistent) (hfile : file ∈ tree.files)
    (hfront : file.1 <+: path) (hne : path ≠ file.1) : tree.isDirectory path = false := by
  rw [← Bool.not_eq_true, isDirectory_iff]
  rintro (rfl | ⟨directory, hmem, hbelow⟩ | ⟨other, hmem, hbelow⟩)
  . exact h.ne_nil file hfile (List.prefix_nil.mp hfront)
  . exact h.directories file hfile directory hmem (hfront.trans hbelow)
  . have hother : other.1 = file.1 := h.files file hfile other hmem (hfront.trans hbelow)
    rw [hother] at hbelow
    exact hne (hbelow.eq_of_length_le hfront.length_le)

theorem Consistent.entryAt_below_file (h : tree.Consistent) (hfile : tree.files.lookup path = some data)
    (hne : below ≠ []) : tree.entryAt (path ++ below) = .unavailable .notDirectory := by
  have hmem := mem_files_of_lookup hfile
  have hfront : path <+: path ++ below := List.prefix_append path below
  have hnone : tree.files.lookup (path ++ below) = none := by
    cases hlookup : tree.files.lookup (path ++ below) with
    | none => rfl
    | some _ =>
      have heq := h.files _ hmem _ (mem_files_of_lookup hlookup) hfront
      simp [hne] at heq
  have hdirectory : tree.isDirectory (path ++ below) = false := h.not_isDirectory hmem hfront (by simp [hne])
  simp only [entryAt, hnone, hdirectory, Bool.false_eq_true, if_false]
  exact if_pos ⟨(path, data), hmem, hfront⟩

theorem entryAt_eq_directory_iff :
    tree.entryAt path = .directory ↔ tree.files.lookup path = none ∧ tree.isDirectory path = true := by
  unfold entryAt
  split
  . next hlookup => simp [hlookup]
  . next hlookup =>
    split
    . next hdirectory => simp [hlookup, hdirectory]
    . next hdirectory => split <;> simp [hdirectory]

theorem Consistent.not_file_above {file : List Text × Bytes} (h : tree.Consistent)
    (hbase : tree.entryAt base = .directory) (hfile : file ∈ tree.files) : ¬ file.1 <+: base := by
  obtain ⟨hnone, hdirectory⟩ := entryAt_eq_directory_iff.mp hbase
  intro habove
  by_cases heq : base = file.1
  . have hne := List.lookup_eq_none_iff.mp hnone file hfile
    simp [heq] at hne
  . rw [h.not_isDirectory hfile habove heq] at hdirectory
    cases hdirectory

theorem Consistent.entryAt_below_missing (h : tree.Consistent) (hbase : tree.entryAt base = .directory)
    (hmissing : tree.isDirectory (base ++ [c]) = false) (below : List Text) :
    tree.entryAt (base ++ c :: below) = .unavailable .notFound := by
  have hfront : base ++ [c] <+: base ++ c :: below := ⟨below, by simp⟩
  have hlisted : ∀ file ∈ tree.files, ¬ base ++ [c] <+: file.1 := by
    intro file hmem hbelow
    rw [isDirectory_iff.mpr (.inr (.inr ⟨file, hmem, hbelow⟩))] at hmissing
    cases hmissing
  have hlookup : tree.files.lookup (base ++ c :: below) = none := by
    cases hfile : tree.files.lookup (base ++ c :: below) with
    | none => rfl
    | some data => exact absurd hfront (hlisted _ (mem_files_of_lookup hfile))
  have hbelow : tree.isDirectory (base ++ c :: below) = false := by
    rw [← Bool.not_eq_true]
    intro hbelow
    rw [isDirectory_above hfront hbelow] at hmissing
    cases hmissing
  have hfile : ¬ ∃ file ∈ tree.files, file.1 <+: base ++ c :: below := by
    rintro ⟨file, hmem, hfile⟩
    rcases List.prefix_or_prefix_of_prefix hfile hfront with habove | hunder
    . rcases List.prefix_concat_iff.mp habove with heq | habove
      . exact hlisted file hmem (heq ▸ List.prefix_refl _)
      . exact h.not_file_above hbase hmem habove
    . exact hlisted file hmem hunder
  simp only [entryAt, hlookup, hbelow, Bool.false_eq_true, if_false]
  exact if_neg hfile

theorem resolve_of_file (hc : Descends c) (h : tree.files.lookup (base ++ [c]) = some data) :
    tree.resolve (some base) (c :: components)
      = if components = [] then .file data else .unavailable .notDirectory := by
  have hlength := Nat.not_lt.mpr hc.length_le
  simp only [resolve, hc.ne_nil, hc.ne_dot, hc.ne_dots, hlength, h, or_self, if_false]

theorem resolve_of_directory (hc : Descends c) (h : tree.entryAt (base ++ [c]) = .directory) :
    tree.resolve (some base) (c :: components) = tree.resolve (some (base ++ [c])) components := by
  obtain ⟨hnone, hdirectory⟩ := entryAt_eq_directory_iff.mp h
  have hlength := Nat.not_lt.mpr hc.length_le
  simp only [resolve, hc.ne_nil, hc.ne_dot, hc.ne_dots, hlength, hnone, hdirectory, or_self, if_false, if_true]

theorem resolve_of_missing (hc : Descends c) (hnone : tree.files.lookup (base ++ [c]) = none)
    (h : tree.isDirectory (base ++ [c]) = false) :
    tree.resolve (some base) (c :: components) = .unavailable .notFound := by
  have hlength := Nat.not_lt.mpr hc.length_le
  simp [resolve, hc.ne_nil, hc.ne_dot, hc.ne_dots, hlength, hnone, h]

theorem resolve_in_and_out (hc : Descends c) (h : tree.entryAt (base ++ [c]) = .directory) :
    tree.resolve (some base) (c :: ['.', '.'] :: components) = tree.resolve (some base) components := by
  rw [resolve_of_directory hc h]
  simp [resolve]

theorem filter_ne_nil (hlast : ∀ c ∈ components.getLast?, Descends c) (hne : components ≠ []) :
    (components.filter fun c => c != [] && c != ['.']) ≠ [] := by
  have hdescends := hlast _ (List.getLast?_eq_some_getLast hne)
  apply List.ne_nil_of_mem
  apply List.mem_filter.mpr
  exact ⟨List.getLast_mem hne, by simp [hdescends.ne_nil, hdescends.ne_dot]⟩

theorem Consistent.resolve_eq_entryAt (h : tree.Consistent) (hbase : tree.entryAt base = .directory)
    (hcomponents : ∀ c ∈ components, c = [] ∨ c = ['.'] ∨ Descends c)
    (hlast : ∀ c ∈ components.getLast?, Descends c) :
    tree.resolve (some base) components
      = tree.entryAt (base ++ components.filter fun c => c != [] && c != ['.']) := by
  -- Along the walk every base is a directory, so no file lies above what is left of the path.
  induction components generalizing base with
  | nil => rw [resolve, List.filter_nil, List.append_nil, hbase]
  | cons c rest ih =>
    obtain ⟨hc, hmore⟩ := List.forall_mem_cons.mp hcomponents
    have hlast' : ∀ c ∈ rest.getLast?, Descends c := by
      intro last hmem
      apply hlast
      rw [List.getLast?_cons, hmem]
      rfl
    rcases or_assoc.mpr hc with hstill | hc
    . rw [resolve, if_pos hstill, ih hbase hmore hlast', List.filter_cons_of_neg]
      rcases hstill with rfl | rfl <;> simp
    . rw [List.filter_cons_of_pos (by simp [hc.ne_nil, hc.ne_dot])]
      cases hfile : tree.files.lookup (base ++ [c]) with
      | some data =>
        rw [resolve_of_file hc hfile, List.append_cons]
        cases rest with
        | nil => simp [entryAt, hfile]
        | cons next rest =>
          rw [if_neg (by simp), h.entryAt_below_file hfile (filter_ne_nil hlast' (by simp))]
      | none =>
        cases hdirectory : tree.isDirectory (base ++ [c]) with
        | true =>
          have hnext := entryAt_eq_directory_iff.mpr ⟨hfile, hdirectory⟩
          rw [resolve_of_directory hc hnext, ih hnext hmore hlast', List.append_assoc, List.singleton_append]
        | false => rw [resolve_of_missing hc hfile hdirectory, h.entryAt_below_missing hbase hdirectory]

theorem Consistent.entryAt_nil (h : tree.Consistent) : tree.entryAt [] = .directory := by
  rw [entryAt_eq_directory_iff]
  refine ⟨?_, rfl⟩
  cases hfile : tree.files.lookup [] with
  | none => rfl
  | some data => exact absurd rfl (h.ne_nil _ (mem_files_of_lookup hfile))

theorem mem_files_of_resolve {place : Option (List Text)} (h : tree.resolve place components = .file data) :
    ∃ path, (path, data) ∈ tree.files := by
  fun_induction resolve tree place components with
  | case1 => cases h
  | case2 place c rest _ ih => exact ih h
  | case3 place rest _ ih => exact ih h
  | case4 => cases h
  | case5 => cases h
  | case6 c _ _ _ base path found hfile =>
    cases h
    exact ⟨path, mem_files_of_lookup hfile⟩
  | case7 => cases h
  | case8 c rest _ _ _ base path _ _ ih => exact ih h
  | case9 => cases h

theorem resolve_none_eq_directory_iff :
    tree.resolve none components = .directory ↔ ∀ c ∈ components, c = [] ∨ c = ['.'] ∨ c = ['.', '.'] := by
  induction components with
  | nil => simp [resolve]
  | cons c rest ih =>
    rw [List.forall_mem_cons, resolve]
    split
    . next hstill => rcases hstill with rfl | rfl <;> simp [ih]
    . next hstill =>
      split
      . next hup => simp [hup, ih]
      . next hup => split <;> simp_all

end

/--
A name without two dots that ends with a component of its own, not with a slash, leads to what is at its path.
-/
theorem find_eq_entryAt {tree : FileTree} (h : tree.Consistent) (name : Text)
    (hsize : (Utf8.encode name).length ≤ maxNameSize) (hrelative : name.head? ≠ some '/')
    (hcomponents : ∀ c ∈ components name, c = [] ∨ c = ['.'] ∨ Descends c)
    (hlast : ∀ c ∈ (components name).getLast?, Descends c) : tree.find name = tree.entryAt (path name) := by
  have hne : name ≠ [] := by
    rintro rfl
    exact (hlast [] rfl).ne_nil rfl
  rw [find, if_neg hne, if_neg (Nat.not_lt.mpr hsize), if_neg hrelative,
    h.resolve_eq_entryAt h.entryAt_nil hcomponents hlast, List.nil_append, path]

example : (ofNames [] [("a/b".toList, [0x31])]).find "./a//b".toList = .file [0x31] := by decide

theorem mem_files_of_find {tree : FileTree} {name : Text} {data : Bytes} (h : tree.find name = .file data) :
    ∃ path, (path, data) ∈ tree.files := by
  unfold find at h
  split at h
  . cases h
  . split at h
    . cases h
    . exact mem_files_of_resolve h

end FileTree
end Excerpt

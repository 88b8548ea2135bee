import Livtet.Lib.Maps

/-! # Directories of files

    Two levels of files: a directory has a name, and files by their names. A file is written
    with its directory made if need be, and a directory is removed with all its files. Each
    operation has one lemma that says what can be read afterwards.

    The order in which a directory is listed is left open. -/

namespace FileTrees

open Maps

variable {β : Type}

/-- Directories by their names, and in each the files by theirs. -/
abbrev FileTree (β : Type) := Map String (Map String β)

def read (tree : FileTree β) (dir name : String) : Option β :=
  (tree.lookup dir).bind fun files => files.lookup name

/-- The directory, made if it is not there. -/
def createDir (tree : FileTree β) (dir : String) : FileTree β :=
  tree.insert dir ((tree.lookup dir).getD ∅)

def write (tree : FileTree β) (dir name : String) (b : β) : FileTree β :=
  tree.insert dir (((tree.lookup dir).getD ∅).insert name b)

def removeDir (tree : FileTree β) (dir : String) : FileTree β := tree.erase dir

/-- The files of a directory that is there. -/
def files (tree : FileTree β) (dir : String) : Option (List (Sigma fun _ : String => β)) :=
  (tree.lookup dir).map fun d => d.entries

/-- An order in which the files of a directory are listed. -/
structure Listing (β : Type) where
  order : List (Sigma fun _ : String => β) → List (Sigma fun _ : String => β)
  perm : ∀ entries, (order entries).Perm entries

variable {tree : FileTree β} {dir dir' name name' : String} {b : β}

theorem read_getD (tree : FileTree β) (dir name : String) :
    ((tree.lookup dir).getD ∅).lookup name = read tree dir name := by
  rw [read]
  cases tree.lookup dir with
  | none => exact AList.lookup_empty name
  | some files => rfl

@[simp] theorem read_createDir : read (createDir tree dir') dir name = read tree dir name := by
  rw [← read_getD, ← read_getD, createDir]
  by_cases h : dir = dir'
  · subst h
    rw [AList.lookup_insert, Option.getD_some]
  · rw [AList.lookup_insert_ne h]

theorem read_write : read (write tree dir' name' b) dir name =
    if dir = dir' ∧ name = name' then some b else read tree dir name := by
  rw [← read_getD, ← read_getD, write]
  by_cases h : dir = dir'
  · subst h
    rw [AList.lookup_insert, Option.getD_some]
    by_cases hname : name = name'
    · rw [hname, AList.lookup_insert, if_pos ⟨rfl, rfl⟩]
    · rw [AList.lookup_insert_ne hname, if_neg fun h => hname h.2]
  · rw [AList.lookup_insert_ne h, if_neg fun hboth => h hboth.1]

theorem read_removeDir : read (removeDir tree dir') dir name =
    if dir = dir' then none else read tree dir name := by
  rw [read, removeDir]
  by_cases h : dir = dir'
  · rw [h, AList.lookup_erase, if_pos rfl]
    rfl
  · rw [AList.lookup_erase_ne h, if_neg h]
    rfl

/-- What is listed of a directory are its files. -/
theorem mem_files {listed : List (Sigma fun _ : String => β)} (h : files tree dir = some listed) :
    ⟨name, b⟩ ∈ listed ↔ read tree dir name = some b := by
  obtain ⟨d, hd, rfl⟩ := Option.map_eq_some_iff.1 h
  rw [read, hd, Option.bind_some, ← Option.mem_def, AList.mem_lookup_iff]

theorem files_of_read (h : read tree dir name = some b) : ∃ listed, files tree dir = some listed := by
  obtain ⟨d, hd, _⟩ := Option.bind_eq_some_iff.1 h
  exact ⟨d.entries, by rw [files, hd, Option.map_some]⟩

/-- The order that begins with one of the files. -/
def Listing.beginning [DecidableEq β] (first : Sigma fun _ : String => β) : Listing β where
  order entries := if first ∈ entries then first :: entries.erase first else entries
  perm entries := by
    split
    · rename_i h
      exact (List.perm_cons_erase h).symm
    · exact List.Perm.refl entries

theorem Listing.head?_beginning [DecidableEq β] {first : Sigma fun _ : String => β}
    {entries : List (Sigma fun _ : String => β)} (h : first ∈ entries) :
    ((Listing.beginning first).order entries).head? = some first := by
  rw [Listing.beginning]
  dsimp only
  rw [if_pos h, List.head?_cons]

end FileTrees

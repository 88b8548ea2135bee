import Livtet.InStep
import Livtet.Lib.KeyedRows
import Livtet.Lib.Runs

/-! # The file of an edition

    An edition has at most one file. Attaching a file writes its row over, and keeps the
    format and the size that are not given; where there is no row, one is inserted, with
    every column as given. But the format must not be null: a default stands in for a column
    that is left out, and not for one that is null.

    So a file can be attached, and the last attachment is what is shown, as long as a row is
    there or a format is given (`attached_iff`). -/

namespace Attachments

open SyncStore (Env)
open SyncPairing (DbId)
open Outcomes Library KeyedRows
open SearchIndex (IndexLib plainLib)
open DocIndex (Writer)

/-! ## What is shown -/

structure EditionFile where
  filePath : Option String
  fileFormat : Option String
  fileSizeBytes : Option Int
deriving DecidableEq, Repr

/-- The file in `edition_detail`. -/
def editionFile (db : Db) (editionId : DbId) : Option EditionFile :=
  (db.tables.digitalInventory.find? fun d => decide (d.editionId = editionId)).map fun d =>
    ⟨d.filePath, d.fileFormat, d.fileSizeBytes⟩

/-- The file in `get_edition`, which finds nothing without the edition. -/
def getEditionFile (db : Db) (editionId : DbId) : Option (Option EditionFile) :=
  (db.tables.editions.find? fun e => decide (e.id = editionId)).map fun e => editionFile db e.id

/-! ## Attaching and detaching -/

inductive Action
  | set (now : Int) (newId : DbId) (filePath : String) (fileFormat : Option String)
      (fileSizeBytes : Option Int)
  | remove

def Action.toCall (e : DbId) : Action → Call
  | .set now newId filePath fileFormat fileSizeBytes =>
      .setEditionFile now newId e filePath fileFormat fileSizeBytes
  | .remove => .removeEditionFile e

/-- What should be shown after a call: the path that was set last, and the format and the
    size that were given last since there is a file. -/
def attached (file : Option EditionFile) : Action → Option EditionFile
  | .set _ _ filePath fileFormat fileSizeBytes =>
      some ⟨some filePath, fileFormat.or (file.bind fun f => f.fileFormat),
        fileSizeBytes.or (file.bind fun f => f.fileSizeBytes)⟩
  | .remove => none

section Runs

variable (lib : IndexLib) (env : Env) (e : DbId)

def step (s : Store) (a : Action) : Store := Library.step lib env s (a.toCall e)

/-- The row is there, or a format is given and the new row's id is free. -/
def Attachable (s : Store) : Action → Prop
  | .set _ newId _ fileFormat _ =>
      (∃ f ∈ s.db.tables.digitalInventory, f.editionId = e) ∨
        fileFormat ≠ none ∧ newId ∉ s.db.tables.digitalInventory.map fun f => f.id
  | .remove => True

end Runs

section Calls

variable {lib : IndexLib} {env : Env} {e : DbId} {s : Store} {a : Action} {now : Int}
  {newId : DbId} {filePath : String} {fileFormat : Option String} {fileSizeBytes : Option Int}

theorem getEditionFile_of_mem (he : e ∈ s.db.tables.editionIds) :
    getEditionFile s.db e = some (editionFile s.db e) := by
  rw [getEditionFile]
  cases hfind : s.db.tables.editions.find? fun x => decide (x.id = e) with
  | none => exact absurd he (find?_key_eq_none.1 hfind)
  | some x =>
      have hid : x.id = e := of_decide_eq_true (List.find?_some hfind :)
      rw [Option.map_some, hid]

/-- A call that went through: the tables of files, and what follows for what is shown. -/
structure Leaves (s s' : Store) (e : DbId) (file : Option EditionFile) : Prop where
  editions : s'.db.tables.editionIds = s.db.tables.editionIds
  file : editionFile s'.db e = file

theorem setEditionFile_ok {db : Db} (he : e ∈ s.db.tables.editionIds)
    (hwrite : writeFile now newId e filePath fileFormat fileSizeBytes s.db.tables = .ok db) :
    perform lib env s (.setEditionFile now newId e filePath fileFormat fileSizeBytes) =
      .ok (syncEditionIndex lib env s.index db) := by
  obtain ⟨row, hrow⟩ := (@requireEdition_eq_ok_iff env s.db e).2 he
  rw [perform, setEditionFile, hrow, ok_bind, hwrite]
  rfl

/-- A row that is there is written over. -/
theorem set_there (he : e ∈ s.db.tables.editionIds)
    (hthere : ∃ f ∈ s.db.tables.digitalInventory, f.editionId = e) :
    ∃ s', perform lib env s ((Action.set now newId filePath fileFormat fileSizeBytes).toCall e) =
        .ok s' ∧
      Leaves s s' e (attached (editionFile s.db e)
        (.set now newId filePath fileFormat fileSizeBytes)) := by
  have hsound := sound_updatedFiles (f := fun f => { f with
      filePath := some filePath
      fileFormat := fileFormat.or f.fileFormat
      fileSizeBytes := fileSizeBytes.or f.fileSizeBytes
      updatedAt := some now }) s.db.sound e fun _ => ⟨rfl, rfl⟩
  have hwrite : writeFile now newId e filePath fileFormat fileSizeBytes s.db.tables = _ :=
    (if_pos (any_file.2 hthere)).trans (execute_of_sound hsound)
  refine ⟨_, setEditionFile_ok he hwrite, rfl, ?_⟩
  have hfound := @find?_key_update FileRow DbId s.db.tables.digitalInventory
    (fun f => f.editionId) _ (fun f => { f with
      filePath := some filePath
      fileFormat := fileFormat.or f.fileFormat
      fileSizeBytes := fileSizeBytes.or f.fileSizeBytes
      updatedAt := some now }) (fun _ => rfl) e
  obtain ⟨f, hf, hown⟩ := hthere
  obtain ⟨d, hd⟩ : ∃ d, (s.db.tables.digitalInventory.find? fun d => decide (d.editionId = e)) =
      some d := ⟨f, (find?_key_eq_some s.db.sound.keys.fileEditions).2 ⟨hf, hown⟩⟩
  have hold : editionFile s.db e = some ⟨d.filePath, d.fileFormat, d.fileSizeBytes⟩ := by
    rw [editionFile, hd]
    rfl
  rw [hd] at hfound
  rw [hold]
  exact congrArg (Option.map _) hfound

/-- Where no row is, one is inserted. -/
theorem set_new (he : e ∈ s.db.tables.editionIds)
    (hnone : ¬ ∃ f ∈ s.db.tables.digitalInventory, f.editionId = e) (hformat : fileFormat ≠ none)
    (hfree : newId ∉ s.db.tables.digitalInventory.map fun f => f.id) :
    ∃ s', perform lib env s ((Action.set now newId filePath fileFormat fileSizeBytes).toCall e) =
        .ok s' ∧
      Leaves s s' e (attached (editionFile s.db e)
        (.set now newId filePath fileFormat fileSizeBytes)) := by
  have hsound := sound_newFile (r := ⟨newId, e, some filePath, fileFormat, fileSizeBytes, none⟩)
    s.db.sound he hnone hfree
  have hwrite : writeFile now newId e filePath fileFormat fileSizeBytes s.db.tables = _ :=
    (if_neg (fun hany => hnone (any_file.1 hany))).trans
      ((if_neg (fun hnull => hformat (Option.isNone_iff_eq_none.1 hnull))).trans
        (execute_of_sound hsound))
  refine ⟨_, setEditionFile_ok he hwrite, rfl, ?_⟩
  have hother : (s.db.tables.digitalInventory.find? fun d => decide (d.editionId = e)) = none :=
    find?_key_eq_none.2 fun h => hnone (List.mem_map.1 h)
  have hold : editionFile s.db e = none := by
    rw [editionFile, hother]
    rfl
  rw [hold, editionFile]
  show ((s.db.tables.digitalInventory ++ [_]).find? _).map _ = _
  have hown : decide ((⟨newId, e, some filePath, fileFormat, fileSizeBytes, none⟩ :
      FileRow).editionId = e) = true := decide_eq_true rfl
  rw [List.find?_append, hother, Option.none_or, List.find?_cons, hown, attached, Option.bind_none,
    Option.bind_none, Option.or_none, Option.or_none]
  rfl

theorem remove_ok (e : DbId) : ∃ s', perform lib env s (Action.remove.toCall e) = .ok s' ∧
    Leaves s s' e (attached (editionFile s.db e) .remove) := by
  have hexecute := execute_of_sound
    (sound_keptFiles s.db.sound fun f => decide (f.editionId ≠ e))
  have hnone : (s.db.tables.digitalInventory.filter fun f => decide (f.editionId ≠ e)).find?
      (fun d => decide (d.editionId = e)) = none := by
    rw [List.find?_eq_none]
    intro f hf
    have hne := (List.mem_filter.1 hf).2
    rw [decide_eq_true_iff] at hne
    rw [decide_eq_true_iff]
    exact hne
  have hremove : ∃ removed s', removeEditionFile lib env e s = .ok (removed, s') ∧
      s'.db.tables = { s.db.tables with digitalInventory :=
        s.db.tables.digitalInventory.filter fun f => decide (f.editionId ≠ e) } := by
    rw [removeEditionFile]
    dsimp only
    rw [hexecute]
    refine ⟨_, _, rfl, ?_⟩
    split
    · rfl
    · rfl
  obtain ⟨removed, s', hok, htables⟩ := hremove
  refine ⟨s', map_eq_ok.2 ⟨_, hok, rfl⟩, ?_, ?_⟩
  · rw [Tables.editionIds, htables]
    rfl
  · rw [editionFile, htables]
    exact congrArg (Option.map _) hnone

/-- A call that is attachable goes through. -/
theorem ok_of_attachable (he : e ∈ s.db.tables.editionIds) (h : Attachable e s a) :
    ∃ s', perform lib env s (a.toCall e) = .ok s' ∧
      Leaves s s' e (attached (editionFile s.db e) a) := by
  cases a with
  | set now newId filePath fileFormat fileSizeBytes =>
      by_cases hthere : ∃ f ∈ s.db.tables.digitalInventory, f.editionId = e
      · exact set_there he hthere
      · obtain ⟨hformat, hfree⟩ := h.resolve_left hthere
        exact set_new he hthere hformat hfree
  | remove => exact remove_ok e

/-- No other call goes through. -/
theorem attachable_of_succeeds (h : Succeeds lib env s (a.toCall e)) : Attachable e s a := by
  cases a with
  | set now newId filePath fileFormat fileSizeBytes =>
      by_cases hthere : ∃ f ∈ s.db.tables.digitalInventory, f.editionId = e
      · exact Or.inl hthere
      · obtain ⟨s', h⟩ := h
        obtain ⟨⟨⟨⟩, s''⟩, hset, _⟩ := map_eq_ok.1 h
        obtain ⟨_, _, hset⟩ := bind_eq_ok.1 hset
        obtain ⟨db, hwrite, _⟩ := bind_eq_ok.1 hset
        rw [writeFile, if_neg fun hany => hthere (any_file.1 hany)] at hwrite
        split at hwrite
        next => cases hwrite
        next hformat =>
          refine Or.inr ⟨fun hnull => hformat (Option.isNone_iff_eq_none.2 hnull), ?_⟩
          have hkeys := db.sound.keys.fileKeys
          rw [execute_eq_ok.1 hwrite, List.map_append] at hkeys
          exact fun hused => (List.nodup_append.1 hkeys).2.2 newId hused newId
            (List.mem_singleton_self _) rfl
  | remove => trivial

theorem step_of_ok {s' : Store} (h : perform lib env s (a.toCall e) = .ok s') :
    step lib env e s a = s' := by
  rw [step, Library.step, h]
  rfl

theorem edition_step (he : e ∈ s.db.tables.editionIds) (h : Attachable e s a) :
    e ∈ (step lib env e s a).db.tables.editionIds := by
  obtain ⟨s', hok, hleaves⟩ := @ok_of_attachable lib env _ _ _ he h
  rw [step_of_ok hok, hleaves.editions]
  exact he

end Calls

/-- **THE LAST ATTACHMENT IS SHOWN**: every call goes through, and what is shown after each
    is what it should be, exactly if every file is attached in place of another, or comes
    with a format. -/
theorem attached_iff (lib : IndexLib) (env : Env) (s : Store) (e : DbId) (run : List Action)
    (he : e ∈ s.db.tables.editionIds) :
    (Runs.Admitted (step lib env e) (fun s a => Succeeds lib env s (a.toCall e)) s run ∧
      ∀ pre, pre <+: run → getEditionFile (Runs.exec (step lib env e) s pre).db e =
        some (pre.foldl attached (editionFile s.db e))) ↔
      Runs.Admitted (step lib env e) (Attachable e) s run := by
  constructor
  · rintro ⟨hsucceed, _⟩
    exact @Runs.Admitted.imp _ _ _ _ _ (fun _ => True) (fun _ _ _ _ => trivial)
      (fun _ _ _ h => attachable_of_succeeds h) s run trivial hsucceed
  · intro h
    have hthere : ∀ s a, e ∈ s.db.tables.editionIds → Attachable e s a →
        e ∈ (step lib env e s a).db.tables.editionIds := fun _ _ he h => edition_step he h
    refine ⟨Runs.Admitted.imp hthere (fun s a he h => ?_) run he h, fun pre hpre => ?_⟩
    · obtain ⟨s', hok, _⟩ := @ok_of_attachable lib env _ _ _ he h
      exact ⟨s', hok⟩
    · obtain ⟨rest, rfl⟩ := hpre
      have hshown := @Runs.exec_related _ _ _ _ attached _
        (fun s file => e ∈ s.db.tables.editionIds ∧ editionFile s.db e = file)
        (fun s file a hs h => ?_) _ _ pre ⟨he, rfl⟩ (h.of_append pre rest)
      · rw [getEditionFile_of_mem hshown.1, hshown.2]
        rfl
      · obtain ⟨hs, rfl⟩ := hs
        obtain ⟨s', hok, hleaves⟩ := @ok_of_attachable lib env _ _ _ hs h
        exact ⟨hthere s a hs h, by rw [step_of_ok hok, hleaves.file]⟩

/-! ## The first file of an edition -/

/-- One edition, without a file. -/
def bareStore : Store := ⟨oneEditionDb, Writer.empty⟩

theorem bare_edition : sampleId 2 ∈ bareStore.db.tables.editionIds := List.mem_singleton_self _

/-- A first file without a format is refused. -/
theorem not_attached_without_format :
    ¬ (Runs.Admitted (step plainLib Env.reference (sampleId 2))
        (fun s a => Succeeds plainLib Env.reference s (a.toCall (sampleId 2))) bareStore
        [.set 0 (sampleId 3) "dune.pdf" none (some 4096)] ∧
      ∀ pre, pre <+: [Action.set 0 (sampleId 3) "dune.pdf" none (some 4096)] →
        getEditionFile (Runs.exec (step plainLib Env.reference (sampleId 2)) bareStore pre).db
            (sampleId 2) =
          some (pre.foldl attached (editionFile bareStore.db (sampleId 2)))) := by
  rintro ⟨⟨hsucceeds, _⟩, _⟩
  rcases attachable_of_succeeds hsucceeds with ⟨f, hf, _⟩ | ⟨hformat, _⟩
  · cases hf
  · exact hformat rfl

/-- One with a format is shown until it is removed. -/
theorem attached_with_format :
    Runs.Admitted (step plainLib Env.reference (sampleId 2))
        (fun s a => Succeeds plainLib Env.reference s (a.toCall (sampleId 2))) bareStore
        [.set 0 (sampleId 3) "dune.pdf" (some "PDF") (some 4096), .remove] ∧
      ∀ pre, pre <+: [Action.set 0 (sampleId 3) "dune.pdf" (some "PDF") (some 4096), .remove] →
        getEditionFile (Runs.exec (step plainLib Env.reference (sampleId 2)) bareStore pre).db
            (sampleId 2) =
          some (pre.foldl attached (editionFile bareStore.db (sampleId 2))) := by
  have hrun := attached_iff plainLib Env.reference bareStore (sampleId 2)
    [.set 0 (sampleId 3) "dune.pdf" (some "PDF") (some 4096), .remove] bare_edition
  exact hrun.2 ⟨Or.inr ⟨Option.some_ne_none _, List.not_mem_nil⟩, trivial, trivial⟩

end Attachments

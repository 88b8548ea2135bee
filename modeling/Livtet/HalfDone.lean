import Livtet.BrokenRebuild
import Livtet.Lib.Transactions
import Livtet.ReadingLists

/-! # Calls that stop half way

    The calls of the store run their statements on the pool, one by one, and most end with a
    rebuild of the index. None of them opens a transaction: what was written before the
    operation that failed stays written, and so does what the audit triggers logged of it.

    So a call that fails leaves the tables as they were exactly if no statement that writes a
    row had gone through, or if what was written was there before and was not logged
    (`unchanged_iff`). Links to identifiers are not logged: an identifier that is replaced by
    itself is as before once it is linked again. -/

namespace HalfDone

open SyncStore (Env ChangeLog)
open Reindex (Link IdentifierRow)
open SyncPairing Outcomes Library Transactions ReadingLists KeyedRows
open Transactions.Session (Leaves failing ask)

/-! ## The database and its audit triggers -/

/-- The library with its lists, the change log, and `sync_apply` of `client_settings`. -/
structure Database extends ListDb where
  log : ChangeLog
  syncApply : Option String

/-- The audit triggers are switched off. -/
def Database.Muted (d : Database) : Prop := d.syncApply.getD "0" = "1"

instance (d : Database) : Decidable d.Muted :=
  inferInstanceAs (Decidable (d.syncApply.getD "0" = "1"))

/-- What an audit trigger writes of a row. -/
structure Audit where
  entityType : String
  operation : String
  entityId : String
  payload : String

/-- The ids and the payloads that the audit triggers make of rows. -/
structure AuditTexts where
  contribution : Contribution → String × String
  file : FileRow → String × String
  member : Member → String × String
  list : ListRow → String × String

def audit (entityType operation : String) (texts : String × String) : Audit :=
  ⟨entityType, operation, texts.1, texts.2⟩

namespace Database

variable (clock : String)

/-- The change log after a statement: a row for each row that was written. -/
def logged (d : Database) (audits : List Audit) : ChangeLog :=
  if d.Muted then d.log
  else audits.foldl
    (fun log a => log.logLocal clock a.entityType a.entityId a.operation a.payload) d.log

/-- The database after a statement. -/
def after (d : Database) (written : ListDb × List Audit) : Database :=
  { written.1 with log := d.logged clock written.2, syncApply := d.syncApply }

end Database

/-- The database and the index. -/
structure Held where
  db : Database
  index : SearchIndex.IndexWriter

def Held.tables (s : Held) : Tables := s.db.library.tables

/-- A statement on the tables of the library. No member of a list may lose its edition. -/
def onLibrary (db : ListDb) (written : Except LivtetError Db) (audits : List Audit) :
    Except LivtetError (ListDb × List Audit) :=
  match written with
  | .error e => .error e
  | .ok library =>
      if h : (db.members.map fun m => m.editionId) ⊆ library.tables.editionIds then
        .ok ({ db with library, memberEditions := h }, audits)
      else .error (.database "constraint failed")

/-- `SearchError` as text. -/
def searchText : BrokenRebuild.SearchError → String
  | .tantivy message => "tantivy error: " ++ message
  | .db message => "database error: " ++ message
  | .schemaVersionMismatch found expected =>
      "index schema version " ++ toString found ++ " does not match build version " ++
        toString expected ++
          "; rebuild index with the original build or run migrate_to first"

/-! ## Calls, operation by operation -/

/-- The operations of the calls on the database. -/
inductive Operation
  | requireEdition
  | requireContributor
  | findFile
  | writeFile
  | findOld
  | unlink
  | findNew
  | insertIdentifier
  | findLink
  | insertLink
  | detach
  | findContribution
  | insertContribution
  | requireList
  | editionIds
  | findMember (index : Nat)
  | writePosition (index : Nat)
  | dropMembers
  | dropList
deriving DecidableEq

/-- What goes wrong: the operations that fail, and what goes wrong in the rebuild. -/
structure Faults where
  database : Operation → Option String
  rebuild : BrokenRebuild.Faults

def Faults.none : Faults := ⟨fun _ => .none, .none⟩

/-- The operation is not one of those that fail. -/
def Faults.Passes (faults : Faults) (op : Operation) : Prop := faults.database op = .none

/-- The row of a file after it was written. -/
def writtenFile (now : Int) (filePath : String) (fileFormat : Option String)
    (fileSizeBytes : Option Int) (f : FileRow) : FileRow := { f with
  filePath := some filePath
  fileFormat := fileFormat.or f.fileFormat
  fileSizeBytes := fileSizeBytes.or f.fileSizeBytes
  updatedAt := some now }

section Calls

variable (lib : SearchIndex.IndexLib) (env : Env) (order : ByPosition) (clock : String)
  (texts : AuditTexts) (faults : Faults)

def attempt {α : Type} (op : Operation) (m : Session LivtetError Held α) :
    Session LivtetError Held α :=
  failing ((faults.database op).map LivtetError.database) m

def look {α : Type} (op : Operation) (f : Database → Except LivtetError α) :
    Session LivtetError Held α :=
  attempt faults op (ask fun s => f s.db)

/-- A statement, and the triggers behind it. -/
def write (op : Operation) (f : Database → Except LivtetError (ListDb × List Audit)) :
    Session LivtetError Held Unit :=
  attempt faults op (Session.execute fun s =>
    (f s.db).map fun written => { s with db := s.db.after clock written })

/-- The rebuild leaves an index also where it fails. -/
def syncEditionIndex : Session LivtetError Held Unit := fun c =>
  let rebuilt := BrokenRebuild.reindexWithProgress lib env faults.rebuild
    c.current.db.library.catalog c.current.index
  (rebuilt.result.mapError fun e => .search (searchText e),
    c.write { c.current with index := rebuilt.writer })

/-! ### Files and identifiers -/

/-- The audits of a file that is written. -/
def fileAudits (now : Int) (newId editionId : DbId) (filePath : String)
    (fileFormat : Option String) (fileSizeBytes : Option Int) (t : Tables) : List Audit :=
  if t.digitalInventory.any fun f => decide (f.editionId = editionId) then
    (t.digitalInventory.filter fun f => decide (f.editionId = editionId)).map fun f =>
      audit "digital_inventory" "UPDATE"
        (texts.file (writtenFile now filePath fileFormat fileSizeBytes f))
  else
    [audit "digital_inventory" "INSERT"
      (texts.file ⟨newId, editionId, some filePath, fileFormat, fileSizeBytes, none⟩)]

def setEditionFile (now : Int) (newId editionId : DbId) (filePath : String)
    (fileFormat : Option String) (fileSizeBytes : Option Int) : Session LivtetError Held Unit := do
  let _ ← look faults .requireEdition fun d => requireEdition env d.library editionId
  let _ ← look faults .findFile fun d =>
    .ok (d.library.tables.digitalInventory.find? fun f => decide (f.editionId = editionId))
  write clock faults .writeFile fun d => onLibrary d.toListDb
    (writeFile now newId editionId filePath fileFormat fileSizeBytes d.library.tables)
    (fileAudits texts now newId editionId filePath fileFormat fileSizeBytes d.library.tables)
  syncEditionIndex lib env faults

/-- Identifiers and the links to them have no audit triggers. -/
def insertIdentifier (newId : DbId) (identifier : Identifier) : Session LivtetError Held DbId := do
  write clock faults .insertIdentifier fun d => onLibrary d.toListDb
    (execute { d.library.tables with
      identifiers := d.library.tables.identifiers ++
        [⟨newId, identifier.kind.asStr, identifier.asUrnString⟩] }) []
  pure newId

def identifierRow (newId : DbId) (identifier : Identifier) : Session LivtetError Held DbId := do
  let row ← look faults .findNew fun d => .ok
    (d.library.tables.identifiers.find? fun r => decide (r.value = identifier.asUrnString))
  match row with
  | some row => pure row.id
  | none => insertIdentifier clock faults newId identifier

def linkIdentifier (editionId id : DbId) : Session LivtetError Held Unit := do
  let linked ← look faults .findLink fun d => .ok (d.library.tables.editionIdentifiers.any fun l =>
    decide (l.owner = editionId ∧ l.target = id))
  if linked then pure ()
  else
    write clock faults .insertLink fun d => onLibrary d.toListDb
      (execute { d.library.tables with
        editionIdentifiers := d.library.tables.editionIdentifiers ++ [⟨editionId, id⟩] }) []

def attachIdentifier (newId editionId : DbId) (identifier : Identifier) :
    Session LivtetError Held Unit := do
  let id ← identifierRow clock faults newId identifier
  linkIdentifier clock faults editionId id

def detachIdentifier (editionId : DbId) (urn : String) : Session LivtetError Held Unit := do
  let row ← look faults .findOld fun d =>
    .ok (d.library.tables.identifiers.find? fun r => decide (r.value = urn))
  match row with
  | none => pure ()
  | some row =>
      write clock faults .unlink fun d => onLibrary d.toListDb
        (execute { d.library.tables with
          editionIdentifiers := d.library.tables.editionIdentifiers.filter fun l =>
            !decide (l.owner = editionId ∧ l.target = row.id) }) []

def addEditionIdentifier (newId editionId : DbId) (identifier : Identifier) :
    Session LivtetError Held Unit := do
  let _ ← look faults .requireEdition fun d => requireEdition env d.library editionId
  attachIdentifier clock faults newId editionId identifier
  syncEditionIndex lib env faults

def updateEditionIdentifier (newId editionId : DbId) (old new : Identifier) :
    Session LivtetError Held Unit := do
  let _ ← look faults .requireEdition fun d => requireEdition env d.library editionId
  detachIdentifier clock faults editionId old.asUrnString
  attachIdentifier clock faults newId editionId new
  syncEditionIndex lib env faults

/-! ### Contributors -/

def detachContributor (c : Contribution) : Session LivtetError Held Unit :=
  write clock faults .detach fun d => onLibrary d.toListDb
    (execute { d.library.tables with
      editionAuthors := d.library.tables.editionAuthors.filter fun x => decide (x ≠ c) })
    ((d.library.tables.editionAuthors.filter fun x => decide (x = c)).map fun x =>
      audit "edition_author" "DELETE" (texts.contribution x))

def attachContributor (c : Contribution) : Session LivtetError Held Unit := do
  let existing ← look faults .findContribution fun d =>
    .ok (decide (c ∈ d.library.tables.editionAuthors))
  if existing then pure ()
  else
    write clock faults .insertContribution fun d => onLibrary d.toListDb
      (execute { d.library.tables with editionAuthors := d.library.tables.editionAuthors ++ [c] })
      [audit "edition_author" "INSERT" (texts.contribution c)]

def updateEditionContributor (editionId contributorId : DbId) (fromRole toRole : String) :
    Session LivtetError Held Unit := do
  let fromRole ← ask fun _ => cleanRole lib fromRole
  let toRole ← ask fun _ => cleanRole lib toRole
  let _ ← look faults .requireEdition fun d => requireEdition env d.library editionId
  let _ ← look faults .requireContributor fun d => requireContributor env d.library contributorId
  detachContributor clock texts faults ⟨editionId, contributorId, fromRole⟩
  attachContributor clock texts faults ⟨editionId, contributorId, toRole⟩
  syncEditionIndex lib env faults

/-! ### Reading lists -/

/-- The audits of a position that is written. -/
def positionAudits (listId id : DbId) (index : Nat) (db : ListDb) : List Audit :=
  (db.members.filter fun m => decide (m.listId = listId ∧ m.editionId = id)).map fun m =>
    audit "reading_list_book" "UPDATE" (texts.member { m with position := asI32 index })

/-- The audits of members that are deleted. -/
def memberAudits (listId : DbId) (db : ListDb) : List Audit :=
  (db.membersOf listId).map fun m => audit "reading_list_book" "DELETE" (texts.member m)

/-- The loop of a move. A row that is not there is passed over. -/
def writeRows (listId : DbId) : List (DbId × Nat) → Session LivtetError Held Unit
  | [] => pure ()
  | (id, index) :: rest => do
      let found ← look faults (.findMember index) fun d =>
        .ok (d.members.any fun m => decide (m.listId = listId ∧ m.editionId = id))
      if found then do
        write clock faults (.writePosition index) fun d =>
          .ok (d.toListDb.setPosition listId id (asI32 index),
            positionAudits texts listId id index d.toListDb)
        writeRows listId rest
      else writeRows listId rest

def moveEditionInList (listId editionId : DbId) (position : Nat) :
    Session LivtetError Held Unit := do
  let _ ← look faults .requireList fun d => requireList env d.toListDb listId
  let ids ← look faults .editionIds fun d => .ok (editionIds order d.toListDb listId)
  if editionId ∈ ids then
    writeRows clock texts faults listId (Positions.moveTo editionId position ids).zipIdx
  else Session.throw (.notFound "reading_list_book" (editionId.text env))

/-- The members that go with the list are audited before it. -/
def deleteReadingList (listId : DbId) : Session LivtetError Held Unit := do
  write clock faults .dropMembers fun d =>
    .ok (d.toListDb.dropMembers fun m => decide (m.listId = listId),
      memberAudits texts listId d.toListDb)
  write clock faults .dropList fun d =>
    .ok (d.toListDb.dropList listId, memberAudits texts listId d.toListDb ++
      (d.lists.filter fun l => decide (l.id = listId)).map fun l =>
        audit "reading_list" "DELETE" (texts.list l))

/-- A call that changes the tables. -/
inductive Mutation
  | updateEditionIdentifier (newId editionId : DbId) (old new : Identifier)
  | addEditionIdentifier (newId editionId : DbId) (identifier : Identifier)
  | updateEditionContributor (editionId contributorId : DbId) (fromRole toRole : String)
  | setEditionFile (now : Int) (newId editionId : DbId) (filePath : String)
      (fileFormat : Option String) (fileSizeBytes : Option Int)
  | moveEditionInList (listId editionId : DbId) (position : Nat)
  | deleteReadingList (listId : DbId)

def perform : Mutation → Session LivtetError Held Unit
  | .updateEditionIdentifier newId e old new =>
      updateEditionIdentifier lib env clock faults newId e old new
  | .addEditionIdentifier newId e identifier =>
      addEditionIdentifier lib env clock faults newId e identifier
  | .updateEditionContributor e c fromRole toRole =>
      updateEditionContributor lib env clock texts faults e c fromRole toRole
  | .setEditionFile now newId e filePath fileFormat fileSizeBytes =>
      setEditionFile lib env clock texts faults now newId e filePath fileFormat fileSizeBytes
  | .moveEditionInList listId e position =>
      moveEditionInList env order clock texts faults listId e position
  | .deleteReadingList listId => deleteReadingList clock texts faults listId

end Calls

/-! ## Tables that are as before -/

/-- The same rows in every table of the library, each of which has a key. -/
structure SameRows (t t' : Tables) : Prop where
  editions : ∀ x, x ∈ t'.editions ↔ x ∈ t.editions
  works : ∀ x, x ∈ t'.works ↔ x ∈ t.works
  authors : ∀ x, x ∈ t'.authors ↔ x ∈ t.authors
  tags : ∀ x, x ∈ t'.tags ↔ x ∈ t.tags
  genres : ∀ x, x ∈ t'.genres ↔ x ∈ t.genres
  subjects : ∀ x, x ∈ t'.subjects ↔ x ∈ t.subjects
  publishers : ∀ x, x ∈ t'.publishers ↔ x ∈ t.publishers
  formats : ∀ x, x ∈ t'.formats ↔ x ∈ t.formats
  languages : ∀ x, x ∈ t'.languages ↔ x ∈ t.languages
  editionAuthors : ∀ x, x ∈ t'.editionAuthors ↔ x ∈ t.editionAuthors
  workAuthors : ∀ x, x ∈ t'.workAuthors ↔ x ∈ t.workAuthors
  editionTags : ∀ x, x ∈ t'.editionTags ↔ x ∈ t.editionTags
  editionGenres : ∀ x, x ∈ t'.editionGenres ↔ x ∈ t.editionGenres
  editionSubjects : ∀ x, x ∈ t'.editionSubjects ↔ x ∈ t.editionSubjects
  editionPublishers : ∀ x, x ∈ t'.editionPublishers ↔ x ∈ t.editionPublishers
  seriesEntries : ∀ x, x ∈ t'.seriesEntries ↔ x ∈ t.seriesEntries
  digitalInventory : ∀ x, x ∈ t'.digitalInventory ↔ x ∈ t.digitalInventory
  editionIdentifiers : ∀ x, x ∈ t'.editionIdentifiers ↔ x ∈ t.editionIdentifiers
  identifiers : ∀ x, x ∈ t'.identifiers ↔ x ∈ t.identifiers

/-- The same rows in every table. -/
structure Unchanged (d d' : Database) : Prop where
  library : SameRows d.library.tables d'.library.tables
  lists : ∀ x, x ∈ d'.lists ↔ x ∈ d.lists
  members : ∀ x, x ∈ d'.members ↔ x ∈ d.members
  log : d'.log = d.log
  syncApply : d'.syncApply = d.syncApply

/-! ## What has been written when a call stops -/

section Spared

variable (lib : SearchIndex.IndexLib) (order : ByPosition) (faults : Faults)

/-- A row of the identifier's URN is there. -/
def Known (t : Tables) (identifier : Identifier) : Prop :=
  identifier.asUrnString ∈ t.identifiers.map fun r => r.value

/-- The edition has the identifier. -/
def Carries (t : Tables) (editionId : DbId) (identifier : Identifier) : Prop :=
  ∃ r, Linked t editionId r ∧ r.value = identifier.asUrnString

/-- Attaching gets as far as a row of its own. -/
def Attaches (t : Tables) (newId editionId : DbId) (identifier : Identifier) : Prop :=
  faults.Passes .findNew ∧
  (Known t identifier →
    ¬ Carries t editionId identifier ∧ faults.Passes .findLink ∧ faults.Passes .insertLink) ∧
  (¬ Known t identifier → newId ∉ t.identifierIds ∧ faults.Passes .insertIdentifier)

/-- Detaching gets as far as a row. -/
def Detaches (t : Tables) (editionId : DbId) (identifier : Identifier) : Prop :=
  Carries t editionId identifier ∧ faults.Passes .findOld ∧ faults.Passes .unlink

/-- Attaching a role gets as far as a row of its own. -/
def AttachesRole (t : Tables) (c : Contribution) : Prop :=
  c ∉ t.editionAuthors ∧ faults.Passes .findContribution ∧ faults.Passes .insertContribution

/-- Detaching a role gets as far as a row. -/
def DetachesRole (t : Tables) (c : Contribution) : Prop :=
  c ∈ t.editionAuthors ∧ faults.Passes .detach

/-- No statement that goes through writes a row, or what it wrote was there and is not logged. -/
def Spared (d : Database) : Mutation → Prop
  | .updateEditionIdentifier newId e old new =>
      faults.Passes .requireEdition → e ∈ d.library.tables.editionIds →
        (Detaches faults d.library.tables e old → old.asUrnString = new.asUrnString ∧
          faults.Passes .findNew ∧ faults.Passes .findLink ∧ faults.Passes .insertLink) ∧
        (¬ Carries d.library.tables e old → faults.Passes .findOld →
          (Known d.library.tables old → faults.Passes .unlink) →
            ¬ Attaches faults d.library.tables newId e new)
  | .addEditionIdentifier newId e identifier =>
      faults.Passes .requireEdition → e ∈ d.library.tables.editionIds →
        ¬ Attaches faults d.library.tables newId e identifier
  | .updateEditionContributor e c fromRole toRole =>
      ∀ fromRole' toRole', cleanRole lib fromRole = .ok fromRole' →
        cleanRole lib toRole = .ok toRole' →
        faults.Passes .requireEdition → e ∈ d.library.tables.editionIds →
        faults.Passes .requireContributor → c ∈ d.library.tables.authorIds →
        (DetachesRole faults d.library.tables ⟨e, c, fromRole'⟩ → d.Muted ∧ fromRole' = toRole' ∧
          faults.Passes .findContribution ∧ faults.Passes .insertContribution) ∧
        (⟨e, c, fromRole'⟩ ∉ d.library.tables.editionAuthors → faults.Passes .detach →
          ¬ AttachesRole faults d.library.tables ⟨e, c, toRole'⟩)
  | .setEditionFile now newId e filePath fileFormat fileSizeBytes =>
      faults.Passes .requireEdition → e ∈ d.library.tables.editionIds →
        faults.Passes .findFile → faults.Passes .writeFile →
        (∀ f ∈ d.library.tables.digitalInventory, f.editionId = e →
          d.Muted ∧ writtenFile now filePath fileFormat fileSizeBytes f = f) ∧
        ((∀ f ∈ d.library.tables.digitalInventory, f.editionId ≠ e) →
          fileFormat = none ∨ newId ∈ d.library.tables.digitalInventory.map fun f => f.id)
  | .moveEditionInList listId e position =>
      faults.Passes .requireList → (listId ∈ d.lists.map fun l => l.id) →
        faults.Passes .editionIds → e ∈ editionIds order d.toListDb listId →
        ∀ i id, (Positions.moveTo e position (editionIds order d.toListDb listId))[i]? = some id →
          (∀ j ≤ i, faults.Passes (.findMember j) ∧ faults.Passes (.writePosition j)) →
            d.Muted ∧ (id, asI32 i) ∈ placed d.toListDb listId
  | .deleteReadingList listId =>
      faults.Passes .dropMembers → d.toListDb.membersOf listId = [] ∧
        (faults.Passes .dropList → listId ∉ d.lists.map fun l => l.id)

end Spared

/-! ## Statements that go through -/

section Statements

variable {t : Tables} {d d' : Database} {clock : String} {audits : List Audit}
  {w : ListDb × List Audit}

/-- Everything beside the tables of the library is as it was. -/
structure Beside (d d' : Database) : Prop where
  lists : d'.lists = d.lists
  members : d'.members = d.members
  log : d'.log = d.log
  syncApply : d'.syncApply = d.syncApply

/-- Everything beside the tables of the library is as it was, but for audits. -/
structure Audited (d d' : Database) : Prop where
  lists : d'.lists = d.lists
  members : d'.members = d.members
  syncApply : d'.syncApply = d.syncApply
  muted : d.Muted → d'.log = d.log
  seq_le : d.log.seq ≤ d'.log.seq

theorem Beside.trans {d'' : Database} (h : Beside d d') (h' : Beside d' d'') : Beside d d'' :=
  ⟨h'.lists.trans h.lists, h'.members.trans h.members, h'.log.trans h.log,
    h'.syncApply.trans h.syncApply⟩

theorem Audited.beside (h : Audited d d') (hmuted : d.Muted) : Beside d d' :=
  ⟨h.lists, h.members, h.muted hmuted, h.syncApply⟩

theorem Audited.muted_iff (h : Audited d d') : d'.Muted ↔ d.Muted := by
  unfold Database.Muted
  rw [h.syncApply]

theorem eq_of_tables (h : Beside d d') (htables : d'.library.tables = d.library.tables) :
    d' = d := by
  obtain ⟨⟨⟨tables, _⟩, lists, members, _, _, _, _⟩, log, syncApply⟩ := d
  obtain ⟨⟨⟨tables', _⟩, lists', members', _, _, _, _⟩, log', syncApply'⟩ := d'
  obtain ⟨hlists, hmembers, hlog, hsync⟩ := h
  cases hlists
  cases hmembers
  cases hlog
  cases hsync
  cases htables
  rfl

theorem logged_nil (d : Database) : d.logged clock [] = d.log := by
  rw [Database.logged]
  split <;> rfl

theorem logged_of_muted (h : d.Muted) (audits : List Audit) : d.logged clock audits = d.log :=
  if_pos h

/-- A row for each audit. -/
theorem seq_foldl (audits : List Audit) : ∀ log : ChangeLog, (audits.foldl
    (fun log a => log.logLocal clock a.entityType a.entityId a.operation a.payload) log).seq =
      log.seq + audits.length := by
  induction audits with
  | nil => exact fun _ => rfl
  | cons a audits ih =>
      intro log
      rw [List.foldl_cons, ih, List.length_cons]
      show log.seq + 1 + audits.length = _
      omega

theorem seq_logged (h : ¬ d.Muted) (audits : List Audit) :
    (d.logged clock audits).seq = d.log.seq + audits.length := by
  rw [Database.logged, if_neg h, seq_foldl]

theorem seq_le_logged (d : Database) (audits : List Audit) :
    d.log.seq ≤ (d.logged clock audits).seq := by
  by_cases h : d.Muted
  · rw [logged_of_muted h]
  · rw [seq_logged h]
    exact Nat.le_add_right _ _

theorem onLibrary_eq_ok (h : onLibrary d.toListDb (execute t) audits = .ok w) :
    Audited d (d.after clock w) ∧ (d.after clock w).library.tables = t ∧
      (d.after clock w).log = d.logged clock audits := by
  unfold onLibrary at h
  cases hexecute : execute t with
  | error e =>
      rw [hexecute] at h
      cases h
  | ok library =>
      rw [hexecute] at h
      dsimp only at h
      split at h
      · cases h
        exact ⟨⟨rfl, rfl, rfl, fun hmuted => logged_of_muted hmuted _, seq_le_logged _ _⟩,
          execute_eq_ok.1 hexecute, rfl⟩
      · cases h

/-- A statement that no trigger follows. -/
theorem beside_of_onLibrary (h : onLibrary d.toListDb (execute t) [] = .ok w) :
    Beside d (d.after clock w) ∧ (d.after clock w).library.tables = t := by
  obtain ⟨haudited, htables, hlog⟩ := @onLibrary_eq_ok t d clock [] w h
  exact ⟨⟨haudited.lists, haudited.members, hlog.trans (logged_nil d), haudited.syncApply⟩, htables⟩

/-- A statement that leaves the editions alone goes through if the constraints hold. -/
theorem not_onLibrary_error (ht : t.Sound) (hids : t.editionIds = d.library.tables.editionIds)
    {e : LivtetError} : onLibrary d.toListDb (execute t) audits ≠ .error e := by
  have hmembers : (d.members.map fun m => m.editionId) ⊆ t.editionIds := hids ▸ d.memberEditions
  obtain ⟨w, hw⟩ : ∃ w, onLibrary d.toListDb (execute t) audits = .ok w := by
    rw [execute_of_sound ht]
    exact ⟨_, dif_pos hmembers⟩
  rw [hw]
  intro h
  cases h

end Statements

/-! ## Tables that a call leaves -/

section Leaving

variable {lib : SearchIndex.IndexLib} {env : Env} {order : ByPosition} {faults : Faults}
  {clock : String} {α β : Type} {m : Session LivtetError Held α} {s : Held} {post : Database → Prop}

/-- The tables, whatever the call returns. -/
def Ends (m : Session LivtetError Held α) (s : Held) (post : Database → Prop) : Prop :=
  Leaves m s fun _ s' => post s'.db

theorem ends_throw {e : LivtetError} (h : post s.db) :
    Ends (Session.throw e : Session LivtetError Held α) s post := Leaves.throw h

theorem ends_pure {a : α} (h : post s.db) : Ends (pure a) s post := Leaves.pure h

theorem ends_bind {n : α → Session LivtetError Held β} (h : Leaves m s fun r s' =>
    (∀ a, r = .ok a → Ends (n a) s' post) ∧ ∀ e, r = .error e → post s'.db) :
    Ends (m >>= n) s post := Leaves.bind h

theorem not_passes {op : Operation} {e : LivtetError}
    (h : (faults.database op).map LivtetError.database = some e) : ¬ faults.Passes op := by
  intro hpasses
  rw [hpasses] at h
  cases h

theorem passes {op : Operation} (h : (faults.database op).map LivtetError.database = none) :
    faults.Passes op := Option.map_eq_none_iff.1 h

/-- A query that fails, has an error for an answer, or an answer. -/
theorem ends_look {op : Operation} {f : Database → Except LivtetError α}
    {n : α → Session LivtetError Held β} (hfail : ¬ faults.Passes op → post s.db)
    (herror : ∀ e, f s.db = .error e → post s.db)
    (hok : faults.Passes op → ∀ a, f s.db = .ok a → Ends (n a) s post) :
    Ends (look faults op f >>= n) s post := by
  refine ends_bind (Leaves.failing (fun e he => ⟨fun a h => ?_, fun _ _ => ?_⟩) fun hnone =>
    Leaves.ask ⟨fun a ha => ?_, fun e he => ?_⟩)
  · cases h
  · exact hfail (not_passes he)
  · exact hok (passes hnone) a ha
  · exact herror e he

/-- A statement that fails changes nothing. -/
theorem ends_write {op : Operation} {f : Database → Except LivtetError (ListDb × List Audit)}
    (hfail : ¬ faults.Passes op → post s.db) (herror : ∀ e, f s.db = .error e → post s.db)
    (hok : faults.Passes op → ∀ w, f s.db = .ok w → post (s.db.after clock w)) :
    Ends (write clock faults op f) s post := by
  refine Leaves.failing (fun e he => hfail (not_passes he)) fun hnone =>
    Leaves.execute (fun s' hs' => ?_) fun e he => ?_
  · obtain ⟨w, hw, rfl⟩ := map_eq_ok.1 hs'
    exact hok (passes hnone) w hw
  · cases hf : f s.db with
    | error e' => exact herror e' hf
    | ok w =>
        rw [hf] at he
        cases he

theorem ends_write_bind {op : Operation} {f : Database → Except LivtetError (ListDb × List Audit)}
    {n : Unit → Session LivtetError Held β} (hfail : ¬ faults.Passes op → post s.db)
    (herror : ∀ e, f s.db = .error e → post s.db)
    (hok : faults.Passes op → ∀ w, f s.db = .ok w →
      Ends (n ()) { s with db := s.db.after clock w } post) :
    Ends (write clock faults op f >>= n) s post := by
  refine ends_bind (Leaves.failing (fun e he => ⟨fun a h => ?_, fun _ _ => ?_⟩) fun hnone =>
    Leaves.execute (fun s' hs' => ⟨fun _ _ => ?_, fun e h => ?_⟩) fun e he =>
      ⟨fun a h => ?_, fun _ _ => ?_⟩)
  · cases h
  · exact hfail (not_passes he)
  · obtain ⟨w, hw, rfl⟩ := map_eq_ok.1 hs'
    exact hok (passes hnone) w hw
  · cases h
  · cases h
  · cases hf : f s.db with
    | error e' => exact herror e' hf
    | ok w =>
        rw [hf] at he
        cases he

/-- The rebuild of the index comes last, and leaves the tables alone. -/
theorem ends_sync {m : Session LivtetError Held Unit} (h : Ends m s post) :
    Ends (m >>= fun _ => syncEditionIndex lib env faults) s post := by
  refine ends_bind (h.imp fun r s' hpost => ⟨fun _ _ => ?_, fun _ _ => hpost⟩)
  exact ⟨_, _, rfl, hpost⟩

end Leaving

/-! ## Tables that are not as before -/

section Changed

variable {t : Tables} {d d' : Database}

theorem SameRows.refl (t : Tables) : SameRows t t where
  editions _ := Iff.rfl
  works _ := Iff.rfl
  authors _ := Iff.rfl
  tags _ := Iff.rfl
  genres _ := Iff.rfl
  subjects _ := Iff.rfl
  publishers _ := Iff.rfl
  formats _ := Iff.rfl
  languages _ := Iff.rfl
  editionAuthors _ := Iff.rfl
  workAuthors _ := Iff.rfl
  editionTags _ := Iff.rfl
  editionGenres _ := Iff.rfl
  editionSubjects _ := Iff.rfl
  editionPublishers _ := Iff.rfl
  seriesEntries _ := Iff.rfl
  digitalInventory _ := Iff.rfl
  editionIdentifiers _ := Iff.rfl
  identifiers _ := Iff.rfl

theorem Unchanged.refl (d : Database) : Unchanged d d where
  library := SameRows.refl _
  lists _ := Iff.rfl
  members _ := Iff.rfl
  log := rfl
  syncApply := rfl

/-- A statement on one table of the library leaves the rest alone. -/
theorem unchanged_iff_sameRows (h : Beside d d') :
    Unchanged d d' ↔ SameRows d.library.tables d'.library.tables := by
  refine ⟨fun h => h.library, fun hrows => ⟨hrows, ?_, ?_, h.log, h.syncApply⟩⟩
  · rw [h.lists]
    exact fun _ => Iff.rfl
  · rw [h.members]
    exact fun _ => Iff.rfl

/-- What was logged stays logged. -/
theorem not_unchanged_of_seq_lt (h : d.log.seq < d'.log.seq) : ¬ Unchanged d d' := by
  intro hsame
  rw [hsame.log] at h
  exact Nat.lt_irrefl _ h

theorem sameRows_editionIdentifiers {links : List Link} :
    SameRows t { t with editionIdentifiers := links } ↔ ∀ l, l ∈ links ↔ l ∈ t.editionIdentifiers :=
  ⟨fun h => h.editionIdentifiers, fun h => { SameRows.refl t with editionIdentifiers := h }⟩

theorem sameRows_editionAuthors {rows : List Contribution} :
    SameRows t { t with editionAuthors := rows } ↔ ∀ c, c ∈ rows ↔ c ∈ t.editionAuthors :=
  ⟨fun h => h.editionAuthors, fun h => { SameRows.refl t with editionAuthors := h }⟩

theorem sameRows_digitalInventory {rows : List FileRow} :
    SameRows t { t with digitalInventory := rows } ↔ ∀ f, f ∈ rows ↔ f ∈ t.digitalInventory :=
  ⟨fun h => h.digitalInventory, fun h => { SameRows.refl t with digitalInventory := h }⟩

/-- A row that was not there. -/
theorem not_mem_iff_append {α : Type} {rows : List α} {x : α} (hx : x ∉ rows) :
    ¬ ∀ y, y ∈ rows ++ [x] ↔ y ∈ rows :=
  fun h => hx ((h x).1 (List.mem_append_right _ (List.mem_singleton_self x)))

end Changed

/-! ## Identifiers -/

section IdentifierCalls

variable {lib : SearchIndex.IndexLib} {env : Env} {order : ByPosition} {faults : Faults}
  {clock : String} {s : Held} {post : Database → Prop} {newId e : DbId} {i old new : Identifier}

/-- The edition has the identifier if it is linked to the row of the URN. -/
theorem carries_iff {t : Tables} (ht : t.Sound) {r : IdentifierRow} (hr : r ∈ t.identifiers)
    (hvalue : r.value = i.asUrnString) :
    Carries t e i ↔ (⟨e, r.id⟩ : Link) ∈ t.editionIdentifiers := by
  constructor
  · rintro ⟨r', ⟨hr', hlinked⟩, hvalue'⟩
    have hsame : r' = r :=
      List.inj_on_of_nodup_map ht.keys.identifierValues hr' hr (hvalue'.trans hvalue.symm)
    rw [← hsame]
    exact hlinked
  · intro hlinked
    exact ⟨r, ⟨hr, hlinked⟩, hvalue⟩

theorem known_of_carries {t : Tables} (h : Carries t e i) : Known t i := by
  obtain ⟨r, ⟨hr, _⟩, hvalue⟩ := h
  exact List.mem_map.2 ⟨r, hr, hvalue⟩

theorem any_link {t : Tables} {id : DbId} :
    (t.editionIdentifiers.any fun l => decide (l.owner = e ∧ l.target = id)) = true ↔
      (⟨e, id⟩ : Link) ∈ t.editionIdentifiers := by
  rw [List.any_eq_true]
  constructor
  · rintro ⟨⟨_, _⟩, hl, heq⟩
    obtain ⟨rfl, rfl⟩ := of_decide_eq_true heq
    exact hl
  · intro hl
    exact ⟨_, hl, decide_eq_true ⟨rfl, rfl⟩⟩

/-- A link is there, is made, or cannot be made. -/
theorem ends_linkIdentifier {id : DbId} (he : e ∈ s.tables.editionIds)
    (hid : id ∈ s.tables.identifierIds)
    (hkept : ¬ ((⟨e, id⟩ : Link) ∉ s.tables.editionIdentifiers ∧ faults.Passes .findLink ∧
      faults.Passes .insertLink) → post s.db)
    (hlinked : (⟨e, id⟩ : Link) ∉ s.tables.editionIdentifiers → faults.Passes .findLink →
      faults.Passes .insertLink → ∀ d', Beside s.db d' →
        d'.library.tables = { s.tables with
          editionIdentifiers := s.tables.editionIdentifiers ++ [⟨e, id⟩] } → post d') :
    Ends (linkIdentifier clock faults e id) s post := by
  refine ends_look (fun hfail => hkept fun h => hfail h.2.1) (fun _ h => ?_)
    fun hfind found hfound => ?_
  · cases h
  · cases hfound
    have hany := @any_link e s.db.library.tables id
    by_cases hthere : (⟨e, id⟩ : Link) ∈ s.tables.editionIdentifiers
    · rw [if_pos (hany.2 hthere)]
      exact ends_pure (hkept fun h => h.1 hthere)
    · rw [if_neg fun h => hthere (hany.1 h)]
      refine ends_write (fun hfail => hkept fun h => hfail h.2.2) (fun error h => ?_)
        fun hinsert w hw => ?_
      · have hsound : { s.tables with
            editionIdentifiers := s.tables.editionIdentifiers ++ [(⟨e, id⟩ : Link)] }.Sound := by
          refine sound_editionIdentifiers s.db.library.sound fun l hl => ?_
          rcases List.mem_append.1 hl with hold | hnew
          · exact link_mem s.db.library.sound hold
          · rw [List.mem_singleton.1 hnew]
            exact ⟨he, hid⟩
        exact absurd h (not_onLibrary_error hsound rfl)
      · obtain ⟨hbeside, htables⟩ := beside_of_onLibrary hw
        exact hlinked hthere hfind hinsert _ hbeside htables

/-- Attaching leaves the tables alone, or a new identifier, or a new link to an old one. -/
theorem ends_attachIdentifier (he : e ∈ s.tables.editionIds)
    (hkept : ¬ Attaches faults s.tables newId e i → post s.db)
    (hinserted : Attaches faults s.tables newId e i → ¬ Known s.tables i →
      ∀ d' row, row.value = i.asUrnString →
        d'.library.tables.identifiers = s.tables.identifiers ++ [row] → post d')
    (hlinked : Attaches faults s.tables newId e i → ∀ r ∈ s.tables.identifiers,
      r.value = i.asUrnString → ∀ d', Beside s.db d' →
        d'.library.tables = { s.tables with
          editionIdentifiers := s.tables.editionIdentifiers ++ [⟨e, r.id⟩] } → post d') :
    Ends (attachIdentifier clock faults newId e i) s post := by
  rw [attachIdentifier, identifierRow, bind_assoc]
  refine ends_look (fun hfail => hkept fun h => hfail h.1) (fun _ h => ?_)
    fun hfind found hfound => ?_
  · cases h
  · cases hrow : s.tables.identifiers.find? fun r => decide (r.value = i.asUrnString) with
    | none =>
        -- the row is inserted first: from here on the identifier stays, linked or not
        have hunknown : ¬ Known s.tables i := find?_key_eq_none.1 hrow
        cases hfound.symm.trans (congrArg Except.ok hrow)
        show Ends (insertIdentifier clock faults newId i >>= _) s post
        rw [insertIdentifier, bind_assoc]
        refine ends_write_bind (fun hfail => hkept fun h => hfail (h.2.2 hunknown).2)
          (fun error h => hkept fun hattaches => ?_) fun hinsert w hw => ?_
        · have hsound : { s.tables with identifiers := s.tables.identifiers ++
              [(⟨newId, i.kind.asStr, i.asUrnString⟩ : IdentifierRow)] }.Sound :=
            sound_insertIdentifier s.db.library.sound (hattaches.2.2 hunknown).1 hunknown
          exact absurd h (not_onLibrary_error hsound rfl)
        · obtain ⟨_, htables⟩ := @beside_of_onLibrary _ _ clock _ hw
          have hkeys := (s.db.after clock w).library.sound.keys.identifierKeys
          have hids : (s.db.after clock w).library.tables.identifierIds =
              s.tables.identifierIds ++ [newId] := by
            rw [htables, Tables.identifierIds, List.map_append]
            rfl
          have hfree : newId ∉ s.tables.identifierIds := by
            rw [hids] at hkeys
            exact fun h => (List.nodup_append.1 hkeys).2.2 newId h newId
              (List.mem_singleton_self _) rfl
          have hattaches : Attaches faults s.tables newId e i :=
            ⟨hfind, fun h => absurd h hunknown, fun _ => ⟨hfree, hinsert⟩⟩
          have hrows : (s.db.after clock w).library.tables.identifiers = s.tables.identifiers ++
              [⟨newId, i.kind.asStr, i.asUrnString⟩] := congrArg Tables.identifiers htables
          have hposted := fun d' => hinserted hattaches hunknown d'
            ⟨newId, i.kind.asStr, i.asUrnString⟩ rfl
          rw [pure_bind]
          refine ends_linkIdentifier ?_ ?_ (fun _ => hposted _ hrows)
            fun _ _ _ d' _ htables' => hposted d' ?_
          · show e ∈ (s.db.after clock w).library.tables.editionIds
            rw [htables]
            exact he
          · show newId ∈ (s.db.after clock w).library.tables.identifierIds
            rw [hids]
            exact List.mem_append_right _ (List.mem_singleton_self _)
          · rw [htables']
            exact hrows
    | some r =>
        -- the row is there, so the link is all that can change
        obtain ⟨hr, hvalue⟩ := (find?_key_eq_some s.db.library.sound.keys.identifierValues).1 hrow
        cases hfound.symm.trans (congrArg Except.ok hrow)
        show Ends (pure r.id >>= _) s post
        rw [pure_bind]
        have hknown : Known s.tables i := List.mem_map.2 ⟨r, hr, hvalue⟩
        have hcarries := @carries_iff e i s.tables s.db.library.sound r hr hvalue
        refine ends_linkIdentifier he (List.mem_map_of_mem hr) (fun hnot => hkept fun h => ?_)
          fun hthere hfindLink hinsert => hlinked ?_ r hr hvalue
        · obtain ⟨hcarried, hpasses⟩ := h.2.1 hknown
          exact hnot ⟨fun hl => hcarried (hcarries.2 hl), hpasses⟩
        · exact ⟨hfind, fun _ => ⟨fun h => hthere (hcarries.1 h), hfindLink, hinsert⟩,
            fun h => absurd hknown h⟩

/-- Detaching fails, leaves the tables alone, or takes the link. -/
theorem ends_detachIdentifier {n : Unit → Session LivtetError Held Unit}
    (hfail : ¬ (faults.Passes .findOld ∧ (Known s.tables old → faults.Passes .unlink)) → post s.db)
    (hnone : ¬ Carries s.tables e old → faults.Passes .findOld →
      (Known s.tables old → faults.Passes .unlink) → Ends (n ()) s post)
    (hgone : Detaches faults s.tables e old → ∀ r ∈ s.tables.identifiers,
      r.value = old.asUrnString → ∀ d', Beside s.db d' →
        d'.library.tables = { s.tables with
          editionIdentifiers := s.tables.editionIdentifiers.filter fun l =>
            !decide (l.owner = e ∧ l.target = r.id) } → Ends (n ()) { s with db := d' } post) :
    Ends (detachIdentifier clock faults e old.asUrnString >>= n) s post := by
  rw [detachIdentifier, bind_assoc]
  refine ends_look (fun h => hfail fun hpasses => h hpasses.1) (fun _ h => ?_)
    fun hfind found hfound => ?_
  · cases h
  · cases hrow : s.tables.identifiers.find? fun r => decide (r.value = old.asUrnString) with
    | none =>
        have hunknown : ¬ Known s.tables old := find?_key_eq_none.1 hrow
        cases hfound.symm.trans (congrArg Except.ok hrow)
        exact hnone (fun h => hunknown (known_of_carries h)) hfind fun h => absurd h hunknown
    | some r =>
        obtain ⟨hr, hvalue⟩ := (find?_key_eq_some s.db.library.sound.keys.identifierValues).1 hrow
        cases hfound.symm.trans (congrArg Except.ok hrow)
        -- the link is deleted without a look whether it is there, which can change nothing
        have hknown : Known s.tables old := List.mem_map.2 ⟨r, hr, hvalue⟩
        have hcarries := @carries_iff e old s.tables s.db.library.sound r hr hvalue
        refine ends_write_bind (fun h => hfail fun hpasses => h (hpasses.2 hknown))
          (fun error h => ?_) fun hunlink w hw => ?_
        · have hsound : { s.tables with
              editionIdentifiers := s.tables.editionIdentifiers.filter fun l =>
                !decide (l.owner = e ∧ l.target = r.id) }.Sound :=
            sound_editionIdentifiers s.db.library.sound fun l hl =>
              link_mem s.db.library.sound (List.mem_filter.1 hl).1
          exact absurd h (not_onLibrary_error hsound rfl)
        · obtain ⟨hbeside, htables⟩ := @beside_of_onLibrary _ _ clock _ hw
          by_cases hcarried : Carries s.tables e old
          · exact hgone ⟨hcarried, hfind, hunlink⟩ r hr hvalue _ hbeside htables
          · have hkept : s.db.library.tables.editionIdentifiers.filter (fun l =>
                !decide (l.owner = e ∧ l.target = r.id)) =
                  s.db.library.tables.editionIdentifiers := by
              refine filter_eq_self_of_any (Bool.eq_false_iff.2 fun hany => ?_)
              exact hcarried (hcarries.2 (any_link.1 hany))
            have hsame : s.db.after clock w = s.db := by
              refine eq_of_tables hbeside (htables.trans ?_)
              rw [hkept]
            rw [hsame]
            exact hnone hcarried hfind fun _ => hunlink

/-- A new identifier is a new row. -/
theorem not_unchanged_inserted {d d' : Database} {row : IdentifierRow}
    (hunknown : row.value ∉ d.library.tables.identifiers.map fun r => r.value)
    (hrows : d'.library.tables.identifiers = d.library.tables.identifiers ++ [row]) :
    ¬ Unchanged d d' := by
  intro h
  have hsame := h.library.identifiers
  rw [hrows] at hsame
  exact not_mem_iff_append (fun hr => hunknown (List.mem_map_of_mem hr)) hsame

/-- A link that was taken comes back exactly with the row that it named. -/
theorem sameRows_relinked {t : Tables} {r r' : IdentifierRow} (ht : t.Sound)
    (hr : r ∈ t.identifiers) (hr' : r' ∈ t.identifiers)
    (hlinked : (⟨e, r.id⟩ : Link) ∈ t.editionIdentifiers) :
    SameRows t { t with editionIdentifiers := t.editionIdentifiers.filter (fun l =>
      !decide (l.owner = e ∧ l.target = r.id)) ++ [⟨e, r'.id⟩] } ↔ r.value = r'.value := by
  rw [sameRows_editionIdentifiers]
  constructor
  · intro h
    rcases List.mem_append.1 ((h ⟨e, r.id⟩).2 hlinked) with hkept | hnew
    · simp at hkept
    · have hid : r.id = r'.id := congrArg Link.target (List.mem_singleton.1 hnew)
      rw [List.inj_on_of_nodup_map ht.keys.identifierKeys hr hr' hid]
  · intro hvalue l
    have hsame : r = r' := List.inj_on_of_nodup_map ht.keys.identifierValues hr hr' hvalue
    rw [← hsame, List.mem_append, List.mem_filter, List.mem_singleton, Bool.not_eq_true',
      decide_eq_false_iff_not]
    constructor
    · rintro (⟨hl, _⟩ | rfl)
      · exact hl
      · exact hlinked
    · intro hl
      by_cases hown : l.owner = e ∧ l.target = r.id
      · refine Or.inr ?_
        obtain ⟨owner, target⟩ := l
        obtain ⟨rfl, rfl⟩ := hown
        rfl
      · exact Or.inl ⟨hl, hown⟩

/-- What is attached after a link was taken: all is as before if it is the same link. -/
theorem ends_attachIdentifier_detached {r : IdentifierRow} {s' : Held}
    (he : e ∈ s.tables.editionIds) (hr : r ∈ s.tables.identifiers)
    (hvalue : r.value = old.asUrnString)
    (hlinked : (⟨e, r.id⟩ : Link) ∈ s.tables.editionIdentifiers)
    (hbeside : Beside s.db s'.db) (htables : s'.tables = { s.tables with
      editionIdentifiers := s.tables.editionIdentifiers.filter fun l =>
        !decide (l.owner = e ∧ l.target = r.id) }) :
    Ends (attachIdentifier clock faults newId e new) s' fun d' => Unchanged s.db d' ↔
      old.asUrnString = new.asUrnString ∧ faults.Passes .findNew ∧ faults.Passes .findLink ∧
        faults.Passes .insertLink := by
  have hrows : s'.tables.identifiers = s.tables.identifiers := by rw [htables]
  have hgone : (⟨e, r.id⟩ : Link) ∉ s'.tables.editionIdentifiers := by
    rw [htables]
    simp
  have hsame : old.asUrnString = new.asUrnString →
      Known s'.tables new ∧ ¬ Carries s'.tables e new := by
    intro heq
    rw [← hrows] at hr
    refine ⟨List.mem_map.2 ⟨r, hr, hvalue.trans heq⟩, fun hcarries => hgone ?_⟩
    exact (carries_iff s'.db.library.sound hr (hvalue.trans heq)).1 hcarries
  refine ends_attachIdentifier ?_ (fun hnot => iff_of_false ?_ ?_)
    (fun hattaches hunknown d' row hvalue' hrows' => iff_of_false ?_ ?_)
    fun hattaches r' hr' hvalue' d' hbeside' htables' => ?_
  · rw [htables]
    exact he
  · -- the link is missing
    intro h
    exact hgone ((h.library.editionIdentifiers _).2 hlinked)
  · exact fun h => hnot ⟨h.2.1, fun _ => ⟨(hsame h.1).2, h.2.2⟩,
      fun hunknown => absurd (hsame h.1).1 hunknown⟩
  · rw [hrows] at hrows'
    rw [Known, hrows, ← hvalue'] at hunknown
    exact not_unchanged_inserted hunknown hrows'
  · exact fun h => hunknown (hsame h.1).1
  · have hpasses := (hattaches.2.1 (List.mem_map.2 ⟨r', hr', hvalue'⟩)).2
    -- a link is back in the same place only if it is the one that was taken
    have hboth : d'.library.tables = { s.tables with
        editionIdentifiers := s.tables.editionIdentifiers.filter (fun l =>
          !decide (l.owner = e ∧ l.target = r.id)) ++ [⟨e, r'.id⟩] } := by
      rw [htables', htables]
    rw [hrows] at hr'
    have hback := @sameRows_relinked e s.tables r r' s.db.library.sound hr hr' hlinked
    rw [hvalue, hvalue'] at hback
    rw [unchanged_iff_sameRows (hbeside.trans hbeside'), hboth]
    exact hback.trans (and_iff_left ⟨hattaches.1, hpasses⟩).symm

/-- What is attached on its own: all is as before if nothing is. -/
theorem ends_attachIdentifier_kept (he : e ∈ s.tables.editionIds) :
    Ends (attachIdentifier clock faults newId e i) s fun d' =>
      Unchanged s.db d' ↔ ¬ Attaches faults s.tables newId e i := by
  refine ends_attachIdentifier he (fun hnot => iff_of_true (Unchanged.refl _) hnot)
    (fun hattaches hunknown d' row hvalue hrows => iff_of_false ?_ (not_not_intro hattaches))
    fun hattaches r hr hvalue d' hbeside htables =>
      iff_of_false ?_ (not_not_intro hattaches)
  · exact not_unchanged_inserted (hvalue ▸ hunknown) hrows
  · rw [unchanged_iff_sameRows hbeside, htables]
    refine fun h => not_mem_iff_append (fun hl => ?_) (sameRows_editionIdentifiers.1 h)
    have hknown : Known s.tables i := List.mem_map.2 ⟨r, hr, hvalue⟩
    exact (hattaches.2.1 hknown).1 ((carries_iff s.db.library.sound hr hvalue).2 hl)

/-- Every call about an edition looks it up first, and stops if it is not there. -/
theorem ends_requireEdition {n : Edition → Session LivtetError Held Unit} {spared : Prop}
    (hspared : (faults.Passes .requireEdition → e ∈ s.tables.editionIds → spared) → spared)
    (h : faults.Passes .requireEdition → e ∈ s.tables.editionIds → ∀ row,
      Ends (n row) s fun d' => Unchanged s.db d' ↔ spared) :
    Ends (look faults .requireEdition (fun d => requireEdition env d.library e) >>= n) s
      fun d' => Unchanged s.db d' ↔ spared := by
  refine ends_look (fun hfail => iff_of_true (Unchanged.refl _) (hspared fun h => absurd h hfail))
    (fun error herror => iff_of_true (Unchanged.refl _) (hspared fun _ he => ?_))
    fun hpass row hrow => h hpass (requireEdition_eq_ok_iff.1 ⟨row, hrow⟩) row
  obtain ⟨row, hrow⟩ := (@requireEdition_eq_ok_iff env s.db.library e).2 he
  rw [herror] at hrow
  cases hrow

theorem ends_addEditionIdentifier :
    Ends (addEditionIdentifier lib env clock faults newId e i) s fun d' =>
      Unchanged s.db d' ↔ Spared lib order faults s.db (.addEditionIdentifier newId e i) := by
  refine ends_requireEdition (fun h hpass he => h hpass he hpass he) fun hpass he row => ?_
  have hspared : Spared lib order faults s.db (.addEditionIdentifier newId e i) ↔
      ¬ Attaches faults s.tables newId e i := ⟨fun h => h hpass he, fun h _ _ => h⟩
  simp only [hspared]
  exact ends_sync (ends_attachIdentifier_kept he)

theorem ends_updateEditionIdentifier :
    Ends (updateEditionIdentifier lib env clock faults newId e old new) s fun d' =>
      Unchanged s.db d' ↔
        Spared lib order faults s.db (.updateEditionIdentifier newId e old new) := by
  refine ends_requireEdition (fun h hpass he => h hpass he hpass he) fun hpass he row => ?_
  refine ends_detachIdentifier (fun hnot => iff_of_true (Unchanged.refl _) fun _ _ => ⟨?_, ?_⟩)
    (fun hfree hfind hunlink => ?_) fun hdetaches r hr hvalue d' hbeside htables => ?_
  · exact fun hdetaches => absurd ⟨hdetaches.2.1, fun _ => hdetaches.2.2⟩ hnot
  · exact fun _ hfind hunlink => absurd ⟨hfind, hunlink⟩ hnot
  · -- nothing was taken: all depends on what is attached
    have hspared : Spared lib order faults s.db (.updateEditionIdentifier newId e old new) ↔
        ¬ Attaches faults s.tables newId e new :=
      ⟨fun h => (h hpass he).2 hfree hfind hunlink,
        fun h _ _ => ⟨fun hdetaches => absurd hdetaches.1 hfree, fun _ _ _ => h⟩⟩
    simp only [hspared]
    exact ends_sync (ends_attachIdentifier_kept he)
  · -- the link was taken: it has to come back
    have hspared : Spared lib order faults s.db (.updateEditionIdentifier newId e old new) ↔
        old.asUrnString = new.asUrnString ∧ faults.Passes .findNew ∧
          faults.Passes .findLink ∧ faults.Passes .insertLink :=
      ⟨fun h => (h hpass he).1 hdetaches,
        fun h _ _ => ⟨fun _ => h, fun hfree => absurd hdetaches.1 hfree⟩⟩
    simp only [hspared]
    have hlinked : (⟨e, r.id⟩ : Link) ∈ s.tables.editionIdentifiers :=
      (carries_iff s.db.library.sound hr hvalue).1 hdetaches.1
    exact ends_sync (ends_attachIdentifier_detached he hr hvalue hlinked hbeside htables)

end IdentifierCalls

/-! ## Contributors and files -/

section RowCalls

variable {lib : SearchIndex.IndexLib} {env : Env} {order : ByPosition} {faults : Faults}
  {clock : String} {texts : AuditTexts} {s : Held} {newId e : DbId} {c : Contribution}

/-- A role is there, is added, or cannot be added. -/
theorem ends_attachContributor {post : Database → Prop} (he : c.editionId ∈ s.tables.editionIds)
    (hc : c.authorId ∈ s.tables.authorIds)
    (hkept : ¬ AttachesRole faults s.tables c → post s.db)
    (hadded : AttachesRole faults s.tables c → ∀ d', Audited s.db d' →
      d'.library.tables = { s.tables with
        editionAuthors := s.tables.editionAuthors ++ [c] } → post d') :
    Ends (attachContributor clock texts faults c) s post := by
  refine ends_look (fun hfail => hkept fun h => hfail h.2.1) (fun _ h => ?_)
    fun hfind found hfound => ?_
  · cases h
  · cases hfound
    by_cases hthere : c ∈ s.db.library.tables.editionAuthors
    · rw [if_pos (decide_eq_true hthere)]
      exact ends_pure (hkept fun h => h.1 hthere)
    · rw [if_neg fun h => hthere (of_decide_eq_true h)]
      refine ends_write (fun hfail => hkept fun h => hfail h.2.2) (fun error h => ?_)
        fun hinsert w hw => ?_
      · have hsound : { s.tables with
            editionAuthors := s.tables.editionAuthors ++ [c] }.Sound := by
          refine sound_editionAuthors s.db.library.sound
            (nodup_append_one s.db.library.sound.keys.contributionKeys hthere) fun x hx => ?_
          rcases List.mem_append.1 hx with hold | hnew
          · exact contribution_mem s.db.library.sound hold
          · rw [List.mem_singleton.1 hnew]
            exact ⟨he, hc⟩
        exact absurd h (not_onLibrary_error hsound rfl)
      · obtain ⟨haudited, htables, _⟩ := @onLibrary_eq_ok _ _ clock _ _ hw
        exact hadded ⟨hthere, hfind, hinsert⟩ _ haudited htables

/-- A role that was taken comes back exactly if it is the one that is added. -/
theorem sameRows_roleAgain {t : Tables} {c' : Contribution} (hc : c ∈ t.editionAuthors) :
    SameRows t { t with editionAuthors :=
      (t.editionAuthors.filter fun x => decide (x ≠ c)) ++ [c'] } ↔ c = c' := by
  rw [sameRows_editionAuthors]
  constructor
  · intro h
    rcases List.mem_append.1 ((h c).2 hc) with hkept | hnew
    · simp at hkept
    · exact List.mem_singleton.1 hnew
  · rintro rfl x
    rw [List.mem_append, List.mem_filter, List.mem_singleton, decide_eq_true_eq]
    constructor
    · rintro (⟨hx, _⟩ | rfl)
      · exact hx
      · exact hc
    · intro hx
      by_cases hown : x = c
      · exact Or.inr hown
      · exact Or.inl ⟨hx, hown⟩

/-- What is added after a role was taken: all is as before if it is the same role, and the
    triggers are switched off. -/
theorem ends_attachContributor_detached {c' : Contribution} {s' : Held}
    (he : c'.editionId ∈ s.tables.editionIds) (hc' : c'.authorId ∈ s.tables.authorIds)
    (hthere : c ∈ s.tables.editionAuthors) (haudited : Audited s.db s'.db)
    (hloud : ¬ s.db.Muted → s.db.log.seq < s'.db.log.seq)
    (htables : s'.tables = { s.tables with
      editionAuthors := s.tables.editionAuthors.filter fun x => decide (x ≠ c) }) :
    Ends (attachContributor clock texts faults c') s' fun d' => Unchanged s.db d' ↔
      s.db.Muted ∧ c = c' ∧ faults.Passes .findContribution ∧
        faults.Passes .insertContribution := by
  have hgone : c ∉ s'.tables.editionAuthors := by
    rw [htables]
    simp
  refine ends_attachContributor ?_ ?_ (fun hnot => iff_of_false (fun h => ?_) fun h => hnot ?_)
    fun hattaches d' haudited' htables' => ?_
  · rw [htables]
    exact he
  · rw [htables]
    exact hc'
  · exact hgone ((h.library.editionAuthors c).2 hthere)
  · exact ⟨h.2.1 ▸ hgone, h.2.2⟩
  · by_cases hmuted : s.db.Muted
    · have hbeside := (haudited.beside hmuted).trans
        (haudited'.beside (haudited.muted_iff.2 hmuted))
      have hboth : d'.library.tables = { s.tables with editionAuthors :=
          (s.tables.editionAuthors.filter fun x => decide (x ≠ c)) ++ [c'] } := by
        rw [htables', htables]
      rw [unchanged_iff_sameRows hbeside, hboth]
      refine (sameRows_roleAgain hthere).trans ?_
      exact ⟨fun h => ⟨hmuted, h, hattaches.2⟩, fun h => h.2.1⟩
    · -- the triggers have logged that the role was taken
      refine iff_of_false (not_unchanged_of_seq_lt ?_) fun h => hmuted h.1
      exact Nat.lt_of_lt_of_le (hloud hmuted) haudited'.seq_le

/-- What is left of a change of roles, once edition and contributor are found. -/
theorem ends_changeRole {c' : Contribution} (he : c'.editionId ∈ s.tables.editionIds)
    (hc' : c'.authorId ∈ s.tables.authorIds) :
    Ends (do
        detachContributor clock texts faults c
        attachContributor clock texts faults c') s fun d' =>
      Unchanged s.db d' ↔ (DetachesRole faults s.tables c → s.db.Muted ∧ c = c' ∧
          faults.Passes .findContribution ∧ faults.Passes .insertContribution) ∧
        (c ∉ s.tables.editionAuthors → faults.Passes .detach →
          ¬ AttachesRole faults s.tables c') := by
  refine ends_write_bind (fun hfail => iff_of_true (Unchanged.refl _) ⟨?_, ?_⟩)
    (fun error h => ?_) fun hdetach w hw => ?_
  · exact fun h => absurd h.2 hfail
  · exact fun _ h => absurd h hfail
  · have hsound : { s.tables with
        editionAuthors := s.tables.editionAuthors.filter fun x => decide (x ≠ c) }.Sound :=
      sound_editionAuthors s.db.library.sound
        (s.db.library.sound.keys.contributionKeys.sublist List.filter_sublist)
        fun x hx => contribution_mem s.db.library.sound (List.mem_filter.1 hx).1
    exact absurd h (not_onLibrary_error hsound rfl)
  · obtain ⟨haudited, htables, hlog⟩ := @onLibrary_eq_ok _ _ clock _ _ hw
    by_cases hthere : c ∈ s.tables.editionAuthors
    · -- the role was taken: it has to come back
      have hspared : (DetachesRole faults s.tables c → s.db.Muted ∧ c = c' ∧
            faults.Passes .findContribution ∧ faults.Passes .insertContribution) ∧
          (c ∉ s.tables.editionAuthors → faults.Passes .detach →
            ¬ AttachesRole faults s.tables c') ↔
          s.db.Muted ∧ c = c' ∧ faults.Passes .findContribution ∧
            faults.Passes .insertContribution :=
        ⟨fun h => h.1 ⟨hthere, hdetach⟩,
          fun h => ⟨fun _ => h, fun hfree => absurd hthere hfree⟩⟩
      simp only [hspared]
      refine ends_attachContributor_detached he hc' hthere haudited (fun hloud => ?_) htables
      show s.db.log.seq < (s.db.after clock w).log.seq
      have htaken : c ∈ s.db.library.tables.editionAuthors.filter fun x => decide (x = c) :=
        List.mem_filter.2 ⟨hthere, decide_eq_true rfl⟩
      rw [hlog, seq_logged hloud, List.length_map]
      exact Nat.lt_add_of_pos_right (List.length_pos_of_mem htaken)
    · -- nothing was taken: all depends on what is added
      have hspared : (DetachesRole faults s.tables c → s.db.Muted ∧ c = c' ∧
            faults.Passes .findContribution ∧ faults.Passes .insertContribution) ∧
          (c ∉ s.tables.editionAuthors → faults.Passes .detach →
            ¬ AttachesRole faults s.tables c') ↔ ¬ AttachesRole faults s.tables c' :=
        ⟨fun h => h.2 hthere hdetach, fun h => ⟨fun hd => absurd hd.1 hthere, fun _ _ => h⟩⟩
      simp only [hspared]
      have hkept : (s.db.library.tables.editionAuthors.filter fun x => decide (x ≠ c)) =
          s.db.library.tables.editionAuthors :=
        List.filter_eq_self.2 fun x hx => decide_eq_true fun hxc => hthere (hxc ▸ hx)
      have hquiet : (s.db.library.tables.editionAuthors.filter fun x => decide (x = c)) = [] :=
        List.filter_eq_nil_iff.2 fun x hx hxc => hthere (of_decide_eq_true hxc ▸ hx)
      have hsame : s.db.after clock w = s.db := by
        rw [hquiet] at hlog
        refine eq_of_tables ⟨haudited.lists, haudited.members, hlog.trans (logged_nil _),
          haudited.syncApply⟩ (htables.trans ?_)
        rw [hkept]
      rw [hsame]
      refine ends_attachContributor he hc' (fun hnot => iff_of_true (Unchanged.refl _) hnot)
        fun hattaches d' _ htables' => iff_of_false (fun h => ?_) (not_not_intro hattaches)
      have hrows := h.library.editionAuthors
      rw [htables'] at hrows
      exact not_mem_iff_append hattaches.1 hrows

theorem ends_updateEditionContributor {contributorId : DbId} {fromRole toRole : String} :
    Ends (updateEditionContributor lib env clock texts faults e contributorId fromRole toRole) s
      fun d' => Unchanged s.db d' ↔
        Spared lib order faults s.db
          (.updateEditionContributor e contributorId fromRole toRole) := by
  refine ends_bind (Leaves.ask ⟨fun fromRole' hfrom => ?_, fun _ herror =>
    iff_of_true (Unchanged.refl _) fun fromRole' _ hfrom => ?_⟩)
  swap
  · rw [herror] at hfrom
    cases hfrom
  refine ends_bind (Leaves.ask ⟨fun toRole' hto => ?_, fun _ herror =>
    iff_of_true (Unchanged.refl _) fun _ toRole' _ hto => ?_⟩)
  swap
  · rw [herror] at hto
    cases hto
  refine ends_requireEdition (fun h f t hf ht hpass he => h hpass he f t hf ht hpass he)
    fun hpass he row => ?_
  refine ends_look (fun hfail => iff_of_true (Unchanged.refl _) fun _ _ _ _ _ _ h => absurd h hfail)
    (fun error herror => iff_of_true (Unchanged.refl _) fun _ _ _ _ _ _ _ hc => ?_)
    fun hpass' author hauthor => ?_
  · obtain ⟨row, hrow⟩ := (@requireContributor_eq_ok_iff env s.db.library contributorId).2 hc
    rw [herror] at hrow
    cases hrow
  · have hc : contributorId ∈ s.tables.authorIds := requireContributor_eq_ok_iff.1 ⟨author, hauthor⟩
    have hsame : (⟨e, contributorId, fromRole'⟩ : Contribution) = ⟨e, contributorId, toRole'⟩ ↔
        fromRole' = toRole' := ⟨congrArg Contribution.role, congrArg _⟩
    -- with the roles read, both conditions speak of the same two links
    have hspared : Spared lib order faults s.db
        (.updateEditionContributor e contributorId fromRole toRole) ↔
          (DetachesRole faults s.tables ⟨e, contributorId, fromRole'⟩ →
            s.db.Muted ∧ (⟨e, contributorId, fromRole'⟩ : Contribution) =
              ⟨e, contributorId, toRole'⟩ ∧ faults.Passes .findContribution ∧
                faults.Passes .insertContribution) ∧
          (⟨e, contributorId, fromRole'⟩ ∉ s.tables.editionAuthors → faults.Passes .detach →
            ¬ AttachesRole faults s.tables ⟨e, contributorId, toRole'⟩) := by
      rw [hsame]
      refine ⟨fun h => h fromRole' toRole' hfrom hto hpass he hpass' hc, ?_⟩
      intro h f t hf ht _ _ _ _
      cases hfrom.symm.trans hf
      cases hto.symm.trans ht
      exact h
    simp only [hspared]
    have hchange := @ends_changeRole faults clock texts s ⟨e, contributorId, fromRole'⟩
      ⟨e, contributorId, toRole'⟩ he hc
    have hsync := @ends_sync lib env faults s _ _ hchange
    rwa [bind_assoc] at hsync

section WriteFile

variable {now : Int} {filePath : String} {fileFormat : Option String} {fileSizeBytes : Option Int}
  {t : Tables}

/-- A file that is there is written over. -/
theorem writeFile_of_there (h : ∃ f ∈ t.digitalInventory, f.editionId = e) :
    writeFile now newId e filePath fileFormat fileSizeBytes t =
      execute { t with digitalInventory := t.digitalInventory.map fun f =>
        if f.editionId = e then writtenFile now filePath fileFormat fileSizeBytes f else f } :=
  if_pos (any_file.2 h)

theorem writeFile_of_new (h : ¬ ∃ f ∈ t.digitalInventory, f.editionId = e)
    (hformat : fileFormat ≠ none) :
    writeFile now newId e filePath fileFormat fileSizeBytes t =
      execute { t with digitalInventory := t.digitalInventory ++
        [⟨newId, e, some filePath, fileFormat, fileSizeBytes, none⟩] } := by
  rw [writeFile, if_neg fun hany => h (any_file.1 hany), if_neg]
  rw [Option.isNone_iff_eq_none]
  exact hformat

theorem sameRows_writtenFile (ht : t.Sound) :
    SameRows t { t with digitalInventory := t.digitalInventory.map fun f =>
        if f.editionId = e then writtenFile now filePath fileFormat fileSizeBytes f else f } ↔
      ∀ f ∈ t.digitalInventory, f.editionId = e →
        writtenFile now filePath fileFormat fileSizeBytes f = f := by
  rw [sameRows_digitalInventory]
  constructor
  · intro h f hf hown
    have hwritten := (h (writtenFile now filePath fileFormat fileSizeBytes f)).1
      (List.mem_map.2 ⟨f, hf, if_pos hown⟩)
    exact List.inj_on_of_nodup_map ht.keys.fileKeys hwritten hf rfl
  · intro h f
    have hsame : (t.digitalInventory.map fun f => if f.editionId = e then
        writtenFile now filePath fileFormat fileSizeBytes f else f) = t.digitalInventory := by
      refine (List.map_congr_left fun f hf => ?_).trans (List.map_id _)
      by_cases hown : f.editionId = e
      · rw [if_pos hown]
        exact h f hf hown
      · rw [if_neg hown]
        rfl
    rw [hsame]

theorem sound_writtenFile (ht : t.Sound) :
    { t with digitalInventory := t.digitalInventory.map fun f : FileRow =>
      if f.editionId = e then writtenFile now filePath fileFormat fileSizeBytes f else f
    }.Sound :=
  sound_updatedFiles ht e fun _ => ⟨rfl, rfl⟩

/-- What writing a file leaves. -/
theorem ends_writeFile (he : e ∈ s.tables.editionIds) :
    Ends (write clock faults .writeFile fun d => onLibrary d.toListDb
      (writeFile now newId e filePath fileFormat fileSizeBytes d.library.tables)
      (fileAudits texts now newId e filePath fileFormat fileSizeBytes d.library.tables)) s fun d' =>
        Unchanged s.db d' ↔ (faults.Passes .writeFile →
          (∀ f ∈ s.tables.digitalInventory, f.editionId = e →
            s.db.Muted ∧ writtenFile now filePath fileFormat fileSizeBytes f = f) ∧
          ((∀ f ∈ s.tables.digitalInventory, f.editionId ≠ e) →
            fileFormat = none ∨ newId ∈ s.tables.digitalInventory.map fun f => f.id)) := by
  have hsound := s.db.library.sound
  by_cases hthere : ∃ f ∈ s.db.library.tables.digitalInventory, f.editionId = e
  · -- the row that is there is written over
    refine ends_write (fun hfail => iff_of_true (Unchanged.refl _) fun h => absurd h hfail)
      (fun error herror => ?_) fun hwrite w hw => ?_
    · rw [writeFile_of_there hthere] at herror
      exact absurd herror (not_onLibrary_error (sound_writtenFile hsound) rfl)
    · rw [writeFile_of_there hthere] at hw
      obtain ⟨haudited, htables, hlog⟩ := @onLibrary_eq_ok _ _ clock _ _ hw
      have hspared : (faults.Passes .writeFile →
          (∀ f ∈ s.tables.digitalInventory, f.editionId = e →
            s.db.Muted ∧ writtenFile now filePath fileFormat fileSizeBytes f = f) ∧
          ((∀ f ∈ s.tables.digitalInventory, f.editionId ≠ e) →
            fileFormat = none ∨ newId ∈ s.tables.digitalInventory.map fun f => f.id)) ↔
          ∀ f ∈ s.tables.digitalInventory, f.editionId = e →
            s.db.Muted ∧ writtenFile now filePath fileFormat fileSizeBytes f = f := by
        refine ⟨fun h => (h hwrite).1, fun h _ => ⟨h, fun hnone => ?_⟩⟩
        obtain ⟨f, hf, hown⟩ := hthere
        exact absurd hown (hnone f hf)
      rw [hspared]
      obtain ⟨f, hf, hown⟩ := hthere
      by_cases hmuted : s.db.Muted
      · rw [unchanged_iff_sameRows (haudited.beside hmuted), htables, sameRows_writtenFile hsound]
        exact forall₂_congr fun f _ => forall_congr' fun _ => (and_iff_right hmuted).symm
      · -- the trigger has logged the row
        refine iff_of_false (not_unchanged_of_seq_lt ?_) fun h => hmuted (h f hf hown).1
        have haudits : fileAudits texts now newId e filePath fileFormat fileSizeBytes
            s.db.library.tables = _ := if_pos (any_file.2 ⟨f, hf, hown⟩)
        rw [hlog, seq_logged hmuted, haudits, List.length_map]
        exact Nat.lt_add_of_pos_right (List.length_pos_of_mem
          (List.mem_filter.2 ⟨hf, decide_eq_true hown⟩))
  · have hother : ∀ f ∈ s.tables.digitalInventory, f.editionId ≠ e :=
      fun f hf hown => hthere ⟨f, hf, hown⟩
    have hspared : (faults.Passes .writeFile →
        (∀ f ∈ s.tables.digitalInventory, f.editionId = e →
          s.db.Muted ∧ writtenFile now filePath fileFormat fileSizeBytes f = f) ∧
        ((∀ f ∈ s.tables.digitalInventory, f.editionId ≠ e) →
          fileFormat = none ∨ newId ∈ s.tables.digitalInventory.map fun f => f.id)) ↔
        (faults.Passes .writeFile →
          fileFormat = none ∨ newId ∈ s.tables.digitalInventory.map fun f => f.id) :=
      forall_congr' fun _ => ⟨fun h => h.2 hother,
        fun h => ⟨fun f hf hown => absurd hown (hother f hf), fun _ => h⟩⟩
    simp only [hspared]
    -- a row is added, if it may be
    refine ends_write (fun hfail => iff_of_true (Unchanged.refl _) fun h => absurd h hfail)
      (fun error herror => iff_of_true (Unchanged.refl _) fun _ => ?_) fun hwrite w hw => ?_
    · by_contra hboth
      rw [not_or] at hboth
      rw [writeFile_of_new hthere hboth.1] at herror
      exact not_onLibrary_error (sound_newFile hsound he hthere hboth.2) rfl herror
    · have hformat : fileFormat ≠ none := by
        rintro rfl
        rw [writeFile, if_neg fun hany => hthere (any_file.1 hany)] at hw
        cases hw
      rw [writeFile_of_new hthere hformat] at hw
      obtain ⟨_, htables, _⟩ := @onLibrary_eq_ok _ _ clock _ _ hw
      have hfree : newId ∉ s.tables.digitalInventory.map fun f => f.id := by
        have hkeys := (s.db.after clock w).library.sound.keys.fileKeys
        rw [htables, List.map_append, List.map_singleton] at hkeys
        exact fun h => (List.nodup_append.1 hkeys).2.2 newId h newId
          (List.mem_singleton_self _) rfl
      refine iff_of_false (fun h => ?_) fun h => (h hwrite).elim hformat hfree
      have hrows := h.library.digitalInventory
      rw [htables] at hrows
      exact not_mem_iff_append (fun hf => hfree (List.mem_map_of_mem hf)) hrows

theorem ends_setEditionFile :
    Ends (setEditionFile lib env clock texts faults now newId e filePath fileFormat fileSizeBytes)
      s fun d' => Unchanged s.db d' ↔ Spared lib order faults s.db
        (.setEditionFile now newId e filePath fileFormat fileSizeBytes) := by
  refine ends_requireEdition (fun h hpass he => h hpass he hpass he) fun hpass he row => ?_
  refine ends_look (fun hfail => iff_of_true (Unchanged.refl _) fun _ _ h => absurd h hfail)
    (fun error herror => ?_) fun hfind found _ => ?_
  · cases herror
  · have hspared : Spared lib order faults s.db
        (.setEditionFile now newId e filePath fileFormat fileSizeBytes) ↔
          (faults.Passes .writeFile →
            (∀ f ∈ s.tables.digitalInventory, f.editionId = e →
              s.db.Muted ∧ writtenFile now filePath fileFormat fileSizeBytes f = f) ∧
            ((∀ f ∈ s.tables.digitalInventory, f.editionId ≠ e) →
              fileFormat = none ∨ newId ∈ s.tables.digitalInventory.map fun f => f.id)) :=
      ⟨fun h => h hpass he hfind, fun h _ _ _ => h⟩
    simp only [hspared]
    exact ends_sync (ends_writeFile he)

end WriteFile

end RowCalls

/-! ## Reading lists -/

section ListCalls

variable {env : Env} {lib : SearchIndex.IndexLib} {order : ByPosition} {faults : Faults}
  {clock : String} {texts : AuditTexts} {s : Held} {listId : DbId}

/-- The positions that were written are those that stood there. -/
theorem mem_written_iff {db : ListDb} {rows : List (DbId × Nat)}
    (hnodup : (rows.map Prod.fst).Nodup)
    (hrows : ∀ x ∈ rows, x.1 ∈ (db.membersOf listId).map fun m => m.editionId) :
    (∀ m, m ∈ (writePositions listId rows db).members ↔ m ∈ db.members) ↔
      ∀ x ∈ rows, (x.1, asI32 x.2) ∈ placed db listId := by
  have hmem : ∀ {m : Member}, m ∈ db.membersOf listId ↔ m ∈ db.members ∧ m.listId = listId :=
    fun {m} => List.mem_filter.trans (and_congr_right fun _ => decide_eq_true_iff)
  rw [writePositions_eq]
  constructor
  · intro h x hx
    obtain ⟨m, hm, hid⟩ := List.mem_map.1 (hrows x hx)
    obtain ⟨hthere, hlist⟩ := hmem.1 hm
    have hpair : (m.editionId, x.2) ∈ rows := hid ▸ hx
    -- the row as it was written is the row that was there
    have hwritten := (h { m with position := written listId rows m }).1
      (List.mem_map.2 ⟨m, hthere, rfl⟩)
    have hsame := List.inj_on_of_nodup_map db.memberKeys hwritten hthere rfl
    have hposition : written listId rows m = m.position := congrArg Member.position hsame
    rw [written_of_mem hnodup hlist hpair] at hposition
    rw [hposition, ← hid]
    exact List.mem_map_of_mem hm
  · intro h
    have hkept : ∀ m ∈ db.members, ({ m with position := written listId rows m } : Member) = m := by
      intro m hm
      by_cases hown : m.listId = listId ∧ m.editionId ∈ rows.map Prod.fst
      · obtain ⟨x, hx, hid⟩ := List.mem_map.1 hown.2
        have hpair : (m.editionId, x.2) ∈ rows := hid ▸ hx
        obtain ⟨m', hm', heq⟩ := List.mem_map.1 (h x hx)
        obtain ⟨hthere, hlist⟩ := hmem.1 hm'
        have hsame : m' = m := by
          refine List.inj_on_of_nodup_map db.memberKeys hthere hm ?_
          exact Prod.ext (hlist.trans hown.1.symm) ((congrArg Prod.fst heq).trans hid)
        have hposition : m.position = asI32 x.2 := hsame ▸ congrArg Prod.snd heq
        rw [written_of_mem hnodup hown.1 hpair, ← hposition]
      · rw [written, foldl_of_not_mem hown]
    intro m
    show m ∈ db.members.map _ ↔ _
    rw [(List.map_congr_left hkept).trans (List.map_id _)]

/-- What the loop of a move leaves: it has written some first rows, logged them unless the
    triggers are switched off, and failed at the next row, if there is one. -/
structure Stopped (faults : Faults) (listId : DbId) (rows : List (DbId × Nat)) (d d' : Database)
    (done rest : List (DbId × Nat)) : Prop where
  split : rows = done ++ rest
  lists : d'.toListDb = writePositions listId done d.toListDb
  syncApply : d'.syncApply = d.syncApply
  quiet : d.Muted ∨ done = [] → d'.log = d.log
  loud : ¬ d.Muted → done ≠ [] → d.log.seq < d'.log.seq
  passed : ∀ x ∈ done, faults.Passes (.findMember x.2) ∧ faults.Passes (.writePosition x.2)
  failed : ∀ x ∈ rest.head?,
    ¬ (faults.Passes (.findMember x.2) ∧ faults.Passes (.writePosition x.2))

theorem stopped_nil {rows : List (DbId × Nat)} (d : Database) (hfailed : ∀ x ∈ rows.head?,
    ¬ (faults.Passes (.findMember x.2) ∧ faults.Passes (.writePosition x.2))) :
    Stopped faults listId rows d d [] rows where
  split := rfl
  lists := rfl
  syncApply := rfl
  quiet _ := rfl
  loud _ h := absurd rfl h
  passed _ hx := absurd hx List.not_mem_nil
  failed := hfailed

/-- One row is written, and the loop goes on. -/
theorem Stopped.cons {x : DbId × Nat} {rows done rest : List (DbId × Nat)} {d d' : Database}
    {audits : List Audit} (haudits : audits ≠ [])
    (hx : faults.Passes (.findMember x.2) ∧ faults.Passes (.writePosition x.2))
    (h : Stopped faults listId rows
      (d.after clock (d.toListDb.setPosition listId x.1 (asI32 x.2), audits)) d' done rest) :
    Stopped faults listId (x :: rows) d d' (x :: done) rest where
  split := congrArg (List.cons x) h.split
  lists := h.lists
  syncApply := h.syncApply
  quiet := by
    rintro (hmuted | hnil)
    · exact (h.quiet (Or.inl hmuted)).trans (logged_of_muted hmuted _)
    · cases hnil
  loud := by
    intro hloud _
    have hfirst : d.log.seq < (d.logged clock audits).seq := by
      rw [seq_logged hloud]
      exact Nat.lt_add_of_pos_right (List.length_pos_of_ne_nil haudits)
    by_cases hdone : done = []
    · rw [h.quiet (Or.inr hdone)]
      exact hfirst
    · exact Nat.lt_trans hfirst (h.loud hloud hdone)
  passed := by
    intro y hy
    rcases List.mem_cons.1 hy with rfl | hy
    · exact hx
    · exact h.passed y hy
  failed := h.failed

/-- The loop of a move. -/
theorem leaves_writeRows (rows : List (DbId × Nat)) : ∀ {s : Held},
    (∀ x ∈ rows, x.1 ∈ (s.db.toListDb.membersOf listId).map fun m => m.editionId) →
      Leaves (writeRows clock texts faults listId rows) s fun _ s' =>
        ∃ done rest, Stopped faults listId rows s.db s'.db done rest := by
  induction rows with
  | nil =>
      intro s _
      exact Leaves.pure ⟨[], [], stopped_nil s.db fun x hx => by cases hx⟩
  | cons x rows ih =>
      intro s hrows
      have hnothing : ¬ (faults.Passes (.findMember x.2) ∧ faults.Passes (.writePosition x.2)) →
          ∃ done rest, Stopped faults listId (x :: rows) s.db s.db done rest := by
        refine fun hfail => ⟨[], x :: rows, stopped_nil s.db ?_⟩
        intro y hy
        cases hy
        exact hfail
      obtain ⟨m, hm, hid⟩ := List.mem_map.1 (hrows x List.mem_cons_self)
      obtain ⟨hthere, hlist⟩ := List.mem_filter.1 hm
      have hrow : decide (m.listId = listId ∧ m.editionId = x.1) = true :=
        decide_eq_true ⟨of_decide_eq_true hlist, hid⟩
      have hfound : (s.db.members.any fun m =>
          decide (m.listId = listId ∧ m.editionId = x.1)) = true :=
        List.any_eq_true.2 ⟨m, hthere, hrow⟩
      have haudits : positionAudits texts listId x.1 x.2 s.db.toListDb ≠ [] :=
        List.ne_nil_of_mem (List.mem_map_of_mem (List.mem_filter.2 ⟨hthere, hrow⟩))
      -- a row that is moved stays a member, so the rows after it are found as well
      have hlater : ∀ y ∈ rows, y.1 ∈ ((s.db.toListDb.setPosition listId x.1
          (asI32 x.2)).membersOf listId).map fun m => m.editionId := by
        intro y hy
        rw [ListDb.setPosition, membersOf_reposition, List.map_map]
        exact hrows y (List.mem_cons_of_mem _ hy)
      refine Leaves.bind (Leaves.failing (fun e he => ⟨fun a h => ?_, fun _ _ => ?_⟩)
        fun hfind => Leaves.ask ⟨fun found h => ?_, fun e h => ?_⟩)
      · cases h
      · exact hnothing fun h => not_passes he h.1
      · cases h.symm.trans (congrArg Except.ok hfound)
        refine Leaves.bind (Leaves.failing (fun e he => ⟨fun a h => ?_, fun _ _ => ?_⟩)
          fun hwrite => Leaves.execute (fun s' hs' => ⟨fun _ _ => ?_, fun e h => ?_⟩)
            fun e he => ?_)
        · cases h
        · exact hnothing fun h => not_passes he h.2
        · cases hs'
          refine (ih hlater).imp fun r s' hrest => ?_
          obtain ⟨done, rest, hstopped⟩ := hrest
          exact ⟨x :: done, rest, hstopped.cons haudits ⟨passes hfind, passes hwrite⟩⟩
        · cases h
        · cases he
      · cases h

theorem mem_of_requireList {db : ListDb} {row : ListRow}
    (h : requireList env db listId = .ok row) : listId ∈ db.lists.map fun l => l.id := by
  rw [requireList] at h
  cases hfind : db.lists.find? fun l => decide (l.id = listId) with
  | none =>
      rw [hfind] at h
      cases h
  | some l =>
      obtain ⟨hl, hid⟩ := (find?_key_eq_some db.listKeys).1 hfind
      exact List.mem_map.2 ⟨l, hl, hid⟩

/-- The rows that the loop has written are those before the first one that fails. -/
theorem written_rows_iff {ids : List DbId} {done rest : List (DbId × Nat)}
    (hrows : ids.zipIdx = done ++ rest)
    (hdone : ∀ x ∈ done, faults.Passes (.findMember x.2) ∧ faults.Passes (.writePosition x.2))
    (hrest : ∀ x ∈ rest.head?,
      ¬ (faults.Passes (.findMember x.2) ∧ faults.Passes (.writePosition x.2))) {x : DbId × Nat} :
    x ∈ done ↔ ids[x.2]? = some x.1 ∧
      ∀ j ≤ x.2, faults.Passes (.findMember j) ∧ faults.Passes (.writePosition j) := by
  have hindex : ∀ (i : Nat) (y : DbId × Nat), ids.zipIdx[i]? = some y ↔
      ids[i]? = some y.1 ∧ y.2 = i := by
    intro i y
    rw [List.getElem?_zipIdx, Nat.zero_add]
    constructor
    · intro h
      obtain ⟨id, hid, rfl⟩ := Option.map_eq_some_iff.1 h
      exact ⟨hid, rfl⟩
    · rintro ⟨hid, hi⟩
      rw [hid, ← hi]
      rfl
  have hbefore : ∀ i < done.length, ids.zipIdx[i]? = done[i]? := by
    intro i hi
    rw [hrows, List.getElem?_append_left hi]
  constructor
  · intro hx
    obtain ⟨i, hi⟩ := List.mem_iff_getElem?.1 hx
    have hlt := (List.getElem?_eq_some_iff.1 hi).1
    obtain ⟨hid, hi'⟩ := (hindex i x).1 ((hbefore i hlt).trans hi)
    rw [hi']
    refine ⟨hid, fun j hj => ?_⟩
    have hjlt : j < done.length := Nat.lt_of_le_of_lt hj hlt
    have hthere : ids.zipIdx[j]? = some done[j] :=
      (hbefore j hjlt).trans (List.getElem?_eq_getElem hjlt)
    have hpasses := hdone _ (List.getElem_mem hjlt)
    rwa [((hindex j _).1 hthere).2] at hpasses
  · rintro ⟨hid, hpasses⟩
    have hx := (hindex x.2 x).2 ⟨hid, rfl⟩
    by_contra hnot
    have hbeyond : done.length ≤ x.2 := by
      by_contra hlt
      rw [hbefore x.2 (Nat.not_le.1 hlt)] at hx
      exact hnot (List.mem_of_getElem? hx)
    -- the row at which the loop stopped comes before
    have hlength : done.length < ids.zipIdx.length :=
      Nat.lt_of_le_of_lt hbeyond (List.getElem?_eq_some_iff.1 hx).1
    have hstopped : rest.head? = some ids.zipIdx[done.length] := by
      rw [List.head?_eq_getElem?, ← List.getElem?_eq_getElem hlength, hrows,
        List.getElem?_append_right (Nat.le_refl _), Nat.sub_self]
    have hat := (hindex done.length _).1 (List.getElem?_eq_getElem hlength)
    have hfails := hrest _ hstopped
    rw [hat.2] at hfails
    exact hfails (hpasses done.length hbeyond)

theorem ends_moveEditionInList {e : DbId} {position : Nat} :
    Ends (moveEditionInList env order clock texts faults listId e position) s fun d' =>
      Unchanged s.db d' ↔ Spared lib order faults s.db (.moveEditionInList listId e position) := by
  refine ends_look (fun hfail => iff_of_true (Unchanged.refl _) fun h => absurd h hfail)
    (fun error herror => iff_of_true (Unchanged.refl _) fun _ hlist => ?_) fun hpass row hrow => ?_
  · obtain ⟨row, hrow⟩ := @requireList_eq_ok env listId s.db.toListDb hlist
    rw [herror] at hrow
    cases hrow
  · have hlist := mem_of_requireList hrow
    refine ends_look (fun hfail => iff_of_true (Unchanged.refl _) fun _ _ h => absurd h hfail)
      (fun error herror => ?_) fun hread ids hids => ?_
    · cases herror
    · cases hids
      by_cases hmember : e ∈ editionIds order s.db.toListDb listId
      · rw [if_pos hmember]
        -- the loop writes the same editions, each at its new index
        have hperm : (Positions.moveTo e position (editionIds order s.db.toListDb listId)).Perm
            ((placed s.db.toListDb listId).map Prod.fst) :=
          (Positions.moveTo_perm hmember position).trans editionIds_perm
        have hfst := List.zipIdx_map_fst 0
          (Positions.moveTo e position (editionIds order s.db.toListDb listId))
        have hrows : ∀ x ∈
            (Positions.moveTo e position (editionIds order s.db.toListDb listId)).zipIdx,
            x.1 ∈ (s.db.toListDb.membersOf listId).map fun m => m.editionId := by
          intro x hx
          rw [← map_fst_placed, ← hperm.mem_iff, ← hfst]
          exact List.mem_map_of_mem hx
        refine (leaves_writeRows _ hrows).imp fun r s' hloop => ?_
        -- a loop that stops early leaves the rows it has reached
        obtain ⟨done, rest, hstopped⟩ := hloop
        have hdone := @written_rows_iff _ _ _ _ hstopped.split hstopped.passed hstopped.failed
        have hnodup : (done.map Prod.fst).Nodup := by
          have hall : ((done ++ rest).map Prod.fst).Nodup := by
            rw [← hstopped.split, hfst]
            exact hperm.nodup_iff.2 nodup_placed
          rw [List.map_append] at hall
          exact (List.nodup_append.1 hall).1
        have hmine : ∀ x ∈ done, x.1 ∈ (s.db.toListDb.membersOf listId).map fun m => m.editionId :=
          fun x hx => hrows x (hstopped.split ▸ List.mem_append_left _ hx)
        have hmembers := mem_written_iff hnodup hmine
        have hlists : s'.db.lists = s.db.lists ∧ s'.db.library = s.db.library ∧
            s'.db.members = (writePositions listId done s.db.toListDb).members := by
          rw [hstopped.lists, writePositions_eq]
          exact ⟨rfl, rfl, rfl⟩
        constructor
        · intro h _ _ _ _ i id hid hpasses
          have hthere : (id, i) ∈ done := hdone.2 ⟨hid, hpasses⟩
          have hsame := h.members
          rw [hlists.2.2, hmembers] at hsame
          refine ⟨?_, hsame (id, i) hthere⟩
          by_contra hloud
          exact not_unchanged_of_seq_lt (hstopped.loud hloud (List.ne_nil_of_mem hthere)) h
        · intro h
          have hspared : ∀ x ∈ done, s.db.Muted ∧
              (x.1, asI32 x.2) ∈ placed s.db.toListDb listId := by
            intro x hx
            obtain ⟨hid, hpasses⟩ := hdone.1 hx
            exact h hpass hlist hread hmember x.2 x.1 hid hpasses
          refine ⟨?_, ?_, ?_, hstopped.quiet ?_, hstopped.syncApply⟩
          · rw [hlists.2.1]
            exact SameRows.refl _
          · rw [hlists.1]
            exact fun _ => Iff.rfl
          · rw [hlists.2.2, hmembers]
            exact fun x hx => (hspared x hx).2
          · cases done with
            | nil => exact Or.inr rfl
            | cons x _ => exact Or.inl (hspared x List.mem_cons_self).1
      · rw [if_neg hmember]
        exact ends_throw (iff_of_true (Unchanged.refl _) fun _ _ _ h => absurd h hmember)

/-- No member is taken exactly if there is none. -/
theorem mem_dropMembers_iff {db : ListDb} :
    (∀ m, m ∈ (db.dropMembers fun m => decide (m.listId = listId)).members ↔ m ∈ db.members) ↔
      db.membersOf listId = [] := by
  rw [List.eq_nil_iff_forall_not_mem]
  constructor
  · intro h m hm
    obtain ⟨hthere, hlist⟩ := List.mem_filter.1 hm
    have hkept := (List.mem_filter.1 ((h m).2 hthere)).2
    exact Bool.false_ne_true (((Bool.not_eq_true' _).mp hkept).symm.trans hlist)
  · intro h m
    refine ⟨fun hm => (List.mem_filter.1 hm).1, fun hm => List.mem_filter.2 ⟨hm, ?_⟩⟩
    rw [Bool.not_eq_true']
    exact Bool.eq_false_iff.2 fun hlist => h m (List.mem_filter.2 ⟨hm, hlist⟩)

theorem ends_deleteReadingList :
    Ends (deleteReadingList clock texts faults listId) s fun d' =>
      Unchanged s.db d' ↔ Spared lib order faults s.db (.deleteReadingList listId) := by
  refine ends_write_bind (fun hfail => iff_of_true (Unchanged.refl _) fun h => absurd h hfail)
    (fun error herror => ?_) fun hdrop w hw => ?_
  · cases herror
  · cases hw
    have hquiet : s.db.toListDb.membersOf listId = [] →
        s.db.logged clock (memberAudits texts listId s.db.toListDb) = s.db.log := by
      intro hempty
      rw [memberAudits, hempty]
      exact logged_nil _
    refine ends_write (fun hfail => ?_) (fun error herror => ?_) fun hgone w hw => ?_
    · -- the members are gone, and the list is not
      constructor
      · exact fun h _ => ⟨mem_dropMembers_iff.1 h.members, fun hgone => absurd hgone hfail⟩
      · intro h
        have hempty := (h hdrop).1
        exact ⟨SameRows.refl _, fun _ => Iff.rfl, mem_dropMembers_iff.2 hempty, hquiet hempty, rfl⟩
    · cases herror
    · cases hw
      -- the members are dropped a second time with the list, when none is left
      have htwice : ((s.db.toListDb.dropMembers fun m => decide (m.listId = listId)).dropList
          listId).members =
            (s.db.toListDb.dropMembers fun m => decide (m.listId = listId)).members := by
        show List.filter _ (List.filter _ _) = List.filter _ _
        rw [List.filter_filter]
        simp only [Bool.and_self]
      constructor
      · intro h _
        refine ⟨mem_dropMembers_iff.1 (htwice ▸ h.members), fun _ hlist => ?_⟩
        obtain ⟨l, hl, hid⟩ := List.mem_map.1 hlist
        have hkept := (List.mem_filter.1 ((h.lists l).2 hl)).2
        exact of_decide_eq_true hkept hid
      · intro h
        obtain ⟨hempty, hnone⟩ := h hdrop
        refine ⟨SameRows.refl _, fun l => ?_, htwice.symm ▸ mem_dropMembers_iff.2 hempty, ?_, rfl⟩
        · refine ⟨fun hl => (List.mem_filter.1 hl).1, fun hl => List.mem_filter.2 ⟨hl, ?_⟩⟩
          exact decide_eq_true fun hid => hnone hgone (List.mem_map.2 ⟨l, hl, hid⟩)
        · have hmembers : (s.db.toListDb.dropMembers fun m =>
              decide (m.listId = listId)).membersOf listId = [] :=
            List.filter_eq_nil_iff.2 fun m hm => List.filter_eq_nil_iff.1 hempty m
              (List.mem_filter.1 hm).1
          have hlists : (s.db.lists.filter fun l => decide (l.id = listId)) = [] :=
            List.filter_eq_nil_iff.2 fun l hl hid =>
              hnone hgone (List.mem_map.2 ⟨l, hl, of_decide_eq_true hid⟩)
          have hnil : memberAudits texts listId (s.db.toListDb.dropMembers fun m =>
              decide (m.listId = listId)) ++
                (s.db.lists.filter fun l => decide (l.id = listId)).map
                  (fun l => audit "reading_list" "DELETE" (texts.list l)) = [] := by
            rw [memberAudits, hmembers, hlists]
            rfl
          refine Eq.trans ?_ (hquiet hempty)
          exact (congrArg (Database.logged clock _) hnil).trans (logged_nil _)

end ListCalls

/-! ## A failed call -/

/-- Whatever happens, a call leaves the tables as they were exactly if it is spared. -/
theorem ends_perform (lib : SearchIndex.IndexLib) (env : Env) (order : ByPosition) (clock : String)
    (texts : AuditTexts) (faults : Faults) (s : Held) (m : Mutation) :
    Ends (perform lib env order clock texts faults m) s fun d' =>
      Unchanged s.db d' ↔ Spared lib order faults s.db m := by
  cases m with
  | updateEditionIdentifier newId e old new => exact ends_updateEditionIdentifier
  | addEditionIdentifier newId e identifier => exact ends_addEditionIdentifier
  | updateEditionContributor e c fromRole toRole => exact ends_updateEditionContributor
  | setEditionFile now newId e filePath fileFormat fileSizeBytes => exact ends_setEditionFile
  | moveEditionInList listId e position => exact ends_moveEditionInList
  | deleteReadingList listId => exact ends_deleteReadingList

/-- **A FAILED CALL CHANGES NOTHING** exactly if no statement that went through wrote a row, or
    what it wrote was there before and was not logged. -/
theorem unchanged_iff (lib : SearchIndex.IndexLib) (env : Env) (order : ByPosition)
    (clock : String) (texts : AuditTexts) (faults : Faults) (s : Held) (m : Mutation)
    {error : LivtetError} {c : Connection Held}
    (h : perform lib env order clock texts faults m (.idle s) = (.error error, c)) :
    Unchanged s.db c.stored.db ↔ Spared lib order faults s.db m := by
  obtain ⟨r, s', hrun, hends⟩ := ends_perform lib env order clock texts faults s m
  cases h.symm.trans hrun
  exact hends

/-! ## A list that is half deleted -/

/-- One operation finds the database locked. -/
def lockedAt (op : Operation) : Faults where
  database op' := if op' = op then some "database is locked" else none
  rebuild := .none

def plainTexts : AuditTexts where
  contribution _ := ("", "")
  file _ := ("", "")
  member _ := ("", "")
  list _ := ("", "")

/-- A library of two editions, one of them in a list. -/
def listedHeld : Held where
  db := { oneListedDb with log := .empty, syncApply := none }
  index := DocIndex.Writer.empty

/-- The call stops before it has deleted anything. -/
theorem unchanged_lockedMembers :
    Unchanged listedHeld.db (perform SearchIndex.plainLib Env.reference byPosition "2026" plainTexts
      (lockedAt .dropMembers) (.deleteReadingList (sampleId 7)) (.idle listedHeld)).2.stored.db :=
  (unchanged_iff SearchIndex.plainLib Env.reference byPosition "2026" plainTexts
    (lockedAt .dropMembers) listedHeld (.deleteReadingList (sampleId 7)) rfl).2
      fun hpasses => by cases hpasses

/-- The list is empty, and still there. -/
theorem not_unchanged_lockedList :
    (perform SearchIndex.plainLib Env.reference byPosition "2026" plainTexts (lockedAt .dropList)
        (.deleteReadingList (sampleId 7)) (.idle listedHeld)).1 =
          .error (.database "database is locked") ∧
      ¬ Unchanged listedHeld.db (perform SearchIndex.plainLib Env.reference byPosition "2026"
        plainTexts (lockedAt .dropList) (.deleteReadingList (sampleId 7))
          (.idle listedHeld)).2.stored.db := by
  refine ⟨rfl, fun h => ?_⟩
  have hthere : (⟨sampleId 7, sampleId 2, 5, 0⟩ : Member) ∈ oneListedDb.members :=
    List.mem_singleton_self _
  have hgone := (h.members _).2 hthere
  cases hgone

end HalfDone

import Livtet.Lib.SqlRows
import Mathlib.Data.Fintype.Defs

/-! # The syncable entities — tables, foreign keys, audit triggers, dump columns

    Four hand-kept lists of the repository in one place: the entity registry
    (`define_syncable_entities!`), the business tables the migrations create, the
    columns the audit triggers of `m0005_sync_triggers` write to the change log,
    and the columns `pull_full` dumps. -/

namespace SyncSchema

open SqlRows

/-- One variant per syncable entity model. -/
inductive SyncableEntityKind
  | work
  | edition
  | seriesEntry
  | digitalInventory
  | ownedEdition
  | editionLoan
  | annotation
  | readingList
  | readingListBook
  | readingProgress
  | workAuthor
  | workTag
  | workGenre
  | workSubject
  | workPublisher
  | editionAuthor
  | editionTag
  | editionGenre
  | editionSubject
  | editionPublisher
  | editionGroup
deriving DecidableEq, Repr

/-- The table a foreign key points to: a syncable one, or one that never syncs. -/
inductive Parent
  | synced (k : SyncableEntityKind)
  | other (table : String)
deriving DecidableEq, Repr

inductive OnDelete
  | cascade
  | setNull
deriving DecidableEq, Repr

structure ForeignKey where
  column : String
  parent : Parent
  onDelete : OnDelete
deriving DecidableEq, Repr

/-- How a trigger writes a column into its JSON: as it is, as `lower(hex(..))`,
    or as `lower(hex(..))` unless it is NULL. -/
inductive Encoding
  | raw
  | hex
  | hexIfPresent
deriving DecidableEq, Repr

/-- How a trigger names the row: by its hex id, by a JSON object of its key, or
    by the lower case of one. -/
inductive EntityIdForm
  | hexId
  | json (key : List (String × Encoding))
  | lowerJson (key : List (String × Encoding))
deriving DecidableEq, Repr

structure AuditTrigger where
  entityId : EntityIdForm
  payload : List (String × Encoding)
  onUpdate : Bool
deriving DecidableEq, Repr

namespace SyncableEntityKind

def allVariants : List SyncableEntityKind :=
  [work, edition, seriesEntry, digitalInventory, ownedEdition, editionLoan, annotation,
    readingList, readingListBook, readingProgress, workAuthor, workTag, workGenre, workSubject,
    workPublisher, editionAuthor, editionTag, editionGenre, editionSubject, editionPublisher,
    editionGroup]

theorem mem_allVariants (k : SyncableEntityKind) : k ∈ allVariants := by
  cases k <;> decide

instance : Fintype SyncableEntityKind where
  elems := ⟨allVariants, by decide⟩
  complete := mem_allVariants

/-- The `change_log.entity_type` string of a variant. -/
def entityTypeName : SyncableEntityKind → String
  | work => "work"
  | edition => "edition"
  | seriesEntry => "series_entry"
  | digitalInventory => "digital_inventory"
  | ownedEdition => "owned_edition"
  | editionLoan => "edition_loan"
  | annotation => "annotation"
  | readingList => "reading_list"
  | readingListBook => "reading_list_book"
  | readingProgress => "reading_progress"
  | workAuthor => "work_author"
  | workTag => "work_tag"
  | workGenre => "work_genre"
  | workSubject => "work_subject"
  | workPublisher => "work_publisher"
  | editionAuthor => "edition_author"
  | editionTag => "edition_tag"
  | editionGenre => "edition_genre"
  | editionSubject => "edition_subject"
  | editionPublisher => "edition_publisher"
  | editionGroup => "edition_group"

/-- The variant, and with it the table, of an entity type string. -/
def entityTypeToTable (entityType : String) : Option SyncableEntityKind :=
  allVariants.find? fun k => k.entityTypeName == entityType

theorem entityTypeToTable_name : ∀ k : SyncableEntityKind,
    entityTypeToTable k.entityTypeName = some k := by
  decide

theorem name_of_entityTypeToTable {s : String} {k : SyncableEntityKind}
    (h : entityTypeToTable s = some k) : k.entityTypeName = s := by
  have := List.find?_some h
  simpa using this

theorem entityTypeName_ne {a b : SyncableEntityKind} (h : a ≠ b) :
    a.entityTypeName ≠ b.entityTypeName := by
  intro heq
  have ha := entityTypeToTable_name a
  rw [heq, entityTypeToTable_name b] at ha
  exact h (Option.some.inj ha).symm

/-! ## Tables -/

private def dbId (name : String) : Column := { name, type := .blob, notNull := true }
private def dbIdNull (name : String) : Column := { name, type := .blob }
private def text (name : String) : Column := { name, type := .text, notNull := true }
private def textNull (name : String) : Column := { name, type := .text }
private def integer (name : String) : Column := { name, type := .integer, notNull := true }
private def integerNull (name : String) : Column := { name, type := .integer }

private def timestampNow (name : String) : Column :=
  { name, type := .text, notNull := true, default := .currentTimestamp }

/-- The two columns of the `timestamps` helper. -/
private def timestamps : List Column := [timestampNow "created_at", textNull "updated_at"]

/-- A table of id pairs, keyed by both. -/
private def junction (name left right : String) (rest : List Column := []) : Layout :=
  { name, columns := [dbId left, dbId right] ++ rest, primaryKey := [left, right] }

/-- A table of id pairs with a role, keyed by all three. -/
private def roleJunction (name left right : String) : Layout :=
  { name, columns := [dbId left, dbId right, text "role"], primaryKey := [left, right, "role"] }

/-- The business table of an entity. -/
def layout : SyncableEntityKind → Layout
  | work =>
      { name := "works"
        columns := [dbId "id", text "title", textNull "description", textNull "sort_title",
          textNull "series_type", dbIdNull "language_id", dbIdNull "preferred_edition_id"]
          ++ timestamps
        primaryKey := ["id"] }
  | edition =>
      { name := "editions"
        columns := [dbId "id", dbId "work_id", dbIdNull "group_id", textNull "title",
          textNull "published_date", dbIdNull "format_id", dbIdNull "language_id",
          textNull "notes", textNull "description"] ++ timestamps
          ++ [textNull "format_metadata", textNull "cover_image_url"]
        primaryKey := ["id"] }
  | seriesEntry =>
      { name := "series_entries"
        columns := [dbId "series_id", dbId "edition_id", integer "position"] ++ timestamps
        primaryKey := ["series_id", "edition_id"] }
  | digitalInventory =>
      { name := "digital_inventory"
        columns := [dbId "id", dbId "edition_id", textNull "file_path", textNull "cover_path",
          textNull "blurhash", textNull "dominant_color", textNull "file_hash",
          integerNull "file_size_bytes",
          { name := "file_format", type := .text, notNull := true
            default := .value (.text "EPUB") },
          textNull "notes", timestampNow "added_at", textNull "updated_at"]
        primaryKey := ["id"]
        uniques := [["edition_id"]] }
  | ownedEdition =>
      { name := "owned_editions"
        columns := [dbId "id", dbId "edition_id", textNull "acquired_at",
          dbIdNull "condition_id", textNull "notes"] ++ timestamps
        primaryKey := ["id"] }
  | editionLoan =>
      { name := "editions_loans"
        columns := [dbId "id", dbId "edition_id", dbId "loan_entity_id",
          dbIdNull "owned_edition_id", text "loaned_date", textNull "due_date",
          textNull "returned_date"]
        primaryKey := ["id"] }
  | annotation =>
      { name := "annotations"
        columns := [dbId "id", dbId "edition_id", dbId "user_id", textNull "content",
          textNull "location"] ++ timestamps
        primaryKey := ["id"] }
  | readingList =>
      { name := "reading_lists"
        columns := [dbId "id", text "name", textNull "description"] ++ timestamps
        primaryKey := ["id"] }
  | readingListBook =>
      junction "reading_list_book" "reading_list_id" "edition_id"
        [integer "position", timestampNow "added_at"]
  | readingProgress =>
      { name := "reading_progress"
        columns := [dbId "id", dbId "edition_id", dbId "format_id",
          { name := "progress", type := .real, notNull := true },
          { name := "progress_unit", type := .text, default := .value (.text "percentage") },
          textNull "last_location",
          { name := "total_reading_time_secs", type := .integer, notNull := true
            default := .value (.int 0) },
          timestampNow "created_at", textNull "annotations"]
        primaryKey := ["id"]
        uniques := [["edition_id", "format_id"]] }
  | workAuthor => roleJunction "work_authors" "work_id" "author_id"
  | workTag => junction "work_tags" "work_id" "tag_id"
  | workGenre => junction "work_genres" "work_id" "genre_id"
  | workSubject => junction "work_subjects" "work_id" "subject_id"
  | workPublisher => junction "work_publishers" "work_id" "publisher_id"
  | editionAuthor => roleJunction "edition_authors" "edition_id" "author_id"
  | editionTag => junction "edition_tags" "edition_id" "tag_id"
  | editionGenre => junction "edition_genres" "edition_id" "genre_id"
  | editionSubject => junction "edition_subjects" "edition_id" "subject_id"
  | editionPublisher =>
      junction "edition_publishers" "edition_id" "publisher_id" [textNull "place"]
  | editionGroup =>
      { name := "edition_groups"
        columns := [dbId "id", text "label", textNull "description"] ++ timestamps
        primaryKey := ["id"] }

/-- The SQLite table name of a variant. -/
def tableName (k : SyncableEntityKind) : String := k.layout.name

/-- The columns of the SeaORM model. -/
def modelColumns : SyncableEntityKind → List Column
  | seriesEntry => seriesEntry.layout.columns.filter fun c => c.name != "updated_at"
  | k => k.layout.columns

/-! ## Foreign keys -/

private def toEdition : ForeignKey := ⟨"edition_id", .synced edition, .cascade⟩
private def toWork : ForeignKey := ⟨"work_id", .synced work, .cascade⟩

def foreignKeys : SyncableEntityKind → List ForeignKey
  | work => [⟨"language_id", .other "languages", .setNull⟩,
      ⟨"preferred_edition_id", .synced edition, .setNull⟩]
  | edition => [toWork, ⟨"group_id", .synced editionGroup, .setNull⟩,
      ⟨"format_id", .other "formats", .setNull⟩, ⟨"language_id", .other "languages", .setNull⟩]
  | seriesEntry => [⟨"series_id", .other "series", .cascade⟩, toEdition]
  | digitalInventory => [toEdition]
  | ownedEdition => [toEdition, ⟨"condition_id", .other "book_conditions", .setNull⟩]
  | editionLoan => [toEdition, ⟨"loan_entity_id", .other "loan_entities", .cascade⟩,
      ⟨"owned_edition_id", .synced ownedEdition, .setNull⟩]
  | annotation => [toEdition]
  | readingList => []
  | readingListBook => [⟨"reading_list_id", .synced readingList, .cascade⟩, toEdition]
  | readingProgress => [toEdition, ⟨"format_id", .other "formats", .cascade⟩]
  | workAuthor => [toWork, ⟨"author_id", .other "authors", .cascade⟩]
  | workTag => [toWork, ⟨"tag_id", .other "tags", .cascade⟩]
  | workGenre => [toWork, ⟨"genre_id", .other "genres", .cascade⟩]
  | workSubject => [toWork, ⟨"subject_id", .other "subjects", .cascade⟩]
  | workPublisher => [toWork, ⟨"publisher_id", .other "publishers", .cascade⟩]
  | editionAuthor => [toEdition, ⟨"author_id", .other "authors", .cascade⟩]
  | editionTag => [toEdition, ⟨"tag_id", .other "tags", .cascade⟩]
  | editionGenre => [toEdition, ⟨"genre_id", .other "genres", .cascade⟩]
  | editionSubject => [toEdition, ⟨"subject_id", .other "subjects", .cascade⟩]
  | editionPublisher => [toEdition, ⟨"publisher_id", .other "publishers", .cascade⟩]
  | editionGroup => []

/-- The foreign keys that point to a table, with the tables that hold them. -/
def references (k : SyncableEntityKind) : List (SyncableEntityKind × ForeignKey) :=
  allVariants.flatMap fun child =>
    (child.foreignKeys.filter fun fk => decide (fk.parent = .synced k)).map fun fk => (child, fk)

/-- The tables whose rows go when a row of this table goes. -/
def cascades (k : SyncableEntityKind) : List SyncableEntityKind :=
  (k.references.filter fun p => decide (p.2.onDelete = .cascade)).map Prod.fst

/-- Cascades end after two steps: a work, its editions, their rows. -/
theorem cascades_depth : ∀ k : SyncableEntityKind,
    ((k.cascades.flatMap cascades).flatMap cascades) = [] := by
  decide

/-! ## Audit triggers -/

private def raw (names : List String) : List (String × Encoding) := names.map fun n => (n, .raw)
private def hex (names : List String) : List (String × Encoding) := names.map fun n => (n, .hex)

/-- The triggers of a table keyed by `id`. -/
private def byId (payload : List (String × Encoding)) : AuditTrigger :=
  { entityId := .hexId, payload := ("id", .hex) :: payload, onUpdate := true }

/-- The triggers of a junction: the payload is the key, and no update is logged. -/
private def byKey (key : List (String × Encoding)) : AuditTrigger :=
  { entityId := .json key, payload := key, onUpdate := false }

def auditTrigger : SyncableEntityKind → AuditTrigger
  | work => byId (raw ["title", "description", "sort_title", "series_type"]
      ++ [("language_id", .hexIfPresent)] ++ raw ["created_at", "updated_at"])
  | edition => byId (hex ["work_id"] ++ raw ["title", "published_date"]
      ++ hex ["format_id", "language_id"]
      ++ raw ["notes", "description", "created_at", "updated_at"])
  | seriesEntry =>
      { entityId := .lowerJson (hex ["series_id", "edition_id"])
        payload := hex ["series_id", "edition_id"] ++ raw ["position", "created_at"]
        onUpdate := true }
  | digitalInventory => byId (hex ["edition_id"] ++ raw ["file_path", "cover_path", "file_hash",
      "file_size_bytes", "notes", "added_at", "updated_at"])
  | ownedEdition => byId (hex ["edition_id"] ++ raw ["acquired_at", "condition_id", "notes",
      "created_at", "updated_at"])
  | editionLoan => byId (hex ["edition_id", "loan_entity_id", "owned_edition_id"]
      ++ raw ["loaned_date", "due_date", "returned_date"])
  | annotation => byId (hex ["edition_id", "user_id"]
      ++ raw ["content", "location", "created_at", "updated_at"])
  | readingList => byId (raw ["name", "description", "created_at", "updated_at"])
  | readingListBook =>
      { entityId := .json (hex ["reading_list_id", "edition_id"])
        payload := hex ["reading_list_id", "edition_id"] ++ raw ["position", "added_at"]
        onUpdate := true }
  | readingProgress => byId (hex ["edition_id", "format_id"]
      ++ raw ["progress", "last_location", "total_reading_time_secs", "created_at"])
  | workAuthor => byKey (hex ["work_id", "author_id"] ++ raw ["role"])
  | workTag => byKey (hex ["work_id", "tag_id"])
  | workGenre => byKey (hex ["work_id", "genre_id"])
  | workSubject => byKey (hex ["work_id", "subject_id"])
  | workPublisher => byKey (hex ["work_id", "publisher_id"])
  | editionAuthor => byKey (hex ["edition_id", "author_id"] ++ raw ["role"])
  | editionTag => byKey (hex ["edition_id", "tag_id"])
  | editionGenre => byKey (hex ["edition_id", "genre_id"])
  | editionSubject => byKey (hex ["edition_id", "subject_id"])
  | editionPublisher => byKey (hex ["edition_id", "publisher_id"])
  | editionGroup => byId (raw ["label", "description", "created_at", "updated_at"])

/-- The columns whose values the triggers emit. -/
def emitted (k : SyncableEntityKind) : List String := k.auditTrigger.payload.map Prod.fst

/-! ## The full dump -/

/-- The columns `pull_full` reads, for the tables it reads. -/
def dumpColumns : SyncableEntityKind → Option (List String)
  | work => some ["id", "title", "description", "sort_title", "series_type", "created_at",
      "updated_at"]
  | edition => some ["id", "work_id", "title", "published_date", "format_id", "language_id",
      "notes", "description", "created_at", "updated_at"]
  | editionGroup => some ["id", "label", "description", "created_at", "updated_at"]
  | seriesEntry => some ["series_id", "edition_id", "position", "created_at"]
  | digitalInventory => some ["id", "edition_id", "file_path", "cover_path", "file_hash",
      "file_size_bytes", "notes", "added_at", "updated_at"]
  | ownedEdition => some ["id", "edition_id", "acquired_at", "condition_id", "notes",
      "created_at", "updated_at"]
  | editionLoan => some ["id", "edition_id", "loan_entity_id", "owned_edition_id", "loaned_date",
      "due_date", "returned_date"]
  | annotation => some ["id", "edition_id", "user_id", "content", "location", "created_at",
      "updated_at"]
  | readingList => some ["id", "name", "description", "created_at", "updated_at"]
  | readingListBook => some ["reading_list_id", "edition_id", "position", "added_at"]
  | readingProgress => some ["id", "edition_id", "format_id", "progress", "last_location",
      "total_reading_time_secs", "created_at"]
  | _ => none

/-- The tables of a dump, in the order `pull_full` reads and `apply_dump` writes
    them. -/
def dumpOrder : List SyncableEntityKind :=
  [work, edition, editionGroup, seriesEntry, digitalInventory, ownedEdition, editionLoan,
    annotation, readingList, readingListBook, readingProgress]

/-! ## Facts about the lists -/

theorem columns_nodup : ∀ k : SyncableEntityKind, (k.layout.columns.map Column.name).Nodup := by
  decide

theorem emitted_nodup : ∀ k : SyncableEntityKind, k.emitted.Nodup := by
  decide

/-- A column the triggers emit is a column of the table. -/
theorem emitted_subset : ∀ k : SyncableEntityKind, ∀ n ∈ k.emitted, (k.layout.column? n).isSome := by
  decide

/-- The primary key is emitted, and every column of it is NOT NULL. -/
theorem primaryKey_emitted : ∀ k : SyncableEntityKind, ∀ n ∈ k.layout.primaryKey,
    n ∈ k.emitted ∧ ((k.layout.column? n).map Column.notNull) = some true := by
  decide

/-- No table points to itself, and a table that is set to NULL has an update trigger. -/
theorem references_facts : ∀ k : SyncableEntityKind, ∀ p ∈ k.references,
    p.1 ≠ k ∧ (p.2.onDelete = .setNull → p.1.auditTrigger.onUpdate = true) := by
  decide

/-- Defaults are values of their columns. -/
theorem default_typed : ∀ k : SyncableEntityKind, ∀ col ∈ k.layout.columns,
    (col.default.eval "").hasType col.type = true := by
  decide

/-- Every dumped column is emitted; of the dumped tables only `works` leaves an
    emitted column out, its language. -/
theorem dumpColumns_emitted : ∀ k : SyncableEntityKind, ∀ cols, k.dumpColumns = some cols →
    cols = k.emitted.filter fun n => decide ¬(k = work ∧ n = "language_id") := by
  intro k cols h
  revert h
  cases k <;> simp only [dumpColumns, Option.some.injEq, reduceCtorEq, false_implies] <;>
    (rintro rfl; decide)

end SyncableEntityKind

end SyncSchema

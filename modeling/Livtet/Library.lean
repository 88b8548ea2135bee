import Mathlib.Tactic.MkIffOfInductiveProp
import Livtet.Reindex

/-! # The library and its calls

    `LivtetStore` keeps the library in SQLite tables and a search index beside them.
    A call writes to the tables first. Most calls then rebuild the whole index, the
    deletions take the documents of the editions they know to be gone, and some do
    not touch the index at all. The tables enforce their keys and references: a
    statement that would break one fails, and a deletion takes the rows that refer to
    what it deletes. -/

namespace Library

open SyncStore SyncPairing DocIndex SearchIndex Reindex

/-- Ids are compared by their bytes. -/
instance : LawfulBEq DbId := Subtype.instLawfulBEq

/-! ## The tables -/

/-- A row of `editions`, with the column that no document has. -/
structure Edition extends EditionRow where
  coverImageUrl : Option String

/-- A row of `works`, with the column that no document has. -/
structure Work extends WorkRow where
  sortTitle : Option String

/-- A row of `edition_authors`. -/
structure Contribution where
  editionId : DbId
  authorId : DbId
  role : String
deriving DecidableEq

/-- A row of `digital_inventory`. -/
structure FileRow where
  id : DbId
  editionId : DbId
  filePath : Option String
  fileFormat : Option String
  fileSizeBytes : Option Int
  updatedAt : Option Int

structure Tables where
  editions : List Edition
  works : List Work
  authors : List NamedRow
  tags : List NamedRow
  genres : List NamedRow
  subjects : List NamedRow
  publishers : List NamedRow
  formats : List NamedRow
  languages : List NamedRow
  editionAuthors : List Contribution
  workAuthors : List Link
  editionTags : List Link
  editionGenres : List Link
  editionSubjects : List Link
  editionPublishers : List Link
  seriesEntries : List Link
  digitalInventory : List FileRow
  editionIdentifiers : List Link
  identifiers : List IdentifierRow

namespace Tables

def editionIds (t : Tables) : List DbId := t.editions.map fun e => e.id
def workIds (t : Tables) : List DbId := t.works.map fun w => w.id
def authorIds (t : Tables) : List DbId := t.authors.map fun a => a.id
def formatIds (t : Tables) : List DbId := t.formats.map fun r => r.id
def languageIds (t : Tables) : List DbId := t.languages.map fun r => r.id
def identifierIds (t : Tables) : List DbId := t.identifiers.map fun r => r.id

/-- The rows that belong to an edition and name something else. -/
def editionLinks (t : Tables) : List Link :=
  t.editionTags ++ t.editionGenres ++ t.editionSubjects ++ t.editionPublishers ++
    t.seriesEntries ++ t.editionIdentifiers

/-- The keys that the tables enforce. -/
@[mk_iff]
structure Keys (t : Tables) : Prop where
  editionKeys : t.editionIds.Nodup
  workKeys : t.workIds.Nodup
  authorKeys : t.authorIds.Nodup
  formatKeys : t.formatIds.Nodup
  languageKeys : t.languageIds.Nodup
  identifierKeys : t.identifierIds.Nodup
  identifierValues : (t.identifiers.map fun r => r.value).Nodup
  contributionKeys : t.editionAuthors.Nodup
  fileKeys : (t.digitalInventory.map fun f => f.id).Nodup
  fileEditions : (t.digitalInventory.map fun f => f.editionId).Nodup

/-- The references that the tables enforce. -/
@[mk_iff]
structure References (t : Tables) : Prop where
  editionWork : (t.editions.map fun e => e.workId) ⊆ t.workIds
  editionFormat : (t.editions.filterMap fun e => e.formatId) ⊆ t.formatIds
  editionLanguage : (t.editions.filterMap fun e => e.languageId) ⊆ t.languageIds
  workLanguage : (t.works.filterMap fun w => w.languageId) ⊆ t.languageIds
  contributionEdition : (t.editionAuthors.map fun c => c.editionId) ⊆ t.editionIds
  contributionAuthor : (t.editionAuthors.map fun c => c.authorId) ⊆ t.authorIds
  workAuthorWork : (t.workAuthors.map fun l => l.owner) ⊆ t.workIds
  workAuthorAuthor : (t.workAuthors.map fun l => l.target) ⊆ t.authorIds
  linkEdition : (t.editionLinks.map fun l => l.owner) ⊆ t.editionIds
  linkIdentifier : (t.editionIdentifiers.map fun l => l.target) ⊆ t.identifierIds
  fileEdition : (t.digitalInventory.map fun f => f.editionId) ⊆ t.editionIds

structure Sound (t : Tables) : Prop where
  keys : t.Keys
  references : t.References

instance (t : Tables) : Decidable t.Keys := decidable_of_iff _ (Tables.keys_iff t).symm

instance (t : Tables) : Decidable t.References := decidable_of_iff _ (Tables.references_iff t).symm

instance (t : Tables) : Decidable t.Sound :=
  decidable_of_iff (t.Keys ∧ t.References) ⟨fun h => ⟨h.1, h.2⟩, fun h => ⟨h.keys, h.references⟩⟩

end Tables

/-- The database: tables whose constraints hold. -/
structure Db where
  tables : Tables
  sound : tables.Sound

/-- What a rebuild of the index reads. -/
def Db.catalog (db : Db) : Catalog where
  editions := db.tables.editions.map fun e => e.toEditionRow
  works := db.tables.works.map fun w => w.toWorkRow
  authors := db.tables.authors
  tags := db.tables.tags
  genres := db.tables.genres
  subjects := db.tables.subjects
  publishers := db.tables.publishers
  formats := db.tables.formats
  languages := db.tables.languages
  editionAuthors := db.tables.editionAuthors.map fun c => ⟨c.editionId, c.authorId⟩
  workAuthors := db.tables.workAuthors
  editionTags := db.tables.editionTags
  editionGenres := db.tables.editionGenres
  editionSubjects := db.tables.editionSubjects
  editionPublishers := db.tables.editionPublishers
  seriesEntries := db.tables.seriesEntries
  digitalInventory := db.tables.digitalInventory.map fun f => f.editionId
  editionIdentifiers := db.tables.editionIdentifiers
  identifiers := db.tables.identifiers
  editionKeys := by
    rw [List.map_map]
    exact db.sound.keys.editionKeys
  authorKeys := db.sound.keys.authorKeys

/-! ## Statements -/

inductive LivtetError
  | database (message : String)
  | search (message : String)
  | notFound (entity id : String)
  | invalidInput (message : String)
deriving DecidableEq, Repr

/-- The tables a statement leaves, unless they break a constraint. -/
def execute (t : Tables) : Except LivtetError Db :=
  if h : t.Sound then .ok ⟨t, h⟩ else .error (.database "constraint failed")

theorem execute_eq_ok {t : Tables} {db : Db} : execute t = .ok db ↔ db.tables = t := by
  rw [execute]
  constructor
  · intro h
    split at h
    · cases Except.ok.inj h
      rfl
    · cases h
  · rintro rfl
    rw [dif_pos db.sound]

namespace Tables

/-- `DELETE` of editions: the rows that belong to one go with it. -/
def dropEditions (t : Tables) (gone : DbId → Bool) : Tables := { t with
  editions := t.editions.filter fun e => !gone e.id
  editionAuthors := t.editionAuthors.filter fun c => !gone c.editionId
  editionTags := t.editionTags.filter fun l => !gone l.owner
  editionGenres := t.editionGenres.filter fun l => !gone l.owner
  editionSubjects := t.editionSubjects.filter fun l => !gone l.owner
  editionPublishers := t.editionPublishers.filter fun l => !gone l.owner
  seriesEntries := t.seriesEntries.filter fun l => !gone l.owner
  digitalInventory := t.digitalInventory.filter fun f => !gone f.editionId
  editionIdentifiers := t.editionIdentifiers.filter fun l => !gone l.owner }

def editionsOfWork (t : Tables) (workId : DbId) : List Edition :=
  t.editions.filter fun e => decide (e.workId = workId)

/-- `DELETE` of a work: its editions go with it. -/
def dropWork (t : Tables) (workId : DbId) : Tables :=
  { t.dropEditions fun id => ((t.editionsOfWork workId).map fun e => e.id).contains id with
    works := t.works.filter fun w => decide (w.id ≠ workId)
    workAuthors := t.workAuthors.filter fun l => decide (l.owner ≠ workId) }

/-- `DELETE` of an author: every link to it goes with it. -/
def dropAuthor (t : Tables) (id : DbId) : Tables := { t with
  authors := t.authors.filter fun a => decide (a.id ≠ id)
  editionAuthors := t.editionAuthors.filter fun c => decide (c.authorId ≠ id)
  workAuthors := t.workAuthors.filter fun l => decide (l.target ≠ id) }

/-- `UPDATE` of one edition. -/
def updateEdition (t : Tables) (id : DbId) (f : Edition → Edition) : Tables :=
  { t with editions := t.editions.map fun e => if e.id = id then f e else e }

end Tables

/-! ## Identifiers -/

inductive IdentifierKind
  | isbn
  | oclc
  | lccn
  | doi
  | web
  | opds
  | custom (scheme : String)
deriving DecidableEq, Repr

def IdentifierKind.asStr : IdentifierKind → String
  | .isbn => "isbn"
  | .oclc => "oclc"
  | .lccn => "lccn"
  | .doi => "doi"
  | .web => "http"
  | .opds => "opds"
  | .custom scheme => scheme

def IdentifierKind.parse (s : String) : Option IdentifierKind :=
  match s with
  | "isbn" => some .isbn
  | "oclc" => some .oclc
  | "lccn" => some .lccn
  | "doi" => some .doi
  | "http" => some .web
  | "https" => some .web
  | "opds" => some .opds
  | "" => none
  | s => some (.custom s)

structure Urn where
  scheme : String
  value : String
deriving DecidableEq, Repr

inductive UrnParseError
  | missingPrefix (s : String)
  | missingSeparator (s : String)
  | emptyScheme (s : String)
  | emptyValue (s : String)
deriving DecidableEq, Repr

def Urn.toUrnString (u : Urn) : String := "urn:" ++ u.scheme ++ ":" ++ u.value

def Urn.parse (s : String) : Except UrnParseError Urn :=
  if !"urn:".toList.isPrefixOf s.toList then .error (.missingPrefix s)
  else
    let rest := s.toList.drop 4
    if !rest.contains ':' then .error (.missingSeparator s)
    else
      let scheme := rest.takeWhile (· != ':')
      let value := (rest.dropWhile (· != ':')).drop 1
      if scheme.isEmpty then .error (.emptyScheme s)
      else if value.isEmpty then .error (.emptyValue s)
      else .ok ⟨String.ofList scheme, String.ofList value⟩

structure Identifier where
  kind : IdentifierKind
  urn : Urn
deriving DecidableEq, Repr

inductive IdentifierParseError
  | malformed (e : UrnParseError)
  | unknownKind (scheme : String)
deriving DecidableEq, Repr

def Identifier.asUrnString (i : Identifier) : String := i.urn.toUrnString

def Identifier.parse (s : String) : Except IdentifierParseError Identifier :=
  match Urn.parse s with
  | .error e => .error (.malformed e)
  | .ok urn =>
      match IdentifierKind.parse urn.scheme with
      | none => .error (.unknownKind urn.scheme)
      | some kind => .ok ⟨kind, urn⟩

/-! ## Publication dates -/

inductive PublishedDate
  | year (year : Int)
  | yearMonth (year : Int) (month : Nat)
  | yearMonthDay (year : Int) (month day : Nat)

def isLeapYear (year : Int) : Bool :=
  decide (year % 4 = 0) && (decide (year % 100 ≠ 0) || decide (year % 400 = 0))

def daysInMonths (year : Int) : List Nat :=
  [31, if isLeapYear year then 29 else 28, 31, 30, 31, 30, 31, 31, 30, 31, 30, 31]

/-- The first day of the period that is known. -/
def fullDate (d : PublishedDate) : Except LivtetError Date :=
  let (year, month, day) := match d with
    | .yearMonthDay year month day => (year, month, day)
    | .yearMonth year month => (year, month, 1)
    | .year year => (year, 1, 1)
  match (daysInMonths year)[month - 1]? with
  | none => .error (.invalidInput "invalid month: month must be in the range 1..=12")
  | some days =>
      if month = 0 then .error (.invalidInput "invalid month: month must be in the range 1..=12")
      else if year < -9999 ∨ 9999 < year then
        .error (.invalidInput "invalid calendar date: year must be in the range -9999..=9999")
      else if day = 0 ∨ days < day then
        .error (.invalidInput "invalid calendar date: day is out of range")
      else .ok ⟨year, ((daysInMonths year).take (month - 1)).sum + day⟩

/-! ## The store -/

/-- The database and the search index. -/
structure Store where
  db : Db
  index : IndexWriter

def Store.docs (s : Store) : List Document := s.index.committed

/-- Set if there is something other than blanks. -/
def nonBlank (s : Option String) : Option String := s.filter fun s => trim s != ""

/-- Set if there is something. -/
def nonEmpty (s : String) : Option String := if s = "" then none else some s

section Calls

variable (lib : IndexLib) (env : Env)

/-- The tables as a rebuild reads them, one query after the other. -/
def snapshot (c : Catalog) : Catalog := loadOrder.foldl (loadTable c) .empty

/-- `SearchIndex::reindex`, with nothing else running. -/
def reindex (db : Db) (w : IndexWriter) : IndexWriter :=
  ((w.deleteAllDocuments.commit hasTerm).addDocuments
    (rebuiltDocuments lib env (snapshot db.catalog))).commit hasTerm

/-- `sync_edition_index`, which rebuilds the index whatever the edition. -/
def syncEditionIndex (index : IndexWriter) (db : Db) : Store := ⟨db, reindex lib env db index⟩

def requireEdition (db : Db) (id : DbId) : Except LivtetError Edition :=
  match db.tables.editions.find? fun e => decide (e.id = id) with
  | some e => .ok e
  | none => .error (.notFound "editions" (id.text env))

def requireWork (db : Db) (id : DbId) : Except LivtetError Work :=
  match db.tables.works.find? fun w => decide (w.id = id) with
  | some w => .ok w
  | none => .error (.notFound "works" (id.text env))

def requireContributor (db : Db) (id : DbId) : Except LivtetError NamedRow :=
  match db.tables.authors.find? fun a => decide (a.id = id) with
  | some a => .ok a
  | none => .error (.notFound "authors" (id.text env))

/-! ### Files -/

/-- The row of the edition's file, updated or new. -/
def writeFile (now : Int) (newId editionId : DbId) (filePath : String)
    (fileFormat : Option String) (fileSizeBytes : Option Int) (t : Tables) :
    Except LivtetError Db :=
  if t.digitalInventory.any fun f => decide (f.editionId = editionId) then
    execute { t with
      digitalInventory := t.digitalInventory.map fun f =>
        if f.editionId = editionId then { f with
          filePath := some filePath
          fileFormat := fileFormat.or f.fileFormat
          fileSizeBytes := fileSizeBytes.or f.fileSizeBytes
          updatedAt := some now }
        else f }
  -- the column of the format is not nullable
  else if fileFormat.isNone then
    .error (.database "NOT NULL constraint failed: digital_inventory.file_format")
  else
    execute { t with
      digitalInventory := t.digitalInventory ++
        [⟨newId, editionId, some filePath, fileFormat, fileSizeBytes, none⟩] }

def setEditionFile (now : Int) (newId editionId : DbId) (filePath : String)
    (fileFormat : Option String) (fileSizeBytes : Option Int) (s : Store) :
    Except LivtetError (Unit × Store) := do
  let _ ← requireEdition env s.db editionId
  let db ← writeFile now newId editionId filePath fileFormat fileSizeBytes s.db.tables
  pure ((), syncEditionIndex lib env s.index db)

def removeEditionFile (editionId : DbId) (s : Store) : Except LivtetError (Bool × Store) := do
  let t := s.db.tables
  let removed := t.digitalInventory.any fun f => decide (f.editionId = editionId)
  let db ← execute { t with
    digitalInventory := t.digitalInventory.filter fun f => decide (f.editionId ≠ editionId) }
  pure (removed, if removed then syncEditionIndex lib env s.index db else { s with db })

/-! ### Identifiers of an edition -/

/-- The shared row of the URN: the one that is there, or a new one. -/
def identifierRow (newId : DbId) (identifier : Identifier) (db : Db) :
    Except LivtetError (DbId × Db) :=
  match db.tables.identifiers.find? fun r => decide (r.value = identifier.asUrnString) with
  | some row => pure (row.id, db)
  | none => do
      let db ← execute { db.tables with
        identifiers := db.tables.identifiers ++
          [⟨newId, identifier.kind.asStr, identifier.asUrnString⟩] }
      pure (newId, db)

/-- The link to it, unless it is there. -/
def linkIdentifier (editionId id : DbId) (db : Db) : Except LivtetError Db :=
  if db.tables.editionIdentifiers.any fun l => decide (l.owner = editionId ∧ l.target = id) then
    pure db
  else
    execute { db.tables with
      editionIdentifiers := db.tables.editionIdentifiers ++ [⟨editionId, id⟩] }

def attachIdentifier (newId editionId : DbId) (identifier : Identifier) (db : Db) :
    Except LivtetError (DbId × Db) := do
  let (id, db) ← identifierRow newId identifier db
  let db ← linkIdentifier editionId id db
  pure (id, db)

def detachIdentifier (editionId : DbId) (urn : String) (db : Db) :
    Except LivtetError (Bool × Db) :=
  match db.tables.identifiers.find? fun r => decide (r.value = urn) with
  | none => pure (false, db)
  | some row => do
      let links := db.tables.editionIdentifiers
      let gone := fun l : Link => decide (l.owner = editionId ∧ l.target = row.id)
      let db ← execute { db.tables with editionIdentifiers := links.filter fun l => !gone l }
      pure (links.any gone, db)

def addEditionIdentifier (newId editionId : DbId) (identifier : Identifier) (s : Store) :
    Except LivtetError (String × Store) := do
  let _ ← requireEdition env s.db editionId
  let (_, db) ← attachIdentifier newId editionId identifier s.db
  pure (identifier.asUrnString, syncEditionIndex lib env s.index db)

def updateEditionIdentifier (newId editionId : DbId) (old new : Identifier) (s : Store) :
    Except LivtetError (Identifier × Store) := do
  let _ ← requireEdition env s.db editionId
  let (_, db) ← detachIdentifier editionId old.asUrnString s.db
  let (_, db) ← attachIdentifier newId editionId new db
  pure (new, syncEditionIndex lib env s.index db)

def removeEditionIdentifier (editionId : DbId) (identifier : Identifier) (s : Store) :
    Except LivtetError (Bool × Store) := do
  let (removed, db) ← detachIdentifier editionId identifier.asUrnString s.db
  pure (removed, if removed then syncEditionIndex lib env s.index db else { s with db })

/-! ### Works and editions -/

/-- The id of the new work. The index is left as it is. -/
def createWork (newId : DbId) (title : String) (sortTitle description : Option String)
    (s : Store) : Except LivtetError (DbId × Store) :=
  if trim title = "" then .error (.invalidInput "work title must not be empty")
  else do
    let db ← execute { s.db.tables with
      works := s.db.tables.works ++
        [{ id := newId, title := trim title, description := nonBlank description
           languageId := none, sortTitle := nonBlank sortTitle }] }
    pure (newId, { s with db })

structure NewEdition where
  workId : DbId
  title : Option String
  description : Option String
  publishedDate : Option PublishedDate
  formatId : Option DbId
  languageId : Option DbId
  notes : Option String
  coverImageUrl : Option String

/-- The id of the new edition. The index is left as it is. -/
def createEdition (now : Int) (newId : DbId) (input : NewEdition) (s : Store) :
    Except LivtetError (DbId × Store) := do
  let _ ← requireWork env s.db input.workId
  let publishedDate ← input.publishedDate.mapM fullDate
  let db ← execute { s.db.tables with
    editions := s.db.tables.editions ++
      [{ id := newId, workId := input.workId, title := nonBlank input.title, publishedDate
         formatId := input.formatId, languageId := input.languageId
         notes := nonBlank input.notes, description := nonBlank input.description
         createdAt := now, updatedAt := none, coverImageUrl := nonBlank input.coverImageUrl }] }
  pure (newId, { s with db })

structure EditionPatch where
  title : Option String
  description : Option String
  notes : Option String
  publishedDate : Option PublishedDate
  formatId : Option DbId
  languageId : Option DbId

/-- What is set replaces what was there; an empty text clears it. -/
def EditionPatch.apply (patch : EditionPatch) (publishedDate : Option Date) (now : Int)
    (e : Edition) : Edition := { e with
  title := (patch.title.map nonEmpty).getD e.title
  description := (patch.description.map nonEmpty).getD e.description
  notes := (patch.notes.map nonEmpty).getD e.notes
  publishedDate := publishedDate.or e.publishedDate
  formatId := patch.formatId.or e.formatId
  languageId := patch.languageId.or e.languageId
  updatedAt := some now }

def updateEdition (now : Int) (editionId : DbId) (patch : EditionPatch) (s : Store) :
    Except LivtetError (Unit × Store) := do
  let publishedDate ← patch.publishedDate.mapM fullDate
  let _ ← requireEdition env s.db editionId
  let db ← execute (s.db.tables.updateEdition editionId (patch.apply publishedDate now))
  pure ((), syncEditionIndex lib env s.index db)

def setEditionCoverUrl (now : Int) (editionId : DbId) (coverImageUrl : Option String)
    (s : Store) : Except LivtetError (Unit × Store) := do
  let _ ← requireEdition env s.db editionId
  let db ← execute (s.db.tables.updateEdition editionId fun e =>
    { e with coverImageUrl := nonBlank coverImageUrl, updatedAt := some now })
  pure ((), syncEditionIndex lib env s.index db)

/-- The documents of the work's editions are deleted one by one. -/
def deleteWork (workId : DbId) (s : Store) : Except LivtetError (Bool × Store) := do
  let t := s.db.tables
  let editionIds := (t.editionsOfWork workId).map fun e => e.id
  let removed := t.workIds.contains workId
  let db ← execute (t.dropWork workId)
  pure (removed, if removed then
      ⟨db, editionIds.foldl (fun w id => SearchIndex.deleteEdition env id w) s.index⟩
    else { s with db })

/-- A work goes when its last edition has gone. -/
def dropEmptied (siblings : Nat) (workId : DbId) (db : Db) : Except LivtetError Db :=
  if siblings ≤ 1 then execute (db.tables.dropWork workId) else pure db

def deleteEdition (editionId : DbId) (s : Store) : Except LivtetError (Bool × Store) :=
  match s.db.tables.editions.find? fun e => decide (e.id = editionId) with
  | none => pure (false, s)
  | some edition => do
      let siblings := (s.db.tables.editionsOfWork edition.workId).length
      let db ← execute (s.db.tables.dropEditions fun id => [editionId].contains id)
      let index := SearchIndex.deleteEdition env editionId s.index
      let db ← dropEmptied siblings edition.workId db
      pure (true, ⟨db, index⟩)

/-! ### Contributors -/

def cleanName (name : String) : Except LivtetError String :=
  if trim name = "" then .error (.invalidInput "contributor name must not be empty")
  else .ok (trim name)

def cleanRole (role : String) : Except LivtetError String :=
  if lib.toLowercase (trim role) = "" then
    .error (.invalidInput "contributor role must not be empty")
  else .ok (lib.toLowercase (trim role))

/-- The index is left as it is. -/
def createContributor (newId : DbId) (name : String) (s : Store) :
    Except LivtetError (NamedRow × Store) := do
  let name ← cleanName name
  let db ← execute { s.db.tables with authors := s.db.tables.authors ++ [⟨newId, name⟩] }
  pure (⟨newId, name⟩, { s with db })

/-- The index is left as it is. -/
def updateContributor (id : DbId) (name : String) (s : Store) :
    Except LivtetError (NamedRow × Store) := do
  let name ← cleanName name
  let _ ← requireContributor env s.db id
  let db ← execute { s.db.tables with
    authors := s.db.tables.authors.map fun a => if a.id = id then { a with name } else a }
  pure (⟨id, name⟩, { s with db })

/-- The index is left as it is. -/
def deleteContributor (id : DbId) (s : Store) : Except LivtetError (Bool × Store) := do
  let db ← execute (s.db.tables.dropAuthor id)
  pure (s.db.tables.authorIds.contains id, { s with db })

def attachContributor (c : Contribution) (db : Db) : Except LivtetError Db :=
  if c ∈ db.tables.editionAuthors then pure db
  else execute { db.tables with editionAuthors := db.tables.editionAuthors ++ [c] }

def detachContributor (c : Contribution) (db : Db) : Except LivtetError (Bool × Db) := do
  let db' ← execute { db.tables with
    editionAuthors := db.tables.editionAuthors.filter fun x => decide (x ≠ c) }
  pure (decide (c ∈ db.tables.editionAuthors), db')

def addEditionContributor (editionId contributorId : DbId) (role : String) (s : Store) :
    Except LivtetError ((Contribution × String) × Store) := do
  let role ← cleanRole lib role
  let _ ← requireEdition env s.db editionId
  let author ← requireContributor env s.db contributorId
  let db ← attachContributor ⟨editionId, contributorId, role⟩ s.db
  pure ((⟨editionId, contributorId, role⟩, author.name), syncEditionIndex lib env s.index db)

def updateEditionContributor (editionId contributorId : DbId) (fromRole toRole : String)
    (s : Store) : Except LivtetError ((Contribution × String) × Store) := do
  let fromRole ← cleanRole lib fromRole
  let toRole ← cleanRole lib toRole
  let _ ← requireEdition env s.db editionId
  let author ← requireContributor env s.db contributorId
  let (_, db) ← detachContributor ⟨editionId, contributorId, fromRole⟩ s.db
  let db ← attachContributor ⟨editionId, contributorId, toRole⟩ db
  pure ((⟨editionId, contributorId, toRole⟩, author.name), syncEditionIndex lib env s.index db)

def removeEditionContributor (editionId contributorId : DbId) (role : String) (s : Store) :
    Except LivtetError (Bool × Store) := do
  let role ← cleanRole lib role
  let (removed, db) ← detachContributor ⟨editionId, contributorId, role⟩ s.db
  pure (removed, if removed then syncEditionIndex lib env s.index db else { s with db })

end Calls

/-! ## Sequences of calls -/

/-- A call with its arguments, the id it draws and the time it is made at. -/
inductive Call
  | setEditionFile (now : Int) (newId editionId : DbId) (filePath : String)
      (fileFormat : Option String) (fileSizeBytes : Option Int)
  | removeEditionFile (editionId : DbId)
  | addEditionIdentifier (newId editionId : DbId) (identifier : Identifier)
  | updateEditionIdentifier (newId editionId : DbId) (old new : Identifier)
  | removeEditionIdentifier (editionId : DbId) (identifier : Identifier)
  | createWork (newId : DbId) (title : String) (sortTitle description : Option String)
  | createEdition (now : Int) (newId : DbId) (input : NewEdition)
  | updateEdition (now : Int) (editionId : DbId) (patch : EditionPatch)
  | setEditionCoverUrl (now : Int) (editionId : DbId) (coverImageUrl : Option String)
  | deleteWork (workId : DbId)
  | deleteEdition (editionId : DbId)
  | createContributor (newId : DbId) (name : String)
  | updateContributor (id : DbId) (name : String)
  | deleteContributor (id : DbId)
  | addEditionContributor (editionId contributorId : DbId) (role : String)
  | updateEditionContributor (editionId contributorId : DbId) (fromRole toRole : String)
  | removeEditionContributor (editionId contributorId : DbId) (role : String)

section System

variable (lib : IndexLib) (env : Env)

/-- The store a call leaves, or the error it returns. -/
def perform (s : Store) : Call → Except LivtetError Store
  | .setEditionFile now newId editionId filePath fileFormat fileSizeBytes => Prod.snd <$>
      setEditionFile lib env now newId editionId filePath fileFormat fileSizeBytes s
  | .removeEditionFile editionId => Prod.snd <$> removeEditionFile lib env editionId s
  | .addEditionIdentifier newId editionId identifier =>
      Prod.snd <$> addEditionIdentifier lib env newId editionId identifier s
  | .updateEditionIdentifier newId editionId old new =>
      Prod.snd <$> updateEditionIdentifier lib env newId editionId old new s
  | .removeEditionIdentifier editionId identifier =>
      Prod.snd <$> removeEditionIdentifier lib env editionId identifier s
  | .createWork newId title sortTitle description =>
      Prod.snd <$> createWork newId title sortTitle description s
  | .createEdition now newId input => Prod.snd <$> createEdition env now newId input s
  | .updateEdition now editionId patch => Prod.snd <$> updateEdition lib env now editionId patch s
  | .setEditionCoverUrl now editionId coverImageUrl =>
      Prod.snd <$> setEditionCoverUrl lib env now editionId coverImageUrl s
  | .deleteWork workId => Prod.snd <$> deleteWork env workId s
  | .deleteEdition editionId => Prod.snd <$> deleteEdition env editionId s
  | .createContributor newId name => Prod.snd <$> createContributor newId name s
  | .updateContributor id name => Prod.snd <$> updateContributor env id name s
  | .deleteContributor id => Prod.snd <$> deleteContributor id s
  | .addEditionContributor editionId contributorId role =>
      Prod.snd <$> addEditionContributor lib env editionId contributorId role s
  | .updateEditionContributor editionId contributorId fromRole toRole => Prod.snd <$>
      updateEditionContributor lib env editionId contributorId fromRole toRole s
  | .removeEditionContributor editionId contributorId role =>
      Prod.snd <$> removeEditionContributor lib env editionId contributorId role s

/-- One call after the other; one that fails leaves the store. -/
def step (s : Store) (call : Call) : Store := (perform lib env s call).toOption.getD s

/-- The call returns `Ok`. -/
def Succeeds (s : Store) (call : Call) : Prop := ∃ s', perform lib env s call = .ok s'

end System

/-! ## What a document is made of -/

/-- Two catalogs hold the same for an edition: the rows its document is made of. -/
structure Agree (e : EditionRow) (c c' : Catalog) : Prop where
  work : (c.works.find? fun w => decide (w.id = e.workId)) =
    c'.works.find? fun w => decide (w.id = e.workId)
  authors : c.authors = c'.authors
  tags : c.tags = c'.tags
  genres : c.genres = c'.genres
  subjects : c.subjects = c'.subjects
  publishers : c.publishers = c'.publishers
  formats : c.formats = c'.formats
  languages : c.languages = c'.languages
  editionAuthors : targets c.editionAuthors e.id = targets c'.editionAuthors e.id
  workAuthors : targets c.workAuthors e.workId = targets c'.workAuthors e.workId
  editionTags : targets c.editionTags e.id = targets c'.editionTags e.id
  editionGenres : targets c.editionGenres e.id = targets c'.editionGenres e.id
  editionSubjects : targets c.editionSubjects e.id = targets c'.editionSubjects e.id
  editionPublishers : targets c.editionPublishers e.id = targets c'.editionPublishers e.id
  seriesEntries : targets c.seriesEntries e.id = targets c'.seriesEntries e.id
  digitalInventory : c.digitalInventory.contains e.id = c'.digitalInventory.contains e.id
  editionIdentifiers : targets c.editionIdentifiers e.id = targets c'.editionIdentifiers e.id
  identifiers : ∀ id ∈ targets c.editionIdentifiers e.id,
    (c.identifiers.find? fun r => decide (r.id = id)) =
      c'.identifiers.find? fun r => decide (r.id = id)

section Documents

variable {lib : IndexLib} {env : Env} {c c' : Catalog} {e : EditionRow}

theorem Agree.authorsOf_eq (h : Agree e c c') : authorsOf c e = authorsOf c' e := by
  have hown : namedAuthors c c.editionAuthors e.id = namedAuthors c' c'.editionAuthors e.id := by
    rw [namedAuthors, namedAuthors, h.editionAuthors, h.authors]
  have hwork : namedAuthors c c.workAuthors e.workId = namedAuthors c' c'.workAuthors e.workId := by
    rw [namedAuthors, namedAuthors, h.workAuthors, h.authors]
  unfold authorsOf
  rw [hown, hwork]

theorem Agree.identifiersOf_eq (h : Agree e c c') : identifiersOf c e = identifiersOf c' e := by
  rw [identifiersOf, identifiersOf, ← h.editionIdentifiers]
  refine List.filterMap_congr fun id hid => ?_
  rw [h.identifiers id hid]

/-- Where the catalogs agree, the documents are the same. -/
theorem Agree.rebuiltEdition_eq (h : Agree e c c') :
    rebuiltEdition lib env c e = rebuiltEdition lib env c' e := by
  simp only [rebuiltEdition, h.work, h.authorsOf_eq, h.identifiersOf_eq, h.tags, h.genres,
    h.subjects, h.publishers, h.formats, h.languages, h.digitalInventory, targetNames, targetIds,
    h.editionTags, h.editionGenres, h.editionSubjects, h.editionPublishers, h.seriesEntries]

/-- The rows of an owner are all read if the owner is. -/
theorem targets_linksOf {owners : List DbId} {links : List Link} {owner : DbId}
    (h : owner ∈ owners) : targets (linksOf owners links) owner = targets links owner := by
  rw [targets, targets, linksOf, List.filter_filter]
  refine congrArg _ (List.filter_congr fun l _ => ?_)
  by_cases hl : l.owner = owner
  · simp [hl, h]
  · simp [hl]

theorem find?_filter_of_imp {α : Type} {p q : α → Bool} {xs : List α}
    (h : ∀ x, p x = true → q x = true) : (xs.filter q).find? p = xs.find? p := by
  rw [List.find?_filter]
  congr 1
  funext x
  by_cases hx : p x = true
  · simp [hx, h x hx]
  · simp [hx]

/-- What has been read in the end: of the rows that belong to others, those whose owner is
    an edition or its work. -/
theorem snapshot_eq (c : Catalog) : snapshot c = { c with
    editionAuthors := linksOf (c.editions.map fun e => e.id) c.editionAuthors
    workAuthors := linksOf (c.editions.map fun e => e.workId) c.workAuthors
    editionTags := linksOf (c.editions.map fun e => e.id) c.editionTags
    editionGenres := linksOf (c.editions.map fun e => e.id) c.editionGenres
    editionSubjects := linksOf (c.editions.map fun e => e.id) c.editionSubjects
    editionPublishers := linksOf (c.editions.map fun e => e.id) c.editionPublishers
    seriesEntries := linksOf (c.editions.map fun e => e.id) c.seriesEntries
    editionIdentifiers := linksOf (c.editions.map fun e => e.id) c.editionIdentifiers
    identifiers := c.identifiers.filter fun r =>
      ((linksOf (c.editions.map fun e => e.id) c.editionIdentifiers).map
        fun l => l.target).contains r.id } := by
  simp only [snapshot, loadOrder, List.foldl_cons, List.foldl_nil, loadTable]

/-- One query after the other reads what the documents are made of. -/
theorem agree_snapshot (he : e ∈ c.editions) : Agree e (snapshot c) c := by
  have hid : e.id ∈ c.editions.map fun e => e.id := List.mem_map_of_mem he
  have hwork : e.workId ∈ c.editions.map fun e => e.workId := List.mem_map_of_mem he
  rw [snapshot_eq]
  constructor
  case workAuthors => exact targets_linksOf hwork
  case identifiers =>
    intro id hmem
    refine find?_filter_of_imp fun r hr => ?_
    rw [decide_eq_true_eq] at hr
    rw [hr, List.contains_iff_mem]
    obtain ⟨l, hl, rfl⟩ := List.mem_map.1 hmem
    exact List.mem_map_of_mem (List.mem_filter.1 hl).1
  case editionAuthors => exact targets_linksOf hid
  case editionTags => exact targets_linksOf hid
  case editionGenres => exact targets_linksOf hid
  case editionSubjects => exact targets_linksOf hid
  case editionPublishers => exact targets_linksOf hid
  case seriesEntries => exact targets_linksOf hid
  case editionIdentifiers => exact targets_linksOf hid
  all_goals rfl

theorem rebuiltDocuments_snapshot (c : Catalog) :
    rebuiltDocuments lib env (snapshot c) = rebuiltDocuments lib env c := by
  have hauthors : (snapshot c).authors = c.authors := by rw [snapshot_eq]
  have heditions : (snapshot c).editions = c.editions := by rw [snapshot_eq]
  rw [rebuiltDocuments, rebuiltDocuments, hauthors, heditions]
  refine congrArg (· ++ _) (List.map_congr_left fun e he => ?_)
  exact (agree_snapshot he).rebuiltEdition_eq

/-- A rebuild leaves the documents of the library, whatever the index held. -/
theorem committed_reindex (db : Db) (w : IndexWriter) :
    (reindex lib env db w).committed = rebuiltDocuments lib env db.catalog := by
  rw [reindex, Writer.committed_addDocuments, Writer.committed_commit_of_pending_nil rfl,
    Writer.committed_deleteAllDocuments, List.nil_append, rebuiltDocuments_snapshot]

/-! ### The texts of a field -/

/-- The texts a document has in a field. -/
def textsOf (field : Field) (d : Document) : List String :=
  d.filterMap fun x => match x with
    | (f, .text v) => if f = field then some v else none
    | _ => none

theorem textsOf_flatten (field : Field) (ds : List Document) :
    textsOf field ds.flatten = (ds.map (textsOf field)).flatten := List.filterMap_flatten

theorem textsOf_texts (field field' : Field) (values : List String) :
    textsOf field (texts field' values) = if field' = field then values else [] := by
  rw [textsOf, texts, List.filterMap_map]
  by_cases h : field' = field
  · simp [h]
  · simp [h]

@[simp] theorem textsOf_facets (field field' : Field) (names : List String) :
    textsOf field (facets lib field' names) = [] := by
  rw [textsOf, facets, List.filterMap_map]
  exact List.filterMap_eq_nil_iff.2 fun _ _ => rfl

@[simp] theorem textsOf_dates (field field' : Field) (nanos : Option Int) :
    textsOf field (dates field' nanos) = [] := by
  rw [textsOf, dates, List.filterMap_map]
  exact List.filterMap_eq_nil_iff.2 fun _ _ => rfl

@[simp] theorem textsOf_years (field : Field) (year : Nat) : textsOf field (years year) = [] := by
  unfold years
  split <;> rfl

@[simp] theorem textsOf_bool (field field' : Field) (b : Bool) :
    textsOf field [(field', .bool b)] = [] := rfl

@[simp] theorem textsOf_u64 (field field' : Field) (n : Nat) :
    textsOf field [(field', .u64 n)] = [] := rfl

end Documents

end Library

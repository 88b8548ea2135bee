import Livtet.Isbn
import Livtet.SearchIndex

/-! # Rebuilding the search index

    A rebuild clears the index under the writer's lock, reads the library's tables
    one after the other without it, and takes the lock again to add a document for
    each edition and author it read. Single-document writes run in between.

    What is written between the clear and the refill meets the documents of the
    same rows, which the refill adds without deleting: the index keeps at most one
    document for each id exactly if the refill finds none of the rows it read. -/

namespace Reindex

open SyncStore SyncPairing DocIndex SearchIndex

/-! ## The tables a rebuild reads -/

/-- A calendar date: the year and the day of the year, from one. -/
structure Date where
  year : Int
  ordinal : Nat

/-- Days since the first of January 1970. -/
def Date.unixDays (d : Date) : Int :=
  let y := d.year - 1
  365 * y + y.fdiv 4 - y.fdiv 100 + y.fdiv 400 + d.ordinal - 719163

/-- Midnight of the date, in nanoseconds since the epoch. -/
def Date.midnightNanos (d : Date) : Int := d.unixDays * 86400 * 10 ^ 9

/-- `nanos.try_into().unwrap_or(0)`: what does not fit 64 bits is the epoch. -/
def i64OrZero (n : Int) : Int := if minI64 ≤ n ∧ n ≤ maxI64 then n else 0

/-- `year as u64`. -/
def Date.yearU64 (d : Date) : Nat := (d.year % 2 ^ 64).toNat

structure EditionRow where
  id : DbId
  workId : DbId
  title : Option String
  publishedDate : Option Date
  formatId : Option DbId
  languageId : Option DbId
  notes : Option String
  description : Option String
  /-- Nanoseconds since the epoch. -/
  createdAt : Int
  updatedAt : Option Int

structure WorkRow where
  id : DbId
  title : String
  description : Option String
  languageId : Option DbId

/-- A row of which the name is read: an author, a tag, a genre, a subject, a publisher,
    a format or a language. -/
structure NamedRow where
  id : DbId
  name : String

/-- A row of a junction table. -/
structure Link where
  owner : DbId
  target : DbId

structure IdentifierRow where
  id : DbId
  kind : String
  value : String

/-- The library's tables. Editions and authors have their primary keys. -/
structure Catalog where
  editions : List EditionRow
  works : List WorkRow
  authors : List NamedRow
  tags : List NamedRow
  genres : List NamedRow
  subjects : List NamedRow
  publishers : List NamedRow
  formats : List NamedRow
  languages : List NamedRow
  editionAuthors : List Link
  workAuthors : List Link
  editionTags : List Link
  editionGenres : List Link
  editionSubjects : List Link
  editionPublishers : List Link
  /-- From edition to series. -/
  seriesEntries : List Link
  /-- The editions that have a file. -/
  digitalInventory : List DbId
  editionIdentifiers : List Link
  identifiers : List IdentifierRow
  editionKeys : (editions.map fun e => e.id).Nodup
  authorKeys : (authors.map fun a => a.id).Nodup

def Catalog.empty : Catalog where
  editions := []
  works := []
  authors := []
  tags := []
  genres := []
  subjects := []
  publishers := []
  formats := []
  languages := []
  editionAuthors := []
  workAuthors := []
  editionTags := []
  editionGenres := []
  editionSubjects := []
  editionPublishers := []
  seriesEntries := []
  digitalInventory := []
  editionIdentifiers := []
  identifiers := []
  editionKeys := List.nodup_nil
  authorKeys := List.nodup_nil

/-! ## The documents of a rebuild -/

section Documents

def nameOf (rows : List NamedRow) (id : DbId) : Option String :=
  (rows.find? fun r => decide (r.id = id)).map fun r => r.name

def targets (links : List Link) (owner : DbId) : List DbId :=
  (links.filter fun l => decide (l.owner = owner)).map fun l => l.target

/-- The authors of a row that are in the authors table. -/
def namedAuthors (c : Catalog) (links : List Link) (owner : DbId) : List (DbId × String) :=
  (targets links owner).filterMap fun id => (nameOf c.authors id).map fun name => (id, name)

/-- The edition's authors, or else its work's. -/
def authorsOf (c : Catalog) (e : EditionRow) : List (DbId × String) :=
  let own := namedAuthors c c.editionAuthors e.id
  if own.isEmpty then namedAuthors c c.workAuthors e.workId else own

/-- The names of the targets that have one. -/
def targetNames (rows : List NamedRow) (links : List Link) (e : EditionRow) : List String :=
  (targets links e.id).filterMap (nameOf rows)

/-- Kind and value of each identifier; an ISBN in its canonical form, if it has one. -/
def identifiersOf (c : Catalog) (e : EditionRow) : List (String × String) :=
  (targets c.editionIdentifiers e.id).filterMap fun id =>
    (c.identifiers.find? fun r => decide (r.id = id)).map fun r =>
      (r.kind, if r.kind = "isbn" then (Isbn.parse r.value).toOption.getD r.value else r.value)

variable (lib : IndexLib) (env : Env)

def targetIds (links : List Link) (e : EditionRow) : List String :=
  (targets links e.id).map (DbId.text env)

/-- The document a rebuild writes for an edition. -/
def rebuiltEdition (c : Catalog) (e : EditionRow) : Document :=
  let work := c.works.find? fun w => decide (w.id = e.workId)
  let editionTitle := e.title.getD ""
  let resolvedTitle :=
    if editionTitle = "" then (work.map fun w => w.title).getD "" else editionTitle
  let authors := authorsOf c e
  let tagNames := targetNames c.tags c.editionTags e
  let genreNames := targetNames c.genres c.editionGenres e
  let subjectNames := targetNames c.subjects c.editionSubjects e
  let publisherNames := targetNames c.publishers c.editionPublishers e
  let language := (e.languageId.bind (nameOf c.languages)).or
    ((work.bind fun w => w.languageId).bind (nameOf c.languages))
  List.flatten [
    texts .editionId [e.id.text env],
    texts .workId [e.workId.text env],
    [(.workIdHash, .u64 (lib.hashWorkId (e.workId.text env)))],
    texts .authorId (authors.map fun a => a.1.text env),
    texts .kind ["edition"],
    texts .title [resolvedTitle],
    texts .editionTitle (if editionTitle = "" then [] else [editionTitle]),
    texts .workDescription (work.bind fun w => w.description).toList,
    texts .editionDescription e.description.toList,
    texts .authors (authors.map Prod.snd),
    texts .tags tagNames,
    texts .genres genreNames,
    texts .subjects subjectNames,
    texts .publishers publisherNames,
    texts .identifierKinds ((identifiersOf c e).map Prod.fst),
    texts .identifierValues ((identifiersOf c e).map Prod.snd),
    texts .notes [e.notes.getD ""],
    texts .format (e.formatId.bind (nameOf c.formats)).toList,
    texts .language language.toList,
    facets lib .languageFacet language.toList,
    facets lib .publisherFacet publisherNames,
    facets lib .subjectFacet subjectNames,
    facets lib .genreFacet genreNames,
    dates .pubDate (e.publishedDate.map fun d => i64OrZero d.midnightNanos),
    years ((e.publishedDate.map Date.yearU64).getD 0),
    texts .titleSort [lib.toLowercase resolvedTitle],
    texts .primaryAuthorSort (authors.head?.map fun a => lib.toLowercase a.2).toList,
    dates .createdAt (some (i64OrZero e.createdAt)),
    dates .updatedAt (e.updatedAt.map i64OrZero),
    [(.popularity, .u64 0)],
    texts .source ["catalog"],
    [(.hasFile, .bool (c.digitalInventory.contains e.id))],
    texts .tagId (targetIds env c.editionTags e),
    texts .genreId (targetIds env c.editionGenres e),
    texts .subjectId (targetIds env c.editionSubjects e),
    texts .seriesId (targetIds env c.seriesEntries e),
    texts .publisherId (targetIds env c.editionPublishers e)]

/-- The document a rebuild writes for an author. -/
def rebuiltAuthor (a : NamedRow) : Document :=
  List.flatten [
    texts .authorId [a.id.text env],
    texts .kind ["author"],
    texts .title [a.name],
    texts .authors [a.name],
    texts .titleSort [lib.toLowercase a.name],
    texts .primaryAuthorSort [lib.toLowercase a.name]]

def rebuiltDocuments (c : Catalog) : List Document :=
  c.editions.map (rebuiltEdition lib env c) ++ c.authors.map (rebuiltAuthor lib env)

end Documents

/-! ## A rebuild among other writes -/

inductive TableName
  | editions
  | works
  | authors
  | tags
  | genres
  | subjects
  | publishers
  | formats
  | languages
  | editionAuthors
  | workAuthors
  | editionTags
  | editionGenres
  | editionSubjects
  | editionPublishers
  | seriesEntries
  | digitalInventory
  | editionIdentifiers
  | identifiers
deriving DecidableEq, Repr

/-- The order in which a rebuild reads the tables. -/
def loadOrder : List TableName :=
  [.editions, .works, .authors, .tags, .genres, .subjects, .publishers, .formats, .languages,
    .editionAuthors, .workAuthors, .editionTags, .editionGenres, .editionSubjects,
    .editionPublishers, .seriesEntries, .digitalInventory, .editionIdentifiers, .identifiers]

/-- The rows of a junction table whose owner was read. -/
def linksOf (owners : List DbId) (links : List Link) : List Link :=
  links.filter fun l => owners.contains l.owner

/-- One query: what was read so far, with the next table of the database as it is now. -/
def loadTable (db snapshot : Catalog) : TableName → Catalog
  | .editions => { snapshot with editions := db.editions, editionKeys := db.editionKeys }
  | .works => { snapshot with works := db.works }
  | .authors => { snapshot with authors := db.authors, authorKeys := db.authorKeys }
  | .tags => { snapshot with tags := db.tags }
  | .genres => { snapshot with genres := db.genres }
  | .subjects => { snapshot with subjects := db.subjects }
  | .publishers => { snapshot with publishers := db.publishers }
  | .formats => { snapshot with formats := db.formats }
  | .languages => { snapshot with languages := db.languages }
  | .editionAuthors => { snapshot with
      editionAuthors := linksOf (snapshot.editions.map fun e => e.id) db.editionAuthors }
  | .workAuthors => { snapshot with
      workAuthors := linksOf (snapshot.editions.map fun e => e.workId) db.workAuthors }
  | .editionTags => { snapshot with
      editionTags := linksOf (snapshot.editions.map fun e => e.id) db.editionTags }
  | .editionGenres => { snapshot with
      editionGenres := linksOf (snapshot.editions.map fun e => e.id) db.editionGenres }
  | .editionSubjects => { snapshot with
      editionSubjects := linksOf (snapshot.editions.map fun e => e.id) db.editionSubjects }
  | .editionPublishers => { snapshot with
      editionPublishers := linksOf (snapshot.editions.map fun e => e.id) db.editionPublishers }
  | .seriesEntries => { snapshot with
      seriesEntries := linksOf (snapshot.editions.map fun e => e.id) db.seriesEntries }
  | .digitalInventory => { snapshot with digitalInventory := db.digitalInventory }
  | .editionIdentifiers => { snapshot with
      editionIdentifiers := linksOf (snapshot.editions.map fun e => e.id) db.editionIdentifiers }
  | .identifiers => { snapshot with
      identifiers := db.identifiers.filter fun r =>
        (snapshot.editionIdentifiers.map fun l => l.target).contains r.id }

inductive Phase
  | waiting
  | loading (remaining : List TableName) (snapshot : Catalog)
  | finished

structure State where
  writer : IndexWriter
  db : Catalog
  rebuild : Phase

def State.docs (s : State) : List Document := s.writer.committed

/-- A write of one document, a change of the library, or the next section of the
    rebuild. `fail` is a query that fails. -/
inductive Action
  | write (a : SearchIndex.Action)
  | database (db : Catalog)
  | clear
  | load
  | refill
  | fail

section System

variable (lib : IndexLib) (env : Env)

def step (s : State) : Action → State
  | .write a => { s with writer := write lib env s.writer a }
  | .database db => { s with db }
  | .clear =>
      match s.rebuild with
      | .waiting => { s with
          writer := s.writer.deleteAllDocuments.commit hasTerm
          rebuild := .loading loadOrder .empty }
      | _ => s
  | .load =>
      match s.rebuild with
      | .loading (table :: rest) snapshot =>
          { s with rebuild := .loading rest (loadTable s.db snapshot table) }
      | _ => s
  | .refill =>
      match s.rebuild with
      | .loading [] snapshot => { s with
          writer := (s.writer.addDocuments (rebuiltDocuments lib env snapshot)).commit hasTerm
          rebuild := .finished }
      | _ => s
  | .fail =>
      match s.rebuild with
      | .loading _ _ => { s with rebuild := .finished }
      | _ => s

/-- At most one document for each edition id, and one author document for each author id. -/
def Unique (docs : List Document) : Prop :=
  ∀ id, docs.countP (hasTerm (.editionId, id)) ≤ 1 ∧ docs.countP (isAuthorOf id) ≤ 1

/-- The index has no document of the edition. -/
def Absent (id : String) (docs : List Document) : Prop :=
  ∀ d ∈ docs, hasTerm (.editionId, id) d = false

/-- No row of the table is the edition. -/
def Unlisted (id : String) (c : Catalog) : Prop := ∀ e ∈ c.editions, e.id.text env ≠ id

/-- What a rebuild and other writes do not do to each other: the index never has two
    documents for one id, and an edition that neither the library nor the index has
    when the rebuild reads the editions is not in the index later, unless it is
    written again. -/
structure Uncorrupted (start : State) (run : List Action) : Prop where
  unique : ∀ pre, pre <+: run → Unique (Runs.exec (step lib env) start pre).docs
  gone : ∀ pre post id, run = pre ++ .load :: post →
    (Runs.exec (step lib env) start pre).rebuild = .loading loadOrder .empty →
    Unlisted env id (Runs.exec (step lib env) start pre).db →
    Absent id (Runs.exec (step lib env) start pre).docs →
    (∀ doc, .write (.upsertEdition doc) ∈ post → doc.editionId ≠ id) →
    Absent id (Runs.exec (step lib env) start run).docs

/-- The index has no document of a row the rebuild read. -/
def Fresh (c : Catalog) (docs : List Document) : Prop :=
  (∀ e ∈ c.editions, Absent (e.id.text env) docs) ∧
  ∀ a ∈ c.authors, ∀ d ∈ docs, isAuthorOf (a.id.text env) d = false

/-- The refill finds no document of a row it adds. -/
def Guard (s : State) : Action → Prop
  | .refill =>
      match s.rebuild with
      | .loading [] snapshot => Fresh env snapshot s.docs
      | _ => True
  | _ => True

end System

variable {lib : IndexLib} {env : Env}

/-! ## The terms of rebuilt documents -/

theorem hasTerm_editionId_rebuilt {c : Catalog} {e : EditionRow} {id : String} :
    hasTerm (.editionId, id) (rebuiltEdition lib env c e) = true ↔ id = e.id.text env := by
  rw [hasTerm, decide_eq_true_eq]
  simp [rebuiltEdition, mem_texts, not_mem_facets, not_mem_dates, not_mem_years]

theorem hasTerm_kind_rebuilt {c : Catalog} {e : EditionRow} {kind : String} :
    hasTerm (.kind, kind) (rebuiltEdition lib env c e) = true ↔ kind = "edition" := by
  rw [hasTerm, decide_eq_true_eq]
  simp [rebuiltEdition, mem_texts, not_mem_facets, not_mem_dates, not_mem_years]

theorem hasTerm_editionId_rebuiltAuthor {a : NamedRow} {id : String} :
    hasTerm (.editionId, id) (rebuiltAuthor lib env a) = false := by
  simp [hasTerm, rebuiltAuthor, mem_texts]

theorem isAuthorOf_rebuilt {c : Catalog} {e : EditionRow} {id : String} :
    isAuthorOf id (rebuiltEdition lib env c e) = false := by
  rw [isAuthorOf, Bool.and_eq_false_iff, ← Bool.not_eq_true, hasTerm_kind_rebuilt]
  exact Or.inl (by decide)

theorem isAuthorOf_rebuiltAuthor {a : NamedRow} {id : String} :
    isAuthorOf id (rebuiltAuthor lib env a) = true ↔ id = a.id.text env := by
  simp [isAuthorOf, hasTerm, rebuiltAuthor, mem_texts]

/-- Rows with different keys: at most one has an id with a given text. -/
theorem countP_text_le {α : Type} {rows : List α} {key : α → DbId} {document : α → Document}
    {p : Document → Bool} {id : String} (hkeys : (rows.map key).Nodup)
    (hp : ∀ r ∈ rows, p (document r) = true → id = (key r).text env) :
    (rows.map document).countP p ≤ 1 := by
  induction rows with
  | nil => exact Nat.zero_le _
  | cons r rest ih =>
      rw [List.map_cons, List.nodup_cons] at hkeys
      rw [List.map_cons, List.countP_cons]
      by_cases hr : p (document r) = true
      · have hnone : (rest.map document).countP p = 0 := by
          rw [List.countP_eq_zero]
          intro d hd hpd
          obtain ⟨r', hr', rfl⟩ := List.mem_map.1 hd
          have hsame : key r' = key r := DbId.text_injective env
            ((hp r' (List.mem_cons_of_mem _ hr') hpd).symm.trans (hp r List.mem_cons_self hr))
          exact hkeys.1 (hsame ▸ List.mem_map_of_mem hr')
        rw [hnone, if_pos hr]
      · rw [if_neg hr]
        exact ih hkeys.2 fun r' hr' => hp r' (List.mem_cons_of_mem _ hr')

theorem countP_rebuilt_editionId {c : Catalog} {id : String} :
    (rebuiltDocuments lib env c).countP (hasTerm (.editionId, id)) =
      (c.editions.map (rebuiltEdition lib env c)).countP (hasTerm (.editionId, id)) := by
  rw [rebuiltDocuments, List.countP_append, Nat.add_eq_left, List.countP_eq_zero]
  intro d hd
  obtain ⟨a, _, rfl⟩ := List.mem_map.1 hd
  rw [hasTerm_editionId_rebuiltAuthor]
  exact Bool.false_ne_true

theorem countP_rebuilt_isAuthorOf {c : Catalog} {id : String} :
    (rebuiltDocuments lib env c).countP (isAuthorOf id) =
      (c.authors.map (rebuiltAuthor lib env)).countP (isAuthorOf id) := by
  rw [rebuiltDocuments, List.countP_append, Nat.add_eq_right, List.countP_eq_zero]
  intro d hd
  obtain ⟨e, _, rfl⟩ := List.mem_map.1 hd
  rw [isAuthorOf_rebuilt]
  exact Bool.false_ne_true

/-- A rebuild's own documents are unique. -/
theorem unique_rebuilt (c : Catalog) : Unique (rebuiltDocuments lib env c) := by
  intro id
  rw [countP_rebuilt_editionId, countP_rebuilt_isAuthorOf]
  exact ⟨countP_text_le c.editionKeys fun e _ h => hasTerm_editionId_rebuilt.1 h,
    countP_text_le c.authorKeys fun a _ h => isAuthorOf_rebuiltAuthor.1 h⟩

/-- Two groups of documents, one after the other: together they have at most one that
    passes exactly if the first has none of what the second has. -/
theorem countP_append_le {xs ys : List Document} {p : Document → Bool} (hxs : xs.countP p ≤ 1)
    (hys : ys.countP p ≤ 1) :
    (xs ++ ys).countP p ≤ 1 ↔ ((∃ d ∈ ys, p d = true) → ∀ d ∈ xs, p d = false) := by
  rw [List.countP_append]
  constructor
  · intro hle hex d hd
    have hy : 0 < ys.countP p := List.countP_pos_iff.2 hex
    rw [← Bool.not_eq_true]
    intro hp
    have hx : 0 < xs.countP p := List.countP_pos_iff.2 ⟨d, hd, hp⟩
    omega
  · intro h
    by_cases hex : ∃ d ∈ ys, p d = true
    · have hx : xs.countP p = 0 := by
        rw [List.countP_eq_zero]
        intro d hd
        rw [h hex d hd]
        exact Bool.false_ne_true
      omega
    · have hy : ys.countP p = 0 := by
        rw [List.countP_eq_zero]
        exact fun d hd hp => hex ⟨d, hd, hp⟩
      omega

theorem exists_rebuilt_edition {c : Catalog} {id : String} :
    (∃ d ∈ rebuiltDocuments lib env c, hasTerm (.editionId, id) d = true) ↔
      ∃ e ∈ c.editions, id = e.id.text env := by
  constructor
  · rintro ⟨d, hd, hterm⟩
    rcases List.mem_append.1 hd with hd | hd
    · obtain ⟨e, he, rfl⟩ := List.mem_map.1 hd
      exact ⟨e, he, hasTerm_editionId_rebuilt.1 hterm⟩
    · obtain ⟨a, _, rfl⟩ := List.mem_map.1 hd
      rw [hasTerm_editionId_rebuiltAuthor] at hterm
      cases hterm
  · rintro ⟨e, he, rfl⟩
    exact ⟨_, List.mem_append_left _ (List.mem_map_of_mem he), hasTerm_editionId_rebuilt.2 rfl⟩

theorem exists_rebuilt_author {c : Catalog} {id : String} :
    (∃ d ∈ rebuiltDocuments lib env c, isAuthorOf id d = true) ↔
      ∃ a ∈ c.authors, id = a.id.text env := by
  constructor
  · rintro ⟨d, hd, hauthor⟩
    rcases List.mem_append.1 hd with hd | hd
    · obtain ⟨e, _, rfl⟩ := List.mem_map.1 hd
      rw [isAuthorOf_rebuilt] at hauthor
      cases hauthor
    · obtain ⟨a, ha, rfl⟩ := List.mem_map.1 hd
      exact ⟨a, ha, isAuthorOf_rebuiltAuthor.1 hauthor⟩
  · rintro ⟨a, ha, rfl⟩
    exact ⟨_, List.mem_append_right _ (List.mem_map_of_mem ha), isAuthorOf_rebuiltAuthor.2 rfl⟩

/-- A refill keeps the documents unique exactly if it meets none of its rows. -/
theorem unique_refill_iff {docs : List Document} (hdocs : Unique docs) (c : Catalog) :
    Unique (docs ++ rebuiltDocuments lib env c) ↔ Fresh env c docs := by
  have hc : Unique (rebuiltDocuments lib env c) := unique_rebuilt c
  constructor
  · intro h
    constructor
    · intro e he
      exact (countP_append_le (hdocs _).1 (hc _).1).1 (h _).1
        (exists_rebuilt_edition.2 ⟨e, he, rfl⟩)
    · intro a ha
      exact (countP_append_le (hdocs _).2 (hc _).2).1 (h _).2
        (exists_rebuilt_author.2 ⟨a, ha, rfl⟩)
  · rintro ⟨heditions, hauthors⟩ id
    constructor
    · refine (countP_append_le (hdocs id).1 (hc id).1).2 fun hex => ?_
      obtain ⟨e, he, rfl⟩ := exists_rebuilt_edition.1 hex
      exact heditions e he
    · refine (countP_append_le (hdocs id).2 (hc id).2).2 fun hex => ?_
      obtain ⟨a, ha, rfl⟩ := exists_rebuilt_author.1 hex
      exact hauthors a ha

/-! ## Single-document writes -/

theorem unique_filter {docs : List Document} (h : Unique docs) (p : Document → Bool) :
    Unique (docs.filter p) := fun id =>
  ⟨(List.filter_sublist.countP_le).trans (h id).1, (List.filter_sublist.countP_le).trans (h id).2⟩

/-- A document in place of those that it could be taken for. -/
theorem unique_replace {docs : List Document} (h : Unique docs) {p : Document → Bool}
    {new : Document} (hedition : ∀ id, hasTerm (.editionId, id) new = true →
      ∀ d ∈ docs, p d = true → hasTerm (.editionId, id) d = false)
    (hauthor : ∀ id, isAuthorOf id new = true → ∀ d ∈ docs, p d = true → isAuthorOf id d = false) :
    Unique (docs.filter p ++ [new]) := by
  have hone : ∀ q : Document → Bool, [new].countP q ≤ 1 := fun q => List.countP_le_length
  intro id
  constructor
  · refine (countP_append_le (unique_filter h p id).1 (hone _)).2 ?_
    rintro ⟨d', hd', hterm⟩ d hd
    cases List.mem_singleton.1 hd'
    obtain ⟨hd, hp⟩ := List.mem_filter.1 hd
    exact hedition id hterm d hd hp
  · refine (countP_append_le (unique_filter h p id).2 (hone _)).2 ?_
    rintro ⟨d', hd', hterm⟩ d hd
    cases List.mem_singleton.1 hd'
    obtain ⟨hd, hp⟩ := List.mem_filter.1 hd
    exact hauthor id hterm d hd hp

/-- What a single-document write leaves committed. -/
theorem committed_write {w : IndexWriter} (hw : w.pending = []) (a : SearchIndex.Action) :
    (write lib env w a).pending = [] ∧ (write lib env w a).committed =
      match a with
      | .upsertEdition doc =>
          (w.committed.filter fun d => !hasTerm (.editionId, doc.editionId) d) ++
            [editionDocument lib doc]
      | .upsertAuthor doc =>
          (w.committed.filter fun d => !hasTerm (.authorId, doc.authorId) d) ++
            [authorDocument lib doc]
      | .deleteEdition id =>
          w.committed.filter fun d => !hasTerm (.editionId, id.text env) d := by
  have hsettled : Settled ⟨w, []⟩ := hw
  cases a with
  | upsertEdition doc => exact ⟨rfl, @docs_upsertEdition lib env _ hsettled doc⟩
  | upsertAuthor doc => exact ⟨rfl, @docs_upsertAuthor lib env _ hsettled doc⟩
  | deleteEdition id => exact ⟨rfl, @docs_deleteEdition lib env _ hsettled id⟩

theorem unique_write {w : IndexWriter} (hw : w.pending = []) (h : Unique w.committed)
    (a : SearchIndex.Action) : Unique (write lib env w a).committed := by
  rw [(committed_write hw a).2]
  cases a with
  | upsertEdition doc =>
      refine unique_replace h ?_ ?_
      · intro id hterm d _ hd
        rw [hasTerm_editionId_edition] at hterm
        rw [hterm]
        simpa using hd
      · intro id hauthor
        rw [isAuthorOf_edition] at hauthor
        cases hauthor
  | upsertAuthor doc =>
      refine unique_replace h ?_ ?_
      · intro id hterm
        rw [hasTerm_editionId_author] at hterm
        cases hterm
      · intro id hauthor d _ hd
        rw [isAuthorOf_author] at hauthor
        have hfree : hasTerm (.authorId, doc.authorId) d = false := by simpa using hd
        rw [isAuthorOf, hauthor, hfree, Bool.and_false]
  | deleteEdition id => exact unique_filter h _

/-! ## One step -/

/-- Nothing is queued, and the committed documents are unique. -/
def Tidy (s : State) : Prop := s.writer.pending = [] ∧ Unique s.docs

theorem pending_step {s : State} (hs : s.writer.pending = []) (a : Action) :
    (step lib env s a).writer.pending = [] := by
  cases a with
  | write a => exact (committed_write hs a).1
  | database db => exact hs
  | clear =>
      simp only [step]
      split
      · rfl
      · exact hs
  | load =>
      simp only [step]
      split
      · exact hs
      · exact hs
  | refill =>
      simp only [step]
      split
      · rfl
      · exact hs
  | fail =>
      simp only [step]
      split
      · exact hs
      · exact hs

theorem docs_refill {s : State} (hs : s.writer.pending = []) {snapshot : Catalog}
    (hphase : s.rebuild = .loading [] snapshot) :
    (step lib env s .refill).docs = s.docs ++ rebuiltDocuments lib env snapshot := by
  simp only [step, hphase]
  show (((s.writer.addDocuments _).commit hasTerm).committed) = _
  rw [Writer.committed_addDocuments, Writer.committed_commit_of_pending_nil hs]
  rfl

/-- A step keeps the documents unique exactly if it meets the condition. -/
theorem tidy_step_iff {s : State} (hs : Tidy s) (a : Action) :
    Tidy (step lib env s a) ↔ Guard env s a := by
  have hpending : (step lib env s a).writer.pending = [] := pending_step hs.1 a
  cases a with
  | write a => exact iff_of_true ⟨hpending, unique_write hs.1 hs.2 a⟩ trivial
  | database db => exact iff_of_true hs trivial
  | clear =>
      refine iff_of_true ⟨hpending, ?_⟩ trivial
      simp only [step]
      split
      · show Unique (((s.writer.deleteAllDocuments).commit hasTerm).committed)
        rw [Writer.committed_deleteAllDocuments]
        exact fun _ => ⟨Nat.zero_le _, Nat.zero_le _⟩
      · exact hs.2
  | load =>
      refine iff_of_true ⟨hpending, ?_⟩ trivial
      simp only [step]
      split
      · exact hs.2
      · exact hs.2
  | refill =>
      -- the last step of a rebuild adds the snapshot, which may be of works that were written since
      cases hphase : s.rebuild with
      | waiting =>
          simp only [step, Guard, hphase]
          exact iff_of_true hs trivial
      | finished =>
          simp only [step, Guard, hphase]
          exact iff_of_true hs trivial
      | loading remaining snapshot =>
          cases remaining with
          | nil =>
              rw [Tidy, docs_refill hs.1 hphase, and_iff_right hpending, unique_refill_iff hs.2]
              simp only [Guard, hphase]
          | cons table rest =>
              simp only [step, Guard, hphase]
              exact iff_of_true hs trivial
  | fail =>
      refine iff_of_true ⟨hpending, ?_⟩ trivial
      simp only [step]
      split
      · exact hs.2
      · exact hs.2

/-! ## Editions that are gone -/

/-- Neither the index nor what the rebuild read has the edition, and the editions are
    not read again. -/
def Kept (env : Env) (id : String) (s : State) : Prop :=
  s.writer.pending = [] ∧ Absent id s.docs ∧
    match s.rebuild with
    | .waiting => False
    | .loading remaining snapshot => .editions ∉ remaining ∧ Unlisted env id snapshot
    | .finished => True

theorem editions_loadTable {db snapshot : Catalog} {table : TableName} (h : table ≠ .editions) :
    (loadTable db snapshot table).editions = snapshot.editions := by
  cases table with
  | editions => exact absurd rfl h
  | _ => rfl

theorem absent_write {w : IndexWriter} (hw : w.pending = []) {id : String}
    (h : Absent id w.committed) {a : SearchIndex.Action}
    (ha : ∀ doc, a = .upsertEdition doc → doc.editionId ≠ id) :
    Absent id (write lib env w a).committed := by
  rw [(committed_write hw a).2]
  cases a with
  | upsertEdition doc =>
      intro d hd
      rcases List.mem_append.1 hd with hd | hd
      · exact h d (List.mem_filter.1 hd).1
      · cases List.mem_singleton.1 hd
        rw [← Bool.not_eq_true, hasTerm_editionId_edition]
        exact fun heq => ha doc rfl heq.symm
  | upsertAuthor doc =>
      intro d hd
      rcases List.mem_append.1 hd with hd | hd
      · exact h d (List.mem_filter.1 hd).1
      · cases List.mem_singleton.1 hd
        exact hasTerm_editionId_author
  | deleteEdition gone => exact fun d hd => h d (List.mem_filter.1 hd).1

theorem absent_rebuilt {c : Catalog} {id : String} (h : Unlisted env id c) :
    Absent id (rebuiltDocuments lib env c) := by
  intro d hd
  rw [← Bool.not_eq_true]
  intro hterm
  obtain ⟨e, he, heq⟩ := exists_rebuilt_edition.1 ⟨d, hd, hterm⟩
  exact h e he heq.symm

theorem Kept.started {s : State} {id : String} (hs : Kept env id s) : s.rebuild ≠ .waiting := by
  intro hwaiting
  obtain ⟨_, _, hphase⟩ := hs
  rw [hwaiting] at hphase
  exact hphase

theorem kept_step {s : State} {id : String} (hs : Kept env id s) {a : Action}
    (ha : ∀ doc, a = .write (.upsertEdition doc) → doc.editionId ≠ id) :
    Kept env id (step lib env s a) := by
  have hstarted := hs.started
  obtain ⟨hpending, habsent, hphase⟩ := hs
  refine ⟨pending_step hpending a, ?_⟩
  cases a with
  | write a =>
      refine ⟨absent_write hpending habsent fun doc h => ha doc (by rw [h]), hphase⟩
  | database db => exact ⟨habsent, hphase⟩
  | clear =>
      cases hs : s.rebuild with
      | waiting => exact absurd hs hstarted
      | _ =>
          simp only [step, hs]
          rw [hs] at hphase
          exact ⟨habsent, hphase⟩
  | load =>
      cases hs : s.rebuild with
      | waiting => exact absurd hs hstarted
      | finished =>
          simp only [step, hs]
          exact ⟨habsent, trivial⟩
      | loading remaining snapshot =>
          rw [hs] at hphase
          cases remaining with
          | nil =>
              simp only [step, hs]
              exact ⟨habsent, hphase⟩
          | cons table rest =>
              -- the table read now is not the editions, so the snapshot's stay
              obtain ⟨hnot, hsnapshot⟩ := hphase
              rw [List.mem_cons, not_or] at hnot
              simp only [step, hs]
              refine ⟨habsent, hnot.2, ?_⟩
              rw [Unlisted, editions_loadTable fun heq => hnot.1 heq.symm]
              exact hsnapshot
  | refill =>
      cases hs : s.rebuild with
      | waiting => exact absurd hs hstarted
      | finished =>
          simp only [step, hs]
          exact ⟨habsent, trivial⟩
      | loading remaining snapshot =>
          rw [hs] at hphase
          cases remaining with
          | nil =>
              -- what is added was rebuilt from a snapshot without the edition
              rw [docs_refill hpending hs]
              simp only [step, hs, and_true]
              intro d hd
              rcases List.mem_append.1 hd with hd | hd
              · exact habsent d hd
              · exact absent_rebuilt hphase.2 d hd
          | cons table rest =>
              simp only [step, hs]
              exact ⟨habsent, hphase⟩
  | fail =>
      cases hs : s.rebuild with
      | waiting => exact absurd hs hstarted
      | _ =>
          simp only [step, hs]
          exact ⟨habsent, trivial⟩

theorem kept_exec {id : String} (post : List Action) :
    ∀ s, Kept env id s → (∀ doc, .write (.upsertEdition doc) ∈ post → doc.editionId ≠ id) →
      Kept env id (Runs.exec (step lib env) s post) := by
  induction post with
  | nil => exact fun _ hs _ => hs
  | cons a rest ih =>
      intro s hs hpost
      refine ih _ (kept_step hs fun doc h => hpost doc ?_) fun doc h => hpost doc ?_
      · rw [h]
        exact List.mem_cons_self
      · exact List.mem_cons_of_mem _ h

/-- Nothing stays queued, whatever a run does. -/
theorem pending_exec (run : List Action) : ∀ s, s.writer.pending = [] →
    (Runs.exec (step lib env) s run).writer.pending = [] := by
  induction run with
  | nil => exact fun _ hs => hs
  | cons a rest ih => exact fun s hs => ih _ (pending_step hs a)

/-- Once the editions are read, an edition that is in neither place stays away. -/
theorem absent_after_load {start : State} (hstart : start.writer.pending = [])
    {pre post : List Action} {id : String}
    (hphase : (Runs.exec (step lib env) start pre).rebuild = .loading loadOrder .empty)
    (hdb : Unlisted env id (Runs.exec (step lib env) start pre).db)
    (hdocs : Absent id (Runs.exec (step lib env) start pre).docs)
    (hpost : ∀ doc, .write (.upsertEdition doc) ∈ post → doc.editionId ≠ id) :
    Absent id (Runs.exec (step lib env) start (pre ++ .load :: post)).docs := by
  rw [Runs.exec_append, Runs.exec_cons]
  refine (kept_exec post _ ⟨pending_step (pending_exec pre start hstart) _, ?_⟩ hpost).2.1
  simp only [step, hphase, loadOrder]
  exact ⟨hdocs, by decide, hdb⟩

/-! ## Every run -/

/-- An index whose documents are unique, before the rebuild. -/
def Started (s : State) : Prop := Tidy s ∧ s.rebuild = .waiting

/-- **NOTHING IS CORRUPTED** by a rebuild among other writes exactly if its refill
    finds no document of a row it read. -/
theorem uncorrupted_iff_admitted (lib : IndexLib) (env : Env) (start : State) (run : List Action)
    (hstart : Started start) :
    Uncorrupted lib env start run ↔ Runs.Admitted (step lib env) (Guard env) start run := by
  have halways := @Runs.always_iff_admitted _ _ (step lib env) (Guard env) Tidy
    (fun _ a hs => tidy_step_iff hs a) start run hstart.1
  constructor
  · intro h
    exact halways.1 fun pre hpre => ⟨pending_exec pre start hstart.1.1, h.unique pre hpre⟩
  · intro h
    refine ⟨fun pre hpre => (halways.2 h pre hpre).2, ?_⟩
    rintro pre post id rfl hphase hdb hdocs hpost
    exact absent_after_load hstart.1.1 hphase hdb hdocs hpost

/-! ## A library with one book -/

def bookId : DbId := ⟨List.replicate 16 7, List.length_replicate⟩

def bookRow : EditionRow where
  id := bookId
  workId := bookId
  title := some "Dune"
  publishedDate := none
  formatId := none
  languageId := none
  notes := none
  description := none
  createdAt := 0
  updatedAt := none

def bookCatalog : Catalog :=
  { Catalog.empty with editions := [bookRow], editionKeys := List.nodup_singleton _ }

def startState : State := ⟨DocIndex.Writer.empty, bookCatalog, .waiting⟩

/-- A rebuild up to its refill. -/
def clearAndLoad : List Action := .clear :: List.replicate 19 .load

/-- Only another edition is written while the rebuild reads the library. -/
theorem uncorrupted_other_edition :
    Started startState ∧
    Uncorrupted plainLib Env.reference startState
      (clearAndLoad ++ [.write (.upsertEdition (sampleEdition "e1" [])), .refill]) := by
  have hstart : Started startState := ⟨⟨rfl, fun _ => ⟨Nat.zero_le _, Nat.zero_le _⟩⟩, rfl⟩
  have hread : Fresh Env.reference bookCatalog
      [editionDocument plainLib (sampleEdition "e1" [])] := by
    constructor
    · intro e he d hd
      cases List.mem_singleton.1 he
      cases List.mem_singleton.1 hd
      decide
    · intro a ha
      cases ha
  refine ⟨hstart, (uncorrupted_iff_admitted plainLib Env.reference startState _ hstart).2 ?_⟩
  refine Runs.Admitted.append clearAndLoad ?_ ⟨trivial, hread, trivial⟩
  simp [clearAndLoad, List.replicate, Runs.Admitted, Guard]

/-- The edition the rebuild has read is written before the refill: the index has it twice. -/
theorem not_uncorrupted_same_edition :
    ¬ Uncorrupted plainLib Env.reference startState
      (clearAndLoad ++ [.write (.upsertEdition (sampleEdition (bookId.text Env.reference) [])),
        .refill]) := by
  intro h
  have htwice := (h.unique _ (List.prefix_refl _) (bookId.text Env.reference)).1
  exact absurd htwice (by decide)

end Reindex

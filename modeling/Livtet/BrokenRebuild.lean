import Mathlib.Data.Fintype.EquivFin
import Livtet.Library

/-! # A rebuild that breaks off

    A rebuild publishes the empty index before it reads the library. Where a query fails,
    or the index refuses a document, it returns the error there and then: the index stays
    empty, and the documents added so far stay queued until another write publishes them.

    So a rebuild that fails leaves the index usable exactly if the index was empty before
    and no document had been added (`leftUsable_iff`). One that does not fail is the
    rebuild of the library (`writer_of_noFaults`). -/

namespace BrokenRebuild

open SyncStore SyncPairing DocIndex SearchIndex Reindex

/-! ## The rebuild, statement by statement -/

inductive SearchError
  | tantivy (message : String)
  | db (message : String)
  | schemaVersionMismatch (found expected : Nat)
deriving DecidableEq, Repr

inductive ReindexEvent
  | loading
  | indexing (done total : Nat)
deriving DecidableEq, Repr

/-- What goes wrong: the queries that fail, and the documents that are refused, by the
    number of documents added before. -/
structure Faults where
  query : TableName → Option String
  addDocument : Nat → Option String

def Faults.none : Faults := ⟨fun _ => .none, fun _ => .none⟩

/-- A table of what belongs to others is read only if there are others. -/
def isQueried (snapshot : Catalog) : TableName → Bool
  | .editionAuthors | .workAuthors | .editionTags | .editionGenres | .editionSubjects
  | .editionPublishers | .seriesEntries | .editionIdentifiers => !snapshot.editions.isEmpty
  | .identifiers => !snapshot.editionIdentifiers.isEmpty
  | _ => true

/-- One query after the other, up to one that fails. -/
def loadTables (faults : Faults) (db : Catalog) : List TableName → Catalog →
    Except SearchError Catalog
  | [], snapshot => .ok snapshot
  | table :: rest, snapshot =>
      match isQueried snapshot table, faults.query table with
      | true, some message => .error (.db message)
      | _, _ => loadTables faults db rest (loadTable db snapshot table)

/-- What a rebuild returns, the index it leaves, and the events it fires. -/
structure Rebuild where
  result : Except SearchError Unit
  writer : IndexWriter
  events : List ReindexEvent

/-- The loops over the documents, up to one that is refused. -/
def addAll (faults : Faults) (total : Nat) : Nat → List Document → IndexWriter → Rebuild
  | _, [], w => ⟨.ok (), w, []⟩
  | done, d :: rest, w =>
      match faults.addDocument done with
      | some message => ⟨.error (.tantivy message), w, []⟩
      | none =>
          let r := addAll faults total (done + 1) rest (w.addDocument d)
          { r with events := .indexing (done + 1) total :: r.events }

section Rebuilding

variable (lib : IndexLib) (env : Env) (faults : Faults)

/-- The documents of what was read, and the commit behind them. -/
def refill (snapshot : Catalog) (w : IndexWriter) : Rebuild :=
  let docs := rebuiltDocuments lib env snapshot
  let added := addAll faults docs.length 0 docs w
  match added.result with
  | .error e => ⟨.error e, added.writer, .indexing 0 docs.length :: added.events⟩
  | .ok _ => ⟨.ok (), added.writer.commit hasTerm, .indexing 0 docs.length :: added.events⟩

/-- `reindex_with_progress`, with nothing else running. -/
def reindexWithProgress (db : Catalog) (w : IndexWriter) : Rebuild :=
  let cleared := w.deleteAllDocuments.commit hasTerm
  match loadTables faults db loadOrder .empty with
  | .error e => ⟨.error e, cleared, [.loading]⟩
  | .ok snapshot =>
      let filled := refill lib env faults snapshot cleared
      { filled with events := .loading :: filled.events }

/-- The document a write adds. -/
def addedBy : SearchIndex.Action → Option Document
  | .upsertEdition doc => some (editionDocument lib doc)
  | .upsertAuthor doc => some (authorDocument lib doc)
  | .deleteEdition _ => none

/-- The index is as it was, and a later write makes nothing visible but its own document. -/
structure LeftUsable (before after : IndexWriter) : Prop where
  committed : after.committed = before.committed
  nothingElse : ∀ a, ∀ d ∈ (write lib env after a).committed,
    d ∈ before.committed ∨ addedBy lib a = some d

/-- A query that is made fails. -/
def QueryFails (db : Catalog) : Prop :=
  ∃ pre table post, loadOrder = pre ++ table :: post ∧
    isQueried (pre.foldl (loadTable db) .empty) table = true ∧
    (faults.query table).isSome = true

end Rebuilding

variable {lib : IndexLib} {env : Env} {faults : Faults}

/-! ## Where it breaks off -/

/-- The queries end with an error exactly if one of them fails. -/
theorem loadTables_error_iff (db : Catalog) (order : List TableName) :
    ∀ snapshot, (∃ e, loadTables faults db order snapshot = .error e) ↔
      ∃ pre table post, order = pre ++ table :: post ∧
        isQueried (pre.foldl (loadTable db) snapshot) table = true ∧
        (faults.query table).isSome = true := by
  induction order with
  | nil =>
      intro snapshot
      constructor
      · rintro ⟨e, he⟩
        cases he
      · rintro ⟨pre, table, post, horder, _⟩
        cases pre with
        | nil => cases horder
        | cons _ _ => cases horder
  | cons table rest ih =>
      intro snapshot
      -- the first table whose query fails ends the loading, and no later one is asked
      by_cases hfails : isQueried snapshot table = true ∧ (faults.query table).isSome = true
      · obtain ⟨message, hmessage⟩ := Option.isSome_iff_exists.1 hfails.2
        refine iff_of_true ⟨.db message, ?_⟩ ⟨[], table, rest, rfl, hfails⟩
        rw [loadTables, hfails.1, hmessage]
      · have hnext : loadTables faults db (table :: rest) snapshot =
            loadTables faults db rest (loadTable db snapshot table) := by
          rw [loadTables]
          split
          · next hqueried hmessage => exact absurd ⟨hqueried, by rw [hmessage]; rfl⟩ hfails
          · rfl
        rw [hnext, ih]
        constructor
        · rintro ⟨pre, table', post, rfl, h⟩
          exact ⟨table :: pre, table', post, rfl, h⟩
        · rintro ⟨pre, table', post, horder, h⟩
          cases pre with
          | nil =>
              cases horder
              exact absurd h hfails
          | cons first pre =>
              cases horder
              exact ⟨pre, table', post, rfl, h⟩

/-- Queries that end without an error have read the tables. -/
theorem loadTables_eq_ok {db : Catalog} {order : List TableName} :
    ∀ {snapshot loaded : Catalog}, loadTables faults db order snapshot = .ok loaded →
      loaded = order.foldl (loadTable db) snapshot := by
  induction order with
  | nil =>
      intro snapshot loaded h
      exact (Except.ok.inj h).symm
  | cons table rest ih =>
      intro snapshot loaded h
      rw [loadTables] at h
      split at h
      · cases h
      · exact ih h

theorem loadTables_noFaults (db : Catalog) (order : List TableName) :
    ∀ snapshot, loadTables .none db order snapshot = .ok (order.foldl (loadTable db) snapshot) := by
  induction order with
  | nil => exact fun _ => rfl
  | cons table rest ih =>
      intro snapshot
      rw [loadTables]
      split
      · next h => cases h
      · exact ih _

/-- What the loops have added when they break off: nothing exactly if the first document
    is refused. -/
theorem addAll_error {total : Nat} {e : SearchError} (docs : List Document) :
    ∀ done w, (addAll faults total done docs w).result = .error e →
      ∃ queued, (addAll faults total done docs w).writer = w.addDocuments queued ∧
        (queued = [] ↔ (faults.addDocument done).isSome = true) := by
  induction docs with
  | nil =>
      intro done w h
      cases h
  | cons d rest ih =>
      intro done w h
      cases hrefused : faults.addDocument done with
      | some message =>
          simp only [addAll, hrefused]
          exact ⟨[], rfl, iff_of_true rfl rfl⟩
      | none =>
          simp only [addAll, hrefused] at h ⊢
          obtain ⟨queued, hwriter, _⟩ := ih (done + 1) (w.addDocument d) h
          refine ⟨d :: queued, hwriter, iff_of_false (List.cons_ne_nil _ _) fun hsome => ?_⟩
          cases hsome

/-! ## Without a fault -/

theorem addAll_noFaults (total : Nat) (docs : List Document) :
    ∀ done w, (addAll .none total done docs w).result = .ok () ∧
      (addAll .none total done docs w).writer = w.addDocuments docs := by
  induction docs with
  | nil => exact fun _ _ => ⟨rfl, rfl⟩
  | cons d rest ih => exact fun done w => ih (done + 1) (w.addDocument d)

/-- A rebuild that does not break off is the rebuild of the library. -/
theorem writer_of_noFaults (db : Library.Db) (w : IndexWriter) :
    (reindexWithProgress lib env .none db.catalog w).result = .ok () ∧
      (reindexWithProgress lib env .none db.catalog w).writer = Library.reindex lib env db w := by
  have hadded := addAll_noFaults
    (rebuiltDocuments lib env (Library.snapshot db.catalog)).length
    (rebuiltDocuments lib env (Library.snapshot db.catalog)) 0
    (w.deleteAllDocuments.commit hasTerm)
  rw [reindexWithProgress, loadTables_noFaults]
  simp only [refill]
  rw [← Library.snapshot, hadded.1, Library.reindex, ← hadded.2]
  exact ⟨rfl, rfl⟩

/-- So a rebuild that goes through repairs what one that failed has left. -/
theorem committed_of_noFaults (db : Library.Db) (w : IndexWriter) :
    (reindexWithProgress lib env .none db.catalog w).writer.committed =
      rebuiltDocuments lib env db.catalog := by
  rw [(writer_of_noFaults db w).2, Library.committed_reindex]

/-! ## What a failure leaves -/

/-- A failed rebuild leaves the empty index, with the documents it has added queued. -/
theorem broken_off {db : Catalog} {w : IndexWriter} {e : SearchError}
    (h : (reindexWithProgress lib env faults db w).result = .error e) :
    ∃ queued, (reindexWithProgress lib env faults db w).writer =
        (w.deleteAllDocuments.commit hasTerm).addDocuments queued ∧
      (queued = [] ↔ QueryFails faults db ∨ (faults.addDocument 0).isSome = true) := by
  have hqueries := @loadTables_error_iff faults db loadOrder .empty
  unfold reindexWithProgress at h ⊢
  cases hload : loadTables faults db loadOrder .empty with
  | error e' =>
      exact ⟨[], rfl, iff_of_true rfl (Or.inl (hqueries.1 ⟨e', hload⟩))⟩
  | ok snapshot =>
      have hqueried : ¬ QueryFails faults db := by
        intro hfails
        obtain ⟨e', he'⟩ := hqueries.2 hfails
        rw [hload] at he'
        cases he'
      simp only [hload, refill] at h ⊢
      split at h
      · next e' hadded =>
          obtain ⟨queued, hwriter, hfirst⟩ := addAll_error _ _ _ hadded
          exact ⟨queued, hwriter, hfirst.trans (or_iff_right hqueried).symm⟩
      · cases h

/-- Queueing documents commits none. -/
theorem committed_queued (docs : List Document) :
    ∀ w : IndexWriter, (w.addDocuments docs).committed = w.committed := by
  induction docs with
  | nil => exact fun _ => rfl
  | cons d rest ih => exact fun w => ih (w.addDocument d)

/-- Some edition id is not that of the document. -/
theorem exists_other_id (d : Document) : ∃ id, hasTerm (.editionId, id) d = false := by
  obtain ⟨id, hid⟩ := Infinite.exists_notMem_finset (Library.textsOf .editionId d).toFinset
  refine ⟨id, ?_⟩
  rw [← Bool.not_eq_true, hasTerm, decide_eq_true_eq]
  intro hmem
  refine hid (List.mem_toFinset.2 (List.mem_filterMap.2 ⟨_, hmem, ?_⟩))
  exact if_pos rfl

/-- A document that is queued becomes visible when another one is written. -/
theorem not_nothingElse {w after : IndexWriter} {queued : List Document} (hne : queued ≠ [])
    (hafter : after = (w.deleteAllDocuments.commit hasTerm).addDocuments queued)
    (hempty : w.committed = []) : ¬ LeftUsable lib env w after := by
  intro h
  obtain ⟨d, hd⟩ := List.exists_mem_of_ne_nil queued hne
  obtain ⟨id, hid⟩ := exists_other_id d
  have hvisible : d ∈ (write lib env after (.upsertEdition (sampleEdition id []))).committed := by
    show d ∈ (((after.deleteTerm _).addDocument _).commit hasTerm).committed
    rw [Writer.committed_addDocument, Writer.committed_deleteTerm, hafter,
      Writer.committed_addDocuments, Writer.committed_commit_of_pending_nil rfl,
      Writer.committed_deleteAllDocuments, List.nil_append]
    refine List.mem_append_left _ (List.mem_filter.2 ⟨hd, ?_⟩)
    rw [show hasTerm (.editionId, (sampleEdition id []).editionId) d = false from hid]
    rfl
  rcases h.nothingElse _ d hvisible with hold | hown
  · rw [hempty] at hold
    cases hold
  · have hself : hasTerm (.editionId, id) (editionDocument lib (sampleEdition id [])) = true :=
      hasTerm_editionId_edition.2 rfl
    rw [Option.some.inj hown, hid] at hself
    cases hself

/-- Nothing is queued and nothing was there: a later write publishes its own document. -/
theorem leftUsable_of_empty {w : IndexWriter} (hempty : w.committed = []) :
    LeftUsable lib env w (w.deleteAllDocuments.commit hasTerm) := by
  have hcleared : (w.deleteAllDocuments.commit hasTerm).committed = [] :=
    Writer.committed_deleteAllDocuments w
  refine ⟨hcleared.trans hempty.symm, fun a d hd => ?_⟩
  rw [(committed_write rfl a).2, hcleared] at hd
  cases a with
  | upsertEdition doc =>
      cases List.mem_singleton.1 hd
      exact Or.inr rfl
  | upsertAuthor doc =>
      cases List.mem_singleton.1 hd
      exact Or.inr rfl
  | deleteEdition id => cases hd

/-- **A FAILED REBUILD LEAVES THE INDEX USABLE** exactly if the index was empty, and a query
    or the first document failed. -/
theorem leftUsable_iff (lib : IndexLib) (env : Env) (faults : Faults) (db : Catalog)
    (w : IndexWriter) (h : ∃ e, (reindexWithProgress lib env faults db w).result = .error e) :
    LeftUsable lib env w (reindexWithProgress lib env faults db w).writer ↔
      w.committed = [] ∧ (QueryFails faults db ∨ (faults.addDocument 0).isSome = true) := by
  obtain ⟨e, he⟩ := h
  obtain ⟨queued, hwriter, hqueued⟩ := broken_off he
  rw [← hqueued]
  constructor
  · intro husable
    have hempty : w.committed = [] := by
      have hkept := husable.committed
      rw [hwriter] at hkept
      rw [← hkept, committed_queued]
      exact Writer.committed_deleteAllDocuments w
    refine ⟨hempty, ?_⟩
    by_contra hne
    exact not_nothingElse hne hwriter hempty husable
  · rintro ⟨hempty, rfl⟩
    rw [hwriter]
    exact leftUsable_of_empty hempty

/-! ## A library of one book -/

def authorRow : NamedRow := ⟨bookId, "Frank Herbert"⟩

/-- One edition and one author: two documents. -/
def twoDocuments : Catalog :=
  { bookCatalog with authors := [authorRow], authorKeys := List.nodup_singleton _ }

/-- The query of the works fails. -/
def worksFail : Faults where
  query table := if table = .works then some "disk I/O error" else none
  addDocument _ := none

/-- The second document is refused. -/
def secondRefused : Faults where
  query _ := none
  addDocument done := if done = 1 then some "index writer was killed" else none

/-- An index with one edition. -/
def oneIndexed : IndexWriter := upsertEdition plainLib (sampleEdition "e1" []) Writer.empty

/-- The first rebuild of an empty index fails at a query. -/
theorem leftUsable_worksFail :
    LeftUsable plainLib Env.reference Writer.empty
      (reindexWithProgress plainLib Env.reference worksFail twoDocuments Writer.empty).writer :=
  (leftUsable_iff plainLib Env.reference worksFail twoDocuments Writer.empty
    ⟨.db "disk I/O error", rfl⟩).2
    ⟨rfl, Or.inl ⟨[.editions], .works, loadOrder.drop 2, rfl, rfl, rfl⟩⟩

/-- The edition that was indexed is gone, and the one that was added comes with the next
    write. -/
theorem not_leftUsable_secondRefused :
    (reindexWithProgress plainLib Env.reference secondRefused twoDocuments oneIndexed).result =
        .error (.tantivy "index writer was killed") ∧
      ¬ LeftUsable plainLib Env.reference oneIndexed
        (reindexWithProgress plainLib Env.reference secondRefused twoDocuments oneIndexed).writer ∧
      rebuiltEdition plainLib Env.reference twoDocuments bookRow ∈
        (upsertEdition plainLib (sampleEdition "e1" [])
          (reindexWithProgress plainLib Env.reference secondRefused twoDocuments
            oneIndexed).writer).committed := by
  refine ⟨rfl, fun h => ?_, by decide⟩
  have hgone := h.committed
  revert hgone
  decide

end BrokenRebuild

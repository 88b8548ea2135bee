import Livtet.Filters
import Livtet.WorkList

/-! # Filtered works — the list of works behind the filters of the library

    The list of works can be narrowed to some formats and some languages. The database
    does it, by what the editions of a work are; the other ways to narrow a search are
    refused by name. A work stays if one of its editions has one of the formats, and one
    of them, the same or another, has one of the languages.

    What stays is the plain list with the other works left out, in its order, and the
    count is its length. The formats and the languages that the reader is offered are the
    ones that something is found by. -/

namespace FilteredWorks

open SyncStore (Env)
open SyncPairing (DbId)
open Reindex Library KeyedRows RankedSort WorkList

/-! ## The filters -/

/-- The filters. A limit is one that a statement can carry. -/
structure WorkFilters extends Filters.WorkFilters where
  sortBy : Option WorkSortBy
  sortDirection : Option SortDirection
  limit : Option (Fin (2 ^ 63))

inductive LivtetError
  | invalidInput (message : String)
deriving DecidableEq, Repr

def unsupported (name : String) : LivtetError :=
  .invalidInput ("filter dimension `" ++ name ++ "` is not supported yet")

/-- The dimensions that are refused, in the order they are looked at. -/
def dimensions (f : WorkFilters) : List (String × List DbId) :=
  [("tag_ids", f.tagIds), ("genre_ids", f.genreIds), ("subject_ids", f.subjectIds),
    ("publisher_ids", f.publisherIds), ("author_ids", f.authorIds)]

def rejectUnsupported (f : WorkFilters) : Except LivtetError Unit :=
  match (dimensions f).find? fun d => !d.2.isEmpty with
  | some d => .error (unsupported d.1)
  | none => if f.hasFile.isSome then .error (unsupported "has_file") else .ok ()

/-! ## The query -/

/-- The works of the editions that have one of the ids in a column. -/
def worksWith (db : Db) (column : Edition → Option DbId) (ids : List DbId) : List DbId :=
  (db.tables.editions.filter fun e => (column e).any ids.contains).map fun e => e.workId

/-- A subquery is made only for a dimension that names something. -/
def filteredWorksQuery (db : Db) (f : WorkFilters) (w : Model) : Bool :=
  (f.formatIds.isEmpty || (worksWith db (fun e => e.formatId) f.formatIds).contains w.id) &&
    (f.languageIds.isEmpty || (worksWith db (fun e => e.languageId) f.languageIds).contains w.id)

def defaultPageSize : Nat := 50

def pageSize (f : WorkFilters) : Nat := max ((f.limit.map Fin.val).getD defaultPageSize) 1

def listWorksFiltered (db : ListedDb) (f : WorkFilters) (offset : Nat) :
    Except LivtetError (List WorkSummary) :=
  match rejectUnsupported f with
  | .error e => .error e
  | .ok () =>
      let ordered := (db.models.filter (filteredWorksQuery db.toDb f)).mergeSort
        (before (applyWorkOrdering f.sortBy f.sortDirection))
      .ok (((ordered.drop offset).take (pageSize f)).map (summarize db.toDb))

def countWorksFiltered (db : ListedDb) (f : WorkFilters) : Except LivtetError Nat :=
  match rejectUnsupported f with
  | .error e => .error e
  | .ok () => .ok (db.models.filter (filteredWorksQuery db.toDb f)).length

/-! ## What is offered -/

/-- The library, with the columns of `formats` and `languages` that no document has. -/
structure OfferedDb extends ListedDb where
  metadataSchema : DbId → String
  flagEmoji : DbId → Option String

structure FormatInfo where
  id : DbId
  name : String
  metadataSchema : String

structure LibraryLanguage where
  id : DbId
  name : String
  flagEmoji : Option String

/-- The rows that some edition names in a column, by their names. -/
def usedRows (db : Db) (rows : List NamedRow) (column : Edition → Option DbId) : List NamedRow :=
  (rows.filter fun r => (db.tables.editions.filterMap column).contains r.id).mergeSort
    fun a b => decide (a.name ≤ b.name)

def listFormats (db : OfferedDb) : List FormatInfo :=
  (usedRows db.toDb db.tables.formats fun e => e.formatId).map fun r =>
    ⟨r.id, r.name, db.metadataSchema r.id⟩

def listLanguages (db : OfferedDb) : List LibraryLanguage :=
  (usedRows db.toDb db.tables.languages fun e => e.languageId).map fun r =>
    ⟨r.id, r.name, db.flagEmoji r.id⟩

/-! ## What the reader sees -/

/-- No filter but by formats and languages. -/
structure Supported (f : WorkFilters) : Prop where
  tags : f.tagIds = []
  genres : f.genreIds = []
  subjects : f.subjectIds = []
  publishers : f.publisherIds = []
  authors : f.authorIds = []
  files : f.hasFile = none

/-- An edition of the work has one of the ids in a column, if there are any ids. -/
def Has (db : Db) (column : Edition → Option DbId) (ids : List DbId) (w : Model) : Prop :=
  ids ≠ [] → ∃ e ∈ db.tables.editions, e.workId = w.id ∧ ∃ id ∈ ids, column e = some id

/-- A work that the filters let through: the formats and the languages may be those of
    different editions. -/
def Matches (db : Db) (f : WorkFilters) (w : Model) : Prop :=
  Has db (fun e => e.formatId) f.formatIds w ∧ Has db (fun e => e.languageId) f.languageIds w

/-- A filter by one format, or by one language. -/
def byFormat (id : DbId) : WorkFilters :=
  ⟨⟨[], [], [], [], [], [id], [], none⟩, none, none, none⟩

def byLanguage (id : DbId) : WorkFilters :=
  ⟨⟨[], [], [], [], [], [], [id], none⟩, none, none, none⟩

/-- A filter finds something. -/
def Finds (db : ListedDb) (f : WorkFilters) : Prop := ∃ n, countWorksFiltered db f = .ok (n + 1)

/-- What the filtered list shows. -/
structure Browsed (env : Env) (db : OfferedDb) (f : WorkFilters) : Prop where
  /-- A filter that is not supported is refused by the list and by the count, and the
      refusal names a dimension that is used. -/
  refused : ¬ Supported f → ∃ name,
    ((∃ ids ≠ [], (name, ids) ∈ dimensions f) ∨ (name = "has_file" ∧ f.hasFile ≠ none)) ∧
    countWorksFiltered db.toListedDb f = .error (unsupported name) ∧
    ∀ offset, listWorksFiltered db.toListedDb f offset = .error (unsupported name)
  /-- The pages are cut from the plain list, without the works that do not match. -/
  listed : Supported f → ∃ rows : List Model,
    rows.Sublist (ordered env db.toListedDb f.sortBy f.sortDirection none) ∧
    (∀ w, w ∈ rows ↔ w ∈ db.models ∧ Matches db.toDb f w) ∧
    countWorksFiltered db.toListedDb f = .ok rows.length ∧
    (∀ offset, listWorksFiltered db.toListedDb f offset =
      .ok (((rows.drop offset).take (pageSize f)).map (summarize db.toDb))) ∧
    (rows.map fun w => w.id).Nodup
  /-- The formats that are offered are the ones that something is found by. -/
  formats : ∀ id, id ∈ (listFormats db).map FormatInfo.id ↔ Finds db.toListedDb (byFormat id)
  languages : ∀ id,
    id ∈ (listLanguages db).map LibraryLanguage.id ↔ Finds db.toListedDb (byLanguage id)
  /-- They are offered once, and by their names. -/
  byName : ((listFormats db).map FormatInfo.id).Nodup ∧
    ((listLanguages db).map LibraryLanguage.id).Nodup ∧
    ((listFormats db).Pairwise fun a b => a.name ≤ b.name) ∧
    (listLanguages db).Pairwise fun a b => a.name ≤ b.name

section Lemmas

variable {env : Env} {db : OfferedDb} {f : WorkFilters}

theorem rejectUnsupported_of_supported (h : Supported f) : rejectUnsupported f = .ok () := by
  rw [rejectUnsupported, dimensions, h.tags, h.genres, h.subjects, h.publishers, h.authors, h.files]
  rfl

/-- A filter that passes is supported. -/
theorem supported_of_passed (hnone : (dimensions f).find? (fun d => !d.2.isEmpty) = none)
    (hfile : f.hasFile = none) : Supported f := by
  have hempty : ∀ name ids, (name, ids) ∈ dimensions f → ids = [] := by
    intro name ids hmem
    have := List.find?_eq_none.1 hnone _ hmem
    cases ids with
    | nil => rfl
    | cons id rest => exact absurd rfl this
  exact ⟨hempty "tag_ids" _ (by simp [dimensions]), hempty "genre_ids" _ (by simp [dimensions]),
    hempty "subject_ids" _ (by simp [dimensions]), hempty "publisher_ids" _ (by simp [dimensions]),
    hempty "author_ids" _ (by simp [dimensions]), hfile⟩

theorem rejectUnsupported_of_not_supported (h : ¬ Supported f) : ∃ name,
    ((∃ ids ≠ [], (name, ids) ∈ dimensions f) ∨ (name = "has_file" ∧ f.hasFile ≠ none)) ∧
      rejectUnsupported f = .error (unsupported name) := by
  rw [rejectUnsupported]
  cases hfind : (dimensions f).find? fun d => !d.2.isEmpty with
  | some d =>
      obtain ⟨name, ids⟩ := d
      refine ⟨name, Or.inl ⟨ids, ?_, List.mem_of_find?_eq_some hfind⟩, rfl⟩
      rintro rfl
      have := List.find?_some hfind
      cases this
  | none =>
      cases hfile : f.hasFile with
      | none => exact absurd (supported_of_passed hfind hfile) h
      | some there => exact ⟨"has_file", Or.inr ⟨rfl, nofun⟩, rfl⟩

theorem mem_worksWith {db : Db} {column : Edition → Option DbId} {ids : List DbId} {work : DbId} :
    work ∈ worksWith db column ids ↔
      ∃ e ∈ db.tables.editions, e.workId = work ∧ ∃ id ∈ ids, column e = some id := by
  rw [worksWith, List.mem_map]
  constructor
  · rintro ⟨e, he, hwork⟩
    obtain ⟨hmem, hany⟩ := List.mem_filter.1 he
    obtain ⟨id, hid, hids⟩ := (Option.any_eq_true _ _).1 hany
    exact ⟨e, hmem, hwork, id, List.contains_iff_mem.1 hids, hid⟩
  · rintro ⟨e, hmem, hwork, id, hids, hid⟩
    refine ⟨e, List.mem_filter.2 ⟨hmem, ?_⟩, hwork⟩
    rw [hid]
    exact List.contains_iff_mem.2 hids

theorem subquery_iff {db : Db} {column : Edition → Option DbId} {ids : List DbId} {w : Model} :
    (ids.isEmpty || (worksWith db column ids).contains w.id) = true ↔ Has db column ids w := by
  rw [Bool.or_eq_true, List.isEmpty_iff, List.contains_iff_mem, mem_worksWith, Has]
  exact (Decidable.or_iff_not_imp_left)

/-- **THE QUERY** finds the works that match. -/
theorem filteredWorksQuery_iff {db : Db} {w : Model} :
    filteredWorksQuery db f w = true ↔ Matches db f w := by
  rw [filteredWorksQuery, Bool.and_eq_true, subquery_iff, subquery_iff]
  rfl

/-! ## The rows -/

/-- Two works of the library with one id are one. -/
theorem model_eq_of_id {db : ListedDb} {a b : Model} (ha : a ∈ db.models) (hb : b ∈ db.models)
    (hid : a.id = b.id) : a = b := by
  obtain ⟨v, hv, rfl⟩ := List.mem_map.1 ha
  obtain ⟨w, hw, rfl⟩ := List.mem_map.1 hb
  have hsame : v = w := List.inj_on_of_nodup_map db.sound.keys.workKeys hv hw hid
  rw [hsame]

theorem bytes_injective : Function.Injective bytes := by
  intro a b h
  exact Subtype.ext (List.map_injective_iff.2 (fun x y hxy => UInt8.toNat_inj.1 hxy) h)

/-- Where each of two rows is before the other, they have one id. -/
theorem id_eq_of_before {o : Column × SortDirection} {a b : Model} (hab : before o a b = true)
    (hba : before o b a = true) : a.id = b.id := by
  obtain ⟨column, direction⟩ := o
  refine bytes_injective ?_
  cases direction with
  | asc =>
      have hsame := le_antisymm (of_decide_eq_true hab) (of_decide_eq_true hba)
      exact congrArg Prod.snd (toLex.injective hsame)
  | desc =>
      have hsame := le_antisymm (of_decide_eq_true hab) (of_decide_eq_true hba)
      exact congrArg Prod.snd (toLex.injective hsame)

/-- **THE ROWS** of a filtered list are those of the plain one that the query keeps. -/
theorem mergeSort_filtered (env : Env) (db : ListedDb) (f : WorkFilters) :
    (db.models.filter (filteredWorksQuery db.toDb f)).mergeSort
        (before (applyWorkOrdering f.sortBy f.sortDirection)) =
      (ordered env db f.sortBy f.sortDirection none).filter (filteredWorksQuery db.toDb f) := by
  have hall : matching env db none = db.models := List.filter_eq_self.2 fun _ _ => rfl
  rw [ordered, hall]
  refine mergeSort_filter (before_trans _) (before_total _) ?_ _
  intro a ha b hb hab hba
  exact model_eq_of_id ha hb (id_eq_of_before hab hba)

theorem listWorksFiltered_of_supported (env : Env) {db : ListedDb} (h : Supported f)
    (offset : Nat) : listWorksFiltered db f offset =
      .ok (((((ordered env db f.sortBy f.sortDirection none).filter
        (filteredWorksQuery db.toDb f)).drop offset).take (pageSize f)).map (summarize db.toDb)) := by
  rw [listWorksFiltered, rejectUnsupported_of_supported h, ← mergeSort_filtered env]

theorem countWorksFiltered_of_supported {db : ListedDb} (h : Supported f) :
    countWorksFiltered db f = .ok (db.models.filter (filteredWorksQuery db.toDb f)).length := by
  rw [countWorksFiltered, rejectUnsupported_of_supported h]

/-! ## The offer -/

/-- A supported filter finds something if a work matches. -/
theorem finds_iff {db : ListedDb} (h : Supported f) :
    Finds db f ↔ ∃ w ∈ db.models, Matches db.toDb f w := by
  rw [Finds, countWorksFiltered_of_supported h]
  constructor
  · rintro ⟨n, hn⟩
    have hpos : 0 < (db.models.filter (filteredWorksQuery db.toDb f)).length := by
      rw [Except.ok.inj hn]
      exact Nat.succ_pos n
    obtain ⟨w, hw⟩ := List.exists_mem_of_length_pos hpos
    obtain ⟨hmem, hkept⟩ := List.mem_filter.1 hw
    exact ⟨w, hmem, filteredWorksQuery_iff.1 hkept⟩
  · rintro ⟨w, hmem, hmatches⟩
    have hpos := List.length_pos_of_mem
      (List.mem_filter.2 ⟨hmem, filteredWorksQuery_iff.2 hmatches⟩)
    exact ⟨_, congrArg Except.ok (Nat.succ_pred_eq_of_pos hpos).symm⟩

/-- Each edition is one of a work in the library. -/
theorem exists_work {db : ListedDb} {e : Edition} (he : e ∈ db.tables.editions) :
    ∃ w ∈ db.models, w.id = e.workId := by
  obtain ⟨w, hw, hid⟩ := List.mem_map.1
    (db.sound.references.editionWork (List.mem_map_of_mem he))
  exact ⟨_, List.mem_map_of_mem hw, hid⟩

/-- The ids of the rows that are used are those in the column. -/
theorem mem_usedRows {db : Db} {rows : List NamedRow} {column : Edition → Option DbId}
    (href : db.tables.editions.filterMap column ⊆ rows.map fun r => r.id) {id : DbId} :
    id ∈ (usedRows db rows column).map (fun r => r.id) ↔
      ∃ e ∈ db.tables.editions, column e = some id := by
  rw [← List.mem_filterMap, List.mem_map]
  constructor
  · rintro ⟨r, hr, rfl⟩
    exact List.contains_iff_mem.1 (List.mem_filter.1 (List.mem_mergeSort.1 hr)).2
  · intro hused
    obtain ⟨r, hr, rfl⟩ := List.mem_map.1 (href hused)
    exact ⟨r, List.mem_mergeSort.2 (List.mem_filter.2 ⟨hr, List.contains_iff_mem.2 hused⟩), rfl⟩

theorem nodup_usedRows {db : Db} {rows : List NamedRow} {column : Edition → Option DbId}
    (hkeys : (rows.map fun r => r.id).Nodup) :
    ((usedRows db rows column).map fun r => r.id).Nodup := by
  refine (((List.mergeSort_perm _ _).map _).nodup_iff).2 ?_
  exact List.Nodup.sublist (List.filter_sublist.map _) hkeys

theorem sorted_usedRows (db : Db) (rows : List NamedRow) (column : Edition → Option DbId) :
    (usedRows db rows column).Pairwise fun a b => a.name ≤ b.name := by
  refine (List.pairwise_mergeSort ?_ ?_ _).imp of_decide_eq_true
  · intro a b c hab hbc
    exact decide_eq_true (le_trans (of_decide_eq_true hab) (of_decide_eq_true hbc))
  · intro a b
    rw [Bool.or_eq_true]
    exact (le_total a.name b.name).imp decide_eq_true decide_eq_true

/-- A work has a format exactly if one of its editions does. -/
theorem exists_has_iff {db : ListedDb} {column : Edition → Option DbId} {id : DbId} :
    (∃ w ∈ db.models, Has db.toDb column [id] w) ↔ ∃ e ∈ db.tables.editions, column e = some id := by
  constructor
  · rintro ⟨w, _, hhas⟩
    obtain ⟨e, he, _, id', hid', hcolumn⟩ := hhas (List.cons_ne_nil _ _)
    cases List.mem_singleton.1 hid'
    exact ⟨e, he, hcolumn⟩
  · rintro ⟨e, he, hcolumn⟩
    obtain ⟨w, hw, hid⟩ := exists_work he
    exact ⟨w, hw, fun _ => ⟨e, he, hid.symm, id, List.mem_singleton_self id, hcolumn⟩⟩

end Lemmas

/-- **WHAT IS OFFERED IS FOUND**, and the filtered list is the plain one without the rest. -/
theorem filters_find_what_they_offer (env : Env) (db : OfferedDb) (f : WorkFilters) :
    Browsed env db f where
  refused h := by
    obtain ⟨name, hused, herror⟩ := rejectUnsupported_of_not_supported h
    refine ⟨name, hused, ?_, fun offset => ?_⟩
    · rw [countWorksFiltered, herror]
    · rw [listWorksFiltered, herror]
  listed h := by
    refine ⟨(ordered env db.toListedDb f.sortBy f.sortDirection none).filter
      (filteredWorksQuery db.toDb f), List.filter_sublist, fun w => ?_, ?_,
      listWorksFiltered_of_supported env h, ?_⟩
    · rw [List.mem_filter, filteredWorksQuery_iff, ordered_perm.mem_iff, matching, List.mem_filter]
      exact ⟨fun hw => ⟨hw.1.1, hw.2⟩, fun hw => ⟨⟨hw.1, rfl⟩, hw.2⟩⟩
    · rw [countWorksFiltered_of_supported h, ← mergeSort_filtered env, List.length_mergeSort]
    · exact List.Nodup.sublist (List.filter_sublist.map _) nodup_ordered
  formats id := by
    have hids : (listFormats db).map FormatInfo.id =
        (usedRows db.toDb db.tables.formats fun e => e.formatId).map fun r => r.id := by
      rw [listFormats, List.map_map]
      rfl
    rw [hids, mem_usedRows db.sound.references.editionFormat,
      finds_iff (f := byFormat id) ⟨rfl, rfl, rfl, rfl, rfl, rfl⟩, ← exists_has_iff]
    exact exists_congr fun w => and_congr_right fun _ =>
      ⟨fun h => ⟨h, fun hne => absurd rfl hne⟩, And.left⟩
  languages id := by
    have hids : (listLanguages db).map LibraryLanguage.id =
        (usedRows db.toDb db.tables.languages fun e => e.languageId).map fun r => r.id := by
      rw [listLanguages, List.map_map]
      rfl
    rw [hids, mem_usedRows db.sound.references.editionLanguage,
      finds_iff (f := byLanguage id) ⟨rfl, rfl, rfl, rfl, rfl, rfl⟩, ← exists_has_iff]
    exact exists_congr fun w => and_congr_right fun _ =>
      ⟨fun h => ⟨fun hne => absurd rfl hne, h⟩, And.right⟩
  byName := by
    have hformats := sorted_usedRows db.toDb db.tables.formats fun e => e.formatId
    have hlanguages := sorted_usedRows db.toDb db.tables.languages fun e => e.languageId
    refine ⟨?_, ?_, List.pairwise_map.2 hformats, List.pairwise_map.2 hlanguages⟩
    · rw [listFormats, List.map_map]
      exact nodup_usedRows db.sound.keys.formatKeys
    · rw [listLanguages, List.map_map]
      exact nodup_usedRows db.sound.keys.languageKeys

end FilteredWorks

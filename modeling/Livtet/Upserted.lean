import Livtet.SearchPages

/-! # One edition, written alone and with all others

    `upsert_edition` writes the document of one edition from the values it is given, a
    rebuild from the tables. Both write the texts of an edition, its authors and the keys it
    is sorted by. But only the rebuild writes whether there is a file, and the ids of the
    tags, genres, subjects and publishers: a filter that asks for one of these passes over
    an edition that was upserted (`dropsOut_iff`), and there is such a filter for every
    edition (`not_sameIndexed`). Years and dates are the same for whole seconds of the
    common era that 64 bits can count in nanoseconds (`sameValues_of_whole`). -/

namespace Upserted

open SyncStore (Env minI64 maxI64)
open SyncPairing DocIndex SearchIndex Reindex BoolQuery Library Filters SearchPages

/-! ## The values of an edition -/

section Assembling

variable (env : Env) (c : Catalog) (e : EditionRow)

/-- The title of an edition, or else its work's. -/
def resolvedTitle : String :=
  if e.title.getD "" = "" then
    ((c.works.find? fun w => decide (w.id = e.workId)).map fun w => w.title).getD ""
  else e.title.getD ""

/-- What a rebuild reads of an edition, as `EditionDoc` has it. -/
def assembled : EditionDoc :=
  let work := c.works.find? fun w => decide (w.id = e.workId)
  let authors := authorsOf c e
  { editionId := e.id.text env
    workId := e.workId.text env
    title := resolvedTitle c e
    editionTitle := e.title.filter fun title => decide (title ≠ "")
    workDescription := work.bind fun w => w.description
    editionDescription := e.description
    authors := authors.map Prod.snd
    authorsIds := authors.map fun a => a.1.text env
    tags := targetNames c.tags c.editionTags e
    genres := targetNames c.genres c.editionGenres e
    subjects := targetNames c.subjects c.editionSubjects e
    publishers := targetNames c.publishers c.editionPublishers e
    identifierKinds := (identifiersOf c e).map Prod.fst
    identifierValues := (identifiersOf c e).map Prod.snd
    notes := e.notes
    format := e.formatId.bind (nameOf c.formats)
    language := (e.languageId.bind (nameOf c.languages)).or
      ((work.bind fun w => w.languageId).bind (nameOf c.languages))
    pubDate := e.publishedDate.map fun d => d.unixDays * 86400
    publishedYear := e.publishedDate.map fun d => d.year
    titleSort := resolvedTitle c e
    primaryAuthorSort := authors.head?.map Prod.snd
    createdAt := e.createdAt / 10 ^ 9
    updatedAt := e.updatedAt.map (· / 10 ^ 9)
    popularity := 0 }

end Assembling

/-! ## The values of a field -/

section Values

variable {lib : IndexLib}

def valuesOf (field : Field) (d : Document) : List FieldValue :=
  d.filterMap fun x => if x.1 = field then some x.2 else none

theorem mem_valuesOf {field : Field} {v : FieldValue} {d : Document} :
    v ∈ valuesOf field d ↔ (field, v) ∈ d := by
  rw [valuesOf, List.mem_filterMap]
  constructor
  · rintro ⟨⟨field', v'⟩, hmem, h⟩
    split at h
    · next heq =>
        cases heq
        cases h
        exact hmem
    · cases h
  · intro h
    exact ⟨_, h, if_pos rfl⟩

theorem valuesOf_flatten (field : Field) (ds : List Document) :
    valuesOf field ds.flatten = (ds.map (valuesOf field)).flatten := List.filterMap_flatten

/-- Of a document in which all values are of one field. -/
theorem valuesOf_map {α : Type} (field field' : Field) (f : α → FieldValue) (xs : List α) :
    valuesOf field (xs.map fun x => (field', f x)) = if field' = field then xs.map f else [] := by
  rw [valuesOf, List.filterMap_map]
  by_cases h : field' = field
  · simp [h]
  · simp [h]

@[simp] theorem valuesOf_texts (field field' : Field) (values : List String) :
    valuesOf field (texts field' values) = if field' = field then values.map .text else [] :=
  valuesOf_map field field' _ values

@[simp] theorem valuesOf_facets (field field' : Field) (names : List String) :
    valuesOf field (facets lib field' names) = if field' = field then
      names.map fun name => .facet ((lib.facetFromText ("/" ++ name)).getD "/misc") else [] :=
  valuesOf_map field field' _ names

@[simp] theorem valuesOf_dates (field field' : Field) (nanos : Option Int) :
    valuesOf field (dates field' nanos) = if field' = field then nanos.toList.map .date else [] :=
  valuesOf_map field field' _ nanos.toList

@[simp] theorem valuesOf_years (field : Field) (year : Nat) :
    valuesOf field (years year) =
      if .publishedYear = field ∧ 0 < year then [.u64 year] else [] := by
  unfold years
  by_cases hyear : 0 < year
  · by_cases hfield : Field.publishedYear = field
    · simp [valuesOf, hyear, hfield]
    · simp [valuesOf, hyear, hfield]
  · simp [valuesOf, hyear]

@[simp] theorem valuesOf_singleton (field field' : Field) (v : FieldValue) :
    valuesOf field [(field', v)] = if field' = field then [v] else [] :=
  valuesOf_map field field' (fun _ : Unit => v) [()]

end Values

/-! ## Indexed the same -/

section SameIndexed

variable (tantivy : Tantivy) (lib : IndexLib) (env : Env) (db : Db) (e : Edition)

/-- The document of a rebuild. -/
def rebuilt : Document := rebuiltEdition lib env db.catalog e.toEditionRow

/-- The document of an upsert with the same values. -/
def upserted : Document := editionDocument lib (assembled env db.catalog e.toEditionRow)

/-- Year and dates are the same. -/
def SameValues : Prop :=
  ∀ field ∈ [Field.publishedYear, .pubDate, .createdAt, .updatedAt],
    valuesOf field (upserted lib env db e) = valuesOf field (rebuilt lib env db e)

/-- The two documents are found by the same filters, have the same year and dates, and are
    sorted the same. -/
structure SameIndexed : Prop where
  filters : ∀ resolved query,
    WorkFiltersQuery.buildQuery tantivy env ⟨resolved, ""⟩ = .ok query →
      holdsFor tantivy query (upserted lib env db e) = holdsFor tantivy query (rebuilt lib env db e)
  values : SameValues lib env db e
  sorts : ∀ field, sortKey lib field (upserted lib env db e) =
    sortKey lib field (rebuilt lib env db e)

/-- A filter asks for what only a rebuild writes. -/
def asksMore (f : WorkFilters) : Bool :=
  !f.tagIds.isEmpty || !f.genreIds.isEmpty || !f.subjectIds.isEmpty || !f.publisherIds.isEmpty ||
    f.hasFile.isSome

end SameIndexed

section Documents

variable {tantivy : Tantivy} {lib : IndexLib} {env : Env} {db : Db} {e : Edition}

/-! ### Filters -/

theorem not_flag_upserted (field : Field) (value : Bool) :
    Leaf.holds tantivy (upserted lib env db e) (.flag field value) = false := by
  rw [Leaf.holds, decide_eq_false_iff_not, ← mem_valuesOf, upserted, editionDocument,
    valuesOf_flatten]
  simp

/-- The clauses of a filter, over a document that was upserted. -/
theorem all_clauses_upserted (f : WorkFilters) (labels : Labels) (he : e ∈ db.tables.editions) :
    ((WorkFiltersResolved.mk f labels.formats labels.languages).clauses env).all
        (fun q => holdsFor tantivy q (upserted lib env db e)) =
      (!asksMore f && axis f.authorIds (authorIdsOf db e) && labelled tantivy db labels e) := by
  -- four fields of ids that an upsert never writes
  have hids : ∀ field ∈ [Field.tagId, .genreId, .subjectId, .publisherId],
      textsOf field (upserted lib env db e) = ([] : List DbId).map (DbId.text env) := by
    intro field hfield
    rw [upserted, editionDocument, textsOf_flatten]
    simp only [List.mem_cons, List.not_mem_nil, or_false] at hfield
    rcases hfield with rfl | rfl | rfl | rfl
    all_goals simp [textsOf_texts]
  have hauthors : textsOf .authorId (upserted lib env db e) =
      (authorIdsOf db e).map (DbId.text env) := by
    rw [← fst_authorsOf, List.map_map, upserted, editionDocument, textsOf_flatten]
    simp [textsOf_texts, assembled, Function.comp_def]
  have hformat : textsOf .format (upserted lib env db e) = (formatName db e).toList := by
    rw [upserted, editionDocument, textsOf_flatten]
    simp [textsOf_texts, assembled, formatName, Db.catalog]
  have hlanguage : textsOf .language (upserted lib env db e) = (languageName db e).toList := by
    rw [← languageName_eq he, upserted, editionDocument, textsOf_flatten]
    simp [textsOf_texts, assembled, Db.catalog, Function.comp_def, Option.bind_map]
  have hfile : (f.hasFile.toList.map fun hasFile => Query.leaf (Leaf.flag .hasFile hasFile)).all
      (fun q => holdsFor tantivy q (upserted lib env db e)) = !f.hasFile.isSome := by
    cases f.hasFile with
    | none => rfl
    | some hasFile =>
        rw [Option.toList_some, List.map_cons, List.map_nil, List.all_cons, List.all_nil,
          Bool.and_true, holdsFor_leaf, not_flag_upserted]
        rfl
  simp only [WorkFiltersResolved.clauses, List.all_append]
  rw [all_mapIdFilter (fun _ => rfl) (hids .tagId (by simp)),
    all_mapIdFilter (fun _ => rfl) (hids .genreId (by simp)),
    all_mapIdFilter (fun _ => rfl) (hids .subjectId (by simp)),
    all_mapIdFilter (fun _ => rfl) (hids .publisherId (by simp)),
    all_mapIdFilter (fun _ => rfl) hauthors, all_mapTextFilter_name (fun _ => rfl) hformat,
    all_mapTextFilter_name (fun _ => rfl) hlanguage, hfile]
  simp only [axis, List.any_nil, Bool.or_false, asksMore, labelled, Bool.not_or, Bool.not_not]
  ac_rfl

/-- What a filter finds of an upserted edition. -/
theorem holdsFor_upserted {f : WorkFilters} {labels : Labels} {query : Query Leaf}
    (he : e ∈ db.tables.editions)
    (hquery : WorkFiltersQuery.buildQuery tantivy env ⟨⟨f, labels.formats, labels.languages⟩, ""⟩ =
      .ok query) :
    holdsFor tantivy query (upserted lib env db e) =
      (!asksMore f && axis f.authorIds (authorIdsOf db e) && labelled tantivy db labels e) := by
  obtain ⟨query', hquery', hholds⟩ := @holdsFor_buildQuery tantivy env
    ⟨⟨f, labels.formats, labels.languages⟩, ""⟩ rfl
  cases Except.ok.inj (hquery.symm.trans hquery')
  rw [hholds, all_clauses_upserted f labels he]

theorem holdsFor_rebuilt {f : WorkFilters} {labels : Labels} {query : Query Leaf}
    (he : e ∈ db.tables.editions)
    (hquery : WorkFiltersQuery.buildQuery tantivy env ⟨⟨f, labels.formats, labels.languages⟩, ""⟩ =
      .ok query) :
    holdsFor tantivy query (rebuilt lib env db e) =
      (passesIds db f e && labelled tantivy db labels e) := by
  obtain ⟨query', hquery', hholds⟩ := @holdsFor_buildQuery tantivy env
    ⟨⟨f, labels.formats, labels.languages⟩, ""⟩ rfl
  cases Except.ok.inj (hquery.symm.trans hquery')
  rw [hholds, rebuilt, all_clauses_rebuiltEdition f labels he]

/-- A filter that does not ask for more finds the edition by its authors alone. -/
theorem passesIds_of_not_asksMore {f : WorkFilters} (h : asksMore f = false) :
    passesIds db f e = axis f.authorIds (authorIdsOf db e) := by
  simp only [asksMore, Bool.or_eq_false_iff, Bool.not_eq_false', Option.isSome_eq_false_iff,
    Option.isNone_iff_eq_none] at h
  obtain ⟨⟨⟨⟨htags, hgenres⟩, hsubjects⟩, hpublishers⟩, hfile⟩ := h
  simp [passesIds, axis, htags, hgenres, hsubjects, hpublishers, hfile]

/-- **AN UPSERTED EDITION DROPS OUT** of the filters it passes that ask for a tag, a genre, a
    subject, a publisher or a file, and of no others. -/
theorem dropsOut_iff {f : WorkFilters} {labels : Labels} {query : Query Leaf}
    (he : e ∈ db.tables.editions)
    (hquery : WorkFiltersQuery.buildQuery tantivy env ⟨⟨f, labels.formats, labels.languages⟩, ""⟩ =
      .ok query) :
    holdsFor tantivy query (upserted lib env db e) ≠
        holdsFor tantivy query (rebuilt lib env db e) ↔
      asksMore f = true ∧ passesIds db f e = true ∧ labelled tantivy db labels e = true := by
  rw [holdsFor_upserted he hquery, holdsFor_rebuilt he hquery]
  cases hmore : asksMore f with
  | true => simp
  | false => simp [passesIds_of_not_asksMore hmore]

/-! ### Years, dates and sorting -/

/-- Sixty-four bits count the nanoseconds. -/
def InI64 (nanos : Int) : Prop := minI64 ≤ nanos ∧ nanos ≤ maxI64

theorem i64OrZero_of_inI64 {nanos : Int} (h : InI64 nanos) : i64OrZero nanos = nanos := if_pos h

/-- Whole seconds, counted in nanoseconds. -/
theorem ediv_mul_of_dvd {nanos : Int} (h : (10 ^ 9 : Int) ∣ nanos) :
    nanos / 10 ^ 9 * 10 ^ 9 = nanos := Int.ediv_mul_cancel h

/-- A time that a document keeps as it is. -/
def Whole (nanos : Int) : Prop := (10 ^ 9 : Int) ∣ nanos ∧ InI64 nanos

/-- **THE VALUES ARE THE SAME** for a date of the common era that 64 bits can count, and times
    in whole seconds. -/
theorem sameValues_of_whole
    (hsecs : ∀ secs, InI64 (secs * 10 ^ 9) → lib.fromTimestampSecs secs = secs * 10 ^ 9)
    (hdate : ∀ d, e.publishedDate = some d →
      0 ≤ d.year ∧ d.year < 2 ^ 64 ∧ InI64 d.midnightNanos)
    (hcreated : Whole e.createdAt) (hupdated : ∀ n, e.updatedAt = some n → Whole n) :
    SameValues lib env db e := by
  have htime : ∀ n, Whole n → lib.fromTimestampSecs (n / 10 ^ 9) = i64OrZero n := by
    intro n hn
    rw [i64OrZero_of_inI64 hn.2, hsecs _ (by rw [ediv_mul_of_dvd hn.1]; exact hn.2),
      ediv_mul_of_dvd hn.1]
  have hpub : (assembled env db.catalog e.toEditionRow).pubDate.map lib.fromTimestampSecs =
      e.publishedDate.map fun d => i64OrZero d.midnightNanos := by
    show (e.publishedDate.map fun d => d.unixDays * 86400).map lib.fromTimestampSecs = _
    rw [Option.map_map]
    refine Option.map_congr fun d hd => ?_
    have hrange := (hdate d hd).2.2
    rw [i64OrZero_of_inI64 hrange]
    exact hsecs _ hrange
  have hyear : ((assembled env db.catalog e.toEditionRow).publishedYear.map Int.toNat).getD 0 =
      (e.publishedDate.map Date.yearU64).getD 0 := by
    show ((e.publishedDate.map fun d => d.year).map Int.toNat).getD 0 = _
    cases hd : e.publishedDate with
    | none => rfl
    | some d =>
        obtain ⟨hnonneg, hlt, _⟩ := hdate d hd
        exact congrArg Int.toNat (Int.emod_eq_of_lt hnonneg hlt).symm
  have hcreates : lib.fromTimestampSecs (assembled env db.catalog e.toEditionRow).createdAt =
      i64OrZero e.createdAt := htime _ hcreated
  have hupdates : (assembled env db.catalog e.toEditionRow).updatedAt.map lib.fromTimestampSecs =
      e.updatedAt.map i64OrZero := by
    show (e.updatedAt.map (· / 10 ^ 9)).map lib.fromTimestampSecs = _
    rw [Option.map_map]
    exact Option.map_congr fun n hn => htime n (hupdated n hn)
  intro field hfield
  rw [upserted, rebuilt, editionDocument, rebuiltEdition, valuesOf_flatten, valuesOf_flatten]
  simp only [List.mem_cons, List.not_mem_nil, or_false] at hfield
  rcases hfield with rfl | rfl | rfl | rfl
  · simp [hyear]
  · simp [hpub]
  · simp [hcreates]
  · simp [hupdates]

/-- Sorted by title they are the same, whatever the values. -/
theorem sortKey_title_upserted :
    sortKey lib .title (upserted lib env db e) = sortKey lib .title (rebuilt lib env db e) := by
  have hupserted : textsOf .title (upserted lib env db e) =
      [resolvedTitle db.catalog e.toEditionRow] := by
    rw [upserted, editionDocument, textsOf_flatten]
    simp [textsOf_texts, assembled]
  have hrebuilt : textsOf .title (rebuilt lib env db e) =
      [resolvedTitle db.catalog e.toEditionRow] := by
    rw [rebuilt, rebuiltEdition, textsOf_flatten]
    simp [textsOf_texts, resolvedTitle]
  rw [sortKey, sortKey, firstText, firstText, hupserted, hrebuilt]

/-! ## Never the same -/

/-- The filter for what the edition has, a file or none. -/
def byFile (db : Db) (e : Edition) : WorkFilters :=
  { defaultFilters with
    hasFile := some (db.tables.digitalInventory.any fun row => decide (row.editionId = e.id)) }

/-- The edition passes the filter for its file. -/
theorem passesIds_byFile : passesIds db (byFile db e) e = true := by
  simp [passesIds, axis, byFile, defaultFilters]

/-- **NO EDITION IS INDEXED THE SAME** by an upsert as by a rebuild. -/
theorem not_sameIndexed (tantivy : Tantivy) (lib : IndexLib) (env : Env) (db : Db) (e : Edition)
    (he : e ∈ db.tables.editions) : ¬ SameIndexed tantivy lib env db e := by
  intro h
  obtain ⟨query, hquery, _⟩ := @holdsFor_buildQuery tantivy env
    ⟨⟨byFile db e, [], []⟩, ""⟩ rfl
  have hdrops := (@dropsOut_iff tantivy lib env db e (byFile db e) ⟨[], []⟩ query he hquery).2
    ⟨rfl, passesIds_byFile, rfl⟩
  exact hdrops (h.filters _ query hquery)

end Documents

/-! ## An edition without a file -/

def bareRow : Edition where
  id := sampleId 2
  workId := sampleId 1
  title := none
  publishedDate := none
  formatId := none
  languageId := none
  notes := none
  description := none
  createdAt := 0
  updatedAt := none
  coverImageUrl := none

theorem not_sameIndexed_bareRow :
    ¬ SameIndexed plainTantivy plainLib Env.reference oneEditionDb bareRow :=
  not_sameIndexed plainTantivy plainLib Env.reference oneEditionDb bareRow
    (List.mem_singleton.2 rfl)

/-- The filter for editions without a file finds it after a rebuild, and not after an upsert. -/
theorem not_found_upserted :
    ¬ SameIndexed plainTantivy plainLib Env.reference oneEditionDb bareRow := by
  intro h
  have hsame := h.filters ⟨byFile oneEditionDb bareRow, [], []⟩
    (withOccur .must [.leaf (.flag .hasFile false)]) rfl
  revert hsame
  decide

end Upserted

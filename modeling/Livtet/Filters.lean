import Livtet.Identifiers
import Livtet.Lib.BoolQuery

/-! # Filters over the index and over the tables

    A filter names ids along some axes. For tags, genres, subjects, publishers and
    authors the index has the ids themselves, letter for letter. For formats and
    languages it has names, cut into words, lower-cased and stemmed, and the filter
    asks for the names as they are in the tables. So these two axes select by luck:
    a name that is not one of its own words is never found, and ids without a name
    are no axis at all. -/

namespace Filters

open SyncStore (Env)
open SyncPairing Maps DocIndex SearchIndex Reindex BoolQuery KeyedRows Library

structure WorkFilters where
  tagIds : List DbId
  genreIds : List DbId
  subjectIds : List DbId
  publisherIds : List DbId
  authorIds : List DbId
  formatIds : List DbId
  languageIds : List DbId
  hasFile : Option Bool

/-! ## Names of ids -/

structure Labels where
  formats : List String
  languages : List String
deriving DecidableEq

/-- The cache has the labels and when they were read, in nanoseconds. -/
structure LabelResolver where
  cache : Map (List UInt8 × List UInt8) (Labels × Nat)
  ttl : Nat

def LabelResolver.new : LabelResolver := ⟨∅, 60 * 10 ^ 9⟩

/-- The bytes of all ids, sorted. -/
def hashIds (ids : List DbId) : List UInt8 :=
  (ids.flatMap fun id => id.val).mergeSort fun a b => decide (a ≤ b)

/-- No query is made for no ids. -/
def namesOf (rows : List NamedRow) (ids : List DbId) : List String :=
  if ids.isEmpty then [] else (rows.filter fun r => ids.contains r.id).map fun r => r.name

/-- The labels in the cache, while they are fresh. -/
def LabelResolver.cached (resolver : LabelResolver) (now : Nat) (formatIds languageIds : List DbId) :
    Option Labels :=
  match resolver.cache.lookup (hashIds formatIds, hashIds languageIds) with
  | some (labels, ts) => if now - ts < resolver.ttl then some labels else none
  | none => none

/-- The labels in the tables. -/
def readLabels (db : Db) (formatIds languageIds : List DbId) : Labels where
  formats := namesOf db.tables.formats formatIds
  languages := namesOf db.tables.languages languageIds

def LabelResolver.resolve (resolver : LabelResolver) (now : Nat) (db : Db)
    (formatIds languageIds : List DbId) : Labels × LabelResolver :=
  match resolver.cached now formatIds languageIds with
  | some labels => (labels, resolver)
  | none =>
      let labels := readLabels db formatIds languageIds
      let key := (hashIds formatIds, hashIds languageIds)
      (labels, { resolver with cache := resolver.cache.insert key (labels, now) })

/-- A label comes from the cache, or else from the tables. -/
theorem LabelResolver.resolve_fst (resolver : LabelResolver) (now : Nat) (db : Db)
    (formatIds languageIds : List DbId) :
    (resolver.resolve now db formatIds languageIds).1 =
      (resolver.cached now formatIds languageIds).getD (readLabels db formatIds languageIds) := by
  rw [resolve]
  cases resolver.cached now formatIds languageIds with
  | none => rfl
  | some labels => rfl

/-! ## Queries -/

inductive Leaf
  | all
  /-- One of the texts is a token of the field. -/
  | terms (field : Field) (texts : List String)
  | flag (field : Field) (value : Bool)
  /-- A free text, as the query parser reads it. -/
  | parsed (holds : Document → Bool)

/-- The index library: its two analysers of running text, its query parser and its ranking. -/
structure Tantivy where
  enStem : String → List String
  simple : String → List String
  parseQuery : String → Except String (Document → Bool)
  byScore : List Document → List Document
  byScore_perm : ∀ docs, (byScore docs).Perm docs

/-- The tokens under which a text is found in a field. -/
def Tantivy.tokens (tantivy : Tantivy) (field : Field) (text : String) : List String :=
  match field with
  | .title | .editionTitle | .workDescription | .editionDescription | .authors | .tags | .genres
  | .subjects | .publishers | .format | .language => tantivy.enStem text
  | .identifierKinds | .identifierValues | .notes | .source => tantivy.simple text
  | _ => [text]

def Leaf.holds (tantivy : Tantivy) (d : Document) : Leaf → Bool
  | .all => true
  | .terms field texts =>
      (textsOf field d).any fun v => (tantivy.tokens field v).any fun token => texts.contains token
  | .flag field value => decide ((field, .bool value) ∈ d)
  | .parsed holds => holds d

def holdsFor (tantivy : Tantivy) (query : Query Leaf) (d : Document) : Bool :=
  isMatch .should (Leaf.holds tantivy d) query

def isQuerySyntax (c : Char) : Bool :=
  ['\\', '+', '-', '!', '(', ')', '\x7b', '\x7d', '[', ']', '^', '"', '~', '*', '?', ':',
    '/'].contains c

def escapeQueryText (s : String) : String :=
  String.ofList (s.toList.flatMap fun c => if isQuerySyntax c then ['\\', c] else [c])

/-- A clause for each axis with something to ask for. -/
def mapTextFilter (labels : List String) (field : Field) : List (Query Leaf) :=
  if labels.isEmpty then [] else [.leaf (.terms field labels)]

def mapIdFilter (env : Env) (ids : List DbId) (field : Field) : List (Query Leaf) :=
  mapTextFilter (ids.map (DbId.text env)) field

structure WorkFiltersResolved where
  filters : WorkFilters
  formatLabels : List String
  languageLabels : List String

structure WorkFiltersQuery where
  resolved : WorkFiltersResolved
  query : String

def WorkFiltersResolved.hasFilters (r : WorkFiltersResolved) : Bool :=
  !r.filters.tagIds.isEmpty || !r.filters.genreIds.isEmpty || !r.filters.subjectIds.isEmpty ||
    !r.filters.publisherIds.isEmpty || !r.filters.authorIds.isEmpty ||
    !r.formatLabels.isEmpty || !r.languageLabels.isEmpty || r.filters.hasFile.isSome

def WorkFiltersResolved.clauses (env : Env) (r : WorkFiltersResolved) : List (Query Leaf) :=
  mapIdFilter env r.filters.tagIds .tagId ++ mapIdFilter env r.filters.genreIds .genreId ++
    mapIdFilter env r.filters.subjectIds .subjectId ++
    mapIdFilter env r.filters.publisherIds .publisherId ++
    mapIdFilter env r.filters.authorIds .authorId ++
    mapTextFilter r.formatLabels .format ++ mapTextFilter r.languageLabels .language ++
    r.filters.hasFile.toList.map fun hasFile => .leaf (.flag .hasFile hasFile)

def WorkFiltersQuery.buildQuery (tantivy : Tantivy) (env : Env) (w : WorkFiltersQuery) :
    Except String (Query Leaf) :=
  let clauses := w.resolved.clauses env
  if trim w.query = "" then
    -- a conjunction of nothing would match nothing
    if w.resolved.hasFilters then .ok (withOccur .must clauses) else .ok (.leaf .all)
  else do
    let holds ← tantivy.parseQuery (escapeQueryText w.query)
    pure (withOccur .must (.leaf (.parsed holds) :: clauses))

/-- The documents of authors are left out. -/
def editionQuery (query : Query Leaf) : Query Leaf :=
  withOccur .must [query, .leaf (.terms .kind ["edition"])]

/-- The edition ids of the hits, with the default options. -/
def searchWithQuery (tantivy : Tantivy) (query : Query Leaf) (limit : Nat) (docs : List Document) :
    List (Option String) :=
  ((tantivy.byScore (docs.filter (holdsFor tantivy (editionQuery query)))).take limit).map
    fun d => (textsOf .editionId d).head?

/-! ## The same over the tables -/

section Tables

variable (db : Db)

/-- Nothing is asked for, or one of the ids is linked. -/
def axis (ids linked : List DbId) : Bool := ids.isEmpty || linked.any fun id => ids.contains id

/-- An edition has its own authors, or else its work's. -/
def authorIdsOf (e : Edition) : List DbId :=
  let own := targets db.catalog.editionAuthors e.id
  if own.isEmpty then targets db.catalog.workAuthors e.workId else own

/-- An edition has its own language, or else its work's. -/
def languageIdOf (e : Edition) : Option DbId :=
  e.languageId.or ((db.tables.works.find? fun w => decide (w.id = e.workId)).bind
    fun w => w.languageId)

/-- The axes of which the index has the ids, and the file. -/
def passesIds (f : WorkFilters) (e : Edition) : Bool :=
  axis f.tagIds (targets db.tables.editionTags e.id) &&
    axis f.genreIds (targets db.tables.editionGenres e.id) &&
    axis f.subjectIds (targets db.tables.editionSubjects e.id) &&
    axis f.publisherIds (targets db.tables.editionPublishers e.id) &&
    axis f.authorIds (authorIdsOf db e) &&
    f.hasFile.all fun hasFile =>
      (db.tables.digitalInventory.any fun row => decide (row.editionId = e.id)) == hasFile

/-- The axes of which the index has names. -/
def passesLabelled (f : WorkFilters) (e : Edition) : Bool :=
  axis f.formatIds e.formatId.toList && axis f.languageIds (languageIdOf db e).toList

/-- The editions a filter asks for. -/
def selected (f : WorkFilters) (e : Edition) : Bool := passesIds db f e && passesLabelled db f e

end Tables

/-! ## What a query matches -/

section Queries

variable {tantivy : Tantivy} {env : Env} {d : Document}

theorem holdsFor_leaf (l : Leaf) : holdsFor tantivy (.leaf l) d = l.holds tantivy d := by
  rw [holdsFor, isMatch]

theorem all_mapTextFilter (labels : List String) (field : Field) :
    ((mapTextFilter labels field).all fun q => holdsFor tantivy q d) =
      (labels.isEmpty || Leaf.holds tantivy d (.terms field labels)) := by
  rw [mapTextFilter]
  cases labels.isEmpty with
  | true => rfl
  | false => simp [holdsFor_leaf]

theorem isEmpty_mapTextFilter (labels : List String) (field : Field) :
    (mapTextFilter labels field).isEmpty = labels.isEmpty := by
  rw [mapTextFilter]
  cases labels.isEmpty with
  | true => rfl
  | false => rfl

/-- A field that is indexed whole. -/
theorem holds_terms_of_whole {field : Field} (hwhole : ∀ v, tantivy.tokens field v = [v])
    (texts : List String) :
    Leaf.holds tantivy d (.terms field texts) = (textsOf field d).any fun v => texts.contains v := by
  simp only [Leaf.holds, hwhole, List.any_cons, List.any_nil, Bool.or_false]

/-- An axis of ids, over a document that has the ids of what it is linked to. -/
theorem all_mapIdFilter {field : Field} (hwhole : ∀ v, tantivy.tokens field v = [v])
    {linked : List DbId} (hlinked : textsOf field d = linked.map (DbId.text env)) (ids : List DbId) :
    ((mapIdFilter env ids field).all fun q => holdsFor tantivy q d) = axis ids linked := by
  have hcontains : ∀ id : DbId, (ids.map (DbId.text env)).contains (id.text env) =
      ids.contains id := by
    intro id
    rw [Bool.eq_iff_iff, List.contains_iff_mem, List.contains_iff_mem, List.mem_map]
    constructor
    · rintro ⟨id', hid', htext⟩
      exact DbId.text_injective env htext ▸ hid'
    · intro hid
      exact ⟨id, hid, rfl⟩
  rw [mapIdFilter, all_mapTextFilter, holds_terms_of_whole hwhole, hlinked, List.any_map,
    List.isEmpty_map]
  simp only [Function.comp_def, hcontains]
  rfl

/-- There is a clause for each axis that counts. -/
theorem hasFilters_eq (env : Env) (r : WorkFiltersResolved) :
    r.hasFilters = !(r.clauses env).isEmpty := by
  have happend : ∀ xs ys : List (Query Leaf), (xs ++ ys).isEmpty = (xs.isEmpty && ys.isEmpty) := by
    intro xs ys
    cases xs with
    | nil => rfl
    | cons x xs => rfl
  have hfile : (r.filters.hasFile.toList.map fun b => Query.leaf (Leaf.flag .hasFile b)).isEmpty =
      !r.filters.hasFile.isSome := by
    cases r.filters.hasFile with
    | none => rfl
    | some b => rfl
  simp only [WorkFiltersResolved.hasFilters, WorkFiltersResolved.clauses, happend,
    mapIdFilter, isEmpty_mapTextFilter, hfile, List.isEmpty_map, Bool.not_and, Bool.not_not]

/-- Without a free text, a document matches what every clause matches. -/
theorem holdsFor_buildQuery {w : WorkFiltersQuery} (htext : trim w.query = "") :
    ∃ query, w.buildQuery tantivy env = .ok query ∧
      ∀ d, holdsFor tantivy query d =
        (w.resolved.clauses env).all fun q => holdsFor tantivy q d := by
  rw [WorkFiltersQuery.buildQuery]
  simp only [htext, if_true]
  by_cases hfilters : w.resolved.hasFilters = true
  · rw [if_pos hfilters]
    refine ⟨_, rfl, fun d => ?_⟩
    rw [hasFilters_eq env, Bool.not_eq_true', List.isEmpty_eq_false_iff] at hfilters
    exact isMatch_must _ _ hfilters
  · rw [if_neg hfilters]
    refine ⟨_, rfl, fun d => ?_⟩
    rw [hasFilters_eq env, Bool.not_eq_true', Bool.not_eq_false, List.isEmpty_iff]
      at hfilters
    rw [hfilters, holdsFor_leaf]
    rfl

end Queries

/-! ## The documents of editions -/

section Documents

variable {tantivy : Tantivy} {lib : IndexLib} {env : Env} {db : Db} {e : Edition}

/-- Every author a row is linked to has a name. -/
theorem fst_namedAuthors {c : Catalog} {links : List Link} {owner : DbId}
    (h : ∀ id ∈ targets links owner, id ∈ c.authors.map fun a => a.id) :
    (namedAuthors c links owner).map Prod.fst = targets links owner := by
  rw [namedAuthors, List.map_filterMap]
  refine (List.filterMap_congr fun id hid => ?_).trans List.filterMap_some
  cases hfound : c.authors.find? fun a => decide (a.id = id) with
  | none => exact absurd (h id hid) (find?_key_eq_none.1 hfound)
  | some a => simp [nameOf, hfound]

theorem fst_authorsOf (db : Db) (e : Edition) :
    (authorsOf db.catalog e.toEditionRow).map Prod.fst = authorIdsOf db e := by
  have hown : (namedAuthors db.catalog db.catalog.editionAuthors e.id).map Prod.fst =
      targets db.catalog.editionAuthors e.id := by
    refine fst_namedAuthors fun id hid => ?_
    obtain ⟨c, hc, hlink⟩ := List.mem_map.1 (mem_targets_iff.1 hid)
    refine db.sound.references.contributionAuthor (List.mem_map.2 ⟨c, hc, ?_⟩)
    exact congrArg Link.target hlink
  have hwork : (namedAuthors db.catalog db.catalog.workAuthors e.workId).map Prod.fst =
      targets db.catalog.workAuthors e.workId := by
    refine fst_namedAuthors fun id hid => ?_
    exact db.sound.references.workAuthorAuthor (List.mem_map.2 ⟨_, mem_targets_iff.1 hid, rfl⟩)
  have hempty : (namedAuthors db.catalog db.catalog.editionAuthors e.id).isEmpty =
      (targets db.catalog.editionAuthors e.id).isEmpty := by
    rw [← hown, List.isEmpty_map]
  unfold authorsOf authorIdsOf
  simp only [hempty]
  split
  · exact hwork
  · exact hown

/-- The name of the language an edition has, its own or its work's. -/
def languageName (db : Db) (e : Edition) : Option String :=
  (languageIdOf db e).bind (nameOf db.tables.languages)

def formatName (db : Db) (e : Edition) : Option String := e.formatId.bind (nameOf db.tables.formats)

/-- A language that is named by its id has a name. -/
theorem languageName_eq (he : e ∈ db.tables.editions) :
    (e.languageId.bind (nameOf db.tables.languages)).or
      (((db.tables.works.find? fun w => decide (w.id = e.workId)).bind
        fun w => w.languageId).bind (nameOf db.tables.languages)) = languageName db e := by
  unfold languageName languageIdOf
  cases hlanguage : e.languageId with
  | none => rfl
  | some id =>
      have hid : id ∈ db.tables.languageIds :=
        db.sound.references.editionLanguage (List.mem_filterMap.2 ⟨e, he, hlanguage⟩)
      cases hfound : db.tables.languages.find? fun r => decide (r.id = id) with
      | none => exact absurd hid (find?_key_eq_none.1 hfound)
      | some r => simp [nameOf, hfound]

/-- A label is a word of the name. -/
def labelAxis (tantivy : Tantivy) (labels : List String) (name : Option String) : Bool :=
  labels.isEmpty || name.toList.any fun n => (tantivy.enStem n).any fun token => labels.contains token

/-- The axes of names, as the index has them. -/
def labelled (tantivy : Tantivy) (db : Db) (labels : Labels) (e : Edition) : Bool :=
  labelAxis tantivy labels.formats (formatName db e) &&
    labelAxis tantivy labels.languages (languageName db e)

/-- An axis of names, over a document that has the name. -/
theorem all_mapTextFilter_name {field : Field} {d : Document}
    (hstem : ∀ v, tantivy.tokens field v = tantivy.enStem v) {name : Option String}
    (hname : textsOf field d = name.toList) (labels : List String) :
    ((mapTextFilter labels field).all fun q => holdsFor tantivy q d) =
      labelAxis tantivy labels name := by
  rw [all_mapTextFilter, Leaf.holds, hname]
  simp only [hstem]
  rfl

theorem hasFile_rebuiltEdition (c : Catalog) (row : EditionRow) (hasFile : Bool) :
    Leaf.holds tantivy (rebuiltEdition lib env c row) (.flag .hasFile hasFile) =
      (c.digitalInventory.contains row.id == hasFile) := by
  have htexts : ∀ g vs, (Field.hasFile, FieldValue.bool hasFile) ∉ texts g vs := by
    intro g vs h
    obtain ⟨v, _, hv⟩ := List.mem_map.1 h
    cases hv
  have hfacets : ∀ g vs, (Field.hasFile, FieldValue.bool hasFile) ∉ facets lib g vs := by
    intro g vs h
    obtain ⟨v, _, hv⟩ := List.mem_map.1 h
    cases hv
  have hdates : ∀ g n, (Field.hasFile, FieldValue.bool hasFile) ∉ dates g n := by
    intro g n h
    obtain ⟨v, _, hv⟩ := List.mem_map.1 h
    cases hv
  have hyears : ∀ n, (Field.hasFile, FieldValue.bool hasFile) ∉ years n := by
    intro n
    rw [years]
    split <;> simp
  rw [Leaf.holds, Bool.eq_iff_iff, decide_eq_true_eq, beq_iff_eq, eq_comm]
  simp [rebuiltEdition, htexts, hfacets, hdates, hyears]

/-- The clauses of a filter, over the document of an edition. -/
theorem all_clauses_rebuiltEdition (f : WorkFilters) (labels : Labels)
    (he : e ∈ db.tables.editions) :
    ((WorkFiltersResolved.mk f labels.formats labels.languages).clauses env).all
        (fun q => holdsFor tantivy q (rebuiltEdition lib env db.catalog e.toEditionRow)) =
      (passesIds db f e && labelled tantivy db labels e) := by
  -- what each field of the document holds, as the tables have it
  have htags : textsOf .tagId (rebuiltEdition lib env db.catalog e.toEditionRow) =
      (targets db.tables.editionTags e.id).map (DbId.text env) := by
    rw [rebuiltEdition, textsOf_flatten]
    simp [textsOf_texts, targetIds, Db.catalog]
  have hgenres : textsOf .genreId (rebuiltEdition lib env db.catalog e.toEditionRow) =
      (targets db.tables.editionGenres e.id).map (DbId.text env) := by
    rw [rebuiltEdition, textsOf_flatten]
    simp [textsOf_texts, targetIds, Db.catalog]
  have hsubjects : textsOf .subjectId (rebuiltEdition lib env db.catalog e.toEditionRow) =
      (targets db.tables.editionSubjects e.id).map (DbId.text env) := by
    rw [rebuiltEdition, textsOf_flatten]
    simp [textsOf_texts, targetIds, Db.catalog]
  have hpublishers : textsOf .publisherId (rebuiltEdition lib env db.catalog e.toEditionRow) =
      (targets db.tables.editionPublishers e.id).map (DbId.text env) := by
    rw [rebuiltEdition, textsOf_flatten]
    simp [textsOf_texts, targetIds, Db.catalog]
  have hauthors : textsOf .authorId (rebuiltEdition lib env db.catalog e.toEditionRow) =
      (authorIdsOf db e).map (DbId.text env) := by
    rw [← fst_authorsOf, List.map_map, rebuiltEdition, textsOf_flatten]
    simp [textsOf_texts, Function.comp_def]
  have hformat : textsOf .format (rebuiltEdition lib env db.catalog e.toEditionRow) =
      (formatName db e).toList := by
    rw [rebuiltEdition, textsOf_flatten]
    simp [textsOf_texts, formatName, Db.catalog]
  have hlanguage : textsOf .language (rebuiltEdition lib env db.catalog e.toEditionRow) =
      (languageName db e).toList := by
    rw [← languageName_eq he, rebuiltEdition, textsOf_flatten]
    simp [textsOf_texts, Db.catalog, Function.comp_def, Option.bind_map]
  have hfile : (f.hasFile.toList.map fun hasFile => Query.leaf (Leaf.flag .hasFile hasFile)).all
      (fun q => holdsFor tantivy q (rebuiltEdition lib env db.catalog e.toEditionRow)) =
      f.hasFile.all fun hasFile =>
        (db.tables.digitalInventory.any fun row => decide (row.editionId = e.id)) == hasFile := by
    have hinventory : db.catalog.digitalInventory.contains e.id =
        db.tables.digitalInventory.any fun row => decide (row.editionId = e.id) := by
      rw [Bool.eq_iff_iff, List.contains_iff_mem, List.any_eq_true]
      simp only [decide_eq_true_eq]
      exact List.mem_map
    cases f.hasFile with
    | none => rfl
    | some hasFile =>
        rw [Option.toList_some, List.map_cons, List.map_nil, List.all_cons, List.all_nil,
          Bool.and_true, holdsFor_leaf, hasFile_rebuiltEdition, hinventory, Option.all_some]
  -- each group of clauses then asks the tables what the field was built from
  simp only [WorkFiltersResolved.clauses, List.all_append]
  rw [all_mapIdFilter (fun _ => rfl) htags, all_mapIdFilter (fun _ => rfl) hgenres,
    all_mapIdFilter (fun _ => rfl) hsubjects, all_mapIdFilter (fun _ => rfl) hpublishers,
    all_mapIdFilter (fun _ => rfl) hauthors, all_mapTextFilter_name (fun _ => rfl) hformat,
    all_mapTextFilter_name (fun _ => rfl) hlanguage, hfile]
  unfold passesIds labelled
  ac_rfl

end Documents

/-! ## Hits -/

section Hits

variable {tantivy : Tantivy} {lib : IndexLib} {env : Env} {db : Db}

theorem holdsFor_editionQuery (query : Query Leaf) (d : Document) :
    holdsFor tantivy (editionQuery query) d =
      (holdsFor tantivy query d && (textsOf .kind d).contains "edition") := by
  have hkind : Leaf.holds tantivy d (.terms .kind ["edition"]) =
      (textsOf .kind d).contains "edition" := by
    rw [holds_terms_of_whole fun _ => rfl, Bool.eq_iff_iff, List.any_eq_true,
      List.contains_iff_mem]
    simp
  rw [holdsFor, editionQuery, isMatch_must _ _ (List.cons_ne_nil _ _), List.all_cons, List.all_cons,
    List.all_nil, Bool.and_true, ← hkind, ← holdsFor_leaf]
  rfl

theorem kind_rebuiltEdition (c : Catalog) (row : EditionRow) :
    textsOf .kind (rebuiltEdition lib env c row) = ["edition"] := by
  rw [rebuiltEdition, textsOf_flatten]
  simp [textsOf_texts]

theorem kind_rebuiltAuthor (a : NamedRow) :
    textsOf .kind (rebuiltAuthor lib env a) = ["author"] := by
  rw [rebuiltAuthor, textsOf_flatten]
  simp [textsOf_texts]

theorem editionId_rebuiltEdition (c : Catalog) (row : EditionRow) :
    textsOf .editionId (rebuiltEdition lib env c row) = [row.id.text env] := by
  rw [rebuiltEdition, textsOf_flatten]
  simp [textsOf_texts]

theorem filter_rebuiltDocuments (query : Query Leaf) :
    (rebuiltDocuments lib env db.catalog).filter (holdsFor tantivy (editionQuery query)) =
      (db.tables.editions.filter fun e =>
          holdsFor tantivy query (rebuiltEdition lib env db.catalog e.toEditionRow)).map
        fun e => rebuiltEdition lib env db.catalog e.toEditionRow := by
  have hauthors : (db.catalog.authors.map (rebuiltAuthor lib env)).filter
      (holdsFor tantivy (editionQuery query)) = [] := by
    refine List.filter_eq_nil_iff.2 fun d hd => ?_
    obtain ⟨a, _, rfl⟩ := List.mem_map.1 hd
    rw [holdsFor_editionQuery, kind_rebuiltAuthor, Bool.not_eq_true, Bool.and_eq_false_iff]
    exact Or.inr (by decide)
  have heditions : db.catalog.editions = db.tables.editions.map fun e => e.toEditionRow := rfl
  rw [rebuiltDocuments, List.filter_append, hauthors, List.append_nil, heditions, List.map_map,
    List.filter_map]
  refine congrArg (List.map _) (List.filter_congr fun e _ => ?_)
  show holdsFor tantivy _ (rebuiltEdition lib env db.catalog e.toEditionRow) = _
  rw [holdsFor_editionQuery, kind_rebuiltEdition]
  exact Bool.and_true _

/-- The hits, over a library that was just indexed: the editions whose document matches. -/
theorem searchWithQuery_perm (query : Query Leaf) {index : IndexWriter} {limit : Nat}
    (hlimit : (reindex lib env db index).committed.length ≤ limit) :
    (searchWithQuery tantivy query limit (reindex lib env db index).committed).Perm
      ((db.tables.editions.filter fun e =>
          holdsFor tantivy query (rebuiltEdition lib env db.catalog e.toEditionRow)).map
        fun e => some (e.id.text env)) := by
  have hfound := tantivy.byScore_perm ((reindex lib env db index).committed.filter
    (holdsFor tantivy (editionQuery query)))
  have hshort := hfound.length_eq.trans_le (List.length_filter_le _ _)
  rw [searchWithQuery, List.take_of_length_le (hshort.trans hlimit)]
  refine (hfound.map _).trans ?_
  rw [committed_reindex, filter_rebuiltDocuments, List.map_map]
  refine .of_eq (List.map_congr_left fun e _ => ?_)
  show (textsOf .editionId (rebuiltEdition lib env db.catalog e.toEditionRow)).head? = _
  rw [editionId_rebuiltEdition]
  rfl

end Hits

/-! ## Index and tables -/

/-- The hits are the editions the filter asks for, each once. -/
def Agrees (tantivy : Tantivy) (lib : IndexLib) (env : Env) (db : Db) (index : IndexWriter)
    (labels : Labels) (f : WorkFilters) (text : String) (limit : Nat) : Prop :=
  ∃ query, WorkFiltersQuery.buildQuery tantivy env ⟨⟨f, labels.formats, labels.languages⟩, text⟩ =
      .ok query ∧
    (searchWithQuery tantivy query limit (reindex lib env db index).committed).Perm
      ((db.tables.editions.filter (selected db f)).map fun e => some (e.id.text env))

theorem nodup_editionTexts (env : Env) (db : Db) :
    (db.tables.editions.map fun e => some (e.id.text env)).Nodup := by
  have hinj : Function.Injective fun id : DbId => some (id.text env) :=
    fun _ _ h => DbId.text_injective env (Option.some.inj h)
  have hkeys := db.sound.keys.editionKeys.map hinj
  rw [Tables.editionIds, List.map_map] at hkeys
  exact hkeys

theorem agrees_iff_forall {tantivy : Tantivy} {lib : IndexLib} {env : Env} {db : Db}
    {index : IndexWriter} {labels : Labels} {f : WorkFilters} {text : String} {limit : Nat}
    (htext : trim text = "") (hlimit : (reindex lib env db index).committed.length ≤ limit) :
    Agrees tantivy lib env db index labels f text limit ↔
      ∀ e ∈ db.tables.editions, passesIds db f e = true →
        (passesLabelled db f e = true ↔ labelled tantivy db labels e = true) := by
  obtain ⟨query, hquery, hholds⟩ := @holdsFor_buildQuery tantivy env
    ⟨⟨f, labels.formats, labels.languages⟩, text⟩ htext
  have hhits := @searchWithQuery_perm tantivy lib env db query index limit hlimit
  have hagrees : Agrees tantivy lib env db index labels f text limit ↔
      ∀ e ∈ db.tables.editions,
        holdsFor tantivy query (rebuiltEdition lib env db.catalog e.toEditionRow) =
          selected db f e := by
    rw [← perm_filter_iff (nodup_editionTexts env db)]
    constructor
    · rintro ⟨query', hquery', hperm⟩
      cases Except.ok.inj (hquery.symm.trans hquery')
      exact hhits.symm.trans hperm
    · intro hperm
      exact ⟨query, hquery, hhits.trans hperm⟩
  rw [hagrees]
  refine forall₂_congr fun e he => ?_
  rw [hholds, all_clauses_rebuiltEdition f labels he, selected]
  cases passesIds db f e with
  | false => exact iff_of_true rfl (fun h => by cases h)
  | true =>
      rw [Bool.true_and, Bool.true_and, Bool.eq_iff_iff]
      exact ⟨fun h _ => h.symm, fun h => (h rfl).symm⟩

/-- **INDEX AND TABLES AGREE** on a filter without free text, over a library that was just
    indexed, exactly if every edition that passes the axes of ids has one of the formats and
    languages asked for whenever a label is a word of its own names, and only then. -/
theorem agrees_iff (tantivy : Tantivy) (lib : IndexLib) (env : Env) (db : Db) (index : IndexWriter)
    (resolver : LabelResolver) (now : Nat) (f : WorkFilters) (text : String) (limit : Nat)
    (htext : trim text = "") (hlimit : (reindex lib env db index).committed.length ≤ limit) :
    Agrees tantivy lib env db index (resolver.resolve now db f.formatIds f.languageIds).1 f text
        limit ↔
      ∀ e ∈ db.tables.editions, passesIds db f e = true →
        (passesLabelled db f e = true ↔
          labelled tantivy db ((resolver.cached now f.formatIds f.languageIds).getD
            (readLabels db f.formatIds f.languageIds)) e = true) := by
  rw [LabelResolver.resolve_fst]
  exact agrees_iff_forall htext hlimit

/-! ## A library of one format -/

/-- The words of a text, in lower case. -/
def plainWords (s : String) : List String :=
  let words := s.toList.splitOnP fun c => !c.isAlphanum
  (words.filter fun w => !w.isEmpty).map fun w => String.ofList (w.map Char.toLower)

def plainTantivy : Tantivy where
  enStem := plainWords
  simple := plainWords
  parseQuery _ := .error "no parser"
  byScore docs := docs
  byScore_perm _ := .refl _

/-- One edition, in a format of the given name. -/
def oneFormat (name : String) : Tables :=
  { oneEditionDb.tables.updateEdition (sampleId 2) fun e => { e with formatId := sampleId 5 } with
    formats := [⟨sampleId 5, name⟩] }

def lowerCaseDb : Db := ⟨oneFormat "epub", by decide⟩

def upperCaseDb : Db := ⟨oneFormat "EPUB", by decide⟩

/-- The editions of the format. -/
def byFormat : WorkFilters where
  tagIds := []
  genreIds := []
  subjectIds := []
  publisherIds := []
  authorIds := []
  formatIds := [sampleId 5]
  languageIds := []
  hasFile := none

theorem length_committed_reindex (db : Db) (index : IndexWriter) :
    (reindex plainLib Env.reference db index).committed.length =
      db.tables.editions.length + db.tables.authors.length := by
  rw [committed_reindex, rebuiltDocuments, List.length_append, List.length_map, List.length_map]
  exact congrArg (· + _) (List.length_map _)

/-- A name that is its own word. -/
theorem agrees_lowerCase :
    Agrees plainTantivy plainLib Env.reference lowerCaseDb Writer.empty
      (LabelResolver.new.resolve 0 lowerCaseDb byFormat.formatIds byFormat.languageIds).1 byFormat
      "" 1 := by
  refine (agrees_iff plainTantivy plainLib Env.reference lowerCaseDb Writer.empty LabelResolver.new
    0 byFormat "" 1 rfl (length_committed_reindex _ _).le).2 ?_
  decide

/-- A name in upper case is not found. -/
theorem not_agrees_upperCase :
    (reindex plainLib Env.reference upperCaseDb Writer.empty).committed.length ≤ 1 ∧
    ¬ Agrees plainTantivy plainLib Env.reference upperCaseDb Writer.empty
      (LabelResolver.new.resolve 0 upperCaseDb byFormat.formatIds byFormat.languageIds).1 byFormat
      "" 1 := by
  have hlimit := (length_committed_reindex upperCaseDb Writer.empty).le
  have hquery : trim "" = "" := rfl
  refine ⟨hlimit, fun h => ?_⟩
  have hall := (agrees_iff_forall hquery hlimit).1 h
  revert hall
  decide

end Filters

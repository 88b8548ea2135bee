import Mathlib.Data.List.TakeWhile
import Livtet.Lib.Buckets
import Livtet.Upserted

/-! # Counting facets

    A rebuild pastes the name of a language, a publisher, a subject or a genre behind a
    slash and has the index library read that as a path. A search counts, of the editions
    it matches, how many have a path under each child of the root, and the child is the
    first step of the path: what comes after a slash in a name is not looked at, so that
    `A/B` counts for `A`, and an empty name is the root itself.

    The counts are those of the names exactly if each name is one step, which is shown as
    the name is written (`perName_iff`). Of the names without a backslash these are the
    ones that are not empty and have no slash (`shownAsWritten_iff`). -/

namespace Facets

open SyncStore (Env)
open DocIndex SearchIndex Reindex BoolQuery Library Filters SearchPages Upserted Buckets

/-! ## Paths -/

/-- The index library's facets: the child of the root that a path lies under, which the
    root has none, how it is shown as text, and in which order counts are listed. -/
structure FacetTree where
  child : String → Option String
  shown : String → String
  ranked : List (String × Nat) → List (String × Nat)
  ranked_perm : ∀ counts, (ranked counts).Perm counts
  ranked_sorted : ∀ counts, (ranked counts).Pairwise fun a b => b.2 ≤ a.2

def facetOf? : FieldValue → Option String
  | .facet path => some path
  | .text _ | .u64 _ | .date _ | .bool _ => none

/-- The paths of a document in a facet field. -/
def facetsOf (field : Field) (d : Document) : List String := (valuesOf field d).filterMap facetOf?

/-! ## Searching -/

structure FacetCount where
  label : String
  count : Int
deriving DecidableEq, Repr

structure FacetedSearchResult (Score : Type) where
  hits : List (SearchHit Score)
  languageFacets : List FacetCount
  publisherFacets : List FacetCount
  subjectFacets : List FacetCount
  genreFacets : List FacetCount
  recentlyAdded : Nat

section Search

variable (tree : FacetTree)

/-- `root_facet_collector`: the documents under each child of the root. -/
def rootCounts (field : Field) (docs : List Document) : List (String × Nat) :=
  counts (fun d => (facetsOf field d).filterMap tree.child) docs

/-- `top_k("/", k)`. -/
def topK (k : Nat) (counts : List (String × Nat)) : List (String × Nat) :=
  (tree.ranked counts).take k

def facetCounts (counts : List (String × Nat)) : List FacetCount :=
  (topK tree 20 counts).map fun x => ⟨tree.shown x.1, x.2⟩

variable {tantivy : Tantivy} {Score : Type}

def searchWithFacets (searcher : Searcher tantivy Score) (env : Env) (queryStr : String)
    (limit : Nat) : Except String (FacetedSearchResult Score) :=
  match buildFilteredQuery tantivy env queryStr defaultFilters with
  | .error e => .error e
  | .ok query =>
      let matched := searcher.docs.filter (holdsFor tantivy query)
      -- `TopDocs::with_limit` panics
      if limit = 0 then .error "Limit must be strictly greater than 0."
      else .ok {
        hits := (searcher.topDocs query limit).map buildHit
        languageFacets := facetCounts tree (rootCounts tree .languageFacet matched)
        publisherFacets := facetCounts tree (rootCounts tree .publisherFacet matched)
        subjectFacets := facetCounts tree (rootCounts tree .subjectFacet matched)
        genreFacets := facetCounts tree (rootCounts tree .genreFacet matched)
        -- ranked by date, with those that have none
        recentlyAdded := (matched.take limit).length }

end Search

/-! ## Counts of names -/

inductive Axis
  | language
  | publisher
  | subject
  | genre
deriving DecidableEq, Repr

def Axis.field : Axis → Field
  | .language => .languageFacet
  | .publisher => .publisherFacet
  | .subject => .subjectFacet
  | .genre => .genreFacet

def Axis.facets {Score : Type} (result : FacetedSearchResult Score) : Axis → List FacetCount
  | .language => result.languageFacets
  | .publisher => result.publisherFacets
  | .subject => result.subjectFacets
  | .genre => result.genreFacets

section Names

variable (env : Env) (lib : IndexLib) (tree : FacetTree) (c : Catalog) (axis : Axis)

/-- The names an edition carries. -/
def Axis.names (e : EditionRow) : List String :=
  match axis with
  | .language => (assembled env c e).language.toList
  | .publisher => (assembled env c e).publishers
  | .subject => (assembled env c e).subjects
  | .genre => (assembled env c e).genres

/-- The path that is made of a name. -/
def pathOf (name : String) : String := (lib.facetFromText ("/" ++ name)).getD "/misc"

def childOf (name : String) : Option String := tree.child (pathOf lib name)

/-- Under which label a name is counted. -/
def labelOf (name : String) : Option String := (childOf lib tree name).map tree.shown

/-- The name is one step, and is shown as it is written. -/
def ShownAsWritten (name : String) : Prop := labelOf lib tree name = some ("/" ++ name)

/-- What the index library promises of paths: they are split at slashes, and what is shown
    of a step reads as that step. -/
structure FacetSyntax : Prop where
  splits : ∀ name, '\\' ∉ name.toList → labelOf lib tree name =
    if (name.toList.takeWhile (· ≠ '/')).isEmpty then none
    else some ("/" ++ String.ofList (name.toList.takeWhile (· ≠ '/')))
  reads_back : ∀ name name', labelOf lib tree name = some ("/" ++ name') →
    labelOf lib tree name' = some ("/" ++ name')

/-- The editions that a search matches. -/
def matchingEditions (tantivy : Tantivy) (queryStr : String) : List EditionRow :=
  match buildFilteredQuery tantivy env queryStr defaultFilters with
  | .error _ => []
  | .ok query => c.editions.filter fun e => holdsFor tantivy query (rebuiltEdition lib env c e)

/-- Each name has exactly one count, which is the number of editions that carry it. -/
def PerName (editions : List EditionRow) (counted : List FacetCount) : Prop :=
  ∀ e ∈ editions, ∀ name ∈ axis.names env c e,
    counted.filter (fun facet => facet.label = "/" ++ name) =
      [⟨"/" ++ name, (holders (axis.names env c) editions name).length⟩]

end Names

section Counts

variable {tantivy : Tantivy} {Score : Type} {env : Env} {lib : IndexLib} {tree : FacetTree}
variable {c : Catalog} {axis : Axis}

theorem shownAsWritten_iff (hpaths : FacetSyntax lib tree) {name : String}
    (hplain : '\\' ∉ name.toList) :
    ShownAsWritten lib tree name ↔ name ≠ "" ∧ '/' ∉ name.toList := by
  rw [ShownAsWritten, hpaths.splits name hplain]
  constructor
  · intro h
    split at h
    · cases h
    next hfirst =>
      have hname : String.ofList (name.toList.takeWhile (· ≠ '/')) = name :=
        (String.append_right_inj "/").1 (Option.some.inj h)
      have hlist := congrArg String.toList hname
      rw [String.toList_ofList] at hlist
      refine ⟨?_, fun hslash => ?_⟩
      · rintro rfl
        exact hfirst rfl
      · rw [← hlist] at hslash
        have hne := List.mem_takeWhile_imp hslash
        exact of_decide_eq_true hne rfl
  · rintro ⟨hne, hslash⟩
    have hlist : name.toList.takeWhile (· ≠ '/') = name.toList :=
      List.takeWhile_eq_self_iff.2 fun a ha => decide_eq_true fun heq => hslash (heq ▸ ha)
    have hfull : ¬ name.toList.isEmpty = true := by
      rw [List.isEmpty_iff]
      intro hnil
      exact hne (String.toList_inj.1 hnil)
    rw [hlist, String.ofList_toList, if_neg hfull]

/-- The facets of a document are the paths of the names. -/
theorem facetsOf_rebuilt (e : EditionRow) :
    facetsOf axis.field (rebuiltEdition lib env c e) = (axis.names env c e).map (pathOf lib) := by
  have hvalues : valuesOf axis.field (rebuiltEdition lib env c e) =
      (axis.names env c e).map fun name => .facet (pathOf lib name) := by
    rw [rebuiltEdition, valuesOf_flatten]
    cases axis with
    | language => simp [Axis.field, Axis.names, assembled, pathOf]
    | publisher => simp [Axis.field, Axis.names, assembled, pathOf]
    | subject => simp [Axis.field, Axis.names, assembled, pathOf]
    | genre => simp [Axis.field, Axis.names, assembled, pathOf]
  rw [facetsOf, hvalues, List.filterMap_map]
  exact congrFun (List.filterMap_eq_map (f := pathOf lib)) _

/-- The counts of a result. -/
theorem facets_searchWithFacets {searcher : Searcher tantivy Score} {queryStr : String}
    {limit : Nat} {result : FacetedSearchResult Score}
    (h : searchWithFacets tree searcher env queryStr limit = .ok result) :
    ∃ query, buildFilteredQuery tantivy env queryStr defaultFilters = .ok query ∧
      ∀ axis : Axis, axis.facets result = facetCounts tree (rootCounts tree axis.field
        (searcher.docs.filter (holdsFor tantivy query))) := by
  cases hquery : buildFilteredQuery tantivy env queryStr defaultFilters with
  | error e =>
      simp only [searchWithFacets, hquery] at h
      cases h
  | ok query =>
      simp only [searchWithFacets, hquery] at h
      by_cases hlimit : limit = 0
      · rw [if_pos hlimit] at h
        cases h
      · rw [if_neg hlimit] at h
        cases h
        refine ⟨query, rfl, fun axis => ?_⟩
        cases axis with
        | language => rfl
        | publisher => rfl
        | subject => rfl
        | genre => rfl

/-- The counts over the documents of a rebuild are over the paths of the names. -/
theorem rootCounts_map (editions : List EditionRow) :
    rootCounts tree axis.field (editions.map (rebuiltEdition lib env c)) =
      counts (fun e => (axis.names env c e).filterMap (childOf lib tree)) editions := by
  have hkeys : ∀ e, (facetsOf axis.field (rebuiltEdition lib env c e)).filterMap tree.child =
      (axis.names env c e).filterMap (childOf lib tree) := by
    intro e
    rw [facetsOf_rebuilt, List.filterMap_map]
    rfl
  rw [rootCounts, counts_map]
  simp only [hkeys]

/-- While there are at most twenty names, all of their counts are listed. -/
theorem facetCounts_perm {editions : List EditionRow}
    (hfew : (editions.flatMap (axis.names env c)).eraseDups.length ≤ 20) :
    (facetCounts tree (counts (fun e => (axis.names env c e).filterMap (childOf lib tree))
        editions)).Perm
      ((counts (fun e => (axis.names env c e).filterMap (childOf lib tree)) editions).map
        fun x => ⟨tree.shown x.1, x.2⟩) := by
  have hlength := (tree.ranked_perm (counts (fun e => (axis.names env c e).filterMap
    (childOf lib tree)) editions)).length_eq
  rw [facetCounts, topK, List.take_of_length_le (hlength.trans_le (length_counts_le.trans hfew))]
  exact (tree.ranked_perm _).map _

/-- **THE COUNTS ARE PER NAME** exactly if each name that is carried is shown as it is written. -/
theorem perName_facetCounts_iff (hpaths : FacetSyntax lib tree) {editions : List EditionRow}
    (hfew : (editions.flatMap (axis.names env c)).eraseDups.length ≤ 20) :
    PerName env c axis editions (facetCounts tree (counts (fun e =>
        (axis.names env c e).filterMap (childOf lib tree)) editions)) ↔
      ∀ e ∈ editions, ∀ name ∈ axis.names env c e, ShownAsWritten lib tree name := by
  have hlisted := @facetCounts_perm env lib tree c axis editions hfew
  constructor
  · intro h e he name hname
    -- the count's label is that of some name, and reads back
    have hmem : (⟨"/" ++ name, (holders (axis.names env c) editions name).length⟩ : FacetCount) ∈
        facetCounts tree (counts (fun e => (axis.names env c e).filterMap (childOf lib tree))
          editions) := by
      refine List.mem_of_mem_filter (p := fun facet => facet.label = "/" ++ name) ?_
      rw [h e he name hname]
      exact List.mem_singleton_self _
    obtain ⟨⟨step, n⟩, hcount, heq⟩ := List.mem_map.1 (hlisted.mem_iff.1 hmem)
    obtain ⟨⟨e', _, hstep⟩, _⟩ := mem_counts.1 hcount
    obtain ⟨name', _, hchild⟩ := List.mem_filterMap.1 hstep
    refine hpaths.reads_back name' name ?_
    rw [labelOf, hchild, Option.map_some]
    exact congrArg some (congrArg FacetCount.label heq)
  · intro h e he name hname
    have hshown : ∀ e ∈ editions, ∀ name' ∈ axis.names env c e, ∀ step,
        childOf lib tree name' = some step → tree.shown step = "/" ++ name' := by
      intro e he name' hname' step hstep
      have hlabel := h e he name' hname'
      rw [ShownAsWritten, labelOf, hstep] at hlabel
      exact Option.some.inj hlabel
    obtain ⟨step, hstep, hlabel⟩ := Option.map_eq_some_iff.1 (h e he name hname)
    -- another step with this label is that of the same name
    have honly : ∀ e ∈ editions, ∀ step' ∈ (axis.names env c e).filterMap (childOf lib tree),
        decide (tree.shown step' = "/" ++ name) = true → step' = step := by
      intro e' he' step' hstep' heq
      obtain ⟨name', hname', hchild⟩ := List.mem_filterMap.1 hstep'
      have hsame : name' = name := (String.append_right_inj "/").1
        ((hshown e' he' name' hname' step' hchild).symm.trans (of_decide_eq_true heq))
      rw [hsame, hstep] at hchild
      exact (Option.some.inj hchild).symm
    have hholders := @holders_of_named _ _ _ _ _ (axis.names env c) (childOf lib tree) editions
      name step hstep (by
        intro e' he' name' hname' hchild
        exact (String.append_right_inj "/").1
          ((hshown e' he' name' hname' step hchild).symm.trans hlabel))
    refine List.perm_singleton.1 ((hlisted.filter _).trans (.of_eq ?_))
    rw [List.filter_map]
    have hone := filter_counts_eq (p := fun step' => decide (tree.shown step' = "/" ++ name))
      ⟨e, he, List.mem_filterMap.2 ⟨name, hname, hstep⟩⟩ (decide_eq_true hlabel) honly
    refine (congrArg (List.map _) hone).trans ?_
    rw [hholders, List.map_singleton, hlabel]

end Counts

/-! ## Just after a rebuild -/

section Rebuilt

variable {tantivy : Tantivy} {Score : Type} {env : Env} {lib : IndexLib} {tree : FacetTree}
variable {db : Db} {axis : Axis}

/-- What a search matches are the documents of the editions it matches. -/
theorem filter_rebuilt {queryStr : String} {query : Query Leaf}
    (hquery : buildFilteredQuery tantivy env queryStr defaultFilters = .ok query) :
    (rebuiltDocuments lib env db.catalog).filter (holdsFor tantivy query) =
      (matchingEditions env lib db.catalog tantivy queryStr).map
        (rebuiltEdition lib env db.catalog) := by
  obtain ⟨inner, hinner⟩ : ∃ inner, query = editionQuery inner := by
    rw [buildFilteredQuery] at hquery
    cases hbuilt : WorkFiltersQuery.buildQuery tantivy env ⟨⟨defaultFilters, [], []⟩, queryStr⟩ with
    | error e =>
        rw [hbuilt] at hquery
        cases hquery
    | ok inner =>
        rw [hbuilt] at hquery
        exact ⟨inner, (Except.ok.inj hquery).symm⟩
  have heditions : db.catalog.editions = db.tables.editions.map fun e => e.toEditionRow := rfl
  simp only [matchingEditions, hquery]
  rw [hinner, filter_rebuiltDocuments, heditions, List.filter_map, List.map_map]
  refine congrArg (List.map _) (List.filter_congr fun e _ => ?_)
  show _ = holdsFor tantivy (editionQuery inner) (rebuiltEdition lib env db.catalog e.toEditionRow)
  rw [holdsFor_editionQuery, kind_rebuiltEdition]
  exact (Bool.and_true _).symm

theorem facets_just_rebuilt {searcher : Searcher tantivy Score} {index : IndexWriter}
    (hdocs : searcher.docs = (reindex lib env db index).committed) {queryStr : String} {limit : Nat}
    {result : FacetedSearchResult Score}
    (hresult : searchWithFacets tree searcher env queryStr limit = .ok result) (axis : Axis) :
    axis.facets result = facetCounts tree (counts (fun e =>
      (axis.names env db.catalog e).filterMap (childOf lib tree))
        (matchingEditions env lib db.catalog tantivy queryStr)) := by
  obtain ⟨query, hquery, hfacets⟩ := facets_searchWithFacets hresult
  rw [hfacets axis, hdocs, committed_reindex, filter_rebuilt hquery, rootCounts_map]

/-- **FACET COUNTS ARE PER NAME**, just after a rebuild, exactly if each name that a matching
    edition carries is shown as it is written. -/
theorem perName_iff (lib : IndexLib) (tree : FacetTree) (hpaths : FacetSyntax lib tree) (env : Env)
    (db : Db) (index : IndexWriter) (searcher : Searcher tantivy Score)
    (hdocs : searcher.docs = (reindex lib env db index).committed) (queryStr : String) (limit : Nat)
    (result : FacetedSearchResult Score)
    (hresult : searchWithFacets tree searcher env queryStr limit = .ok result) (axis : Axis)
    (hfew : ((matchingEditions env lib db.catalog tantivy queryStr).flatMap
      (axis.names env db.catalog)).eraseDups.length ≤ 20) :
    PerName env db.catalog axis (matchingEditions env lib db.catalog tantivy queryStr)
        (axis.facets result) ↔
      ∀ e ∈ matchingEditions env lib db.catalog tantivy queryStr,
        ∀ name ∈ axis.names env db.catalog e, ShownAsWritten lib tree name := by
  rw [facets_just_rebuilt hdocs hresult axis]
  exact perName_facetCounts_iff hpaths hfew

end Rebuilt

/-! ## A book in one language -/

/-- What comes before the first slash. -/
def firstStep (cs : List Char) : List Char := cs.takeWhile (· ≠ '/')

/-- The facets of paths without a backslash. -/
def plainTree : FacetTree where
  child path :=
    let step := firstStep (path.toList.drop 1)
    if step.isEmpty then none else some (String.ofList step)
  shown step := "/" ++ step
  ranked counts := counts.mergeSort fun a b => decide (b.2 ≤ a.2)
  ranked_perm counts := List.mergeSort_perm ..
  ranked_sorted counts := by
    refine (List.pairwise_mergeSort ?_ ?_ counts).imp of_decide_eq_true
    · intro a b c hab hbc
      exact decide_eq_true (Nat.le_trans (of_decide_eq_true hbc) (of_decide_eq_true hab))
    · intro a b
      rw [Bool.or_eq_true]
      exact (Nat.le_total b.2 a.2).imp decide_eq_true decide_eq_true

theorem labelOf_plain (name : String) : labelOf plainLib plainTree name =
    if (firstStep name.toList).isEmpty then none
    else some ("/" ++ String.ofList (firstStep name.toList)) := by
  have hpath : (pathOf plainLib name).toList.drop 1 = name.toList := by
    show ("/" ++ name).toList.drop 1 = name.toList
    rw [String.toList_append]
    rfl
  simp only [labelOf, childOf, plainTree, hpath]
  split
  · rfl
  · rfl

theorem facetSyntax_plain : FacetSyntax plainLib plainTree where
  splits name _ := labelOf_plain name
  reads_back name name' h := by
    rw [labelOf_plain] at h
    split at h
    · cases h
    next hstep =>
      have hname : String.ofList (firstStep name.toList) = name' :=
        (String.append_right_inj "/").1 (Option.some.inj h)
      have hidem : firstStep name'.toList = firstStep name.toList := by
        rw [← hname, String.toList_ofList]
        exact List.takeWhile_eq_self_iff.2 fun a ha =>
          List.mem_takeWhile_imp (p := fun a => decide (a ≠ '/')) (l := name.toList) ha
      rw [labelOf_plain, hidem, if_neg hstep, hname]

/-- One edition, in a language of the given name. -/
def oneLanguage (name : String) : Tables :=
  { oneEditionDb.tables.updateEdition (sampleId 2) fun e =>
      { e with languageId := some (sampleId 6) } with
    languages := [⟨sampleId 6, name⟩] }

def spanishDb : Db := ⟨oneLanguage "spanish", by decide⟩

def regionalDb : Db := ⟨oneLanguage "pt/br", by decide⟩

/-- An index of at most ten documents, just after a rebuild. -/
def rebuiltSearcher (db : Db) (h : db.tables.editions.length + db.tables.authors.length ≤ 10) :
    Searcher plainTantivy Nat :=
  .plain plainTantivy (reindex plainLib Env.reference db Writer.empty).committed
    (by rw [length_committed_reindex]; omega)

def spanishSearcher : Searcher plainTantivy Nat := rebuiltSearcher spanishDb (by decide)

def regionalSearcher : Searcher plainTantivy Nat := rebuiltSearcher regionalDb (by decide)

theorem perName_spanish :
    ∃ result, searchWithFacets plainTree spanishSearcher Env.reference "" 10 = .ok result ∧
      PerName Env.reference spanishDb.catalog .language
        (matchingEditions Env.reference plainLib spanishDb.catalog plainTantivy "")
        (Axis.language.facets result) := by
  obtain ⟨result, hresult⟩ :
      ∃ result, searchWithFacets plainTree spanishSearcher Env.reference "" 10 = .ok result :=
    ⟨_, rfl⟩
  have hnames : ∀ e ∈ matchingEditions Env.reference plainLib spanishDb.catalog plainTantivy "",
      Axis.language.names Env.reference spanishDb.catalog e = ["spanish"] := by
    decide
  refine ⟨result, hresult, (perName_iff plainLib plainTree facetSyntax_plain Env.reference
    spanishDb Writer.empty spanishSearcher rfl "" 10 result hresult .language ?_).2 ?_⟩
  · decide
  · intro e he name hname
    rw [hnames e he, List.mem_singleton] at hname
    rw [hname]
    exact (shownAsWritten_iff facetSyntax_plain (by decide)).2 ⟨by decide, by decide⟩

/-- A language with a slash in its name is counted for what comes before the slash. -/
theorem not_perName_regional :
    ((matchingEditions Env.reference plainLib regionalDb.catalog plainTantivy "").flatMap
        (Axis.language.names Env.reference regionalDb.catalog)).eraseDups.length ≤ 20 ∧
    ∃ result, searchWithFacets plainTree regionalSearcher Env.reference "" 10 = .ok result ∧
      ¬ PerName Env.reference regionalDb.catalog .language
        (matchingEditions Env.reference plainLib regionalDb.catalog plainTantivy "")
        (Axis.language.facets result) := by
  have hfew : ((matchingEditions Env.reference plainLib regionalDb.catalog plainTantivy "").flatMap
      (Axis.language.names Env.reference regionalDb.catalog)).eraseDups.length ≤ 20 := by
    decide
  obtain ⟨result, hresult⟩ :
      ∃ result, searchWithFacets plainTree regionalSearcher Env.reference "" 10 = .ok result :=
    ⟨_, rfl⟩
  refine ⟨hfew, result, hresult, fun h => ?_⟩
  have hindexed : regionalSearcher.docs =
      (reindex plainLib Env.reference regionalDb Writer.empty).committed := rfl
  rw [facets_just_rebuilt hindexed hresult .language,
    perName_facetCounts_iff facetSyntax_plain hfew] at h
  obtain ⟨e, he, hname⟩ : ∃ e ∈ matchingEditions Env.reference plainLib regionalDb.catalog
      plainTantivy "", "pt/br" ∈ Axis.language.names Env.reference regionalDb.catalog e := by
    have hall : (matchingEditions Env.reference plainLib regionalDb.catalog plainTantivy "").any
        fun e => (Axis.language.names Env.reference regionalDb.catalog e).contains "pt/br" := by
      decide
    obtain ⟨e, he, hcarried⟩ := List.any_eq_true.1 hall
    exact ⟨e, he, List.contains_iff_mem.1 hcarried⟩
  have hslash := ((shownAsWritten_iff facetSyntax_plain (by decide)).1 (h e he "pt/br" hname)).2
  exact hslash (by decide)

end Facets

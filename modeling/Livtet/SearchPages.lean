import Livtet.Filters
import Livtet.Lib.RankedSort
import Livtet.Lib.FirstSeen

/-! # Searching a page at a time

    A search takes the best documents of one ranking, sorts them if it is asked to, drops
    those of the pages before, and makes a hit of each. With a sort it takes more than the
    page needs: twice as many, or 64 more. A page is right exactly if what comes up to its
    end in the sorted list is among these (`pagesExact_iff`).

    Hits may be collapsed onto their works; that is the subject of the next module. -/

namespace SearchPages

open SyncStore (Env minI64)
open SyncPairing Maps SearchIndex Library BoolQuery Filters RankedSort

/-! ## The index -/

/-- An index as it stands, with the order in which its library ranks what a query matches.
    A list of the documents fits in memory. -/
structure Searcher (tantivy : Tantivy) (Score : Type) where
  docs : List Document
  ranked : Query Leaf → List (Score × Document)
  ranked_perm : ∀ query, ((ranked query).map Prod.snd).Perm (docs.filter (holdsFor tantivy query))
  length_lt : docs.length < 9223372036854775808

variable {tantivy : Tantivy} {Score : Type}

/-- `TopDocs::with_limit(limit).order_by_score()`. -/
def Searcher.topDocs (searcher : Searcher tantivy Score) (query : Query Leaf) (limit : Nat) :
    List (Score × Document) :=
  (searcher.ranked query).take limit

/-- The `Count` collector. -/
def Searcher.count (searcher : Searcher tantivy Score) (query : Query Leaf) : Nat :=
  (searcher.docs.filter (holdsFor tantivy query)).length

theorem Searcher.length_ranked (searcher : Searcher tantivy Score) (query : Query Leaf) :
    (searcher.ranked query).length = searcher.count query := by
  have hlength := (searcher.ranked_perm query).length_eq
  rwa [List.length_map] at hlength

theorem Searcher.length_ranked_lt (searcher : Searcher tantivy Score) (query : Query Leaf) :
    (searcher.ranked query).length < 9223372036854775808 := by
  rw [searcher.length_ranked]
  exact Nat.lt_of_le_of_lt (List.length_filter_le _ _) searcher.length_lt

/-! ## Hits -/

inductive HitKind
  | edition
  | work
  | person
deriving DecidableEq, Repr

/-- A hit, without what is made for display only. -/
structure SearchHit (Score : Type) where
  kind : HitKind
  editionId : Option String
  workId : String
  authorId : Option String
  title : String
  editionTitle : Option String
  authors : List String
  format : Option String
  language : Option String
  publishedDate : Option Int
  score : Score
  groupedEditionIds : List String
  source : String
  hasFile : Bool

/-- `get_first(field).and_then(|v| v.as_str())`. -/
def firstText (field : Field) (d : Document) : Option String := (textsOf field d).head?

/-- `get_first(field).and_then(|v| v.as_datetime())`. -/
def firstDate (field : Field) (d : Document) : Option Int :=
  (d.filterMap fun x => match x with
    | (f, .date n) => if f = field then some n else none
    | _ => none).head?

/-- `get_first(field).and_then(|v| v.as_bool())`. -/
def firstBool (field : Field) (d : Document) : Option Bool :=
  (d.filterMap fun x => match x with
    | (f, .bool b) => if f = field then some b else none
    | _ => none).head?

def buildHit (scored : Score × Document) : SearchHit Score :=
  let d := scored.2
  let kind := if (firstText .kind d).getD "" = "author" then HitKind.person else .edition
  { kind
    editionId := if kind = .edition then firstText .editionId d else none
    workId := (firstText .workId d).getD ""
    authorId := if kind = .person then firstText .authorId d else none
    title := (firstText .title d).getD ""
    editionTitle := firstText .editionTitle d
    authors := if kind = .person then [] else textsOf .authors d
    format := firstText .format d
    language := firstText .language d
    publishedDate := firstDate .pubDate d
    score := scored.1
    groupedEditionIds := []
    source := (firstText .source d).getD "catalog"
    hasFile := (firstBool .hasFile d).getD false }

/-! ## Sorting the top documents -/

inductive SortField
  | title
  | createdAt
  | updatedAt
  | score
deriving DecidableEq, Repr

inductive SortDirection
  | asc
  | desc
deriving DecidableEq, Repr

structure SortSpec where
  field : SortField
  direction : SortDirection
deriving DecidableEq, Repr

inductive SortKey
  | title (s : String)
  | date (nanos : Int)

/-- `cmp` is not `Greater`; keys of two kinds are equal. -/
def SortKey.le : SortKey → SortKey → Bool
  | .title a, .title b => decide (a ≤ b)
  | .date a, .date b => decide (a ≤ b)
  | _, _ => true

variable (lib : IndexLib)

def sortKey (field : SortField) (d : Document) : SortKey :=
  match field with
  | .title => .title (((firstText .title d).map lib.toLowercase).getD "")
  | .createdAt => .date ((firstDate .createdAt d).getD minI64)
  | .updatedAt => .date ((firstDate .updatedAt d).getD minI64)
  -- a list by score is not sorted again
  | .score => .date 0

/-- Not after, in the direction of the spec. -/
def SortSpec.le (spec : SortSpec) (a b : SortKey) : Bool :=
  match spec.direction with
  | .asc => a.le b
  | .desc => b.le a

/-- The comparison of `sort_by`: by key, then by the original index. -/
def SortSpec.before (spec : SortSpec) (a b : Nat × SortKey) : Bool :=
  if spec.le a.2 b.2 then (if spec.le b.2 a.2 then decide (a.1 ≤ b.1) else true) else false

def sortTopDocsBySpec (topDocs : List (Score × Document)) (spec : SortSpec) :
    List (Score × Document) :=
  if spec.field = .score then topDocs
  else
    let indexed := topDocs.zipIdx.map fun x => (x.2, sortKey lib spec.field x.1.2)
    (indexed.mergeSort spec.before).filterMap fun x => topDocs[x.1]?

/-! ## Searching -/

/-- `usize::MAX`. -/
def usizeMax : Nat := 18446744073709551615

def saturatingAdd (a b : Nat) : Nat := min (a + b) usizeMax

def saturatingMul (a b : Nat) : Nat := min (a * b) usizeMax

/-- `as usize`. -/
def asUsize (n : Int) : Nat := (n % 18446744073709551616).toNat

/-- The options that the edition searches read. -/
structure SearchOptions where
  collapseToWorks : Bool := false
  workOverfetch : Int := 8
  sort : Option SortSpec := none
  offset : Int := 0
  sourceFilter : Option String := none

/-- How many of the sorted documents are looked at. -/
def baseLimit (limit : Nat) (opts : SearchOptions) : Nat :=
  let effectiveLimit := saturatingAdd limit (asUsize opts.offset)
  if opts.collapseToWorks then saturatingMul effectiveLimit (asUsize (max opts.workOverfetch 1))
  else effectiveLimit

/-- How many of the ranked documents are taken. -/
def fetchLimit (limit : Nat) (opts : SearchOptions) : Nat :=
  let base := baseLimit limit opts
  if opts.sort.isSome then max (saturatingMul base 2) (saturatingAdd base 64) else base

/-- The documents of the pages before are drained. -/
def drainOffset {α : Type} (offset : Nat) (topDocs : List α) : List α :=
  if 0 < offset ∧ offset < topDocs.length then topDocs.drop offset
  else if topDocs.length ≤ offset then []
  else topDocs

/-- The documents a page is made from. -/
def windowDocs (searcher : Searcher tantivy Score) (editionQuery : Query Leaf) (limit : Nat)
    (opts : SearchOptions) : List (Score × Document) :=
  let fetched := searcher.topDocs editionQuery (fetchLimit limit opts)
  let topDocs := match opts.sort with
    | none => fetched
    | some spec => sortTopDocsBySpec lib fetched spec
  drainOffset (asUsize (max opts.offset 0)) (topDocs.take (baseLimit limit opts))

/-! ## Collapsing -/

section Collapse

variable [LinearOrder Score]

/-- A further hit of a work that was seen. -/
def mergeHit (existing h : SearchHit Score) : SearchHit Score :=
  { existing with
    groupedEditionIds := existing.groupedEditionIds ++ h.editionId.toList
    score := if existing.score < h.score then h.score else existing.score }

/-- The first hit of a work. -/
def openGroup (h : SearchHit Score) : SearchHit Score :=
  { h with groupedEditionIds := h.groupedEditionIds ++ h.editionId.toList }

/-- The hits so far by work id, and the work ids in the order they were seen. -/
structure Grouped (Score : Type) where
  grouped : Map String (SearchHit Score)
  order : List String

def Grouped.add (g : Grouped Score) (h : SearchHit Score) : Grouped Score :=
  match g.grouped.lookup h.workId with
  | some existing => { g with grouped := g.grouped.insert h.workId (mergeHit existing h) }
  | none => ⟨g.grouped.insert h.workId (openGroup h), g.order ++ [h.workId]⟩

/-- The second loop, with what it has put out; the limit is looked at after a push. -/
def emit (limit : Nat) : List String → Map String (SearchHit Score) → List (SearchHit Score) →
    List (SearchHit Score)
  | [], _, out => out
  | key :: order, grouped, out =>
      match grouped.lookup key with
      | none => emit limit order grouped out
      | some h =>
          if limit ≤ (out ++ [h]).length then out ++ [h]
          else emit limit order (grouped.erase key) (out ++ [h])

def collapseEditionsToWorks (hits : List (SearchHit Score)) (limit : Nat) :
    List (SearchHit Score) :=
  let g := hits.foldl Grouped.add ⟨∅, []⟩
  emit limit g.order g.grouped []

/-- The tail of the edition searches. -/
def finishEditionSearch (searcher : Searcher tantivy Score) (editionQuery : Query Leaf)
    (limit : Nat) (opts : SearchOptions) : List (SearchHit Score) :=
  let hits := (windowDocs lib searcher editionQuery limit opts).map buildHit
  if opts.collapseToWorks then collapseEditionsToWorks hits limit else hits.take limit

def searchWithQuery (searcher : Searcher tantivy Score) (query : Query Leaf) (limit : Nat)
    (opts : SearchOptions) : List (SearchHit Score) :=
  finishEditionSearch lib searcher (editionQuery query) limit opts

/-- A filter without labels, and the documents of editions only. -/
def buildFilteredQuery (tantivy : Tantivy) (env : Env) (queryStr : String)
    (filters : WorkFilters) : Except String (Query Leaf) :=
  (WorkFiltersQuery.buildQuery tantivy env ⟨⟨filters, [], []⟩, queryStr⟩).map editionQuery

/-- `WorkFilters::default()`. -/
def defaultFilters : WorkFilters := ⟨[], [], [], [], [], [], [], none⟩

def searchWithOptions (searcher : Searcher tantivy Score) (env : Env) (queryStr : String)
    (limit : Nat) (opts : SearchOptions) : Except String (List (SearchHit Score)) := do
  let query ← buildFilteredQuery tantivy env queryStr defaultFilters
  let query := match opts.sourceFilter with
    | none => query
    | some source => withOccur .must [query, .leaf (.terms .source [source]),
        .leaf (.terms .kind ["edition"])]
  pure (finishEditionSearch lib searcher query limit opts)

end Collapse

/-! ## What the sort gives -/

/-- The order of the sort, over scored documents. -/
def SortSpec.order (spec : SortSpec) (a b : Score × Document) : Bool :=
  spec.le (sortKey lib spec.field a.2) (sortKey lib spec.field b.2)

variable {lib}

theorem sortKey_le_trans (field : SortField) (a b c : Document)
    (hab : (sortKey lib field a).le (sortKey lib field b) = true)
    (hbc : (sortKey lib field b).le (sortKey lib field c) = true) :
    (sortKey lib field a).le (sortKey lib field c) = true := by
  cases field with
  | title =>
      exact decide_eq_true (String.le_trans (of_decide_eq_true hab) (of_decide_eq_true hbc))
  | createdAt =>
      exact decide_eq_true (Int.le_trans (of_decide_eq_true hab) (of_decide_eq_true hbc))
  | updatedAt =>
      exact decide_eq_true (Int.le_trans (of_decide_eq_true hab) (of_decide_eq_true hbc))
  | score => rfl

theorem sortKey_le_total (field : SortField) (a b : Document) :
    ((sortKey lib field a).le (sortKey lib field b) ||
      (sortKey lib field b).le (sortKey lib field a)) = true := by
  rw [Bool.or_eq_true]
  cases field with
  | title => exact (String.le_total _ _).imp decide_eq_true decide_eq_true
  | createdAt => exact (Int.le_total _ _).imp decide_eq_true decide_eq_true
  | updatedAt => exact (Int.le_total _ _).imp decide_eq_true decide_eq_true
  | score => exact Or.inl rfl

theorem SortSpec.order_trans (spec : SortSpec) (a b c : Score × Document)
    (hab : spec.order lib a b = true) (hbc : spec.order lib b c = true) :
    spec.order lib a c = true := by
  cases hdir : spec.direction with
  | asc =>
      simp only [SortSpec.order, SortSpec.le, hdir] at hab hbc ⊢
      exact sortKey_le_trans _ _ _ _ hab hbc
  | desc =>
      simp only [SortSpec.order, SortSpec.le, hdir] at hab hbc ⊢
      exact sortKey_le_trans _ _ _ _ hbc hab

theorem SortSpec.order_total (spec : SortSpec) (a b : Score × Document) :
    (spec.order lib a b || spec.order lib b a) = true := by
  cases hdir : spec.direction with
  | asc =>
      simp only [SortSpec.order, SortSpec.le, hdir]
      exact sortKey_le_total _ _ _
  | desc =>
      simp only [SortSpec.order, SortSpec.le, hdir]
      exact sortKey_le_total _ _ _

/-- The documents are sorted by the key, ties in the order they came. -/
theorem sortTopDocsBySpec_eq (topDocs : List (Score × Document)) (spec : SortSpec) :
    sortTopDocsBySpec lib topDocs spec = (byKey (spec.order lib) topDocs).map Prod.fst := by
  rw [sortTopDocsBySpec]
  split
  next hscore =>
    rw [map_fst_byKey, List.mergeSort_of_pairwise]
    refine List.pairwise_of_forall fun a b => ?_
    simp only [SortSpec.order, SortSpec.le, hscore, sortKey, SortKey.le]
    cases spec.direction with
    | asc => rfl
    | desc => rfl
  next =>
    dsimp only
    rw [← List.map_mergeSort (r := List.zipIdxLE (spec.order lib)), List.filterMap_map]
    · rw [← List.filterMap_eq_map]
      refine List.filterMap_congr fun x hx => ?_
      exact mem_byKey.1 hx
    · exact fun a _ b _ => rfl

/-! ## Sorted pages -/

section Pages

variable [LinearOrder Score] (lib) (searcher : Searcher tantivy Score) (query : Query Leaf)
  (spec : SortSpec) (limit : Nat)

def sortedPage (i : Nat) : List (SearchHit Score) :=
  searchWithQuery lib searcher query limit { sort := some spec, offset := (i * limit : Nat) }

/-- The pages one after the other, as long as the offset can be written. -/
def PagesExact : Prop :=
  ∀ n, (∀ i < n, i * limit < 9223372036854775808) →
    (searcher.ranked (editionQuery query)).length ≤ n * limit →
    (List.range n).flatMap (sortedPage lib searcher query spec limit) =
        ((searcher.ranked (editionQuery query)).mergeSort (spec.order lib)).map buildHit ∧
      (((List.range n).flatMap (sortedPage lib searcher query spec limit)).map
        fun h => h.editionId).Nodup

/-- No two editions that match have one id. -/
def DistinctEditions : Prop :=
  ((searcher.ranked (editionQuery query)).map fun x => (buildHit x).editionId).Nodup

/-- What is sorted up to the end of each page ranks among what is fetched for it. -/
def PagesFetched : Prop :=
  ∀ i, i * limit < (searcher.ranked (editionQuery query)).length →
    ∀ x ∈ (byKey (spec.order lib) (searcher.ranked (editionQuery query))).take ((i + 1) * limit),
      x.2 < max (2 * ((i + 1) * limit)) ((i + 1) * limit + 64)

variable {lib searcher query spec limit}

theorem drainOffset_eq {α : Type} (offset : Nat) (l : List α) : drainOffset offset l = l.drop offset := by
  rw [drainOffset]
  split
  next => rfl
  next h =>
    split
    next hle => rw [List.drop_eq_nil_of_le hle]
    next hlt =>
      have hzero : offset = 0 := by omega
      rw [hzero, List.drop_zero]

theorem asUsize_natCast {n : Nat} (h : n < 9223372036854775808) : asUsize (n : Int) = n := by
  rw [asUsize]
  omega

/-- A page is cut out of what the sort keeps of the documents that are fetched for it. -/
theorem sortedPage_eq {i : Nat} (hoffset : i * limit < 9223372036854775808) :
    sortedPage lib searcher query spec limit i =
      (page limit (((byKey (spec.order lib) (searcher.ranked (editionQuery query))).filter
        fun x => decide (x.2 < max (2 * ((i + 1) * limit)) ((i + 1) * limit + 64))).map Prod.fst)
        i).map buildHit := by
  have hlt := searcher.length_ranked_lt (editionQuery query)
  have hsucc : (i + 1) * limit = i * limit + limit := Nat.succ_mul i limit
  have hmax : max ((i * limit : Nat) : Int) 0 = (i * limit : Nat) := by omega
  have hsort : sortTopDocsBySpec lib (searcher.topDocs (editionQuery query)
      (fetchLimit limit { sort := some spec, offset := (i * limit : Nat) })) spec =
      ((byKey (spec.order lib) (searcher.ranked (editionQuery query))).filter
        fun x => decide (x.2 < max (2 * ((i + 1) * limit)) ((i + 1) * limit + 64))).map Prod.fst := by
    rw [sortTopDocsBySpec_eq, Searcher.topDocs, byKey_take spec.order_trans spec.order_total]
    refine congrArg (List.map Prod.fst) (List.filter_congr fun x hx => ?_)
    -- a limit that saturates is beyond every position
    have hpos : x.2 < (searcher.ranked (editionQuery query)).length := by
      obtain ⟨h, _⟩ := List.getElem?_eq_some_iff.1 (mem_byKey.1 hx)
      exact h
    simp only [fetchLimit, baseLimit, saturatingAdd, saturatingMul, usizeMax,
      asUsize_natCast hoffset, Option.isSome_some, if_true, hsucc]
    refine decide_eq_decide.2 ?_
    simp only [Bool.false_eq_true, if_false]
    omega
  have hlength : (((byKey (spec.order lib) (searcher.ranked (editionQuery query))).filter
      fun x => decide (x.2 < max (2 * ((i + 1) * limit)) ((i + 1) * limit + 64))).map
        Prod.fst).length < 9223372036854775808 := by
    refine Nat.lt_of_le_of_lt ?_ hlt
    rw [List.length_map]
    exact (List.length_filter_le _ _).trans (Nat.le_of_eq (length_byKey _))
  have hbase : baseLimit limit { sort := some spec, offset := (i * limit : Nat) } =
      min (i * limit + limit) usizeMax := by
    simp only [baseLimit, saturatingAdd, asUsize_natCast hoffset, Bool.false_eq_true, if_false,
      Nat.add_comm]
  unfold sortedPage searchWithQuery finishEditionSearch windowDocs
  dsimp only
  rw [if_neg Bool.false_ne_true, hmax, asUsize_natCast hoffset, drainOffset_eq, hsort, hbase,
    ← List.map_take, page_eq, hsucc]
  rw [hsucc] at hlength
  refine congrArg (List.map buildHit) ?_
  generalize ((byKey (spec.order lib) (searcher.ranked (editionQuery query))).filter
    fun x => decide (x.2 < max (2 * (i * limit + limit)) (i * limit + limit + 64))).map
      Prod.fst = l at hlength ⊢
  have htake : l.take (min (i * limit + limit) usizeMax) = l.take (i * limit + limit) := by
    by_cases hle : i * limit + limit ≤ usizeMax
    · rw [Nat.min_eq_left hle]
    · have hlong : l.length ≤ usizeMax := by
        rw [usizeMax]
        omega
      rw [Nat.min_eq_right (Nat.le_of_not_le hle), List.take_of_length_le hlong,
        List.take_of_length_le (Nat.le_trans hlong (Nat.le_of_not_le hle))]
  rw [htake, List.drop_take, Nat.add_sub_cancel_left, List.take_take, Nat.min_self]

omit [LinearOrder Score] in
theorem map_map_fst_byKey {β : Type} (f : Score × Document → β) (l : List (Score × Document)) :
    (l.mergeSort (spec.order lib)).map f = ((byKey (spec.order lib) l).map Prod.fst).map f := by
  rw [map_fst_byKey]

/-- If all that is needed is fetched, each page is the page of the sorted list. -/
theorem sortedPage_of_fetched (hfetched : PagesFetched lib searcher query spec limit) {i : Nat}
    (hoffset : i * limit < 9223372036854775808) :
    sortedPage lib searcher query spec limit i =
      page limit (((searcher.ranked (editionQuery query)).mergeSort (spec.order lib)).map buildHit)
        i := by
  rw [sortedPage_eq hoffset, map_page, map_map_fst_byKey]
  by_cases hmore : i * limit < (searcher.ranked (editionQuery query)).length
  · rw [page_eq, page_eq, ← List.map_take, ← List.map_take, ← List.map_take, ← List.map_take,
      take_filter_eq_iff.2 fun x hx => decide_eq_true (hfetched i hmore x hx)]
  · have hle := Nat.le_of_not_lt hmore
    rw [page_of_length_le, page_of_length_le]
    · rwa [List.length_map, List.length_map, length_byKey]
    · rw [List.length_map, List.length_map]
      exact (List.length_filter_le _ _).trans (by rwa [length_byKey])

/-- A page is as long as it should be, right or not. -/
theorem length_sortedPage {i : Nat} (hoffset : i * limit < 9223372036854775808) :
    (sortedPage lib searcher query spec limit i).length =
      (page limit (((searcher.ranked (editionQuery query)).mergeSort (spec.order lib)).map buildHit)
        i).length := by
  have hkept : ((byKey (spec.order lib) (searcher.ranked (editionQuery query))).filter
      fun x => decide (x.2 < max (2 * ((i + 1) * limit)) ((i + 1) * limit + 64))).length =
        min (max (2 * ((i + 1) * limit)) ((i + 1) * limit + 64))
          (searcher.ranked (editionQuery query)).length := by
    rw [← byKey_take spec.order_trans spec.order_total, length_byKey, List.length_take]
  rw [sortedPage_eq hoffset, List.length_map, length_page, length_page, List.length_map,
    List.length_map, List.length_mergeSort, hkept]
  have hsucc : (i + 1) * limit = i * limit + limit := Nat.succ_mul i limit
  omega

omit [LinearOrder Score] in
/-- The editions are distinct in whatever order. -/
theorem nodup_sorted_iff : ((((searcher.ranked (editionQuery query)).mergeSort
    (spec.order lib)).map buildHit).map fun h => h.editionId).Nodup ↔
      DistinctEditions searcher query := by
  rw [List.map_map]
  exact ((List.mergeSort_perm _ _).map _).nodup_iff

/-- Pages that make up the sorted list are each made from what is fetched for it. -/
theorem fetched_of_pagesExact (hlimit : 1 ≤ limit)
    (h : PagesExact lib searcher query spec limit) :
    DistinctEditions searcher query ∧ PagesFetched lib searcher query spec limit := by
  generalize hm : (searcher.ranked (editionQuery query)).length = m at *
  have hmlt : m < 9223372036854775808 := hm ▸ searcher.length_ranked_lt (editionQuery query)
  -- as many pages as it takes
  have hoffset : ∀ i < m / limit + 1, i * limit < 9223372036854775808 := by
    intro i hi
    have := Nat.mul_le_of_le_div limit i m (Nat.le_of_lt_succ hi)
    omega
  have henough : m ≤ (m / limit + 1) * limit := by
    rw [Nat.mul_comm]
    exact Nat.le_of_lt (Nat.lt_mul_div_succ m hlimit)
  obtain ⟨hpages, hnodup⟩ := h _ hoffset (hm ▸ henough)
  rw [hpages] at hnodup
  refine ⟨nodup_sorted_iff.1 hnodup, ?_⟩
  have hpage : ∀ i < m / limit + 1, sortedPage lib searcher query spec limit i =
      page limit (((searcher.ranked (editionQuery query)).mergeSort
        (spec.order lib)).map buildHit) i := by
    refine eq_of_flatMap_eq (fun i hi => length_sortedPage (hoffset i hi)) ?_
    rw [hpages, flatMap_page, List.take_of_length_le]
    rwa [List.length_map, List.length_mergeSort, hm]
  rw [map_map_fst_byKey, List.map_map, List.map_map] at hnodup
  intro i _ x hx
  obtain ⟨k, hk, hkx⟩ := List.mem_take_iff_getElem.1 hx
  have hget : (byKey (spec.order lib) (searcher.ranked (editionQuery query)))[k]? = some x :=
    List.getElem?_eq_some_iff.2 ⟨by omega, hkx⟩
  rw [length_byKey, hm] at hk
  -- the page that has the document in it
  have hj : k / limit < m / limit + 1 :=
    Nat.lt_succ_of_le (Nat.div_le_div_right (by omega))
  have hr : k % limit < limit := Nat.mod_lt k hlimit
  have hat := congrArg (fun l => l[k % limit]?) (hpage (k / limit) hj)
  rw [sortedPage_eq (hoffset _ hj), map_page, map_map_fst_byKey, getElem?_page hr,
    getElem?_page hr, Nat.div_add_mod', List.map_map, List.map_map, List.getElem?_map,
    List.getElem?_map, hget, Option.map_some, Option.map_eq_some_iff] at hat
  obtain ⟨y, hy, hhit⟩ := hat
  have hy' := List.mem_of_getElem? hy
  have hsame : y = x := by
    refine List.inj_on_of_nodup_map hnodup (List.mem_of_mem_filter hy') (List.mem_of_mem_take hx) ?_
    exact congrArg SearchHit.editionId hhit
  have hbound := of_decide_eq_true (List.mem_filter.1 hy').2
  rw [hsame] at hbound
  have hki : k < (i + 1) * limit := by omega
  have hle : (k / limit + 1) * limit ≤ (i + 1) * limit :=
    Nat.mul_le_mul_right _ (Nat.succ_le_of_lt ((Nat.div_lt_iff_lt_mul hlimit).2 hki))
  omega

theorem pagesExact_of_fetched (hdistinct : DistinctEditions searcher query)
    (hfetched : PagesFetched lib searcher query spec limit) :
    PagesExact lib searcher query spec limit := by
  intro n hoffset hn
  have hpages : (List.range n).flatMap (sortedPage lib searcher query spec limit) =
      ((searcher.ranked (editionQuery query)).mergeSort (spec.order lib)).map buildHit := by
    have hlist : (List.range n).map (sortedPage lib searcher query spec limit) =
        (List.range n).map (page limit
          (((searcher.ranked (editionQuery query)).mergeSort (spec.order lib)).map buildHit)) :=
      List.map_congr_left fun i hi =>
        sortedPage_of_fetched hfetched (hoffset i (List.mem_range.1 hi))
    rw [List.flatMap_def, hlist, ← List.flatMap_def, flatMap_page, List.take_of_length_le]
    rwa [List.length_map, List.length_mergeSort]
  rw [hpages]
  exact ⟨rfl, nodup_sorted_iff.2 hdistinct⟩

/-- **PAGING THROUGH A SORTED SEARCH IS EXACT** exactly if no two editions that match have one
    id, and what comes up to the end of each page ranks among what is fetched for it. -/
theorem pagesExact_iff (lib : IndexLib) (searcher : Searcher tantivy Score) (query : Query Leaf)
    (spec : SortSpec) (limit : Nat) (hlimit : 1 ≤ limit) :
    PagesExact lib searcher query spec limit ↔
      DistinctEditions searcher query ∧ PagesFetched lib searcher query spec limit :=
  ⟨fetched_of_pagesExact hlimit, fun h => pagesExact_of_fetched h.1 h.2⟩

end Pages

/-! ## A small index -/

/-- An index that ranks all documents alike, in their order. -/
def Searcher.plain (tantivy : Tantivy) (docs : List Document)
    (h : docs.length < 9223372036854775808) : Searcher tantivy Nat where
  docs
  ranked query := (docs.filter (holdsFor tantivy query)).map fun d => (0, d)
  ranked_perm query := by
    rw [List.map_map]
    exact .of_eq (List.map_id _)
  length_lt := h

/-- The document of an edition, with no more than its ids and a date. -/
def smallEdition (editionId workId : String) (createdAt : Int) : Document :=
  [(.editionId, .text editionId), (.workId, .text workId), (.kind, .text "edition"),
    (.createdAt, .date createdAt)]

theorem matching_plain {docs : List Document} (hkind : ∀ d ∈ docs, textsOf .kind d = ["edition"]) :
    docs.filter (holdsFor tantivy (editionQuery (.leaf .all))) = docs := by
  refine List.filter_eq_self.2 fun d hd => ?_
  rw [holdsFor_editionQuery, hkind d hd, holdsFor_leaf]
  rfl

theorem ranked_plain {docs : List Document} {h : docs.length < 9223372036854775808}
    (hkind : ∀ d ∈ docs, textsOf .kind d = ["edition"]) :
    (Searcher.plain tantivy docs h).ranked (editionQuery (.leaf .all)) =
      docs.map fun d => (0, d) :=
  congrArg (List.map fun d => (0, d)) (matching_plain hkind)

def nthEdition (n : Nat) : Document := smallEdition (toString n) "w" n

/-- Sixty-six editions; the last in the ranking is the newest. -/
def sixtySix : Searcher plainTantivy Nat :=
  .plain plainTantivy ((List.range 66).map nthEdition)
    (by rw [List.length_map, List.length_range]; decide)

def newestFirst : SortSpec := ⟨.createdAt, .desc⟩

theorem ranked_sixtySix : sixtySix.ranked (editionQuery (.leaf .all)) =
    (List.range 66).map fun n => (0, nthEdition n) := by
  refine (ranked_plain fun d hd => ?_).trans (List.map_map ..)
  obtain ⟨n, _, rfl⟩ := List.mem_map.1 hd
  rfl

/-- The equivalence at the sixty-six editions. -/
theorem pagesExact_sixtySix_iff : 1 ≤ 1 ∧
    (PagesExact plainLib sixtySix (.leaf .all) newestFirst 1 ↔
      DistinctEditions sixtySix (.leaf .all) ∧
        PagesFetched plainLib sixtySix (.leaf .all) newestFirst 1) :=
  ⟨Nat.le_refl 1, pagesExact_iff plainLib sixtySix (.leaf .all) newestFirst 1 (Nat.le_refl 1)⟩

/-- The newest edition is not among the sixty-five that are fetched for the first page. -/
theorem not_pagesExact_sixtySix :
    ¬ PagesExact plainLib sixtySix (.leaf .all) newestFirst 1 := by
  intro h
  have hfetched := (fetched_of_pagesExact (Nat.le_refl 1) h).2 0
  rw [ranked_sixtySix] at hfetched
  have hlength : (byKey (newestFirst.order plainLib) ((List.range 66).map fun n =>
      ((0 : Nat), nthEdition n))).length = 66 := by
    rw [length_byKey, List.length_map, List.length_range]
  have hat : ∀ n < 66, ((List.range 66).map fun n =>
      ((0 : Nat), nthEdition n))[n]? =
        some (0, nthEdition n) := by
    intro n hn
    rw [List.getElem?_map, List.getElem?_range hn, Option.map_some]
  obtain ⟨x, hx⟩ := List.exists_mem_of_length_pos (l := (byKey (newestFirst.order plainLib)
    ((List.range 66).map fun n => ((0 : Nat), nthEdition n))).take 1)
    (by rw [List.length_take, hlength]; decide)
  have hpos := hfetched (by rw [List.length_map, List.length_range]; decide) x (by simpa using hx)
  have hlast := le_of_mem_take_one newestFirst.order_trans newestFirst.order_total hx
    (mem_byKey (x := ((0, nthEdition 65), 65)).2 (hat 65 (by decide)))
  have hxat := mem_byKey.1 (List.mem_of_mem_take hx)
  rw [hat x.2 (by omega), Option.some.injEq] at hxat
  rw [← hxat] at hlast
  have hdate : (65 : Int) ≤ x.2 := of_decide_eq_true hlast
  omega

end SearchPages

import Livtet.Collapse
import Livtet.Lib.DistinctPages

/-! # Pages of works

    A page of works is collapsed from the editions that come after those of the pages
    before it, as many as the limit says, were dropped one by one. A work that has an edition
    on either side of a cut is on both pages, and a work with two editions on one page
    brings in what the next one begins with. So only the last page can have a work with two
    editions that match (`worksPaged_iff`). -/

namespace SearchPages

open SyncStore (Env)
open SyncPairing Maps SearchIndex Library BoolQuery Filters RankedSort FirstSeen DistinctPages

variable {tantivy : Tantivy} {Score : Type} [LinearOrder Score]

section Works

variable (lib : IndexLib) (searcher : Searcher tantivy Score) (env : Env) (queryStr : String)
  (query : Query Leaf) (limit : Nat)

/-- `search_works` of the bindings. -/
def searchWorks (offset : Nat) : Except String (List (SearchHit Score)) :=
  searchWithOptions lib searcher env queryStr limit { collapseToWorks := true, offset }

/-- The hits of all editions that match, in the order of their scores. -/
def matchingHits : List (SearchHit Score) := (searcher.ranked query).map buildHit

/-- Asking for page after page until one is empty gives each work with an edition that matches
    once, with the ids of all these editions. An offset is a number of 32 bits. -/
def WorksPaged : Prop :=
  ∃ (n : Nat) (pages : Nat → List (SearchHit Score)),
    (∀ i ≤ n, i * limit < 4294967296 ∧
      searchWorks lib searcher env queryStr limit (i * limit) = .ok (pages i)) ∧
    (∀ i < n, pages i ≠ []) ∧ pages n = [] ∧
    (((List.range n).flatMap pages).map fun h => h.workId).Nodup ∧
    (∀ w, (w ∈ ((List.range n).flatMap pages).map fun h => h.workId) ↔
      w ∈ (matchingHits searcher query).map fun h => h.workId) ∧
    ∀ h ∈ (List.range n).flatMap pages, h.groupedEditionIds.Perm
      ((hitsOf (matchingHits searcher query) h.workId).filterMap fun h => h.editionId)

/-- A work with two editions that match has them on the last page. -/
def TwiceOnlyLast (hits : List (SearchHit Score)) : Prop :=
  ∀ r₁ r₂ : Nat, r₁ < r₂ → ∀ x y, hits[r₁]? = some x → hits[r₂]? = some y →
    x.workId = y.workId → (hits.length - 1) / limit * limit ≤ r₁

/-- How many pages there are until one is empty. -/
def pageCount (hits : List (SearchHit Score)) : Nat := (hits.length + (limit - 1)) / limit

variable {lib searcher env queryStr query limit}

omit [LinearOrder Score] in
theorem length_matchingHits_lt : (matchingHits searcher query).length < 9223372036854775808 := by
  rw [matchingHits, List.length_map]
  exact searcher.length_ranked_lt query

/-- A page of works is collapsed from the hits after the offset, of eight times as many as are
    needed up to its end. -/
theorem searchWorks_eq (hquery : buildFilteredQuery tantivy env queryStr defaultFilters = .ok query)
    {i : Nat} (hoffset : i * limit < 4294967296) :
    searchWorks lib searcher env queryStr limit (i * limit) = .ok (collapseEditionsToWorks
      (((matchingHits searcher query).take (8 * ((i + 1) * limit))).drop (i * limit)) limit) := by
  have hlt := searcher.length_ranked_lt query
  have hsucc : (i + 1) * limit = i * limit + limit := Nat.succ_mul i limit
  have hsize : asUsize ((i * limit : Nat) : Int) = i * limit := asUsize_natCast (by omega)
  have hmax : max ((i * limit : Nat) : Int) 0 = (i * limit : Nat) := by omega
  have height : asUsize (max 8 1) = 8 := by decide
  -- a limit that saturates is beyond the end of the list
  have htake : ∀ l : List (Score × Document), l.length < 9223372036854775808 →
      l.take (saturatingMul (saturatingAdd limit (i * limit)) 8) =
        l.take (8 * ((i + 1) * limit)) := by
    intro l hl
    rw [List.take_eq_take_iff]
    simp only [saturatingMul, saturatingAdd, usizeMax, hsucc]
    omega
  have hbase : ∀ offset : Nat, baseLimit limit { collapseToWorks := true, offset } =
      saturatingMul (saturatingAdd limit (asUsize offset)) 8 := by
    intro offset
    rw [← height]
    rfl
  have hwindow : windowDocs lib searcher query limit
      { collapseToWorks := true, offset := (i * limit : Nat) } =
        ((searcher.ranked query).take (8 * ((i + 1) * limit))).drop (i * limit) := by
    unfold windowDocs fetchLimit
    dsimp only
    rw [hmax, hbase, hsize, drainOffset_eq, Searcher.topDocs]
    rw [if_neg (by decide), List.take_take, Nat.min_self, htake _ hlt]
  unfold searchWorks searchWithOptions
  rw [hquery]
  refine congrArg Except.ok ?_
  rw [finishEditionSearch]
  dsimp only
  rw [if_pos rfl, hwindow, List.map_drop, List.map_take]
  rfl

end Works

/-! ## Pages of hits -/

section Pages

variable {hits : List (SearchHit Score)} {limit p : Nat}

/-- How far a page of works looks. -/
def upTo (limit i : Nat) : Nat := 8 * ((i + 1) * limit)

def worksPage (limit : Nat) (hits : List (SearchHit Score)) (i : Nat) : List (SearchHit Score) :=
  collapseEditionsToWorks ((hits.take (upTo limit i)).drop (i * limit)) limit

theorem lt_upTo (hlimit : 1 ≤ limit) (i : Nat) : (i + 1) * limit < upTo limit i := by
  have hpos : 0 < (i + 1) * limit := Nat.mul_pos (Nat.succ_pos i) hlimit
  rw [upTo]
  omega

/-- The works of a page are those that are seen from where it begins. -/
theorem map_workId_worksPage (hlimit : 1 ≤ limit) (i : Nat) :
    (worksPage limit hits i).map (fun h => h.workId) =
      seenPage limit (upTo limit) (hits.map fun h => h.workId) i := by
  rw [worksPage, collapse_eq, Nat.max_eq_left hlimit,
    map_workId_filterMap_merged fun w hw => List.mem_eraseDups.1 (List.mem_of_mem_take hw),
    seenPage, List.map_drop, List.map_take]

theorem worksPage_eq_nil_iff (hlimit : 1 ≤ limit) {i : Nat} :
    worksPage limit hits i = [] ↔ hits.length ≤ i * limit := by
  have hfar := lt_upTo hlimit i
  rw [Nat.succ_mul] at hfar
  rw [worksPage, collapse_eq_nil_iff, List.drop_eq_nil_iff, List.length_take]
  omega

omit [LinearOrder Score] in
/-- The last page that is not empty. -/
theorem lastPage_eq (hp : p * limit < hits.length) (hlast : hits.length ≤ (p + 1) * limit) :
    (hits.length - 1) / limit = p :=
  Nat.div_eq_of_lt_le (Nat.le_sub_one_of_lt hp) (by omega)

omit [LinearOrder Score] in
/-- No work that has an edition before the last page has another one. -/
theorem twiceOnlyLast_iff (hp : p * limit < hits.length) (hlast : hits.length ≤ (p + 1) * limit) :
    TwiceOnlyLast limit hits ↔ ∀ r₁ r₂ : Nat, r₁ < r₂ → ∀ w,
      (hits.map fun h => h.workId)[r₁]? = some w → (hits.map fun h => h.workId)[r₂]? = some w →
        p * limit ≤ r₁ := by
  rw [TwiceOnlyLast]
  rw [lastPage_eq hp hlast]
  simp only [List.getElem?_map, Option.map_eq_some_iff]
  constructor
  · rintro h r₁ r₂ hlt w ⟨x, hx, hxw⟩ ⟨y, hy, hyw⟩
    exact h r₁ r₂ hlt x y hx hy (hxw.trans hyw.symm)
  · intro h r₁ r₂ hlt x y hx hy hxy
    exact h r₁ r₂ hlt x.workId ⟨x, hx, rfl⟩ ⟨y, hy, hxy.symm⟩

theorem nodup_worksPages_iff (hlimit : 1 ≤ limit) (hp : p * limit < hits.length)
    (hlast : hits.length ≤ (p + 1) * limit) :
    (((List.range (p + 1)).flatMap (worksPage limit hits)).map fun h => h.workId).Nodup ↔
      TwiceOnlyLast limit hits := by
  rw [twiceOnlyLast_iff hp hlast, List.map_flatMap,
    List.flatMap_congr fun i _ => map_workId_worksPage hlimit i]
  rw [← List.length_map (f := fun h : SearchHit Score => h.workId)] at hp hlast
  rw [nodup_flatMap_seenPage_iff hlimit (lt_upTo hlimit) hp hlast, nodup_take_append_iff]

/-- All works are on a page then. -/
theorem mem_worksPages_iff (hlimit : 1 ≤ limit) (hp : p * limit < hits.length)
    (hlast : hits.length ≤ (p + 1) * limit) (h : TwiceOnlyLast limit hits) (w : String) :
    (w ∈ ((List.range (p + 1)).flatMap (worksPage limit hits)).map fun h => h.workId) ↔
      w ∈ hits.map fun h => h.workId := by
  have hapart := nodup_take_append_iff.2 ((twiceOnlyLast_iff hp hlast).1 h)
  rw [List.map_flatMap, List.flatMap_congr fun i _ => map_workId_worksPage hlimit i,
    flatMap_seenPage (lt_upTo hlimit) (by rwa [List.length_map])
      fun i hi => nodup_page_of_nodup_take hi hapart.of_append_left,
    List.mem_append, List.mem_eraseDups, ← List.mem_append, List.take_append_drop]

/-- A work on a page has no edition that the page did not look at. -/
theorem groupedEditionIds_worksPage (hlimit : 1 ≤ limit) (hp : p * limit < hits.length)
    (hlast : hits.length ≤ (p + 1) * limit) (h : TwiceOnlyLast limit hits)
    (hfresh : ∀ h ∈ hits, h.groupedEditionIds = []) {i : Nat} (hi : i ≤ p) {g : SearchHit Score}
    (hg : g ∈ worksPage limit hits i) :
    g.groupedEditionIds = (hitsOf hits g.workId).filterMap fun h => h.editionId := by
  have hapart := (twiceOnlyLast_iff hp hlast).1 h
  have hkeys : (hits.map fun h => h.workId).length ≤ (p + 1) * limit := by rwa [List.length_map]
  have hsucc : (i + 1) * limit = i * limit + limit := Nat.succ_mul i limit
  have hle : (i + 1) * limit ≤ (p + 1) * limit :=
    Nat.mul_le_mul_right limit (Nat.succ_le_succ hi)
  have hfar := lt_upTo hlimit i
  have hwindow := groupedEditionIds_of_mem_collapse
    (fun h hh => hfresh h (List.mem_of_mem_take (List.mem_of_mem_drop hh))) hg
  -- the rank at which the page has the work
  have hmem : g.workId ∈ seenPage limit (upTo limit) (hits.map fun h => h.workId) i := by
    rw [← map_workId_worksPage hlimit]
    exact List.mem_map_of_mem hg
  rw [seenPage_eq (lt_upTo hlimit) hi hkeys hapart, List.mem_eraseDups] at hmem
  obtain ⟨k, hk⟩ := List.mem_iff_getElem?.1 hmem
  have hklt : k < limit := by
    obtain ⟨hlength, _⟩ := List.getElem?_eq_some_iff.1 hk
    rw [length_page] at hlength
    omega
  rw [getElem?_page hklt] at hk
  have hsame : hitsOf ((hits.take (upTo limit i)).drop (i * limit)) g.workId =
      hitsOf hits g.workId := by
    refine filter_window (by omega) ?_
    intro r x hx hxw
    have hat : (hits.map fun h => h.workId)[r]? = some g.workId := by
      rw [List.getElem?_map, hx, Option.map_some, of_decide_eq_true hxw]
    obtain ⟨hr, _⟩ := List.getElem?_eq_some_iff.1 hat
    rcases Nat.lt_trichotomy r (i * limit + k) with hbefore | rfl | hafter
    · have hlastPage := hapart r _ hbefore _ hat hk
      have hpage : i * limit ≤ p * limit := Nat.mul_le_mul_right limit hi
      omega
    · omega
    · have hlastPage := hapart _ r hafter _ hk hat
      have heq : i = p := by
        by_contra hne
        have hbelow : (i + 1) * limit ≤ p * limit := Nat.mul_le_mul_right limit (by omega)
        omega
      subst heq
      omega
  rw [hwindow, hsame]

omit [LinearOrder Score] in
theorem pageCount_eq {n : Nat} (hlimit : 1 ≤ limit) (hmore : ∀ i < n, i * limit < hits.length)
    (hend : hits.length ≤ n * limit) : pageCount limit hits = n := by
  refine Nat.div_eq_of_lt_le ?_ (by rw [Nat.succ_mul]; omega)
  cases n with
  | zero => rw [Nat.zero_mul]; exact Nat.zero_le _
  | succ p =>
      have hp := hmore p (Nat.lt_succ_self p)
      rw [Nat.succ_mul]
      omega

omit [LinearOrder Score] in
theorem mul_lt_of_lt_pageCount (hlimit : 1 ≤ limit) {i : Nat} (hi : i < pageCount limit hits) :
    i * limit < hits.length := by
  have hle := (Nat.le_div_iff_mul_le hlimit).1 (Nat.succ_le_of_lt hi)
  rw [Nat.succ_mul] at hle
  omega

omit [LinearOrder Score] in
theorem length_le_pageCount_mul (hlimit : 1 ≤ limit) :
    hits.length ≤ pageCount limit hits * limit := by
  have hlt := Nat.lt_mul_div_succ (hits.length + (limit - 1)) hlimit
  rw [Nat.mul_succ, Nat.mul_comm] at hlt
  rw [pageCount]
  omega

end Pages

/-! ## Page after page -/

section Paged

variable {lib : IndexLib} {searcher : Searcher tantivy Score} {env : Env} {queryStr : String}
  {query : Query Leaf} {limit : Nat}

theorem searchWorks_eq_worksPage
    (hquery : buildFilteredQuery tantivy env queryStr defaultFilters = .ok query) {i : Nat}
    (hoffset : i * limit < 4294967296) :
    searchWorks lib searcher env queryStr limit (i * limit) =
      .ok (worksPage limit (matchingHits searcher query) i) :=
  searchWorks_eq hquery hoffset

omit [LinearOrder Score] in
theorem matchingHits_fresh : ∀ h ∈ matchingHits searcher query, h.groupedEditionIds = [] := by
  intro h hh
  obtain ⟨x, _, rfl⟩ := List.mem_map.1 hh
  rfl

theorem twiceOnlyLast_of_worksPaged
    (hquery : buildFilteredQuery tantivy env queryStr defaultFilters = .ok query)
    (hlimit : 1 ≤ limit) (h : WorksPaged lib searcher env queryStr query limit) :
    pageCount limit (matchingHits searcher query) * limit < 4294967296 ∧
      TwiceOnlyLast limit (matchingHits searcher query) := by
  obtain ⟨n, pages, hok, hmore, hend, hnodup, _, _⟩ := h
  have hpages : ∀ i ≤ n, pages i = worksPage limit (matchingHits searcher query) i := by
    intro i hi
    have hpage := (hok i hi).2
    rw [searchWorks_eq_worksPage hquery (hok i hi).1, Except.ok.injEq] at hpage
    exact hpage.symm
  rw [hpages n (Nat.le_refl n), worksPage_eq_nil_iff hlimit] at hend
  have hbelow : ∀ i < n, i * limit < (matchingHits searcher query).length := by
    intro i hi
    have hne := hmore i hi
    rw [hpages i (Nat.le_of_lt hi), Ne, worksPage_eq_nil_iff hlimit] at hne
    exact Nat.lt_of_not_le hne
  rw [pageCount_eq hlimit hbelow hend]
  refine ⟨(hok n (Nat.le_refl n)).1, ?_⟩
  cases n with
  | zero =>
      rw [Nat.zero_mul] at hend
      rw [List.eq_nil_of_length_eq_zero (Nat.le_zero.1 hend)]
      intro r₁ r₂ _ x y hx
      cases hx
  | succ p =>
      rw [List.flatMap_congr fun i hi =>
        hpages i (Nat.le_of_lt (List.mem_range.1 hi))] at hnodup
      exact (nodup_worksPages_iff hlimit (hbelow p (Nat.lt_succ_self p)) hend).1 hnodup

theorem worksPaged_of_twiceOnlyLast
    (hquery : buildFilteredQuery tantivy env queryStr defaultFilters = .ok query)
    (hlimit : 1 ≤ limit)
    (hoffsets : pageCount limit (matchingHits searcher query) * limit < 4294967296)
    (h : TwiceOnlyLast limit (matchingHits searcher query)) :
    WorksPaged lib searcher env queryStr query limit := by
  have hend : (matchingHits searcher query).length ≤
      pageCount limit (matchingHits searcher query) * limit := length_le_pageCount_mul hlimit
  have hbelow := fun i (hi : i < pageCount limit (matchingHits searcher query)) =>
    mul_lt_of_lt_pageCount hlimit hi
  generalize pageCount limit (matchingHits searcher query) = n at hoffsets hend hbelow
  refine ⟨n, worksPage limit (matchingHits searcher query), fun i hi => ?_, fun i hi => ?_,
    (worksPage_eq_nil_iff hlimit).2 hend, ?_⟩
  · have hle : i * limit ≤ n * limit := Nat.mul_le_mul_right limit hi
    exact ⟨by omega, searchWorks_eq_worksPage hquery (by omega)⟩
  · rw [Ne, worksPage_eq_nil_iff hlimit]
    exact Nat.not_le_of_lt (hbelow i hi)
  cases n with
  | zero =>
      rw [Nat.zero_mul] at hend
      rw [List.eq_nil_of_length_eq_zero (Nat.le_zero.1 hend)]
      exact ⟨List.nodup_nil, fun w => Iff.rfl, fun g hg => absurd hg List.not_mem_nil⟩
  | succ p =>
      have hp := hbelow p (Nat.lt_succ_self p)
      refine ⟨(nodup_worksPages_iff hlimit hp hend).2 h, mem_worksPages_iff hlimit hp hend h, ?_⟩
      intro g hg
      obtain ⟨i, hi, hgi⟩ := List.mem_flatMap.1 hg
      exact .of_eq (groupedEditionIds_worksPage hlimit hp hend h matchingHits_fresh
        (Nat.le_of_lt_succ (List.mem_range.1 hi)) hgi)

end Paged

/-- **PAGING THROUGH THE WORKS IS EXACT** exactly if no work with an edition before the last
    page has another one, and the offset of the empty page can be written. -/
theorem worksPaged_iff (lib : IndexLib) (searcher : Searcher tantivy Score) (env : Env)
    (queryStr : String) (query : Query Leaf) (limit : Nat)
    (hquery : buildFilteredQuery tantivy env queryStr defaultFilters = .ok query)
    (hlimit : 1 ≤ limit) :
    WorksPaged lib searcher env queryStr query limit ↔
      pageCount limit (matchingHits searcher query) * limit < 4294967296 ∧
        TwiceOnlyLast limit (matchingHits searcher query) :=
  ⟨twiceOnlyLast_of_worksPaged hquery hlimit,
    fun h => worksPaged_of_twiceOnlyLast hquery hlimit h.1 h.2⟩

/-! ## A work with two editions -/

/-- Two editions of one work. -/
def twoEditions : Searcher plainTantivy Nat :=
  .plain plainTantivy [smallEdition "e" "w" 0, smallEdition "f" "w" 0] (by decide)

theorem buildFilteredQuery_empty :
    buildFilteredQuery plainTantivy Env.reference "" defaultFilters =
      .ok (editionQuery (.leaf .all)) := rfl

/-- The equivalence at the two editions. -/
theorem worksPaged_twoEditions_iff :
    buildFilteredQuery plainTantivy Env.reference "" defaultFilters =
        .ok (editionQuery (.leaf .all)) ∧ 1 ≤ 1 ∧
      (WorksPaged plainLib twoEditions Env.reference "" (editionQuery (.leaf .all)) 1 ↔
        pageCount 1 (matchingHits twoEditions (editionQuery (.leaf .all))) * 1 < 4294967296 ∧
          TwiceOnlyLast 1 (matchingHits twoEditions (editionQuery (.leaf .all)))) :=
  ⟨buildFilteredQuery_empty, Nat.le_refl 1, worksPaged_iff plainLib twoEditions Env.reference ""
    (editionQuery (.leaf .all)) 1 buildFilteredQuery_empty (Nat.le_refl 1)⟩

/-- With one work a page, the work is on both pages. -/
theorem not_worksPaged_twoEditions :
    ¬ WorksPaged plainLib twoEditions Env.reference "" (editionQuery (.leaf .all)) 1 := by
  intro h
  have hlast := (twiceOnlyLast_of_worksPaged buildFilteredQuery_empty (Nat.le_refl 1) h).2
  have hranked : twoEditions.ranked (editionQuery (.leaf .all)) =
      [(0, smallEdition "e" "w" 0), (0, smallEdition "f" "w" 0)] := by
    refine ranked_plain fun d hd => ?_
    rcases List.mem_pair.1 hd with rfl | rfl
    · rfl
    · rfl
  rw [matchingHits, hranked] at hlast
  exact absurd (hlast 0 1 (by decide) _ _ rfl rfl rfl) (by decide)

end SearchPages

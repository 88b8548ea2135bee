import Livtet.SearchPages
import Mathlib.Data.Finset.Insert

/-! # Counting and listing works

    What is counted as works are the documents that match, one an edition, so the count is
    right exactly if no work has two (`countsAgree_iff`).

    The works are listed from as many editions as there may be works in the list: those of
    the others are missed, unless the first editions are all of different works
    (`idsComplete_iff`). -/

namespace SearchPages

open SyncStore (Env)
open SyncPairing SearchIndex Library BoolQuery Filters FirstSeen

variable {tantivy : Tantivy} {Score : Type}

/-! ## The searches -/

/-- `OPDS_WORK_ID_LIMIT`. -/
def opdsWorkIdLimit : Nat := 1000

/-- `from_str`: the text of a ULID. -/
def DbId.fromStr (env : Env) (s : String) : Option DbId := (env.ulidParse s).bind DbId.ofBytes?

/-- A query without labels. -/
def fromFilters (filters : WorkFilters) (query : String) : WorkFiltersQuery :=
  ⟨⟨filters, [], []⟩, query⟩

def countWorksFiltered (searcher : Searcher tantivy Score) (env : Env) (queryStr : String)
    (filters : WorkFilters) : Except String Nat :=
  (buildFilteredQuery tantivy env queryStr filters).map searcher.count

def countWithQuery (searcher : Searcher tantivy Score) (query : Query Leaf) : Nat :=
  searcher.count (editionQuery query)

/-- The texts that were met, and the ids that were read from them. -/
structure Enumerated where
  seen : Finset String
  out : List DbId

def Enumerated.visit (env : Env) (e : Enumerated) (x : Score × Document) : Enumerated :=
  match firstText .workId x.2 with
  | none => e
  | some key =>
      if key ∈ e.seen then e
      else match DbId.fromStr env key with
        | some parsed => ⟨insert key e.seen, e.out ++ [parsed]⟩
        | none => ⟨insert key e.seen, e.out⟩

def enumerate (env : Env) (topDocs : List (Score × Document)) : List DbId :=
  (topDocs.foldl (Enumerated.visit env) ⟨∅, []⟩).out

def matchingWorkIds (searcher : Searcher tantivy Score) (env : Env) (queryStr : String)
    (filters : WorkFilters) : Except String (List DbId) :=
  (buildFilteredQuery tantivy env queryStr filters).map fun query =>
    enumerate env (searcher.topDocs query opdsWorkIdLimit)

def matchingWorkIdsFromQuery (searcher : Searcher tantivy Score) (env : Env)
    (query : Query Leaf) : List DbId :=
  enumerate env (searcher.topDocs (editionQuery query) opdsWorkIdLimit)

/-! ## Works -/

/-- The work of an edition's document. -/
def workOf (env : Env) (d : Document) : Option DbId :=
  (firstText .workId d).bind (DbId.fromStr env)

/-- The different works, in the order of their first documents. -/
def distinctWorks (env : Env) (docs : List Document) : List DbId :=
  (docs.filterMap (workOf env)).eraseDups

section Works

variable (searcher : Searcher tantivy Score) (env : Env) (queryStr : String)
  (filters : WorkFilters) (query : Query Leaf)

/-- The editions that match. -/
def matchingEditions : List Document :=
  searcher.docs.filter (holdsFor tantivy (editionQuery query))

/-- Both counts are the number of works with an edition that matches. -/
def CountsAgree : Prop :=
  countWorksFiltered searcher env queryStr filters =
      .ok (distinctWorks env (matchingEditions searcher query)).length ∧
    countWithQuery searcher query = (distinctWorks env (matchingEditions searcher query)).length

/-- Each edition that matches has a work, and no two have the same. -/
def OneEditionEach : Prop :=
  (∀ d ∈ matchingEditions searcher query, workOf env d ≠ none) ∧
    ((matchingEditions searcher query).filterMap (workOf env)).Nodup

/-- Both lists are the works with an edition that matches, in the order of the editions that
    rank best, up to the limit. -/
def IdsComplete : Prop :=
  matchingWorkIds searcher env queryStr filters =
      .ok ((distinctWorks env ((searcher.ranked (editionQuery query)).map Prod.snd)).take
        opdsWorkIdLimit) ∧
    matchingWorkIdsFromQuery searcher env query =
      (distinctWorks env ((searcher.ranked (editionQuery query)).map Prod.snd)).take
        opdsWorkIdLimit

/-- The editions that rank best, as many as works are listed at most. -/
def bestEditions : List Document :=
  ((searcher.ranked (editionQuery query)).map Prod.snd).take opdsWorkIdLimit

/-- Among the best editions no work is written in two ways, and they have all works or are of
    as many as can be listed. -/
structure BestEditionsSuffice : Prop where
  spelled : ∀ a ∈ (bestEditions searcher query).filterMap (firstText .workId),
    ∀ b ∈ (bestEditions searcher query).filterMap (firstText .workId), ∀ id,
      DbId.fromStr env a = some id → DbId.fromStr env b = some id → a = b
  enough : (∀ id ∈ (matchingEditions searcher query).filterMap (workOf env),
      id ∈ (bestEditions searcher query).filterMap (workOf env)) ∨
    (((bestEditions searcher query).filterMap (workOf env)).length = opdsWorkIdLimit ∧
      ((bestEditions searcher query).filterMap (workOf env)).Nodup)

variable {searcher env queryStr filters query}

/-! ## The count -/

theorem buildFilteredQuery_eq
    (hquery : (fromFilters filters queryStr).buildQuery tantivy env = .ok query) :
    buildFilteredQuery tantivy env queryStr filters = .ok (editionQuery query) :=
  congrArg (Except.map editionQuery) hquery

/-- There are as many works as editions exactly if each has its own. -/
theorem length_distinctWorks_eq_iff {docs : List Document} :
    (distinctWorks env docs).length = docs.length ↔
      (∀ d ∈ docs, workOf env d ≠ none) ∧ (docs.filterMap (workOf env)).Nodup := by
  have hworks := List.length_filterMap_le (workOf env) docs
  have hseen := (eraseDups_sublist (docs.filterMap (workOf env))).length_le
  have hall : (docs.filterMap (workOf env)).length = docs.length ↔
      ∀ d ∈ docs, workOf env d ≠ none := by
    rw [List.length_filterMap_eq_countP, List.countP_eq_length]
    simp only [Option.isSome_iff_ne_none]
  rw [distinctWorks, ← hall, ← length_eraseDups_eq_iff]
  omega

theorem countsAgree_iff_length
    (hquery : (fromFilters filters queryStr).buildQuery tantivy env = .ok query) :
    CountsAgree searcher env queryStr filters query ↔
      (distinctWorks env (matchingEditions searcher query)).length =
        (matchingEditions searcher query).length := by
  have hcount : countWorksFiltered searcher env queryStr filters =
      .ok (matchingEditions searcher query).length := by
    rw [countWorksFiltered, buildFilteredQuery_eq hquery]
    rfl
  have hwith : countWithQuery searcher query = (matchingEditions searcher query).length := rfl
  rw [CountsAgree, hcount, hwith, Except.ok.injEq, and_self, eq_comm]

/-- **THE COUNTS ARE THE NUMBER OF WORKS** exactly if each edition that matches has a work of
    its own. -/
theorem countsAgree_iff (searcher : Searcher tantivy Score) (env : Env) (queryStr : String)
    (filters : WorkFilters) (query : Query Leaf)
    (hquery : (fromFilters filters queryStr).buildQuery tantivy env = .ok query) :
    CountsAgree searcher env queryStr filters query ↔ OneEditionEach searcher env query := by
  rw [countsAgree_iff_length hquery, length_distinctWorks_eq_iff, OneEditionEach]

/-! ### A work with two editions -/

/-- A work by its number. -/
def nthWork (n : UInt8) : DbId := ⟨List.replicate 16 n, length_sixteen n⟩

/-- An edition of a work. -/
def editionOf (editionId : String) (work : DbId) : Document :=
  smallEdition editionId (work.text Env.reference) 0

theorem workOf_editionOf (editionId : String) (work : DbId) :
    workOf Env.reference (editionOf editionId work) = some work := by
  have hread := Env.reference.ulidParse_text work.val work.property
  have htext : firstText .workId (editionOf editionId work) =
      some (Env.reference.ulidText work.val) := rfl
  rw [workOf, htext, Option.bind_some, DbId.fromStr, hread, Option.bind_some, DbId.ofBytes?,
    dif_pos work.property]

def twoOfOneWork : Searcher plainTantivy Nat :=
  .plain plainTantivy [editionOf "e" (nthWork 0), editionOf "f" (nthWork 0)] (by decide)

theorem buildQuery_empty :
    (fromFilters defaultFilters "").buildQuery plainTantivy Env.reference = .ok (.leaf .all) := rfl

/-- The equivalence at the two editions. -/
theorem countsAgree_twoOfOneWork_iff :
    (fromFilters defaultFilters "").buildQuery plainTantivy Env.reference = .ok (.leaf .all) ∧
      (CountsAgree twoOfOneWork Env.reference "" defaultFilters (.leaf .all) ↔
        OneEditionEach twoOfOneWork Env.reference (.leaf .all)) :=
  ⟨buildQuery_empty, countsAgree_iff twoOfOneWork Env.reference "" defaultFilters (.leaf .all)
    buildQuery_empty⟩

/-- One work is counted twice. -/
theorem not_countsAgree_twoOfOneWork :
    ¬ CountsAgree twoOfOneWork Env.reference "" defaultFilters (.leaf .all) := by
  have hall : matchingEditions twoOfOneWork (.leaf .all) =
      [editionOf "e" (nthWork 0), editionOf "f" (nthWork 0)] := by
    refine matching_plain fun d hd => ?_
    rcases List.mem_pair.1 hd with rfl | rfl
    · rfl
    · rfl
  have hworks : distinctWorks Env.reference
      [editionOf "e" (nthWork 0), editionOf "f" (nthWork 0)] = [nthWork 0] := by
    rw [distinctWorks, List.filterMap_cons_some (workOf_editionOf _ _),
      List.filterMap_cons_some (workOf_editionOf _ _), List.filterMap_nil]
    decide
  rw [countsAgree_iff_length buildQuery_empty, hall, hworks]
  decide

/-! ## The list -/

/-- After the loop: the ids that are read from the texts that are seen. -/
theorem enumerate_eq (topDocs : List (Score × Document)) :
    enumerate env topDocs =
      (topDocs.filterMap fun x => firstText .workId x.2).eraseDups.filterMap
        (DbId.fromStr env) := by
  -- by induction from the right: what is seen are the texts so far, read or not
  have hloop : (∀ key, key ∈ (topDocs.foldl (Enumerated.visit env) ⟨∅, []⟩).seen ↔
      key ∈ topDocs.filterMap fun x => firstText .workId x.2) ∧
      (topDocs.foldl (Enumerated.visit env) ⟨∅, []⟩).out =
        (topDocs.filterMap fun x => firstText .workId x.2).eraseDups.filterMap
          (DbId.fromStr env) := by
    induction topDocs using List.reverseRecOn with
    | nil => exact ⟨fun key => by simp, rfl⟩
    | append_singleton topDocs x ih =>
        obtain ⟨hseen, hout⟩ := ih
        rw [List.foldl_append, List.foldl_cons, List.foldl_nil, List.filterMap_append]
        generalize topDocs.foldl (Enumerated.visit env) ⟨∅, []⟩ = e at hseen hout ⊢
        unfold Enumerated.visit
        cases hkey : firstText .workId x.2 with
        | none =>
            have hone : [x].filterMap (fun x => firstText .workId x.2) = [] :=
              List.filterMap_cons_none hkey
            rw [hone, List.append_nil]
            exact ⟨hseen, hout⟩
        | some key =>
            have hone : [x].filterMap (fun x => firstText .workId x.2) = [key] :=
              List.filterMap_cons_some hkey
            rw [hone, eraseDups_append_one]
            dsimp only
            by_cases hmet : key ∈ e.seen
            · rw [if_pos hmet, if_pos ((hseen key).1 hmet)]
              refine ⟨fun k => ?_, hout⟩
              rw [List.mem_append, List.mem_singleton, hseen]
              exact (or_iff_left_of_imp fun heq => heq ▸ (hseen key).1 hmet).symm
            · rw [if_neg hmet, if_neg fun h => hmet ((hseen key).2 h), List.filterMap_append]
              have hinsert : ∀ k, k ∈ insert key e.seen ↔
                  k ∈ (topDocs.filterMap fun x => firstText .workId x.2) ++ [key] := by
                intro k
                rw [Finset.mem_insert, hseen, List.mem_append, List.mem_singleton, or_comm]
              cases hparse : DbId.fromStr env key with
              | none =>
                  rw [List.filterMap_cons_none hparse, List.filterMap_nil, List.append_nil]
                  exact ⟨hinsert, hout⟩
              | some parsed =>
                  rw [List.filterMap_cons_some hparse, List.filterMap_nil]
                  exact ⟨hinsert, by rw [hout]⟩
  exact hloop.2

/-- What is listed is read from the best editions. -/
theorem enumerate_topDocs :
    enumerate env (searcher.topDocs (editionQuery query) opdsWorkIdLimit) =
      ((bestEditions searcher query).filterMap (firstText .workId)).eraseDups.filterMap
        (DbId.fromStr env) := by
  rw [enumerate_eq, Searcher.topDocs, bestEditions, ← List.map_take, List.filterMap_map]
  rfl

theorem idsComplete_iff_eq
    (hquery : (fromFilters filters queryStr).buildQuery tantivy env = .ok query) :
    IdsComplete searcher env queryStr filters query ↔
      ((bestEditions searcher query).filterMap (firstText .workId)).eraseDups.filterMap
          (DbId.fromStr env) =
        (distinctWorks env ((searcher.ranked (editionQuery query)).map Prod.snd)).take
          opdsWorkIdLimit := by
  have hlist : matchingWorkIds searcher env queryStr filters =
      .ok (enumerate env (searcher.topDocs (editionQuery query) opdsWorkIdLimit)) := by
    rw [matchingWorkIds, buildFilteredQuery_eq hquery]
    rfl
  rw [IdsComplete, matchingWorkIdsFromQuery, hlist, Except.ok.injEq, and_self, enumerate_topDocs]

end Works

/-- **THE LIST HAS THE WORKS UP TO THE LIMIT** exactly if the best editions, as many as the limit,
    have all works or each a work of its own, and none of them writes a work in another way. -/
theorem idsComplete_iff (searcher : Searcher tantivy Score) (env : Env) (queryStr : String)
    (filters : WorkFilters) (query : Query Leaf)
    (hquery : (fromFilters filters queryStr).buildQuery tantivy env = .ok query) :
    IdsComplete searcher env queryStr filters query ↔ BestEditionsSuffice searcher env query := by
  have hmem : ∀ id, id ∈ ((searcher.ranked (editionQuery query)).map Prod.snd).filterMap
      (workOf env) ↔ id ∈ (matchingEditions searcher query).filterMap (workOf env) := fun id =>
    ((searcher.ranked_perm (editionQuery query)).filterMap (workOf env)).mem_iff
  rw [idsComplete_iff_eq hquery]
  refine seen_of_take_eq_iff.trans ?_
  constructor
  · rintro ⟨hspelled, henough⟩
    exact ⟨hspelled, henough.imp_left fun h id hid => h id ((hmem id).2 hid)⟩
  · intro h
    exact ⟨h.spelled, h.enough.imp_left fun h id hid => h id ((hmem id).1 hid)⟩

/-! ### More editions than can be listed -/

/-- A thousand editions of one work, and one of another. -/
def thousandAndOne : List Document :=
  (List.range 1000).map (fun n => editionOf (toString n) (nthWork 0)) ++ [editionOf "f" (nthWork 1)]

def thousandAndOneIndex : Searcher plainTantivy Nat :=
  .plain plainTantivy thousandAndOne
    (by rw [thousandAndOne, List.length_append, List.length_map, List.length_range]; decide)

/-- The equivalence at these editions. -/
theorem idsComplete_thousandAndOne_iff :
    (fromFilters defaultFilters "").buildQuery plainTantivy Env.reference = .ok (.leaf .all) ∧
      (IdsComplete thousandAndOneIndex Env.reference "" defaultFilters (.leaf .all) ↔
        BestEditionsSuffice thousandAndOneIndex Env.reference (.leaf .all)) :=
  ⟨buildQuery_empty, idsComplete_iff thousandAndOneIndex Env.reference "" defaultFilters
    (.leaf .all) buildQuery_empty⟩

theorem map_snd_ranked_thousandAndOne :
    (thousandAndOneIndex.ranked (editionQuery (.leaf .all))).map Prod.snd = thousandAndOne := by
  have hkind : ∀ d ∈ thousandAndOne, textsOf .kind d = ["edition"] := by
    intro d hd
    rcases List.mem_append.1 hd with hd | hd
    · obtain ⟨n, _, rfl⟩ := List.mem_map.1 hd
      rfl
    · rw [List.mem_singleton.1 hd]
      rfl
  rw [thousandAndOneIndex, ranked_plain hkind, List.map_map]
  exact List.map_id _

/-- The second work is missed. -/
theorem not_idsComplete_thousandAndOne :
    ¬ IdsComplete thousandAndOneIndex Env.reference "" defaultFilters (.leaf .all) := by
  rw [idsComplete_iff_eq buildQuery_empty]
  intro h
  have hbest : bestEditions thousandAndOneIndex (.leaf .all) =
      (List.range 1000).map fun n => editionOf (toString n) (nthWork 0) := by
    rw [bestEditions, map_snd_ranked_thousandAndOne, thousandAndOne]
    exact List.take_left' (by rw [List.length_map, List.length_range]; rfl)
  have hworks : (bestEditions thousandAndOneIndex (.leaf .all)).filterMap
      (workOf Env.reference) = List.replicate 1000 (nthWork 0) := by
    rw [hbest, List.filterMap_map]
    have hsame : (List.range 1000).filterMap (fun _ => some (nthWork 0)) =
        (List.range 1000).map fun _ => nthWork 0 := congrFun List.filterMap_eq_map _
    refine (List.filterMap_congr fun n _ => workOf_editionOf _ _).trans ?_
    rw [hsame, List.map_const', List.length_range]
  rcases (seen_of_take_eq_iff.1 h).2 with hlater | hdifferent
  · have hsecond : nthWork 1 ∈ ((thousandAndOneIndex.ranked
        (editionQuery (.leaf .all))).map Prod.snd).filterMap (workOf Env.reference) := by
      rw [map_snd_ranked_thousandAndOne]
      refine List.mem_filterMap.2 ⟨_, ?_, workOf_editionOf "f" (nthWork 1)⟩
      exact List.mem_append_right _ (List.mem_singleton_self _)
    have hmem : nthWork 1 ∈ (bestEditions thousandAndOneIndex (.leaf .all)).filterMap
      (workOf Env.reference) := hlater _ hsecond
    rw [hworks] at hmem
    exact absurd (List.eq_of_mem_replicate hmem) (by decide)
  · have hnodup : ((bestEditions thousandAndOneIndex (.leaf .all)).filterMap
      (workOf Env.reference)).Nodup := hdifferent.2
    rw [hworks, List.nodup_replicate] at hnodup
    exact absurd hnodup (by decide)

end SearchPages

import Mathlib.Order.ConditionallyCompleteLattice.Basic
import Mathlib.Data.Int.ConditionallyCompleteOrder
import Mathlib.Data.Prod.Lex
import Mathlib.Data.String.Basic
import Mathlib.Data.Sum.Order
import Mathlib.Order.WithBot
import Livtet.InStep
import Livtet.Lib.LikePatterns
import Livtet.Lib.RankedSort

/-! # The list of works

    A list of works is ordered by a column, ties by id, and read in pages. A text is put
    between two wildcards and looked for in the titles and in the names of the authors, who
    are linked to works or to their editions.

    Page after page gives each work that is found once, and in the order that is asked for:
    no two works have one id. Where neither a column nor a direction is asked for, the titles
    should ascend. But the direction that stands in is the one that descends, so then the
    titles must all be the same (`pagedInOrder_iff`). -/

namespace WorkList

open SyncStore (Env)
open SyncPairing (DbId trim)
open Library KeyedRows RankedSort LikePatterns

/-! ## The rows of works -/

/-- The library, with the columns of `works` that no document has. -/
structure ListedDb extends Db where
  createdAt : DbId → Int
  updatedAt : DbId → Option Int

/-- A row of `works`. -/
structure Model extends Work where
  createdAt : Int
  updatedAt : Option Int

def ListedDb.models (db : ListedDb) : List Model :=
  db.tables.works.map fun w => ⟨w, db.createdAt w.id, db.updatedAt w.id⟩

/-! ## The search -/

/-- The wildcards of `LIKE`. -/
def sqlWildcards : Wildcards Char := ⟨'%', '_', by decide⟩

/-- `LIKE`, which takes no notice of the case of ASCII letters. -/
def like (pattern s : String) : Bool :=
  matchesWith Char.toLower (LikePatterns.pattern sqlWildcards pattern.toList) s.toList

/-- The first of the ids with each text. -/
def firstByText (env : Env) : List String → List DbId → List DbId
  | _, [] => []
  | seen, id :: rest =>
      if seen.contains (id.text env) then firstByText env seen rest
      else id :: firstByText env (id.text env :: seen) rest

/-- The works of the authors whose names match, by way of either table of links. -/
def worksAuthoredBy (env : Env) (db : Db) (pattern : String) : List DbId :=
  let authorIds := (db.tables.authors.filter fun a => like pattern a.name).map fun a => a.id
  if authorIds.isEmpty then []
  else
    let workIds := (db.tables.workAuthors.filter fun l => authorIds.contains l.target).map
      fun l => l.owner
    let editionIds := (db.tables.editionAuthors.filter fun c => authorIds.contains c.authorId).map
      fun c => c.editionId
    firstByText env [] (if editionIds.isEmpty then workIds
      else workIds ++ (db.tables.editions.filter fun e => editionIds.contains e.id).map
        fun e => e.workId)

/-- What is searched for: nothing if the text is blank. -/
def needle (query : Option String) : Option String :=
  (query.map trim).filter fun q => decide (q ≠ "")

/-- The condition of the query. -/
def selected (env : Env) (db : Db) (query : Option String) (w : Model) : Bool :=
  match needle query with
  | none => true
  | some needle =>
      let pattern := "%" ++ needle ++ "%"
      let authorWorkIds := worksAuthoredBy env db pattern
      like pattern w.title || (!authorWorkIds.isEmpty && authorWorkIds.contains w.id)

/-! ## The order -/

inductive WorkSortBy
  | createdAt
  | title
  | updatedAt
  | newestCap
deriving DecidableEq, Repr

inductive SortDirection
  | desc
  | asc
deriving DecidableEq, Repr

/-- The direction that stands in. -/
def SortDirection.default : SortDirection := .desc

inductive Column
  | createdAt
  | title
  | updatedAt
deriving DecidableEq, Repr

/-- The column and the direction of the query. -/
def applyWorkOrdering (sortBy : Option WorkSortBy) (sortDirection : Option SortDirection) :
    Column × SortDirection :=
  match sortBy with
  | some .newestCap => (.createdAt, .desc)
  | other =>
      let column := match other.getD .title with
        | .createdAt => .createdAt
        | .newestCap => .createdAt
        | .title => .title
        | .updatedAt => .updatedAt
      (column, sortDirection.getD .default)

/-- A value of a column: no value comes before any other. -/
def Model.value (m : Model) : Column → WithBot (Int ⊕ₗ String)
  | .createdAt => some (Sum.inlₗ m.createdAt)
  | .title => some (Sum.inrₗ m.title)
  | .updatedAt => m.updatedAt.map Sum.inlₗ

/-- An id, as it is compared. -/
def bytes (id : DbId) : List Nat := id.1.map UInt8.toNat

/-- `ORDER BY` the column in the direction, and then by the id. -/
def before : Column × SortDirection → Model → Model → Bool
  | (column, .asc), a, b =>
      decide (toLex (a.value column, bytes a.id) ≤ toLex (b.value column, bytes b.id))
  | (column, .desc), a, b =>
      decide (toLex (OrderDual.toDual (a.value column), bytes a.id) ≤
        toLex (OrderDual.toDual (b.value column), bytes b.id))

/-! ## Summaries -/

structure WorkSummary where
  id : DbId
  title : String
  sortTitle : Option String
  description : Option String
  authors : List String
  primaryEditionId : Option DbId
  createdAt : Int
  updatedAt : Option Int

/-- The names of a work's authors, in the order of the links. -/
def authorNamesForWork (db : Db) (workId : DbId) : List String :=
  (db.tables.workAuthors.filter fun l => decide (l.owner = workId)).filterMap fun l =>
    (db.tables.authors.find? fun a => decide (a.id = l.target)).map fun a => a.name

/-- The oldest edition of the work. -/
def primaryEdition (db : Db) (workId : DbId) : Option DbId :=
  (((db.tables.editionsOfWork workId).mergeSort fun a b =>
    decide (toLex (a.createdAt, bytes a.id) ≤ toLex (b.createdAt, bytes b.id))).map
      fun e => e.id).head?

def summarize (db : Db) (w : Model) : WorkSummary where
  id := w.id
  title := w.title
  sortTitle := w.sortTitle
  description := w.description
  authors := authorNamesForWork db w.id
  primaryEditionId := primaryEdition db w.id
  createdAt := w.createdAt
  updatedAt := w.updatedAt

def listWorks (env : Env) (db : ListedDb) (limit offset : Nat) (sortBy : Option WorkSortBy)
    (sortDirection : Option SortDirection) (query : Option String) : List WorkSummary :=
  let ordered := (db.models.filter (selected env db.toDb query)).mergeSort
    (before (applyWorkOrdering sortBy sortDirection))
  ((ordered.drop offset).take (max limit 1)).map (summarize db.toDb)

/-! ## Page after page -/

/-- The order that is asked for. With nothing asked for, the titles ascend. -/
def documented : Option WorkSortBy → Option SortDirection → Column × SortDirection
  | none, none => (.title, .asc)
  | none, some direction => (.title, direction)
  | some .title, direction => (.title, direction.getD .default)
  | some .createdAt, direction => (.createdAt, direction.getD .default)
  | some .updatedAt, direction => (.updatedAt, direction.getD .default)
  | some .newestCap, _ => (.createdAt, .desc)

section Paging

variable (env : Env) (db : ListedDb) (limit : Nat) (sortBy : Option WorkSortBy)
  (sortDirection : Option SortDirection) (query : Option String)

/-- The works that the query selects. -/
def matching : List Model := db.models.filter (selected env db.toDb query)

/-- The page that begins after as many pages. -/
def pageAt (i : Nat) : List WorkSummary :=
  listWorks env db limit (i * limit) sortBy sortDirection query

/-- The rows that the pages are cut from. -/
def ordered : List Model :=
  (matching env db query).mergeSort (before (applyWorkOrdering sortBy sortDirection))

/-- Asking for page after page until one is short gives each work that is selected once, in
    the order that is asked for. An offset is a number of 32 bits. -/
def PagedInOrder : Prop :=
  ∃ (n : Nat) (rows : List Model),
    n * limit < 4294967296 ∧
    (∀ i < n, (pageAt env db limit sortBy sortDirection query i).length = limit) ∧
    (pageAt env db limit sortBy sortDirection query n).length < limit ∧
    (List.range (n + 1)).flatMap (pageAt env db limit sortBy sortDirection query) =
      rows.map (summarize db.toDb) ∧
    rows.Perm (matching env db query) ∧ (rows.map fun w => w.id).Nodup ∧
    rows.Pairwise fun a b => before (documented sortBy sortDirection) a b = true

/-- The order is asked for, or the titles do not tell. -/
def OrderSettled : Prop :=
  sortBy ≠ none ∨ sortDirection ≠ none ∨
    ∀ a ∈ matching env db query, ∀ b ∈ matching env db query, a.title = b.title

end Paging

theorem before_trans (o : Column × SortDirection) (a b c : Model)
    (hab : before o a b = true) (hbc : before o b c = true) : before o a c = true := by
  obtain ⟨column, direction⟩ := o
  cases direction with
  | asc => exact decide_eq_true ((of_decide_eq_true hab).trans (of_decide_eq_true hbc))
  | desc => exact decide_eq_true ((of_decide_eq_true hab).trans (of_decide_eq_true hbc))

theorem before_total (o : Column × SortDirection) (a b : Model) :
    (before o a b || before o b a) = true := by
  obtain ⟨column, direction⟩ := o
  rw [Bool.or_eq_true]
  cases direction with
  | asc => exact (le_total _ _).imp decide_eq_true decide_eq_true
  | desc => exact (le_total _ _).imp decide_eq_true decide_eq_true

/-- Of two rows in ascending order, the second value is not smaller. -/
theorem value_le_of_before {column : Column} {a b : Model}
    (h : before (column, .asc) a b = true) : a.value column ≤ b.value column :=
  (Prod.Lex.le_iff'.1 (of_decide_eq_true h)).1

theorem value_le_of_before_desc {column : Column} {a b : Model}
    (h : before (column, .desc) a b = true) : b.value column ≤ a.value column :=
  (Prod.Lex.le_iff'.1 (of_decide_eq_true h)).1

theorem title_eq_of_value {a b : Model} (h : a.value .title = b.value .title) :
    a.title = b.title := by
  have hsome := Option.some.inj h
  exact Sum.inr.inj (toLex.injective hsome)

/-- Where the values are the same, the direction does not matter. -/
theorem before_asc_of_desc {column : Column} {a b : Model}
    (hsame : a.value column = b.value column) (h : before (column, .desc) a b = true) :
    before (column, .asc) a b = true := by
  refine decide_eq_true (Prod.Lex.le_iff'.2 ⟨hsame.le, fun _ => ?_⟩)
  exact (Prod.Lex.le_iff'.1 (of_decide_eq_true h)).2 (congrArg OrderDual.toDual hsame)

section Paging

variable {env : Env} {db : ListedDb} {limit : Nat} {sortBy : Option WorkSortBy}
  {sortDirection : Option SortDirection} {query : Option String}

theorem ordered_perm :
    (ordered env db sortBy sortDirection query).Perm (matching env db query) :=
  List.mergeSort_perm _ _

theorem ordered_sorted : (ordered env db sortBy sortDirection query).Pairwise fun a b =>
    before (applyWorkOrdering sortBy sortDirection) a b = true :=
  List.pairwise_mergeSort (before_trans _) (before_total _) _

theorem nodup_matching : ((matching env db query).map fun w => w.id).Nodup := by
  refine List.Nodup.sublist (List.filter_sublist.map _) ?_
  rw [ListedDb.models, List.map_map]
  exact db.sound.keys.workKeys

theorem nodup_ordered :
    ((ordered env db sortBy sortDirection query).map fun w => w.id).Nodup :=
  (ordered_perm.map _).nodup_iff.2 nodup_matching

/-- A page is a page of the rows. -/
theorem pageAt_eq (hlimit : 1 ≤ limit) (i : Nat) : pageAt env db limit sortBy sortDirection query i =
    (page limit (ordered env db sortBy sortDirection query) i).map (summarize db.toDb) := by
  rw [pageAt, listWorks, Nat.max_eq_left hlimit]
  rfl

theorem flatMap_pageAt (hlimit : 1 ≤ limit) (n : Nat) :
    (List.range n).flatMap (pageAt env db limit sortBy sortDirection query) =
      ((ordered env db sortBy sortDirection query).take (n * limit)).map (summarize db.toDb) := by
  rw [← flatMap_page, List.map_flatMap]
  exact List.flatMap_congr fun i _ => pageAt_eq hlimit i

theorem length_pageAt (hlimit : 1 ≤ limit) (i : Nat) :
    (pageAt env db limit sortBy sortDirection query i).length =
      min limit ((matching env db query).length - i * limit) := by
  rw [pageAt_eq hlimit, List.length_map, length_page, ordered_perm.length_eq]

/-- The first short page is the one that the number of works tells. -/
theorem short_iff (hlimit : 1 ≤ limit) {n : Nat} :
    ((∀ i < n, (pageAt env db limit sortBy sortDirection query i).length = limit) ∧
      (pageAt env db limit sortBy sortDirection query n).length < limit) ↔
      n = (matching env db query).length / limit := by
  simp only [length_pageAt hlimit]
  have hdiv := Nat.div_add_mod (matching env db query).length limit
  have hmod := Nat.mod_lt (matching env db query).length hlimit
  rw [Nat.mul_comm] at hdiv
  constructor
  · rintro ⟨hfull, hshort⟩
    symm
    refine Nat.div_eq_of_lt_le ?_ ?_
    · cases n with
      | zero => omega
      | succ n =>
          have := hfull n (Nat.lt_succ_self n)
          rw [Nat.succ_mul]
          omega
    · rw [Nat.succ_mul]
      omega
  · rintro rfl
    refine ⟨fun i hi => ?_, by omega⟩
    have hle : (i + 1) * limit ≤ (matching env db query).length / limit * limit :=
      Nat.mul_le_mul_right limit hi
    rw [Nat.succ_mul] at hle
    omega

/-- Titles that ascend and descend are the same. -/
theorem eq_of_both {titles : List (WithBot (Int ⊕ₗ String))} (hasc : titles.Pairwise (· ≤ ·))
    (hdesc : titles.Pairwise (· ≥ ·)) : ∀ a ∈ titles, ∀ b ∈ titles, a = b := by
  have hsame : titles.Pairwise (· = ·) :=
    (hasc.and hdesc).imp fun h => le_antisymm h.1 h.2
  exact fun a ha b hb => List.Pairwise.forall_of_forall (fun _ _ => rfl) hsame ha hb

theorem orderSettled_of_paged (hlimit : 1 ≤ limit)
    (h : PagedInOrder env db limit sortBy sortDirection query) :
    OrderSettled env db sortBy sortDirection query ∧
      (matching env db query).length / limit * limit < 4294967296 := by
  obtain ⟨n, rows, hn, hfull, hshort, hlisted, hperm, _, hsorted⟩ := h
  have hcount := (short_iff hlimit).1 ⟨hfull, hshort⟩
  refine ⟨?_, hcount ▸ hn⟩
  cases hby : sortBy with
  | some _ => exact Or.inl (Option.some_ne_none _)
  | none =>
  cases hdirection : sortDirection with
  | some _ => exact Or.inr (Or.inl (Option.some_ne_none _))
  | none =>
      subst hby hdirection
      refine Or.inr (Or.inr fun a ha b hb => title_eq_of_value ?_)
      -- the pages are all the rows, so the titles are those of the rows
      have hall : (ordered env db none none query).take ((n + 1) * limit) =
          ordered env db none none query := by
        refine List.take_of_length_le ?_
        rw [ordered_perm.length_eq, hcount]
        exact (Nat.lt_div_mul_add hlimit).le.trans (Nat.succ_mul _ _).ge
      rw [flatMap_pageAt hlimit, hall] at hlisted
      have htitles : rows.map (fun w => w.value .title) =
          (ordered env db none none query).map fun w => w.value .title := by
        have := congrArg (List.map fun w : WorkSummary =>
          (some (Sum.inrₗ w.title) : WithBot (Int ⊕ₗ String))) hlisted
        rw [List.map_map, List.map_map] at this
        exact this.symm
      have hasc : (rows.map fun w => w.value .title).Pairwise (· ≤ ·) :=
        List.pairwise_map.2 (hsorted.imp value_le_of_before)
      have hdesc : (rows.map fun w => w.value .title).Pairwise (· ≥ ·) := by
        have hdescends := @ordered_sorted env db none none query
        rw [htitles]
        exact List.pairwise_map.2 (hdescends.imp value_le_of_before_desc)
      exact eq_of_both hasc hdesc _ (List.mem_map_of_mem (hperm.mem_iff.2 ha)) _
        (List.mem_map_of_mem (hperm.mem_iff.2 hb))

theorem sorted_of_orderSettled (h : OrderSettled env db sortBy sortDirection query) :
    (ordered env db sortBy sortDirection query).Pairwise fun a b =>
      before (documented sortBy sortDirection) a b = true := by
  have hsorted := @ordered_sorted env db sortBy sortDirection query
  cases sortBy with
  | some field => cases field <;> exact hsorted
  | none =>
      cases sortDirection with
      | some direction => exact hsorted
      | none =>
          have hsame : ∀ a ∈ matching env db query, ∀ b ∈ matching env db query,
              a.title = b.title := by
            rcases h with h | h | h
            · exact absurd rfl h
            · exact absurd rfl h
            · exact h
          refine hsorted.imp_of_mem fun ha hb hbefore => before_asc_of_desc ?_ hbefore
          have htitle := hsame _ (ordered_perm.mem_iff.1 ha) _ (ordered_perm.mem_iff.1 hb)
          exact congrArg (fun title : String => (some (Sum.inrₗ title) : WithBot (Int ⊕ₗ String)))
            htitle

end Paging

/-- **PAGING IS EXACT AND IN ORDER** exactly if the order is asked for, or all titles are the
    same, and the offset of the short page can be written. -/
theorem pagedInOrder_iff (env : Env) (db : ListedDb) (limit : Nat) (sortBy : Option WorkSortBy)
    (sortDirection : Option SortDirection) (query : Option String) (hlimit : 1 ≤ limit) :
    PagedInOrder env db limit sortBy sortDirection query ↔
      OrderSettled env db sortBy sortDirection query ∧
        (matching env db query).length / limit * limit < 4294967296 := by
  refine ⟨orderSettled_of_paged hlimit, fun h => ?_⟩
  obtain ⟨hfull, hshort⟩ := (@short_iff env db limit sortBy sortDirection query hlimit _).2
    (Eq.refl ((matching env db query).length / limit))
  refine ⟨_, ordered env db sortBy sortDirection query, h.2, hfull, hshort, ?_, ordered_perm,
    nodup_ordered, sorted_of_orderSettled h.1⟩
  rw [flatMap_pageAt hlimit, List.take_of_length_le]
  rw [ordered_perm.length_eq]
  exact (Nat.lt_div_mul_add hlimit).le.trans (Nat.succ_mul _ _).ge

/-! ## Two works -/

/-- A library of two works. -/
def twoWorks : ListedDb where
  tables := { oneWork with
    works := [{ id := sampleId 1, title := "Dune", description := none, languageId := none
                sortTitle := none },
      { id := sampleId 2, title := "Emma", description := none, languageId := none
        sortTitle := none }] }
  sound := by decide
  createdAt := fun _ => 0
  updatedAt := fun _ => none

/-- With the titles ascending, both are listed in order. -/
theorem pagedInOrder_twoWorks :
    1 ≤ 10 ∧ PagedInOrder Env.reference twoWorks 10 (some .title) (some .asc) none := by
  have hfew : (matching Env.reference twoWorks none).length / 10 * 10 < 4294967296 := by decide
  exact ⟨by decide, (pagedInOrder_iff Env.reference twoWorks 10 (some .title) (some .asc) none
    (by decide)).2 ⟨Or.inl (Option.some_ne_none _), hfew⟩⟩

/-- With nothing asked for, they are listed the other way. -/
theorem not_pagedInOrder_twoWorks :
    ¬ PagedInOrder Env.reference twoWorks 10 none none none := by
  intro h
  rcases (orderSettled_of_paged (by decide) h).1 with h | h | h
  · exact h rfl
  · exact h rfl
  · exact absurd (h _ List.mem_cons_self _ (List.mem_cons_of_mem _ List.mem_cons_self))
      (by decide)

end WorkList

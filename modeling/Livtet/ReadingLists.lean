import Livtet.Lib.KeyedRows
import Livtet.Lib.Positions
import Livtet.Lib.Runs
import Livtet.Constraints
import Livtet.Filters

/-! # Reading lists

    The editions of a reading list are rows with a position each. An edition that is added
    gets the position after the last, a removal leaves a gap, and a move writes the positions
    of the whole list afresh, row by row.

    Positions have 32 bits. A list behaves as a list as long as no edition is added while the
    last position is taken (`behaves_iff_admitted`): the next one would be the least of all,
    and the edition comes first. A move leaves the positions of any list dense, whatever they
    were, while it has no more editions than there are positions (`moved_iff`). -/

namespace ReadingLists

open SyncStore (Env)
open SyncPairing Outcomes Library Positions KeyedRows

/-! ## The tables -/

/-- A row of `reading_lists`. -/
structure ListRow where
  id : DbId
  name : String
  description : Option String
  createdAt : Int
  updatedAt : Option Int
deriving DecidableEq

/-- A row of `reading_list_book`. -/
structure Member where
  listId : DbId
  editionId : DbId
  position : Int
  addedAt : Int
deriving DecidableEq

/-- The library with its reading lists, and the constraints of their tables. -/
structure ListDb where
  library : Db
  lists : List ListRow
  members : List Member
  listKeys : (lists.map fun l => l.id).Nodup
  memberKeys : (members.map fun m => (m.listId, m.editionId)).Nodup
  memberLists : (members.map fun m => m.listId) ⊆ lists.map fun l => l.id
  memberEditions : (members.map fun m => m.editionId) ⊆ library.tables.editionIds

def ListDb.membersOf (db : ListDb) (listId : DbId) : List Member :=
  db.members.filter fun m => decide (m.listId = listId)

/-- `i32::MAX`. -/
def maxI32 : Int := 2147483647

/-- `as i32`, and what an addition past the end leaves of a number. -/
def asI32 (n : Int) : Int := (n + 2147483648) % 4294967296 - 2147483648

theorem asI32_of_mem {n : Int} (h : 0 ≤ n ∧ n ≤ maxI32) : asI32 n = n := by
  rw [maxI32] at h
  rw [asI32]
  omega

/-- `ORDER BY position`, which leaves the order of rows of one position open. -/
structure ByPosition where
  order : List Member → List Member
  perm : ∀ rows, (order rows).Perm rows
  sorted : ∀ rows, (order rows).Pairwise fun a b => a.position ≤ b.position

/-! ## Statements -/

namespace ListDb

/-- `INSERT` of a member. -/
def insertMember (db : ListDb) (m : Member) : Except LivtetError ListDb :=
  if h : (m.listId, m.editionId) ∉ (db.members.map fun m => (m.listId, m.editionId)) ∧
      m.listId ∈ (db.lists.map fun l => l.id) ∧ m.editionId ∈ db.library.tables.editionIds then
    .ok { db with
      members := db.members ++ [m]
      memberKeys := by
        rw [List.map_append, List.map_singleton]
        exact nodup_append_one db.memberKeys h.1
      memberLists := by
        rw [List.map_append, List.map_singleton]
        exact append_one_subset db.memberLists h.2.1
      memberEditions := by
        rw [List.map_append, List.map_singleton]
        exact append_one_subset db.memberEditions h.2.2 }
  else .error (.database "constraint failed")

/-- `DELETE` of members. -/
def dropMembers (db : ListDb) (gone : Member → Bool) : ListDb := { db with
  members := db.members.filter fun m => !gone m
  memberKeys := db.memberKeys.sublist (List.filter_sublist.map _)
  memberLists := fun _ h => db.memberLists ((List.filter_sublist.map _).subset h)
  memberEditions := fun _ h => db.memberEditions ((List.filter_sublist.map _).subset h) }

/-- `UPDATE` of positions. -/
def reposition (db : ListDb) (f : Member → Int) : ListDb := { db with
  members := db.members.map fun m => { m with position := f m }
  memberKeys := by
    rw [List.map_map]
    exact db.memberKeys
  memberLists := by
    rw [List.map_map]
    exact db.memberLists
  memberEditions := by
    rw [List.map_map]
    exact db.memberEditions }

/-- `UPDATE` of one position; a row that is not there is passed over. -/
def setPosition (db : ListDb) (listId editionId : DbId) (position : Int) : ListDb :=
  db.reposition fun m =>
    if m.listId = listId ∧ m.editionId = editionId then position else m.position

/-- `DELETE` of a list: its members go with it. -/
def dropList (db : ListDb) (listId : DbId) : ListDb :=
  let rest := db.dropMembers fun m => decide (m.listId = listId)
  { rest with
    lists := db.lists.filter fun l => decide (l.id ≠ listId)
    listKeys := db.listKeys.sublist (List.filter_sublist.map _)
    memberLists := by
      intro id hid
      obtain ⟨m, hm, rfl⟩ := List.mem_map.1 hid
      obtain ⟨hmem, hkept⟩ := List.mem_filter.1 hm
      obtain ⟨l, hl, heq⟩ := List.mem_map.1 (db.memberLists (List.mem_map_of_mem hmem))
      have hne : m.listId ≠ listId := by simpa using hkept
      exact List.mem_map.2 ⟨l, List.mem_filter.2 ⟨hl, decide_eq_true (heq ▸ hne)⟩, heq⟩ }

end ListDb

/-! ## Calls -/

/-- A list with its editions. -/
structure ReadingList extends ListRow where
  editionIds : List DbId

section Calls

variable (env : Env) (order : ByPosition)

def requireList (db : ListDb) (id : DbId) : Except LivtetError ListRow :=
  match db.lists.find? fun l => decide (l.id = id) with
  | some l => .ok l
  | none => .error (.notFound "reading_lists" (id.text env))

/-- `ListMemberships::edition_ids`. -/
def editionIds (db : ListDb) (listId : DbId) : List DbId :=
  (order.order (db.membersOf listId)).map fun m => m.editionId

def createReadingList (now : Int) (newId : DbId) (name : String) (description : Option String)
    (db : ListDb) : Except LivtetError (ReadingList × ListDb) :=
  let row : ListRow := ⟨newId, name, description, now, none⟩
  if h : newId ∉ db.lists.map fun l => l.id then
    .ok (⟨row, []⟩, { db with
      lists := db.lists ++ [row]
      listKeys := by
        rw [List.map_append, List.map_singleton]
        exact nodup_append_one db.listKeys h
      memberLists := by
        rw [List.map_append]
        exact List.subset_append_of_subset_left _ db.memberLists })
  else .error (.database "constraint failed")

def getReadingList (db : ListDb) (listId : DbId) : Option ReadingList :=
  (db.lists.find? fun l => decide (l.id = listId)).map fun l => ⟨l, editionIds order db listId⟩

/-- The position after the last. -/
def nextPosition (positions : List Int) : Int :=
  match positions.max? with
  | none => 0
  | some p => asI32 (p + 1)

def addEditionToList (now : Int) (listId editionId : DbId) (db : ListDb) :
    Except LivtetError (Unit × ListDb) := do
  let _ ← requireList env db listId
  let _ ← requireEdition env db.library editionId
  let members := db.membersOf listId
  if members.any fun m => decide (m.editionId = editionId) then pure ((), db)
  else do
    let position := nextPosition (members.map fun m => m.position)
    let db ← db.insertMember ⟨listId, editionId, position, now⟩
    pure ((), db)

def removeEditionFromList (listId editionId : DbId) (db : ListDb) : Bool × ListDb :=
  let gone := fun m : Member => decide (m.listId = listId ∧ m.editionId = editionId)
  (db.members.any gone, db.dropMembers gone)

/-- The loop of a move: a row at a time. -/
def writePositions (listId : DbId) (rows : List (DbId × Nat)) (db : ListDb) : ListDb :=
  rows.foldl (fun db x => db.setPosition listId x.1 (asI32 x.2)) db

def moveEditionInList (listId editionId : DbId) (position : Nat) (db : ListDb) :
    Except LivtetError (List DbId × ListDb) := do
  let _ ← requireList env db listId
  let ids := editionIds order db listId
  if editionId ∈ ids then
    let ids := moveTo editionId position ids
    pure (ids, writePositions listId ids.zipIdx db)
  else .error (.notFound "reading_list_book" (editionId.text env))

def deleteReadingList (listId : DbId) (db : ListDb) : Bool × ListDb :=
  let db' := db.dropMembers fun m => decide (m.listId = listId)
  (db'.lists.any fun l => decide (l.id = listId), db'.dropList listId)

end Calls

/-! ## What a move writes -/

section Move

variable {env : Env} {order : ByPosition} {listId : DbId} {db : ListDb}

/-- The positions of the editions of a list. -/
def placed (db : ListDb) (listId : DbId) : List (DbId × Int) :=
  (db.membersOf listId).map fun m => (m.editionId, m.position)

theorem map_fst_placed : (placed db listId).map Prod.fst =
    (db.membersOf listId).map fun m => m.editionId := List.map_map ..

/-- An edition is in a list once. -/
theorem nodup_placed : ((placed db listId).map Prod.fst).Nodup := by
  rw [map_fst_placed]
  have hkeys : ((db.membersOf listId).map fun m => (m.listId, m.editionId)).Nodup :=
    db.memberKeys.sublist (List.filter_sublist.map _)
  refine List.pairwise_map.2 ((List.pairwise_map.1 hkeys).imp_of_mem ?_)
  intro m m' hm hm' hne heq
  have hlist : ∀ m ∈ db.membersOf listId, m.listId = listId :=
    fun m hm => of_decide_eq_true (List.mem_filter.1 hm).2
  exact hne (Prod.ext ((hlist m hm).trans (hlist m' hm').symm) heq)

theorem editionIds_perm : (editionIds order db listId).Perm ((placed db listId).map Prod.fst) := by
  rw [map_fst_placed]
  exact (order.perm _).map _

theorem nodup_editionIds : (editionIds order db listId).Nodup :=
  editionIds_perm.nodup_iff.2 nodup_placed

/-- The list as its positions have it, if these are all different. -/
theorem editionIds_eq {pairs : List (DbId × Int)} (hperm : (placed db listId).Perm pairs)
    (hpairs : Increasing pairs) : editionIds order db listId = pairs.map Prod.fst := by
  have hsorted : ((order.order (db.membersOf listId)).map fun m => (m.editionId, m.position)) =
      pairs := by
    refine eq_of_increasing (((order.perm _).map _).trans hperm) ?_ hpairs
    exact List.pairwise_map.2 (order.sorted _)
  rw [← hsorted, List.map_map]
  rfl

/-- The position that a member has after the rows were written. -/
def written (listId : DbId) (rows : List (DbId × Nat)) (m : Member) : Int :=
  rows.foldl (fun p x => if m.listId = listId ∧ m.editionId = x.1 then asI32 x.2 else p) m.position

/-- The loop changes positions only. -/
theorem writePositions_eq (rows : List (DbId × Nat)) :
    ∀ db : ListDb, writePositions listId rows db = db.reposition (written listId rows) := by
  induction rows with
  | nil =>
      intro db
      show db = _
      simp [ListDb.reposition, written]
  | cons x rows ih =>
      intro db
      show writePositions listId rows (db.setPosition listId x.1 (asI32 x.2)) = _
      rw [ih]
      simp only [ListDb.setPosition, ListDb.reposition, written, List.map_map, List.foldl_cons]
      rfl

theorem foldl_of_not_mem {c : Prop} [Decidable c] {e : DbId} {rows : List (DbId × Nat)}
    (h : ¬ (c ∧ e ∈ rows.map Prod.fst)) :
    ∀ p : Int, rows.foldl (fun p x => if c ∧ e = x.1 then asI32 x.2 else p) p = p := by
  induction rows with
  | nil => exact fun _ => rfl
  | cons x rows ih =>
      intro p
      have hx : ¬ (c ∧ e = x.1) := fun hx => h ⟨hx.1, hx.2 ▸ List.mem_cons_self⟩
      rw [List.foldl_cons, if_neg hx]
      exact ih (fun hrest => h ⟨hrest.1, List.mem_cons_of_mem _ hrest.2⟩) p

/-- Each edition gets its index. -/
theorem foldl_of_mem {c : Prop} [Decidable c] (hc : c) {e : DbId} {i : Nat}
    {rows : List (DbId × Nat)} : ∀ p : Int, (rows.map Prod.fst).Nodup → (e, i) ∈ rows →
      rows.foldl (fun p x => if c ∧ e = x.1 then asI32 x.2 else p) p = asI32 i := by
  induction rows with
  | nil =>
      intro p _ hi
      cases hi
  | cons x rows ih =>
      intro p hnodup hi
      obtain ⟨hnot, hrest⟩ := List.nodup_cons.1 hnodup
      rw [List.foldl_cons]
      rcases List.mem_cons.1 hi with rfl | hi
      · rw [if_pos ⟨hc, rfl⟩]
        exact foldl_of_not_mem (fun h => hnot h.2) _
      · exact ih _ hrest hi

theorem written_of_mem {rows : List (DbId × Nat)} (hnodup : (rows.map Prod.fst).Nodup) {m : Member}
    (hm : m.listId = listId) {i : Nat} (hi : (m.editionId, i) ∈ rows) :
    written listId rows m = asI32 i := foldl_of_mem hm m.position hnodup hi

theorem written_zipIdx {ids : List DbId} (hnodup : ids.Nodup) {m : Member} (hm : m.listId = listId)
    {i : Nat} (hi : ids[i]? = some m.editionId) : written listId ids.zipIdx m = asI32 i := by
  refine written_of_mem ?_ hm (List.mem_zipIdx_iff_getElem?.2 hi)
  rw [List.zipIdx_map_fst]
  exact hnodup

theorem membersOf_reposition (f : Member → Int) : (db.reposition f).membersOf listId =
    (db.membersOf listId).map fun m => { m with position := f m } := by
  rw [ListDb.membersOf, ListDb.reposition, List.filter_map]
  rfl

theorem placed_reposition (f : Member → Int) : placed (db.reposition f) listId =
    (db.membersOf listId).map fun m => (m.editionId, f m) := by
  rw [placed, membersOf_reposition, List.map_map]
  rfl

/-- What a move leaves: dense positions in the order it returned, the same members, and the
    rows of other lists. -/
structure Moved (listId : DbId) (db db' : ListDb) (returned : List DbId) : Prop where
  dense : (placed db' listId).Perm (numbered returned)
  members : (db'.membersOf listId).map (fun m => m.editionId) =
    (db.membersOf listId).map fun m => m.editionId
  others : ∀ other, other ≠ listId → db'.membersOf other = db.membersOf other

theorem moveEditionInList_eq_ok {editionId : DbId} {position : Nat} {returned : List DbId}
    {db' : ListDb} (h : moveEditionInList env order listId editionId position db =
      .ok (returned, db')) : editionId ∈ editionIds order db listId ∧
        returned = moveTo editionId position (editionIds order db listId) ∧
          db' = db.reposition (written listId returned.zipIdx) := by
  obtain ⟨_, _, h⟩ := bind_eq_ok.1 h
  by_cases hmem : editionId ∈ editionIds order db listId
  · rw [if_pos hmem] at h
    cases h
    exact ⟨hmem, rfl, writePositions_eq _ _⟩
  · rw [if_neg hmem] at h
    cases h

/-- A move that writes each edition's index keeps positions dense while indices have 32 bits. -/
theorem placed_written_perm_iff {ids : List DbId}
    (hids : ids.Perm ((placed db listId).map Prod.fst)) :
    (placed (db.reposition (written listId ids.zipIdx)) listId).Perm (numbered ids) ↔
      (db.membersOf listId).length ≤ 2 ^ 31 := by
  have hnodup : ids.Nodup := hids.nodup_iff.2 nodup_placed
  have hlength : ids.length = (db.membersOf listId).length := by
    rw [hids.length_eq, placed, List.length_map, List.length_map]
  have hindex : ∀ m ∈ db.membersOf listId, ∀ i : Nat, ids[i]? = some m.editionId →
      written listId ids.zipIdx m = asI32 i :=
    fun m hm i hi => written_zipIdx hnodup (of_decide_eq_true (List.mem_filter.1 hm).2) hi
  have hmember : ∀ {a : DbId}, a ∈ ids → ∃ m ∈ db.membersOf listId, m.editionId = a := by
    intro a ha
    rw [hids.mem_iff, map_fst_placed] at ha
    exact List.mem_map.1 ha
  rw [placed_reposition]
  constructor
  · intro hperm
    by_contra hmany
    rw [Nat.not_le, ← hlength] at hmany
    -- the edition that is given the least position of all
    obtain ⟨a, ha⟩ : ∃ a, ids[2 ^ 31]? = some a := ⟨_, List.getElem?_eq_getElem hmany⟩
    have hnumbered := hperm.mem_iff.2 (mem_numbered.2 ⟨2 ^ 31, ha, rfl⟩)
    obtain ⟨m, hm, heq⟩ := List.mem_map.1 hnumbered
    have hedition : m.editionId = a := congrArg Prod.fst heq
    have hleast := hindex m hm (2 ^ 31) (hedition ▸ ha)
    have hindexed : written listId ids.zipIdx m = ((2 ^ 31 : Nat) : Int) := congrArg Prod.snd heq
    rw [hindexed] at hleast
    revert hleast
    decide
  · intro hfew
    have hsmall : ∀ {i : Nat} {a : DbId}, ids[i]? = some a → asI32 i = i := by
      intro i a hi
      have := (List.getElem?_eq_some_iff.1 hi).1
      refine asI32_of_mem ⟨Int.natCast_nonneg i, ?_⟩
      rw [maxI32]
      omega
    refine (List.perm_ext_iff_of_nodup ?_ ?_).2 fun x => ?_
    · refine List.Nodup.of_map Prod.fst ?_
      rw [List.map_map]
      have := @nodup_placed listId db
      rwa [map_fst_placed] at this
    · refine List.Nodup.of_map Prod.fst ?_
      rw [map_fst_numbered]
      exact hnodup
    · obtain ⟨a, n⟩ := x
      rw [mem_numbered, List.mem_map]
      constructor
      · rintro ⟨m, hm, heq⟩
        cases heq
        have hmem : m.editionId ∈ ids := by
          rw [hids.mem_iff, map_fst_placed]
          exact List.mem_map_of_mem hm
        obtain ⟨i, hi⟩ := List.mem_iff_getElem?.1 hmem
        exact ⟨i, hi, (hindex m hm i hi).trans (hsmall hi)⟩
      · rintro ⟨i, hi, rfl⟩
        obtain ⟨m, hm, rfl⟩ := hmember (List.mem_of_getElem? hi)
        exact ⟨m, hm, Prod.ext rfl ((hindex m hm i hi).trans (hsmall hi))⟩

/-- **A MOVE LEAVES DENSE POSITIONS**, whatever they were, exactly if the list has no more
    editions than there are positions. -/
theorem moved_iff {editionId : DbId} {position : Nat} {returned : List DbId} {db' : ListDb}
    (h : moveEditionInList env order listId editionId position db = .ok (returned, db')) :
    Moved listId db db' returned ↔ (db.membersOf listId).length ≤ 2 ^ 31 := by
  obtain ⟨hmem, hreturned, rfl⟩ := moveEditionInList_eq_ok h
  have hperm : returned.Perm ((placed db listId).map Prod.fst) := by
    rw [hreturned]
    exact (moveTo_perm hmem position).trans editionIds_perm
  rw [← placed_written_perm_iff hperm]
  refine ⟨fun h => h.dense, fun hdense => ⟨hdense, ?_, fun other hother => ?_⟩⟩
  · rw [membersOf_reposition, List.map_map]
    rfl
  · rw [membersOf_reposition]
    refine (List.map_congr_left fun m hm => ?_).trans (List.map_id _)
    have hlist : ¬ (m.listId = listId ∧ m.editionId ∈ returned.zipIdx.map Prod.fst) := by
      intro heq
      exact hother ((of_decide_eq_true (List.mem_filter.1 hm).2).symm.trans heq.1)
    show ({ m with position := written listId returned.zipIdx m } : Member) = m
    rw [written, foldl_of_not_mem hlist]

end Move

/-! ## A list as a list -/

/-- The calls that change a list. -/
inductive Action where
  | add (now : Int) (editionId : DbId)
  | remove (editionId : DbId)
  | move (editionId : DbId) (position : Nat)

/-- The database that a call leaves: one that fails has written nothing. -/
def left {α : Type} (db : ListDb) (result : Except LivtetError (α × ListDb)) : ListDb :=
  match result with
  | .ok (_, db') => db'
  | .error _ => db

def step (env : Env) (order : ByPosition) (listId : DbId) (db : ListDb) : Action → ListDb
  | .add now e => left db (addEditionToList env now listId e db)
  | .remove e => (removeEditionFromList listId e db).2
  | .move e position => left db (moveEditionInList env order listId e position db)

/-- The same calls on an ordinary list. -/
def listStep (known : List DbId) (l : List DbId) : Action → List DbId
  | .add _ e => if e ∈ known ∧ e ∉ l then l ++ [e] else l
  | .remove e => l.erase e
  | .move e position => if e ∈ l then moveTo e position l else l

/-- After every call of the run the list reads as the ordinary list does. -/
def Behaves (env : Env) (order : ByPosition) (listId : DbId) (db : ListDb) (run : List Action) :
    Prop :=
  ∀ pre, pre <+: run →
    (getReadingList order (Runs.exec (step env order listId) db pre) listId).map
        (fun l => l.editionIds) =
      some (Runs.exec (listStep db.library.tables.editionIds) [] pre)

/-- An edition that comes new to the list finds the last position free. -/
def Roomy (listId : DbId) (db : ListDb) : Action → Prop
  | .add _ e => e ∈ db.library.tables.editionIds →
      e ∉ (db.membersOf listId).map (fun m => m.editionId) →
      maxI32 ∉ (db.membersOf listId).map fun m => m.position
  | .remove _ => True
  | .move _ _ => True

section Refinement

variable {env : Env} {order : ByPosition} {listId : DbId} {db : ListDb}

/-- The positions of a list are numbers of 32 bits that increase along the ordinary list. -/
structure Abstracts (listId : DbId) (library : Db) (db : ListDb) (l : List DbId) : Prop where
  there : listId ∈ db.lists.map fun r => r.id
  library_eq : db.library = library
  pairs : ∃ pairs, (placed db listId).Perm pairs ∧ pairs.map Prod.fst = l ∧ Increasing pairs ∧
    ∀ x ∈ pairs, 0 ≤ x.2 ∧ x.2 ≤ maxI32

theorem find_list (h : listId ∈ db.lists.map fun r => r.id) :
    ∃ row, db.lists.find? (fun r => decide (r.id = listId)) = some row := by
  obtain ⟨row, hrow, hid⟩ := List.mem_map.1 h
  exact Option.isSome_iff_exists.1 (List.find?_isSome.2 ⟨row, hrow, decide_eq_true hid⟩)

theorem requireList_eq_ok (h : listId ∈ db.lists.map fun r => r.id) :
    ∃ row, requireList env db listId = .ok row := by
  obtain ⟨row, hrow⟩ := find_list h
  exact ⟨row, by rw [requireList, hrow]⟩

/-- The list reads as the list that it stands for. -/
theorem Abstracts.read {library : Db} {l : List DbId} (h : Abstracts listId library db l) :
    (getReadingList order db listId).map (fun l => l.editionIds) = some l := by
  obtain ⟨row, hrow⟩ := find_list h.there
  obtain ⟨pairs, hperm, rfl, hincreasing, _⟩ := h.pairs
  rw [getReadingList, hrow]
  exact congrArg some (editionIds_eq hperm hincreasing)

theorem Abstracts.mem_iff {library : Db} {l : List DbId} (h : Abstracts listId library db l)
    {e : DbId} : e ∈ l ↔ e ∈ (db.membersOf listId).map fun m => m.editionId := by
  obtain ⟨pairs, hperm, rfl, _, _⟩ := h.pairs
  rw [← map_fst_placed]
  exact (hperm.map _).symm.mem_iff

theorem Abstracts.nodup {library : Db} {l : List DbId} (h : Abstracts listId library db l) :
    l.Nodup := by
  obtain ⟨pairs, hperm, rfl, _, _⟩ := h.pairs
  exact (hperm.map _).nodup_iff.1 nodup_placed

/-! ### Adding -/

/-- While the last position is free, the next one comes after all others. -/
theorem nextPosition_of_free {positions : List Int}
    (h : ∀ p ∈ positions, 0 ≤ p ∧ p ≤ maxI32) (hfree : maxI32 ∉ positions) :
    (0 ≤ nextPosition positions ∧ nextPosition positions ≤ maxI32) ∧
      ∀ p ∈ positions, p < nextPosition positions := by
  rw [nextPosition]
  cases hmax : positions.max? with
  | none =>
      rw [List.max?_eq_none_iff.1 hmax]
      exact ⟨by decide, fun p hp => absurd hp List.not_mem_nil⟩
  | some last =>
      obtain ⟨hmem, hle⟩ := List.max?_eq_some_iff.1 hmax
      have hlow := (h last hmem).1
      have hlast : last < maxI32 := lt_of_le_of_ne (h last hmem).2 fun heq => hfree (heq ▸ hmem)
      show (0 ≤ asI32 (last + 1) ∧ asI32 (last + 1) ≤ maxI32) ∧
        ∀ p ∈ positions, p < asI32 (last + 1)
      rw [asI32_of_mem ⟨by omega, by omega⟩]
      refine ⟨⟨by omega, by omega⟩, fun p hp => ?_⟩
      have := hle p hp
      omega

/-- After the last position comes the least of all. -/
theorem nextPosition_of_taken {positions : List Int} (h : ∀ p ∈ positions, p ≤ maxI32)
    (htaken : maxI32 ∈ positions) : nextPosition positions = -2147483648 := by
  have hmax : positions.max? = some maxI32 := List.max?_eq_some_iff.2 ⟨htaken, h⟩
  rw [nextPosition, hmax]
  decide

theorem placed_append {m : Member} {db' : ListDb} (hmembers : db'.members = db.members ++ [m])
    (hm : m.listId = listId) :
    placed db' listId = placed db listId ++ [(m.editionId, m.position)] := by
  rw [placed, ListDb.membersOf, hmembers, List.filter_append, List.map_append]
  congr 1
  rw [List.filter_singleton, decide_eq_true hm]
  rfl

/-- What adding does: nothing for a member and for an edition that is not there, or a row. -/
theorem step_add {now : Int} {e : DbId} (hlist : listId ∈ db.lists.map fun r => r.id) :
    (e ∈ db.library.tables.editionIds →
        e ∈ (db.membersOf listId).map (fun m => m.editionId)) ∧
      step env order listId db (.add now e) = db ∨
    (e ∈ db.library.tables.editionIds ∧ e ∉ (db.membersOf listId).map fun m => m.editionId) ∧
      (step env order listId db (.add now e)).lists = db.lists ∧
      (step env order listId db (.add now e)).library = db.library ∧
      (step env order listId db (.add now e)).members = db.members ++
        [⟨listId, e, nextPosition ((db.membersOf listId).map fun m => m.position), now⟩] := by
  obtain ⟨row, hrow⟩ := @requireList_eq_ok env listId db hlist
  show _ ∧ left db (addEditionToList env now listId e db) = db ∨ _ ∧
    (left db (addEditionToList env now listId e db)).lists = db.lists ∧
    (left db (addEditionToList env now listId e db)).library = db.library ∧
    (left db (addEditionToList env now listId e db)).members = _
  rw [addEditionToList, hrow, ok_bind]
  cases hedition : requireEdition env db.library e with
  | error err =>
      refine Or.inl ⟨fun hknown => ?_, rfl⟩
      obtain ⟨x, hx⟩ := (@requireEdition_eq_ok_iff env _ _).2 hknown
      rw [hedition] at hx
      cases hx
  | ok x =>
      have hknown := requireEdition_eq_ok_iff.1 ⟨x, hedition⟩
      rw [ok_bind]
      by_cases hmember : e ∈ (db.membersOf listId).map fun m => m.editionId
      · have hany : ((db.membersOf listId).any fun m => decide (m.editionId = e)) = true := by
          obtain ⟨m, hm, hid⟩ := List.mem_map.1 hmember
          exact List.any_eq_true.2 ⟨m, hm, decide_eq_true hid⟩
        rw [if_pos hany]
        exact Or.inl ⟨fun _ => hmember, rfl⟩
      · have hany : ¬ ((db.membersOf listId).any fun m => decide (m.editionId = e)) = true := by
          intro h
          obtain ⟨m, hm, hid⟩ := List.any_eq_true.1 h
          exact hmember (List.mem_map.2 ⟨m, hm, of_decide_eq_true hid⟩)
        rw [if_neg hany]
        refine Or.inr ⟨⟨hknown, hmember⟩, ?_⟩
        -- the check has seen no member, so the key is free
        have hkey : (listId, e) ∉ db.members.map fun m => (m.listId, m.editionId) := by
          intro h
          obtain ⟨m, hm, heq⟩ := List.mem_map.1 h
          have hof : m ∈ db.membersOf listId :=
            List.mem_filter.2 ⟨hm, decide_eq_true (congrArg Prod.fst heq)⟩
          exact hmember (List.mem_map.2 ⟨m, hof, congrArg Prod.snd heq⟩)
        have hinsert : db.insertMember ⟨listId, e,
            nextPosition ((db.membersOf listId).map fun m => m.position), now⟩ = .ok _ :=
          dif_pos ⟨hkey, hlist, hknown⟩
        simp only [hinsert]
        exact ⟨rfl, rfl, rfl⟩

/-- With the next position free, adding keeps the list in step. -/
theorem Abstracts.add {library : Db} {l : List DbId} (h : Abstracts listId library db l)
    {now : Int} {e : DbId} (hroomy : Roomy listId db (.add now e)) :
    Abstracts listId library (step env order listId db (.add now e))
      (listStep library.tables.editionIds l (.add now e)) := by
  obtain ⟨pairs, hperm, hfst, hincreasing, hbound⟩ := h.pairs
  rcases @step_add env order listId db now e h.there with ⟨hold, hsame⟩ | ⟨hnew, hadded⟩
  · have hkept : ¬ (e ∈ library.tables.editionIds ∧ e ∉ l) := by
      rw [h.mem_iff, ← h.library_eq]
      exact fun hnew => hnew.2 (hold hnew.1)
    rw [hsame, listStep, if_neg hkept]
    exact h
  · obtain ⟨hlists, hlibrary, hmembers⟩ := hadded
    -- a free position after the last keeps the order, and the edition comes at the end
    have hpositions : ∀ p ∈ (db.membersOf listId).map fun m => m.position, 0 ≤ p ∧ p ≤ maxI32 := by
      intro p hp
      obtain ⟨m, hm, rfl⟩ := List.mem_map.1 hp
      exact hbound _ (hperm.mem_iff.1 (List.mem_map_of_mem hm))
    obtain ⟨hnext, hlast⟩ := nextPosition_of_free hpositions (hroomy hnew.1 hnew.2)
    have happended : e ∈ library.tables.editionIds ∧ e ∉ l := by
      rw [h.mem_iff, ← h.library_eq]
      exact hnew
    rw [listStep, if_pos happended]
    refine ⟨hlists ▸ h.there, hlibrary.trans h.library_eq,
      pairs ++ [(e, nextPosition ((db.membersOf listId).map fun m => m.position))], ?_, ?_, ?_, ?_⟩
    · rw [placed_append hmembers rfl]
      exact hperm.append_right _
    · rw [List.map_append, hfst]
      rfl
    · refine hincreasing.append_one fun x hx => hlast _ ?_
      obtain ⟨m, hm, rfl⟩ := List.mem_map.1 (hperm.mem_iff.2 hx)
      exact List.mem_map_of_mem hm
    · intro x hx
      rcases List.mem_append.1 hx with hx | hx
      · exact hbound x hx
      · rw [List.mem_singleton.1 hx]
        exact hnext

/-- With the last position taken, an edition that is added comes first. -/
theorem Abstracts.add_first {library : Db} {l : List DbId} (h : Abstracts listId library db l)
    {now : Int} {e : DbId} (hnew : e ∈ library.tables.editionIds ∧ e ∉ l)
    (htaken : maxI32 ∈ (db.membersOf listId).map fun m => m.position) :
    (getReadingList order (step env order listId db (.add now e)) listId).map
      (fun l => l.editionIds) = some (e :: l) := by
  obtain ⟨pairs, hperm, hfst, hincreasing, hbound⟩ := h.pairs
  rw [h.mem_iff, ← h.library_eq] at hnew
  rcases @step_add env order listId db now e h.there with ⟨hold, _⟩ | ⟨_, hadded⟩
  · exact absurd (hold hnew.1) hnew.2
  · obtain ⟨hlists, _, hmembers⟩ := hadded
    have hleast : nextPosition ((db.membersOf listId).map fun m => m.position) = -2147483648 := by
      refine nextPosition_of_taken (fun p hp => ?_) htaken
      obtain ⟨m, hm, rfl⟩ := List.mem_map.1 hp
      exact (hbound _ (hperm.mem_iff.1 (List.mem_map_of_mem hm))).2
    obtain ⟨row, hrow⟩ := find_list (hlists ▸ h.there)
    rw [getReadingList, hrow, ← hfst]
    have hfirst : (placed (step env order listId db (.add now e)) listId).Perm
        ((e, -2147483648) :: pairs) := by
      rw [placed_append hmembers rfl, hleast]
      exact (hperm.append_right _).trans (List.perm_append_singleton _ _)
    refine congrArg some (editionIds_eq hfirst ?_)
    · refine List.pairwise_cons.2 ⟨fun x hx => ?_, hincreasing⟩
      have := (hbound x hx).1
      show (-2147483648 : Int) < x.2
      omega

/-! ### Removing and moving -/

theorem Abstracts.remove {library : Db} {l : List DbId} (h : Abstracts listId library db l)
    (e : DbId) : Abstracts listId library (step env order listId db (.remove e))
      (listStep library.tables.editionIds l (.remove e)) := by
  obtain ⟨pairs, hperm, hfst, hincreasing, hbound⟩ := h.pairs
  refine ⟨h.there, h.library_eq, pairs.filter fun x => decide (x.1 ≠ e), ?_, ?_,
    hincreasing.filter _, fun x hx => hbound x (List.mem_filter.1 hx).1⟩
  · have hplaced : placed (step env order listId db (.remove e)) listId =
        (placed db listId).filter fun x => decide (x.1 ≠ e) := by
      show ((db.members.filter _).filter _).map _ = ((db.members.filter _).map _).filter _
      rw [List.filter_map, List.filter_filter, List.filter_filter]
      congr 1
      refine List.filter_congr fun m _ => ?_
      by_cases hlist : m.listId = listId <;> simp [hlist]
    rw [hplaced]
    exact hperm.filter _
  · rw [listStep, h.nodup.erase_eq_filter, ← hfst, List.filter_map]
    congr 1
    refine List.filter_congr fun x _ => ?_
    by_cases hx : x.1 = e <;> simp [hx]

theorem Abstracts.move {library : Db} {l : List DbId} (h : Abstracts listId library db l)
    (e : DbId) (position : Nat) :
    Abstracts listId library (step env order listId db (.move e position))
      (listStep library.tables.editionIds l (.move e position)) := by
  obtain ⟨pairs, hperm, hfst, hincreasing, hbound⟩ := h.pairs
  obtain ⟨row, hrow⟩ := @requireList_eq_ok env listId db h.there
  -- the list is read by position, and its positions increase
  have hread : editionIds order db listId = l := hfst ▸ editionIds_eq hperm hincreasing
  have hmoved : step env order listId db (.move e position) =
      if e ∈ l then db.reposition (written listId (moveTo e position l).zipIdx) else db := by
    show left db (moveEditionInList env order listId e position db) = _
    rw [moveEditionInList, hrow, ok_bind, hread]
    by_cases hmem : e ∈ l
    · rw [if_pos hmem, if_pos hmem]
      exact writePositions_eq _ _
    · rw [if_neg hmem, if_neg hmem]
      rfl
  rw [hmoved, listStep]
  by_cases hmem : e ∈ l
  · rw [if_pos hmem, if_pos hmem]
    -- positions that differ and fit in 32 bits are not many, so the new ones fit too
    have hfew : (db.membersOf listId).length ≤ 2 ^ 31 := by
      have hcount : (pairs.length : Int) ≤ (maxI32 + 1) - 0 :=
        length_le_of_increasing hincreasing
          (fun x hx => ⟨(hbound x hx).1, Int.lt_add_one_of_le (hbound x hx).2⟩) (by decide)
      have hlength := hperm.length_eq
      rw [placed, List.length_map] at hlength
      rw [maxI32] at hcount
      omega
    have hids : (moveTo e position l).Perm ((placed db listId).map Prod.fst) := by
      refine (moveTo_perm hmem position).trans ?_
      rw [← hfst]
      exact (hperm.map _).symm
    refine ⟨h.there, h.library_eq, numbered (moveTo e position l),
      (placed_written_perm_iff hids).2 hfew, map_fst_numbered _, increasing_numbered _, ?_⟩
    rintro ⟨a, n⟩ hx
    obtain ⟨i, hi, rfl⟩ := mem_numbered.1 hx
    have hlt := (List.getElem?_eq_some_iff.1 hi).1
    rw [hids.length_eq, placed, List.length_map, List.length_map] at hlt
    refine ⟨Int.natCast_nonneg i, ?_⟩
    rw [maxI32]
    omega
  · rw [if_neg hmem, if_neg hmem]
    exact h

/-! ### Runs -/

/-- One call keeps the list in step, if it finds room. -/
theorem Abstracts.next {library : Db} {l : List DbId} (h : Abstracts listId library db l)
    (a : Action) (hroomy : Roomy listId db a) :
    Abstracts listId library (step env order listId db a)
      (listStep library.tables.editionIds l a) := by
  cases a with
  | add now e => exact h.add hroomy
  | remove e => exact h.remove e
  | move e position => exact h.move e position

/-- If the list reads as it should after a call, the call found room. -/
theorem Abstracts.roomy {library : Db} {l : List DbId} (h : Abstracts listId library db l)
    {a : Action} (hread : (getReadingList order (step env order listId db a) listId).map
        (fun l => l.editionIds) = some (listStep library.tables.editionIds l a)) :
    Roomy listId db a := by
  cases a with
  | remove e => exact trivial
  | move e position => exact trivial
  | add now e =>
      intro hknown hnew htaken
      rw [h.library_eq] at hknown
      rw [← h.mem_iff] at hnew
      -- the edition comes first, and should be last
      rw [h.add_first ⟨hknown, hnew⟩ htaken, listStep, if_pos ⟨hknown, hnew⟩] at hread
      obtain ⟨m, hm, _⟩ := List.mem_map.1 htaken
      have hmember : m.editionId ∈ l := h.mem_iff.2 (List.mem_map_of_mem hm)
      cases l with
      | nil => cases hmember
      | cons first rest =>
          have hfirst : e = first := (List.cons.inj (Option.some.inj hread)).1
          exact hnew (hfirst ▸ List.mem_cons_self)

/-- A list that no row belongs to. -/
theorem abstracts_nil (hlist : listId ∈ db.lists.map fun r => r.id)
    (hempty : db.membersOf listId = []) : Abstracts listId db.library db [] := by
  refine ⟨hlist, rfl, [], ?_, rfl, List.Pairwise.nil, fun x hx => absurd hx List.not_mem_nil⟩
  rw [placed, hempty]
  exact List.Perm.nil

/-- **A READING LIST BEHAVES AS A LIST** exactly as long as each edition that comes new to it
    finds the last position free. -/
theorem behaves_iff_admitted (run : List Action) (hlist : listId ∈ db.lists.map fun r => r.id)
    (hempty : db.membersOf listId = []) :
    Behaves env order listId db run ↔
      Runs.Admitted (step env order listId) (Roomy listId) db run := by
  let known := db.library.tables.editionIds
  let both := fun (p : ListDb × List DbId) (a : Action) =>
    (step env order listId p.1 a, listStep known p.2 a)
  have hruns := @Runs.observed_iff_admitted _ _ both (fun p => Roomy listId p.1)
    (fun p => Abstracts listId db.library p.1 p.2)
    (fun p => (getReadingList order p.1 listId).map (fun l => l.editionIds) = some p.2)
    (fun p h => h.read) (fun p a h hread => h.roomy hread) (fun p a h hroomy => h.next a hroomy)
    (db, []) run (abstracts_nil hlist hempty)
  have hboth : ∀ pre, Runs.exec both (db, []) pre =
      (Runs.exec (step env order listId) db pre, Runs.exec (listStep known) [] pre) :=
    fun pre => Runs.exec_prod _ _ pre db []
  simp only [hboth] at hruns
  have hguard : ∀ (p : ListDb × List DbId) (s : ListDb) (a : Action), p.1 = s →
      (Roomy listId p.1 a ↔ Roomy listId s a) := by
    rintro p s a rfl
    exact Iff.rfl
  have hstep : ∀ (p : ListDb × List DbId) (s : ListDb) (a : Action), p.1 = s →
      (both p a).1 = step env order listId s a := by
    rintro p s a rfl
    rfl
  exact hruns.trans (Runs.Admitted.simulate hguard hstep run rfl)

/-- A list is created empty. -/
theorem membersOf_created {now : Int} {name : String} {description : Option String}
    {created : ReadingList} {db' : ListDb}
    (h : createReadingList now listId name description db = .ok (created, db')) :
    (listId ∈ db'.lists.map fun r => r.id) ∧ db'.membersOf listId = [] := by
  rw [createReadingList] at h
  by_cases hnew : listId ∉ db.lists.map fun r => r.id
  · rw [dif_pos hnew] at h
    cases h
    refine ⟨?_, List.filter_eq_nil_iff.2 fun m hm hid => hnew ?_⟩
    · rw [List.map_append]
      exact List.mem_append_right _ (List.mem_singleton_self _)
    · rw [← of_decide_eq_true hid]
      exact db.memberLists (List.mem_map_of_mem hm)
  · rw [dif_neg hnew] at h
    cases h

end Refinement

/-- **A READING LIST IS AN ORDINARY LIST** exactly as long as each edition that comes new to it
    finds the last position free, and a move leaves dense positions exactly if there are no
    more editions than positions. -/
theorem ordinary_iff (env : Env) (order : ByPosition) (listId : DbId) (db : ListDb) :
    (∀ now name description created db₀ run,
      createReadingList now listId name description db₀ = .ok (created, db) →
        (Behaves env order listId db run ↔
          Runs.Admitted (step env order listId) (Roomy listId) db run)) ∧
    ∀ editionId position returned db',
      moveEditionInList env order listId editionId position db = .ok (returned, db') →
        (Moved listId db db' returned ↔ (db.membersOf listId).length ≤ 2 ^ 31) := by
  constructor
  · intro now name description created db₀ run h
    obtain ⟨hlist, hempty⟩ := membersOf_created h
    exact behaves_iff_admitted run hlist hempty
  · intro editionId position returned db' h
    exact moved_iff h

/-! ## Two editions that change places -/

def secondEdition : Edition where
  id := sampleId 3
  workId := sampleId 1
  title := none
  publishedDate := none
  formatId := none
  languageId := none
  notes := none
  description := none
  createdAt := 0
  updatedAt := none
  coverImageUrl := none

def twoEditionsDb : Db where
  tables := { oneEditionDb.tables with
    editions := oneEditionDb.tables.editions ++ [secondEdition] }
  sound := by decide

/-- A library of two editions and no list. -/
def unlistedDb : ListDb where
  library := twoEditionsDb
  lists := []
  members := []
  listKeys := List.nodup_nil
  memberKeys := List.nodup_nil
  memberLists := List.nil_subset _
  memberEditions := List.nil_subset _

def emptyList : ListRow := ⟨sampleId 7, "Summer", none, 0, none⟩

/-- A list that was created and is empty. -/
def emptyListDb : ListDb where
  library := twoEditionsDb
  lists := [emptyList]
  members := []
  listKeys := List.nodup_singleton _
  memberKeys := List.nodup_nil
  memberLists := List.nil_subset _
  memberEditions := List.nil_subset _

theorem createReadingList_unlisted : createReadingList 0 (sampleId 7) "Summer" none unlistedDb =
    .ok (⟨emptyList, []⟩, emptyListDb) := rfl

/-- Rows by position. -/
def byPosition : ByPosition where
  order rows := rows.mergeSort fun a b => decide (a.position ≤ b.position)
  perm rows := List.mergeSort_perm ..
  sorted rows := by
    refine (List.pairwise_mergeSort ?_ ?_ rows).imp of_decide_eq_true
    · intro a b c hab hbc
      exact decide_eq_true (Int.le_trans (of_decide_eq_true hab) (of_decide_eq_true hbc))
    · intro a b
      rw [Bool.or_eq_true]
      exact (Int.le_total a.position b.position).imp decide_eq_true decide_eq_true

/-- One edition comes after the other, which goes. -/
def replaced (old new : DbId) : List Action := [.add 0 new, .remove old]

/-- The list has one edition. -/
structure Holds (db : ListDb) (e : DbId) (position : Int) : Prop where
  lists : db.lists = [emptyList]
  library : db.library = twoEditionsDb
  members : db.members = [⟨sampleId 7, e, position, 0⟩]

section Exchange

variable {env : Env} {order : ByPosition} {db : ListDb} {old new : DbId} {position : Int}

theorem Holds.there (h : Holds db old position) : sampleId 7 ∈ db.lists.map fun r => r.id := by
  rw [h.lists]
  exact List.mem_singleton_self _

theorem Holds.membersOf (h : Holds db old position) :
    db.membersOf (sampleId 7) = [⟨sampleId 7, old, position, 0⟩] := by
  rw [ListDb.membersOf, h.members]
  rfl

/-- Each exchange takes one more position. -/
theorem Holds.replaced (h : Holds db old position) (hroom : 0 ≤ position ∧ position < maxI32)
    (hnew : new ∈ twoEditionsDb.tables.editionIds) (hne : new ≠ old) :
    Holds (Runs.exec (step env order (sampleId 7)) db (replaced old new)) new (position + 1) := by
  rcases @step_add env order (sampleId 7) db 0 new h.there with ⟨hold, _⟩ | ⟨_, hadded⟩
  · rw [h.library, h.membersOf] at hold
    exact absurd (List.mem_singleton.1 (hold hnew)) hne
  · obtain ⟨hlists, hlibrary, hmembers⟩ := hadded
    refine ⟨hlists.trans h.lists, hlibrary.trans h.library, ?_⟩
    have hnext : nextPosition [position] = position + 1 := by
      show asI32 (position + 1) = position + 1
      exact asI32_of_mem ⟨by omega, by omega⟩
    rw [h.membersOf, h.members] at hmembers
    show (step env order (sampleId 7) db (.add 0 new)).members.filter _ = _
    rw [hmembers]
    simp [hne, ← hnext]

end Exchange

/-- Two editions that take turns. -/
def takingTurns (n : Nat) : List Action :=
  (List.replicate n (replaced (sampleId 2) (sampleId 3) ++
    replaced (sampleId 3) (sampleId 2))).flatten

theorem holds_takingTurns (n : Nat) : ∀ {db : ListDb} {position : Int},
    Holds db (sampleId 2) position → 0 ≤ position → position + 2 * n ≤ maxI32 →
      Holds (Runs.exec (step Env.reference byPosition (sampleId 7)) db (takingTurns n))
        (sampleId 2) (position + 2 * n) := by
  induction n with
  | zero =>
      intro db position h _ _
      rw [Int.natCast_zero, Int.mul_zero, Int.add_zero]
      exact h
  | succ n ih =>
      intro db position h hlow hhigh
      have hfirst := @Holds.replaced Env.reference byPosition _ _ (sampleId 3) _ h
        ⟨hlow, by omega⟩ (by decide) (by decide)
      have hsecond := @Holds.replaced Env.reference byPosition _ _ (sampleId 2) _ hfirst
        ⟨by omega, by omega⟩ (by decide) (by decide)
      have hrest := ih hsecond (by omega) (by omega)
      rw [takingTurns, List.replicate_succ, List.flatten_cons, Runs.exec_append, Runs.exec_append]
      have hsum : position + 1 + 1 + 2 * (n : Int) = position + 2 * ((n + 1 : Nat) : Int) := by
        omega
      rw [← hsum]
      exact hrest

/-- An edition is added, and changes places with another one until all positions are taken. -/
def untilTaken : List Action :=
  .add 0 (sampleId 2) :: (takingTurns (2 ^ 30 - 1) ++ replaced (sampleId 2) (sampleId 3))

theorem holds_untilTaken :
    Holds (Runs.exec (step Env.reference byPosition (sampleId 7)) emptyListDb untilTaken)
      (sampleId 3) maxI32 := by
  have hfirst : Holds (step Env.reference byPosition (sampleId 7) emptyListDb
      (.add 0 (sampleId 2))) (sampleId 2) 0 := ⟨rfl, rfl, rfl⟩
  have hturns := holds_takingTurns (2 ^ 30 - 1) hfirst (Int.le_refl 0) (by decide)
  have hlast := @Holds.replaced Env.reference byPosition _ _ (sampleId 3) _ hturns
    ⟨by decide, by decide⟩ (by decide) (by decide)
  rw [untilTaken, Runs.exec_cons, Runs.exec_append]
  exact hlast

/-- The list should be the second edition and then the first, and is the other way round. -/
theorem not_behaves_takingTurns :
    ¬ Behaves Env.reference byPosition (sampleId 7) emptyListDb
      (untilTaken ++ [.add 0 (sampleId 2)]) := by
  rw [behaves_iff_admitted _ (List.mem_singleton_self _) rfl]
  intro h
  obtain ⟨hroomy, _⟩ := h.drop untilTaken [.add 0 (sampleId 2)]
  have hholds := holds_untilTaken
  rw [Roomy, hholds.library, hholds.membersOf] at hroomy
  exact hroomy (by decide) (by decide) (List.mem_singleton_self _)

/-- The first edition is in the list. -/
def oneListedDb : ListDb where
  library := twoEditionsDb
  lists := [emptyList]
  members := [⟨sampleId 7, sampleId 2, 5, 0⟩]
  listKeys := List.nodup_singleton _
  memberKeys := List.nodup_singleton _
  memberLists := by decide
  memberEditions := by decide

theorem moveEditionInList_oneListed : ∃ db', moveEditionInList Env.reference byPosition (sampleId 7)
    (sampleId 2) 4 oneListedDb = .ok ([sampleId 2], db') := by
  have hread : editionIds byPosition oneListedDb (sampleId 7) = [sampleId 2] :=
    @editionIds_eq _ _ _ [(sampleId 2, 5)] (List.Perm.refl _) (List.pairwise_singleton _ _)
  have hlist : requireList Env.reference oneListedDb (sampleId 7) = .ok emptyList := rfl
  rw [moveEditionInList, hlist, ok_bind, hread]
  exact ⟨_, rfl⟩

/-- A few calls on a list, and a move over a gap. -/
theorem ordinary_fewCalls :
    Behaves Env.reference byPosition (sampleId 7) emptyListDb
        [.add 0 (sampleId 2), .move (sampleId 2) 4] ∧
    ∃ db', Moved (sampleId 7) oneListedDb db' [sampleId 2] := by
  constructor
  · refine ((ordinary_iff Env.reference byPosition (sampleId 7) emptyListDb).1 0 "Summer" none
      ⟨emptyList, []⟩ unlistedDb _ createReadingList_unlisted).2 ⟨?_, trivial, trivial⟩
    exact fun _ _ htaken => List.not_mem_nil htaken
  · obtain ⟨db', hmove⟩ := moveEditionInList_oneListed
    exact ⟨db', ((ordinary_iff Env.reference byPosition (sampleId 7) oneListedDb).2 (sampleId 2) 4
      [sampleId 2] db' hmove).2 (by decide)⟩

end ReadingLists

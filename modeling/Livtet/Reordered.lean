import Livtet.ForeignKeys
import Livtet.Convergence

/-! # A page replayed parents first

    `apply_changes` sorts a page by the rank of its tables before it applies it. A
    receiver that enforces its foreign keys then deletes a parent before the changes of
    its children, and repeats the cascade with triggers of its own. The page still
    arrives as it was sent when no row that ever pointed to a row the page deletes is
    written by the page, and none of them is set to NULL: every row the receiver loses
    early is one that the page only deletes. Where a page writes such a row, its write
    comes after the delete of its parent. -/

namespace SyncReordered

open SqlRows JsonText SyncSchema SyncStore SyncEngine SyncSteps SyncWire SyncContents SyncApplied
open SyncHistory Outcomes Histories Runs SortedPages

/-! ## The page between two states of the sender -/

section Page

variable {env : Env}

/-- Trigger rows have ascending versions, above what was there. -/
theorem grows_ascending {log log' : ChangeLog} (h : ChangeLog.Grows log log')
    (hrange : InRange log') : ∃ new, ChangeLog.Extends log log' new ∧
      new.Pairwise (fun a b => a.version < b.version) := by
  induction h with
  | refl =>
      obtain ⟨new, hext⟩ := (ChangeLog.Grows.refl log).extends
      have hnil : new = [] := List.self_eq_append_right.1 hext.rows
      subst hnil
      exact ⟨[], hext, List.Pairwise.nil⟩
  | @step mid hmid now entityType entityId operation payload ih =>
      have hmidRange : InRange mid := by
        intro r hr
        refine hrange r ?_
        rw [ChangeLog.logLocal_rows]
        exact List.mem_append_left _ hr
      obtain ⟨new, hext, hpair⟩ := ih hmidRange
      obtain ⟨new', hext'⟩ := (ChangeLog.Grows.step hmid now entityType entityId operation
        payload).extends
      have hnew : new' = new ++ [mid.localRow now entityType entityId operation payload] := by
        have hrows := hext'.rows
        rw [ChangeLog.logLocal_rows, hext.rows, List.append_assoc] at hrows
        exact (List.append_cancel_left hrows).symm
      refine ⟨new', hext', ?_⟩
      rw [hnew, List.pairwise_append]
      refine ⟨hpair, List.pairwise_singleton _ _, ?_⟩
      intro a ha b hb
      cases List.mem_singleton.1 hb
      have hmem : a ∈ mid.rows := by
        rw [hext.rows]
        exact List.mem_append_right _ ha
      exact ChangeLog.lt_nextVersion (ChangeLog.version_le_maxVersion hmem) (hmidRange a hmem)

theorem maxVersion_lt {log log' : ChangeLog} {new : List ChangeRow}
    (hext : ChangeLog.Extends log log' new) (hrange : InRange log') {r : ChangeRow} (hr : r ∈ new) :
    log.maxVersion < r.version := by
  refine hext.above r hr _ (le_refl _) (maxVersion_le_maxI64 fun row hrow => hrange row ?_)
  rw [hext.rows]
  exact List.mem_append_left _ hrow

/-- Strictly ascending rows are visited as they are. -/
theorem visit_eq {rows : List ChangeRow} (h : rows.Pairwise fun a b => a.version < b.version)
    (n : Int) : env.asc.visit n rows = rows := by
  refine List.Perm.eq_of_pairwise ?_ (env.asc.sorted n rows)
    (h.imp fun hlt => le_of_lt hlt) (env.asc.perm n rows)
  intro a b ha hb hab hba
  have ha := (env.asc.perm n rows).mem_iff.1 ha
  by_contra hne
  -- two different rows have different versions
  have hversions : a.version ≠ b.version := by
    have hirrefl : rows.Pairwise fun a b => a.version ≠ b.version := h.imp fun hlt => ne_of_lt hlt
    have : Std.Symm fun a b : ChangeRow => a.version ≠ b.version := ⟨fun _ _ h => h.symm⟩
    exact hirrefl.forall ha hb hne
  exact hversions (le_antisymm hab hba)

/-- The page from the sender's cursor to where its edits end carries what they logged. -/
theorem pullChanges_between {a b c : ChangeLog} (hab : ChangeLog.Grows a b)
    (hbc : ChangeLog.Grows b c) (hrange : InRange c) {new : List ChangeRow}
    (hnew : b.rows = a.rows ++ new) :
    (pullChanges env c a.maxVersion (b.rows.length - a.rows.length)).changes =
      new.filterMap toSyncChange := by
  obtain ⟨all, hext, hpair⟩ := grows_ascending (hab.trans hbc) hrange
  obtain ⟨later, hlater⟩ := hbc.extends
  have hall : all = new ++ later := by
    have hrows := hext.rows
    rw [hlater.rows, hnew, List.append_assoc] at hrows
    exact (List.append_cancel_left hrows).symm
  have habove : rowsAbove c a.maxVersion = all := by
    rw [rowsAbove, hext.rows, List.filter_append]
    have hold : a.rows.filter (fun r => decide (a.maxVersion < r.version)) = [] := by
      refine List.filter_eq_nil_iff.2 fun r hr hlt => ?_
      exact absurd (ChangeLog.version_le_maxVersion hr) (not_le.2 (of_decide_eq_true hlt))
    have hkeep : all.filter (fun r => decide (a.maxVersion < r.version)) = all :=
      List.filter_eq_self.2 fun r hr => decide_eq_true (maxVersion_lt hext hrange hr)
    rw [hold, hkeep, List.nil_append]
  have hlength : ((b.rows.length : Int) - a.rows.length) = (new.length : Int) := by
    rw [hnew, List.length_append]
    omega
  show (pageRows env c a.maxVersion _).filterMap toSyncChange = _
  rw [pageRows, habove, visit_eq hpair, hlength, limited_of_pos, hall, List.take_left]

/-- A logged row is in the page. -/
theorem mem_filterMap_toSyncChange {log log' : ChangeLog} {new : List ChangeRow}
    (hext : ChangeLog.Extends log log' new) (hrange : InRange log') {r : ChangeRow}
    (hr : r ∈ log'.rows) (hversion : log.maxVersion < r.version) :
    ∃ c ∈ new.filterMap toSyncChange, c.entityType = r.entityType ∧ c.entityId = r.entityId ∧
      c.operation = r.operation := by
  have hmem : r ∈ new := by
    rw [hext.rows] at hr
    rcases List.mem_append.1 hr with hold | hnew
    · exact absurd (ChangeLog.version_le_maxVersion hold) (not_le.2 hversion)
    · exact hnew
  have hbounds : minI64 ≤ r.version ∧ r.version ≤ maxI64 := ⟨(log'.bounded r hr).1, hrange r hr⟩
  have hchange : ∃ c, toSyncChange r = some c ∧ c.entityType = r.entityType ∧
      c.entityId = r.entityId ∧ c.operation = r.operation := by
    rw [toSyncChange, hext.device r hmem]
    simp only [dif_pos hbounds]
    exact ⟨_, rfl, rfl, rfl, rfl⟩
  obtain ⟨c, hc, hfields⟩ := hchange
  exact ⟨c, List.mem_filterMap.2 ⟨r, hmem, hc⟩, hfields⟩

end Page

/-! ## The condition -/

/-- The page deletes the row of this id. -/
def Deletes (page : List SyncChange) (p : SyncableEntityKind) (id : Value) : Prop :=
  ∃ c ∈ page, c.operation = "DELETE" ∧ c.entityType = p.entityTypeName ∧ c.entityId = lowerHex id

/-- The page inserts or updates the row. -/
def Writes (env : Env) (page : List SyncChange) (y : Entry) : Prop :=
  ∃ c ∈ page, c.operation ≠ "DELETE" ∧ c.entityType = y.1.entityTypeName ∧
    triggerEntityId env y.1 y.2.val = some c.entityId

instance (page : List SyncChange) (p : SyncableEntityKind) (id : Value) :
    Decidable (Deletes page p id) :=
  inferInstanceAs (Decidable (∃ c ∈ page, _))

instance (env : Env) (page : List SyncChange) (y : Entry) : Decidable (Writes env page y) :=
  inferInstanceAs (Decidable (∃ c ∈ page, _))

/-- In every state of the sender from before the page to after it: a row that points to
    one the page deletes would be deleted with it, and the page does not write it. -/
def Untangled (env : Env) (page : List SyncChange) (edits : List (String × LocalEdit))
    (before : Db) : Prop :=
  ∀ db, Visited env edits before db → ∀ y ∈ held db, ∀ fk ∈ y.1.foreignKeys,
    ∀ p, fk.parent = .synced p → Deletes page p (y.2.val fk.column) →
      fk.onDelete = .cascade ∧ ¬ Writes env page y

/-- A history that a receiver can replay in another order, from the rows `B`. -/
structure Replayable {env : Env} (since : Int) (parents : String → List (List UInt8))
    (B : Set Entry) (records : List (Record env)) : Prop where
  injective : Set.InjOn Entry.key B
  fits : Admitted (feed env).step (Fits parents) B records
  ascending : records.Pairwise fun a b => a.change.version < b.change.version
  above : ∀ r ∈ records, since < r.change.version
  parentsStay : ∀ r ∈ records, r.op ≠ .delete → ∀ d ∈ records, d.op = .delete →
    ∀ fk, ¬ PointsTo r.entry fk d.entry.key
  childrenGo : ∀ y ∈ B, ∀ d ∈ records, d.op = .delete → ∀ fk, PointsTo y fk d.entry.key →
    fk.onDelete = .cascade ∧ (feed env).Doomed records y.key

section Sender

variable {env : Env} {records : List (Record env)} {before after final : Db}
  {edits : List (String × LocalEdit)}

theorem deletes_of_record {r : Record env} (hr : r ∈ records) (hop : r.op = .delete) {y : Entry}
    {fk : ForeignKey} (hpoints : PointsTo y fk r.entry.key) :
    ∃ p, fk.parent = .synced p ∧
      Deletes (records.map fun r => r.change) p (y.2.val fk.column) := by
  have hparent : fk.parent = .synced r.entry.1 := hpoints.parent
  have hform := (foreignKey_parent y.1 fk hpoints.mem _ hparent).2.2
  have hid := (pointsTo_iff hpoints.mem hparent).1 hpoints
  refine ⟨r.entry.1, hparent, r.change, List.mem_map_of_mem hr, ?_, r.entityType, ?_⟩
  · rw [r.operation, hop]
    rfl
  · have hname := r.name
    rw [triggerEntityId, hform] at hname
    rw [hid]
    exact (Option.some.inj hname).symm

theorem writes_of_record {r : Record env} (hr : r ∈ records) (hput : r.op ≠ .delete) {y : Entry}
    (hkey : r.entry.key = y.key) : Writes env (records.map fun r => r.change) y := by
  obtain ⟨k, x⟩ := y
  have hkind : r.entry.1 = k := congrArg Prod.fst hkey
  have htext : r.op.text ≠ "DELETE" := by
    cases hop : r.op with
    | delete => exact absurd hop hput
    | _ => decide
  have hname := r.name
  have htype := r.entityType
  generalize r.entry = e at hkey hkind hname htype
  obtain ⟨k', x'⟩ := e
  obtain rfl : k' = k := hkind
  refine ⟨r.change, List.mem_map_of_mem hr, ?_, htype, ?_⟩
  · rw [r.operation]
    exact htext
  · rw [← hname]
    exact triggerEntityId_congr fun c hc =>
      ((same_iff x'.property).1 (key_eq_iff.1 hkey) c hc).symm

theorem versions_of_wrote : ∀ (records : List (Record env)) {new : List ChangeRow},
    (new.map toSyncChange = records.map fun r => some r.change) →
      records.map (fun r => r.change.version) = new.map fun r => r.version := by
  intro records
  induction records with
  | nil =>
      intro new h
      rw [List.map_nil, List.map_eq_nil_iff] at h
      rw [h]
      rfl
  | cons r rest ih =>
      intro new h
      cases new with
      | nil => cases h
      | cons row tail =>
          obtain ⟨hhead, htail⟩ := List.cons.inj h
          rw [List.map_cons, List.map_cons, SyncPaging.version_of_toSyncChange hhead, ih htail]

theorem changes_of_wrote {new : List ChangeRow}
    (h : new.map toSyncChange = records.map fun r => some r.change) :
    new.filterMap toSyncChange = records.map fun r => r.change := by
  have hsome : (new.map toSyncChange).filterMap id =
      (records.map fun r => some r.change).filterMap id := by rw [h]
  rw [List.filterMap_map, List.filterMap_map] at hsome
  refine hsome.trans ?_
  rw [← List.filterMap_eq_map]
  rfl

theorem ascending_of_wrote {new : List ChangeRow}
    (h : new.map toSyncChange = records.map fun r => some r.change)
    (hnew : new.Pairwise fun a b => a.version < b.version) :
    records.Pairwise fun a b => a.change.version < b.change.version := by
  have hmapped : (records.map fun r => r.change.version).Pairwise (· < ·) := by
    rw [versions_of_wrote records h]
    exact List.pairwise_map.2 hnew
  exact List.pairwise_map.1 hmapped

theorem above_of_wrote {new : List ChangeRow} {since : Int}
    (h : new.map toSyncChange = records.map fun r => some r.change)
    (hnew : ∀ row ∈ new, since < row.version) : ∀ r ∈ records, since < r.change.version := by
  intro r hr
  have hmem : r.change.version ∈ new.map fun r => r.version := by
    rw [← versions_of_wrote records h]
    exact List.mem_map_of_mem hr
  obtain ⟨row, hrow, heq⟩ := List.mem_map.1 hmem
  rw [← heq]
  exact hnew row hrow

/-- What the page of an untangled run tells. -/
theorem replayable_of_perform (hdb : Enforcing before)
    (hclean : ∀ db, Visited env edits before db → Clean db)
    (hplain : ∀ e ∈ edits, Plain e.2) (hrun : perform env edits before = .ok after)
    (hlater : ChangeLog.Grows after.log final.log) (hrange : InRange final.log)
    {page : List SyncChange}
    (hpage : page = (pullChanges env final.log before.log.maxVersion
      (after.log.rows.length - before.log.rows.length)).changes)
    (huntangled : Untangled env page edits before) :
    ∃ records : List (Record env), page = records.map (fun r => r.change) ∧
      Replayable before.log.maxVersion before.parents (held before) records ∧
      held after = exec (feed env).step (held before) records := by
  have hecho := echoed_perform hrun
  have hrange' : InRange after.log := by
    obtain ⟨later, hext⟩ := hlater.extends
    intro r hr
    refine hrange r ?_
    rw [hext.rows]
    exact List.mem_append_left _ hr
  obtain ⟨new, hext, hpair⟩ := grows_ascending hecho.log hrange'
  -- the page is what the run appended, in the order of the versions
  rw [pullChanges_between hecho.log hlater hrange hext.rows] at hpage
  rcases perform_told edits hdb hclean hrange' hplain hrun with
    ⟨records, htold, hplaced⟩ | ⟨db, hvisited, y, hy, fk, hfk, p, hparent, hnull, row, hrow,
      hop, htype, hid, hversion⟩
  · obtain ⟨new', hrows, hmap⟩ := htold.wrote
    have hnew : new' = new := by
      rw [hext.rows] at hrows
      exact (List.append_cancel_left hrows).symm
    subst hnew
    have hchanges : page = records.map fun r => r.change := hpage.trans (changes_of_wrote hmap)
    subst hchanges
    refine ⟨records, rfl, ⟨injOn_key before, htold.fits, ascending_of_wrote hmap hpair,
      above_of_wrote hmap fun row => maxVersion_lt hext hrange', ?_, ?_⟩, htold.rows⟩
    · intro r hr hput d hd hop fk hpoints
      obtain ⟨db, hvisited, hheld⟩ := hplaced r hr hput
      obtain ⟨p, hparent, hdeletes⟩ := deletes_of_record hd hop hpoints
      exact (huntangled db hvisited r.entry hheld fk hpoints.mem p hparent hdeletes).2
        (writes_of_record hr hput rfl)
    · intro y hy d hd hop fk hpoints
      obtain ⟨p, hparent, hdeletes⟩ := deletes_of_record hd hop hpoints
      obtain ⟨hcascade, hwrites⟩ := huntangled before (Visited.start env edits before) y hy fk
        hpoints.mem p hparent hdeletes
      refine ⟨hcascade, ?_, ?_⟩
      · by_contra hnone
        refine htold.orphans d hd hop y hy (fun r hr hkey => hnone ⟨r, hr, hkey⟩) fk hpoints
      · intro r hr hkey
        by_contra hput
        exact hwrites (writes_of_record hr (fun hdelete => hput (drops_eq.2 hdelete)) hkey)
  · -- the delete that set a column to NULL is in the page
    exfalso
    obtain ⟨done, _, hdone⟩ := id hvisited
    have hge := maxVersion_le_of_grows (echoed_perform hdone).log
    obtain ⟨c, hc, hctype, hcid, hcop⟩ := mem_filterMap_toSyncChange hext hrange' hrow
      (lt_of_le_of_lt hge hversion)
    have hdeletes : Deletes page p (y.2.val fk.column) := by
      rw [hpage]
      exact ⟨c, hc, hcop.trans hop, hctype.trans htype, hcid.trans hid⟩
    have hcascade := (huntangled db hvisited y hy fk hfk p hparent hdeletes).1
    rw [hnull] at hcascade
    cases hcascade

end Sender

/-! ## Facts about the lists -/

/-- A parent that a logged column names has a lower rank. -/
theorem parent_rank : ∀ k : SyncableEntityKind, ∀ fk ∈ k.foreignKeys, ∀ p : SyncableEntityKind,
    fk.parent = .synced p → fk.column ∈ k.emitted →
      applyRank p.entityTypeName < applyRank k.entityTypeName := by
  decide

/-- A foreign key that is not logged is NULL by default. -/
theorem unlogged_reference : ∀ k : SyncableEntityKind, ∀ fk ∈ k.foreignKeys,
    fk.column ∉ k.emitted → ((k.layout.column? fk.column).map Column.default) = some .null := by
  decide

theorem id_column : ∀ k : SyncableEntityKind,
    "id" ∈ k.layout.primaryKey ∨ k.layout.column? "id" = none := by
  decide

theorem keys_emitted : ∀ k : SyncableEntityKind, ∀ key ∈ k.layout.keys, ∀ c ∈ key,
    c ∈ k.emitted := by
  decide

/-! ## A record that fits is applied -/

section Put

variable {env : Env} {now : String} {k : SyncableEntityKind} {db : Db} {x : k.layout.StoredRow}

/-- A trigger that can name and write its row succeeds, and logs that row or nothing. -/
theorem fireTrigger_ok (op : Operation) {r : Row} {i payload : String}
    (hi : triggerEntityId env k r = some i) (hpayload : triggerPayload env k r = some payload)
    (db : Db) : ∃ db', fireTrigger env now k op r db = .ok db' ∧
      (db'.log = db.log ∨
        db'.log = db.log.logLocal now k.entityTypeName i op.text payload) := by
  rw [fireTrigger]
  split
  · exact ⟨db, rfl, Or.inl rfl⟩
  split
  · exact ⟨db, rfl, Or.inl rfl⟩
  · rw [hi, hpayload]
    exact ⟨_, rfl, Or.inr rfl⟩

/-- The logged values of a row make a row: the rest is filled with defaults. -/
theorem candidate_ok (env : Env) (now : String) (hsend : Sendable k x.val) {values : Assignments}
    (hvalues : Names k x.val values) (hplain : ∀ p ∈ values, p.1 ∈ k.emitted) :
    ∃ s : k.layout.StoredRow, Table.candidate env.affinity now k.layout values = .ok s ∧
      (∀ c ∈ k.emitted, s.val c = x.val c) ∧
      ∀ c ∉ k.emitted, s.val c = k.layout.defaults now c := by
  have hemitted : ∀ c ∈ k.emitted, overlay (k.layout.defaults now) values c = x.val c :=
    fun c hc => overlay_of_named hvalues.1 (hvalues.2 c hc)
  have hrest : ∀ c ∉ k.emitted, overlay (k.layout.defaults now) values c = k.layout.defaults now c :=
    fun c hc => overlay_unlogged _ hplain hc
  -- the logged columns are those of a stored row, and the others have defaults that fit
  have hok : k.layout.RowOk (overlay (k.layout.defaults now) values) := by
    constructor
    · intro c col hcol
      by_cases hc : c ∈ k.emitted
      · rw [hemitted c hc]
        exact hsend.ok.typed c col hcol
      · rw [hrest c hc]
        exact defaults_typed hcol
    · intro c col hcol hnotNull hnull
      by_cases hc : c ∈ k.emitted
      · rw [hemitted c hc] at hnull
        exact hsend.ok.present c col hcol hnotNull hnull
      · obtain ⟨hmem, rfl⟩ := Layout.mem_of_column? hcol
        rw [hrest _ hc, Layout.defaults_of_column? hcol] at hnull
        exact (unlogged_default k col hmem hc).2 hnotNull (Default.eval_eq_null "" hnull)
    · intro c hcol
      have hc : c ∉ k.emitted := by
        intro hc
        have hsome := k.emitted_subset c hc
        rw [hcol] at hsome
        cases hsome
      rw [hrest c hc]
      exact defaults_outside hcol
  refine ⟨⟨_, hok⟩, ?_, hemitted, hrest⟩
  rw [Table.candidate, unknown?_eq_none hplain]
  exact Layout.store_of_rowOk hok k.columns_nodup

theorem agree_congr {key : List String} (hkey : key ∈ k.layout.keys) {s : Row} (y : Row)
    (hs : ∀ c ∈ k.emitted, s c = x.val c) : agree key y s = agree key y x.val := by
  rw [Bool.eq_iff_iff, agree_iff, agree_iff]
  refine forall₂_congr fun c hc => ?_
  rw [hs c (keys_emitted k key hkey c hc)]

theorem clash?_eq_none {rows : List k.layout.StoredRow} {s : k.layout.StoredRow}
    (hs : ∀ c ∈ k.emitted, s.val c = x.val c) (h : ∀ y ∈ rows, k.layout.Apart y x) :
    k.layout.clash? rows s = none := by
  rw [Layout.clash?, List.findSome?_eq_none_iff]
  intro key hkey
  rw [List.find?_eq_none]
  intro y hy hagree
  rw [agree_congr hkey y.val hs, h y hy key hkey] at hagree
  cases hagree

/-- An upsert looks at the primary key first, so it finds the row of its own key. -/
theorem clash?_own {s y : k.layout.StoredRow} (hs : ∀ c ∈ k.emitted, s.val c = x.val c)
    (hy : y ∈ (db.tables k).rows) (hsame : k.layout.same y.val x.val = true) :
    k.layout.clash? (db.tables k).rows s = some y := by
  have hown : ∀ z : k.layout.StoredRow,
      agree k.layout.primaryKey z.val s.val = k.layout.same z.val x.val :=
    fun z => agree_congr List.mem_cons_self z.val hs
  have hfind : ((db.tables k).rows.find? fun z => agree k.layout.primaryKey z.val s.val) =
      some y := by
    cases hfound : (db.tables k).rows.find? fun z => agree k.layout.primaryKey z.val s.val with
    | none =>
        refine absurd ((hown y).trans hsame) ?_
        exact List.find?_eq_none.1 hfound y hy
    | some z =>
        have hz := List.find?_some hfound
        rw [hown z] at hz
        rw [eq_of_same (List.mem_of_find?_eq_some hfound) hy (agree_trans hz (agree_symm hsame))]
  rw [Layout.clash?, Layout.keys, List.findSome?_cons, hfind]

/-- The rows of a table with one row put under its key. -/
def PutsRow (db db' : Db) (k : SyncableEntityKind) (x : k.layout.StoredRow) : Prop :=
  ∃ t : Table k.layout, db'.tables = (db.setTable k t).tables ∧
    ∀ y, y ∈ t.rows ↔ (y ∈ (db.tables k).rows ∧ k.layout.same y.val x.val = false) ∨ y = x

/-- The id of a row is part of its primary key, or the table has none. -/
theorem id_eq_of_same {old : k.layout.StoredRow} (hsame : k.layout.same old.val x.val = true) :
    old.val "id" = x.val "id" := by
  rcases id_column k with hkey | hnone
  · exact (same_iff old.property).1 hsame "id" hkey
  · rw [old.property.outside "id" hnone, x.property.outside "id" hnone]

theorem insertRow_ok (now : String) {i payload : String} (hi : triggerEntityId env k x.val = some i)
    (hpayload : triggerPayload env k x.val = some payload)
    (hapart : ∀ y ∈ (db.tables k).rows, k.layout.Apart y x)
    (hparents : ∀ fk ∈ k.foreignKeys, db.hasParent fk (x.val fk.column) = true) :
    ∃ db', insertRow env now k x db = .ok db' ∧ PutsRow db db' k x ∧
      (db'.log = db.log ∨
        ∃ op, db'.log = db.log.logLocal now k.entityTypeName i op payload) := by
  have hclash : k.layout.clash? (db.tables k).rows x = none := clash?_eq_none (fun _ _ => rfl) hapart
  obtain ⟨db', hfire, hlog⟩ := fireTrigger_ok .insert hi hpayload
    (db.setTable k ((db.tables k).append x hclash))
  have htables := tables_of_fireTrigger hfire
  have hecho := Echoed.fireTrigger hfire
  have hrequire : db'.requireParents k.foreignKeys x.val = .ok db' := by
    refine requireParents_ok_iff.2 fun _ fk hfk => ?_
    rw [hasParent_after hfk htables hecho.parents]
    exact hparents fk hfk
  refine ⟨db', insertRow_eq_ok_iff.2 ⟨_, Table.insert_eq_ok_iff.2 ⟨hclash, rfl⟩, hfire, hrequire⟩,
    ⟨_, htables, ?_⟩, hlog.imp id fun h => ⟨_, h⟩⟩
  intro y
  have hfree : y ∈ (db.tables k).rows → k.layout.same y.val x.val = false :=
    fun hy => hapart y hy k.layout.primaryKey List.mem_cons_self
  rw [Table.append, List.mem_append, List.mem_singleton]
  exact or_congr_left (and_iff_left_of_imp hfree).symm

theorem updateRow_ok (now : String) {old : k.layout.StoredRow} {i payload : String}
    (hi : triggerEntityId env k x.val = some i)
    (hpayload : triggerPayload env k x.val = some payload) (hold : old ∈ (db.tables k).rows)
    (hsame : k.layout.same old.val x.val = true)
    (hapart : ∀ y ∈ (db.tables k).rows, k.layout.same y.val x.val = false → k.layout.Apart y x)
    (hparents : ∀ fk ∈ k.foreignKeys, old.val fk.column ≠ x.val fk.column →
      db.hasParent fk (x.val fk.column) = true) :
    ∃ db', updateRow env now k old x.val db = .ok db' ∧ PutsRow db db' k x ∧
      (db'.log = db.log ∨
        ∃ op, db'.log = db.log.logLocal now k.entityTypeName i op payload) := by
  have hclash : k.layout.clash? ((db.tables k).erase old).rows x = none := by
    refine clash?_eq_none (fun _ _ => rfl) fun y hy => ?_
    obtain ⟨hy, hne⟩ := mem_erase_iff.1 hy
    refine hapart y hy ?_
    rw [Bool.eq_false_iff] at hne ⊢
    exact fun hyx => hne (agree_trans hyx (agree_symm hsame))
  have hupdate : (db.tables k).update env.affinity old x.val =
      .ok (x, (db.tables k).replace old x hclash) :=
    Table.update_eq_ok_iff.2 ⟨Layout.store_of_rowOk x.property k.columns_nodup, hclash, rfl⟩
  obtain ⟨db', hfire, hlog⟩ := fireTrigger_ok .update hi hpayload
    (db.setTable k ((db.tables k).replace old x hclash))
  have htables := tables_of_fireTrigger hfire
  have hecho := Echoed.fireTrigger hfire
  have hrequire : db'.requireParents
      (k.foreignKeys.filter fun fk => decide (old.val fk.column ≠ x.val fk.column)) x.val =
      .ok db' := by
    refine requireParents_ok_iff.2 fun _ fk hfk => ?_
    obtain ⟨hfk, hne⟩ := List.mem_filter.1 hfk
    rw [hasParent_after hfk htables hecho.parents]
    exact hparents fk hfk (of_decide_eq_true hne)
  refine ⟨db', updateRow_eq_ok_iff.2 ⟨x, _, hupdate, hfire, hrequire, ?_⟩,
    ⟨_, htables, mem_replace_iff hold hsame⟩, hlog.imp id fun h => ⟨_, h⟩⟩
  rw [decide_eq_false (not_not.2 (id_eq_of_same hsame)), Bool.and_false, Bool.false_and]
  exact Bool.false_ne_true

/-- **A ROW THAT FITS IS UPSERTED.** -/
theorem upsertInto_ok (now : String) (hsend : Sendable k x.val) {i payload : String}
    (hi : triggerEntityId env k x.val = some i)
    (hpayload : triggerPayload env k x.val = some payload) {values : Assignments}
    (hvalues : Names k x.val values) (hplain : ∀ p ∈ values, p.1 ∈ k.emitted)
    (hfits : FitsIn db k x) :
    ∃ db', upsertInto env now k values db = .ok db' ∧ PutsRow db db' k x ∧
      (db'.log = db.log ∨
        ∃ op, db'.log = db.log.logLocal now k.entityTypeName i op payload) := by
  obtain ⟨hapart, hput⟩ := hfits
  obtain ⟨s, hs, hemitted, hdefault⟩ := candidate_ok env now hsend hvalues hplain
  rcases hput with ⟨hfree, hfresh, hparents⟩ | ⟨old, hold, hsame, hkept, hparents⟩
  · -- the candidate is the row itself
    have hsx : s = x := by
      refine Subtype.ext (funext fun c => ?_)
      by_cases hc : c ∈ k.emitted
      · exact hemitted c hc
      · rw [hdefault c hc, hfresh now c hc]
    subst hsx
    have hall : ∀ y ∈ (db.tables k).rows, k.layout.Apart y s := fun y hy => hapart y hy (hfree y hy)
    obtain ⟨db', hinsert, hrest⟩ := insertRow_ok now hi hpayload hall hparents
    refine ⟨db', bind_eq_ok.2 ⟨s, hs, ?_⟩, hrest⟩
    rw [clash?_eq_none (fun _ _ => rfl) hall]
    exact hinsert
  · -- the named columns of the old row become the row's, the others are so already
    have hnew : overlay old.val (values.map fun p => (p.1, s.val p.1)) = x.val := by
      funext c
      by_cases hc : c ∈ k.emitted
      · rw [← hemitted c hc]
        refine overlay_of_named ?_ ?_
        · intro p hp
          obtain ⟨q, _, rfl⟩ := List.mem_map.1 hp
          rfl
        · rw [List.map_map]
          exact hvalues.2 c hc
      · rw [hkept c hc]
        refine overlay_unlogged old.val (fun p hp => ?_) hc
        obtain ⟨q, hq, rfl⟩ := List.mem_map.1 hp
        exact hplain q hq
    obtain ⟨db', hupdate, hrest⟩ := updateRow_ok now hi hpayload hold hsame hapart hparents
    refine ⟨db', bind_eq_ok.2 ⟨s, hs, ?_⟩, hrest⟩
    rw [clash?_own hemitted hold hsame]
    simp only [hnew]
    exact hupdate

/-- Every row that is new in the log has the name of the change. -/
def OwnEchoes (change : SyncChange) (db db' : Db) : Prop :=
  ∀ row ∈ db'.log.rows, row ∈ db.log.rows ∨
    (row.entityType = change.entityType ∧ row.entityId = change.entityId)

/-- A record that fits is written, and does to the rows what it says. -/
theorem writeEntity_put (now : String) {r : Record env} (hput : r.op ≠ .delete)
    (hfits : Fits db.parents (held db) r) :
    ∃ db', writeEntity env now {} r.entry.1 r.change db = .ok db' ∧
      held db' = (feed env).step (held db) r ∧ OwnEchoes r.change db db' := by
  obtain ⟨⟨k, x⟩, hentry⟩ : ∃ e, r.entry = e := ⟨_, rfl⟩
  obtain ⟨hsend, htype, hname, hpayload⟩ := r.of_entry hentry
  have hkind : r.entry.1 = k := by rw [hentry]
  rw [hkind]
  have htext : r.change.operation ≠ "DELETE" := by
    rw [r.operation]
    cases hop : r.op with
    | delete => exact absurd hop hput
    | _ => decide
  obtain ⟨members, hparse, hperm⟩ := bound_payload hsend hpayload
  have hemitted : ∀ m ∈ members, m.1 ∈ k.emitted := by
    intro m hm
    obtain ⟨c, hc, heq⟩ := List.mem_map.1 (hperm.mem_iff.1 (List.mem_map_of_mem hm))
    rw [← (Prod.mk.inj heq).1]
    exact hc
  -- every kind logs its key, so a payload is never empty
  have hne : members.isEmpty = false := by
    rw [List.isEmpty_eq_false_iff]
    rintro rfl
    have hnil := List.map_eq_nil_iff.1 (List.nil_perm.1 hperm)
    obtain ⟨c, hc⟩ := List.exists_mem_of_ne_nil _ (primaryKey_ne_nil k)
    have hmem := (k.primaryKey_emitted c hc).1
    rw [hnil] at hmem
    cases hmem
  obtain ⟨db', hupsert, ⟨t, htables, ht⟩, hlog⟩ := upsertInto_ok now hsend hname hpayload
    (names_of_perm hperm) (fun p hp => by
      obtain ⟨m, hm, rfl⟩ := List.mem_map.1 hp
      exact hemitted m hm) ((fits_iff hentry hput).1 hfits)
  refine ⟨db', ?_, held_put hentry hput htables ht, ?_⟩
  · rw [writeEntity, if_neg htext, hparse]
    simp only [applyInventoryPaths_nil, ite_self, upsertPayload, find?_unsafe hemitted, hne,
      Bool.false_eq_true, if_false, hupsert]
    rfl
  · intro row hrow
    rcases hlog with hlog | ⟨op, hlog⟩
    · rw [hlog] at hrow
      exact Or.inl hrow
    · rw [hlog, ChangeLog.logLocal_rows] at hrow
      rcases List.mem_append.1 hrow with hold | hnew
      · exact Or.inl hold
      · cases List.mem_singleton.1 hnew
        exact Or.inr ⟨htype.symm, rfl⟩

end Put

/-! ## What a delete takes along -/

/-- The log row has the name of the row. -/
def NamedBy (env : Env) (row : ChangeRow) (e : Entry) : Prop :=
  row.entityType = e.1.entityTypeName ∧ triggerEntityId env e.1 e.2.val = some row.entityId

/-- Whatever points to a row of `G` goes with it, and is in `G` too. -/
def Closed (G : Set Entry) (db : Db) : Prop :=
  ∀ d ∈ G, ∀ y ∈ held db, ∀ fk, PointsTo y fk d.key → fk.onDelete = .cascade ∧ y ∈ G

/-- Rows of `G` were lost, and the log names lost rows only. -/
structure Lost (env : Env) (G : Set Entry) (db db' : Db) : Prop where
  echoed : Echoed db db'
  sub : held db' ⊆ held db
  kept : ∀ e ∈ held db, (∀ d ∈ G, d.key ≠ e.key) → e ∈ held db'
  log : ∀ row ∈ db'.log.rows, row ∈ db.log.rows ∨
    ∃ e ∈ G, (∀ x ∈ held db', x.key ≠ e.key) ∧ NamedBy env row e

section Lost

variable {env : Env} {now : String} {G : Set Entry} {db mid db' : Db}

theorem Lost.refl (env : Env) (G : Set Entry) (db : Db) : Lost env G db db where
  echoed := Echoed.refl db
  sub := subset_rfl
  kept _ he _ := he
  log _ hrow := Or.inl hrow

theorem Lost.trans (h : Lost env G db mid) (h' : Lost env G mid db') : Lost env G db db' where
  echoed := h.echoed.trans h'.echoed
  sub := h'.sub.trans h.sub
  kept e he hG := h'.kept e (h.kept e he hG) hG
  log := by
    intro row hrow
    rcases h'.log row hrow with hmid | hlost
    · rcases h.log row hmid with hold | ⟨e, he, hgone, hnamed⟩
      · exact Or.inl hold
      · exact Or.inr ⟨e, he, fun x hx => hgone x (h'.sub hx), hnamed⟩
    · exact Or.inr hlost

theorem Closed.mono (h : Closed G db) (hsub : held db' ⊆ held db) : Closed G db' :=
  fun d hd y hy => h d hd y (hsub hy)

/-- Folds of steps that each succeed and lose rows of `G`. By induction on the list. -/
theorem foldlM_lost {α : Type} {f : Db → α → Except SqlError Db} :
    ∀ (xs : List α) {db : Db}, db.foreignKeys = true → Closed G db →
    (∀ x ∈ xs, ∀ u, Lost env G db u → u.foreignKeys = true → Closed G u →
      ∃ u', f u x = .ok u' ∧ Lost env G u u') →
      ∃ db', xs.foldlM f db = .ok db' ∧ Lost env G db db' := by
  intro xs
  induction xs with
  | nil =>
      intro db _ _ _
      exact ⟨db, rfl, Lost.refl env G db⟩
  | cons x rest ih =>
      intro db hon hclosed hstep
      obtain ⟨mid, hmid, hlost⟩ := hstep x List.mem_cons_self db (Lost.refl env G db) hon hclosed
      have hon' : mid.foreignKeys = true := hlost.echoed.foreignKeys.trans hon
      obtain ⟨db', hrest, hlost'⟩ := ih hon' (hclosed.mono hlost.sub) fun x' hx' u hu =>
        hstep x' (List.mem_cons_of_mem _ hx') u (hlost.trans hu)
      exact ⟨db', foldlM_cons_eq_ok.2 ⟨mid, hmid, hrest⟩, hlost.trans hlost'⟩

/-- The trigger of a row that is gone logs that row or nothing. -/
theorem lost_fireTrigger {k : SyncableEntityKind} {r : k.layout.StoredRow}
    (hr : (⟨k, r⟩ : Entry) ∈ G) (hgone : ∀ x ∈ held mid, x.key ≠ Entry.key ⟨k, r⟩)
    (hpayload : (triggerPayload env k r.val).isSome) :
    ∃ db', fireTrigger env now k .delete r.val mid = .ok db' ∧ held db' = held mid ∧
      Lost env G mid db' := by
  have hnamed : (triggerEntityId env k r.val).isSome := entityId_isSome r.property
  obtain ⟨i, hi⟩ := Option.isSome_iff_exists.1 hnamed
  obtain ⟨payload, hwritten⟩ := Option.isSome_iff_exists.1 hpayload
  obtain ⟨db', hfire, hlog⟩ := fireTrigger_ok .delete hi hwritten mid
  have hheld : held db' = held mid := held_congr (tables_of_fireTrigger hfire)
  refine ⟨db', hfire, hheld, Echoed.fireTrigger hfire, hheld.le, fun e he _ => hheld ▸ he, ?_⟩
  intro row hrow
  rcases hlog with hlog | hlog
  · rw [hlog] at hrow
    exact Or.inl hrow
  · rw [hlog, ChangeLog.logLocal_rows] at hrow
    rcases List.mem_append.1 hrow with hold | hnew
    · exact Or.inl hold
    · cases List.mem_singleton.1 hnew
      exact Or.inr ⟨_, hr, fun x hx => hgone x (hheld ▸ hx), rfl, hi⟩

/-- **A DELETE SUCCEEDS** and takes along rows of `G` only, when `G` is closed and its rows
    can be logged. By induction on the depth of the cascade. -/
theorem removeRow_lost (hpayload : ∀ d ∈ G, (triggerPayload env d.1 d.2.val).isSome) :
    ∀ (depth : Nat) {k : SyncableEntityKind} {r : k.layout.StoredRow} {db : Db},
    db.foreignKeys = true → Closed G db → (⟨k, r⟩ : Entry) ∈ G →
      ∃ db', removeRow env now depth true k r db = .ok db' ∧ Lost env G db db' ∧
        (0 < depth → ∀ x ∈ held db', x.key ≠ Entry.key ⟨k, r⟩) := by
  intro depth
  induction depth with
  | zero =>
      intro k r db _ _ _
      exact ⟨db, rfl, Lost.refl env G db, fun h => absurd h (Nat.lt_irrefl 0)⟩
  | succ depth ih =>
      intro k r db hon hclosed hr
      -- the foreign key actions run with the row already gone
      have herased : ∀ e, e ∈ held (db.setTable k ((db.tables k).erase r)) ↔
          e ∈ held db ∧ Entry.key ⟨k, r⟩ ≠ e.key := held_erase rfl
      have hbase : Lost env G db (db.setTable k ((db.tables k).erase r)) :=
        ⟨Echoed.setTable db _, fun e he => ((herased e).1 he).1,
          fun e he hother => (herased e).2 ⟨he, hother _ hr⟩, fun row hrow => Or.inl hrow⟩
      have hon' : (db.setTable k ((db.tables k).erase r)).foreignKeys = true := hon
      have hactions : ∃ mid, k.references.foldlM (deleteAction env now depth r)
          (db.setTable k ((db.tables k).erase r)) = .ok mid ∧
          Lost env G (db.setTable k ((db.tables k).erase r)) mid := by
        refine foldlM_lost k.references hon' (hclosed.mono hbase.sub) ?_
        intro p hp u _ hu hclosedu
        obtain ⟨hfk, hparent⟩ := of_mem_references k p hp
        have hpoints : ∀ c ∈ u.referencing p.1 p.2 r.val,
            p.2.onDelete = .cascade ∧ (⟨p.1, c⟩ : Entry) ∈ G := by
          intro c hc
          obtain ⟨hmem, hid⟩ := mem_referencing.1 hc
          exact hclosedu _ hr ⟨p.1, c⟩ hmem p.2 ((pointsTo_iff hfk hparent).2 hid)
        cases hdelete : p.2.onDelete with
        | cascade =>
            simp only [deleteAction, hdelete]
            refine foldlM_lost _ hu hclosedu fun c hc v _ hv hclosedv => ?_
            obtain ⟨v', hv', hlost, _⟩ := ih hv hclosedv (hpoints c hc).2
            exact ⟨v', hv', hlost⟩
        | setNull =>
            -- no row is left that such a reference could change
            have hnil : u.referencing p.1 p.2 r.val = [] := by
              refine List.eq_nil_iff_forall_not_mem.2 fun c hc => ?_
              have hcascade := (hpoints c hc).1
              rw [hdelete] at hcascade
              cases hcascade
            refine ⟨u, ?_, Lost.refl env G u⟩
            rw [deleteAction, hnil]
            rfl
      obtain ⟨mid, hmid, hlost⟩ := hactions
      have hgone : ∀ x ∈ held mid, x.key ≠ Entry.key ⟨k, r⟩ := fun x hx =>
        (((herased x).1 (hlost.sub hx)).2).symm
      obtain ⟨db', hfire, hheld, hfired⟩ := lost_fireTrigger hr hgone (hpayload _ hr)
      refine ⟨db', ?_, (hbase.trans hlost).trans hfired, fun _ => hheld ▸ hgone⟩
      refine removeRow_eq_ok_iff.2 ⟨mid, ?_, hfire⟩
      rw [deleteActions, if_pos hon']
      exact hmid

end Lost

/-! ## The receiver, change by change -/

/-- The rank of a record's table. -/
def rankOf {env : Env} (r : Record env) : ℕ := applyRank r.change.entityType

/-- The receiver after the records `done` of the sorted page. Its rows are those of the
    replay, but for rows that the page only deletes; and its log has, above the cursor,
    the changes that are done and echoes of rows that are gone. -/
structure Midway {env : Env} (since : Int) (parents : String → List (List UInt8)) (B : Set Entry)
    (records done : List (Record env)) (db : Db) : Prop where
  foreignKeys : db.foreignKeys = true
  parents : db.parents = parents
  ahead : Feed.Ahead (feed env) records (held db) (exec (feed env).step B done)
  log : ∀ row ∈ db.log.rows, row.version ≤ since ∨
    (∃ r ∈ done, NamedBy env row r.entry ∧ row.version = r.change.version) ∨
    ∃ r ∈ records, (feed env).Doomed records r.entry.key ∧
      (∀ x ∈ held db, x.key ≠ r.entry.key) ∧ NamedBy env row r.entry

section Receiver

variable {env : Env} {now : String} {since : Int} {parents : String → List (List UInt8)}
  {B : Set Entry} {records done rest : List (Record env)} {r : Record env} {db db' : Db}

/-- Records of one name are records of one key. -/
theorem key_of_named {row : ChangeRow} {a b : Record env} (ha : NamedBy env row a.entry)
    (hb : NamedBy env row b.entry) : a.entry.key = b.entry.key := by
  obtain ⟨⟨k, x⟩, hx⟩ : ∃ e, a.entry = e := ⟨_, rfl⟩
  obtain ⟨⟨k', y⟩, hy⟩ : ∃ e, b.entry = e := ⟨_, rfl⟩
  have hsx := (a.of_entry hx).1
  have hsy := (b.of_entry hy).1
  rw [hx] at ha ⊢
  rw [hy] at hb ⊢
  obtain rfl : k = k' := by
    by_contra hne
    exact SyncableEntityKind.entityTypeName_ne hne (ha.1.symm.trans hb.1)
  exact key_eq_iff.2 ((same_iff x.property).2 (key_of_entityId hsx hsy ha.2 hb.2))

/-- A name belongs to a key. -/
theorem named_of_key {row : ChangeRow} {a e : Entry} (hkey : a.key = e.key)
    (h : NamedBy env row e) : NamedBy env row a := by
  obtain ⟨k, x⟩ := a
  obtain ⟨k', y⟩ := e
  obtain rfl : k = k' := congrArg Prod.fst hkey
  refine ⟨h.1, ?_⟩
  rw [← h.2]
  exact triggerEntityId_congr ((same_iff x.property).1 (key_eq_iff.1 hkey))

theorem named_change (r : Record env) {row : ChangeRow}
    (htype : row.entityType = r.change.entityType) (hid : row.entityId = r.change.entityId) :
    NamedBy env row r.entry := by
  refine ⟨htype.trans r.entityType, ?_⟩
  rw [hid]
  exact r.name

/-- The records of one table. -/
def ofKind (env : Env) (k : SyncableEntityKind) (r : Record env) : Bool := decide (r.entry.1 = k)

theorem rank_ofKind (k : SyncableEntityKind) (a b : Record env) (ha : ofKind env k a = true)
    (hb : ofKind env k b = true) : rankOf a = rankOf b := by
  rw [rankOf, rankOf, a.entityType, b.entityType, of_decide_eq_true ha, of_decide_eq_true hb]

theorem ofKind_of_key {k : SyncableEntityKind} {x : k.layout.StoredRow} (a : Record env)
    (h : (feed env).key ((feed env).row a) = (feed env).key ⟨k, x⟩) : ofKind env k a = true :=
  decide_eq_true (congrArg Prod.fst h)

/-- When its turn comes, a record finds in its own table what it found at the sender. -/
theorem fits_turn (h : Replayable since parents B records)
    (hsorted : sorted rankOf records = done ++ r :: rest) :
    ∃ before after, records = before ++ r :: after ∧
      Fits parents (exec (feed env).step B before) r ∧
      (∀ a ∈ done, a.entry.1 = r.entry.1 → a ∈ before) ∧
      ∀ x : r.entry.1.layout.StoredRow,
        (⟨r.entry.1, x⟩ : Entry) ∈ exec (feed env).step B before ↔
          (⟨r.entry.1, x⟩ : Entry) ∈ exec (feed env).step B done := by
  obtain ⟨before, after, hsplit, hfilter⟩ := split_of_sorted (rank_ofKind r.entry.1) hsorted
    (decide_eq_true rfl)
  refine ⟨before, after, hsplit, ?_, ?_, ?_⟩
  · have hfits := h.fits
    rw [hsplit] at hfits
    exact (Admitted.drop before _ hfits).1
  · intro a ha hkind
    have hmem : a ∈ done.filter (ofKind env r.entry.1) :=
      List.mem_filter.2 ⟨ha, decide_eq_true hkind⟩
    rw [← hfilter] at hmem
    exact List.mem_of_mem_filter hmem
  · intro x
    exact Feed.mem_exec_congr (ofKind env r.entry.1) (fun a ha => ofKind_of_key a ha) hfilter

/-- A change of the record's own name that is done already is older. -/
theorem version_lt_of_done (h : Replayable since parents B records)
    (hsorted : sorted rankOf records = done ++ r :: rest) {a : Record env} (ha : a ∈ done)
    (hkey : a.entry.key = r.entry.key) : a.change.version < r.change.version := by
  obtain ⟨before, after, hsplit, _, hdone, _⟩ := fits_turn h hsorted
  have hasc := h.ascending
  rw [hsplit, List.pairwise_append] at hasc
  exact hasc.2.2 a (hdone a ha (congrArg Prod.fst hkey)) r List.mem_cons_self

theorem mem_records (hsorted : sorted rankOf records = done ++ r :: rest) : r ∈ records := by
  have hmem : r ∈ sorted rankOf records := by
    rw [hsorted]
    exact List.mem_append_right _ List.mem_cons_self
  exact mem_sorted.1 hmem

theorem not_doomed_of_put (hr : r ∈ records) (hput : r.op ≠ .delete) :
    ¬ (feed env).Doomed records r.entry.key := by
  intro hdoomed
  exact hput (drops_eq.1 (hdoomed.2 r hr rfl))

/-- What the receiver's log knows of a record's name is older than the record, or the row
    is gone. -/
theorem log_of_name (h : Replayable since parents B records)
    (hsorted : sorted rankOf records = done ++ r :: rest)
    (hmid : Midway since parents B records done db) {row : ChangeRow} (hrow : row ∈ db.log.rows)
    (hnamed : NamedBy env row r.entry) :
    row.version ≤ r.change.version ∨
      ((feed env).Doomed records r.entry.key ∧ ∀ x ∈ held db, x.key ≠ r.entry.key) := by
  rcases hmid.log row hrow with hold | ⟨a, ha, hanamed, hversion⟩ | ⟨a, _, hdoomed, hgone, hanamed⟩
  · exact Or.inl (le_trans hold (le_of_lt (h.above r (mem_records hsorted))))
  · rw [hversion]
    exact Or.inl (le_of_lt (version_lt_of_done h hsorted ha (key_of_named hanamed hnamed)))
  · rw [key_of_named hanamed hnamed] at hdoomed hgone
    exact Or.inr ⟨hdoomed, hgone⟩

/-- A parent that a record names stays with the sender, and is there when the record's turn
    comes: the page has no delete of it, and its rank is lower. -/
theorem parent_turn (h : Replayable since parents B records)
    (hsorted : sorted rankOf records = done ++ r :: rest) (hput : r.op ≠ .delete)
    (hmid : Midway since parents B records done db) {before after : List (Record env)}
    (hsplit : records = before ++ r :: after) {fk : ForeignKey} (hfk : fk ∈ r.entry.1.foreignKeys)
    (hlogged : fk.column ∈ r.entry.1.emitted)
    (hparent : ParentIn parents (exec (feed env).step B before) fk (r.entry.2.val fk.column)) :
    ParentIn db.parents (held db) fk (r.entry.2.val fk.column) := by
  rcases hparent with hnull | ⟨p, hp, x, hx, hid⟩ | hother
  · exact Or.inl hnull
  · have hpoints : PointsTo r.entry fk (Entry.key ⟨p, x⟩) := (pointsTo_iff hfk hp).2 hid.symm
    have hstays : ∀ d ∈ records, d.entry.key = Entry.key ⟨p, x⟩ → (feed env).drops d = false := by
      intro d hd hkey
      rw [Bool.eq_false_iff]
      intro hdrops
      refine h.parentsStay r (mem_records hsorted) hput d hd (drops_eq.1 hdrops) fk ?_
      rw [hkey]
      exact hpoints
    obtain ⟨⟨p', y⟩, hy, hykey⟩ := Feed.exists_key_exec (f := feed env) (r :: after) ⟨_, hx, rfl⟩
      fun d hd => hstays d (by rw [hsplit]; exact List.mem_append_right _ hd)
    obtain rfl : p' = p := congrArg Prod.fst hykey
    rw [← exec_append, ← hsplit] at hy
    -- the parent's table ranks lower, so all its records had their turn
    have hfilter : done.filter (ofKind env p') = records.filter (ofKind env p') := by
      refine filter_done (rank_ofKind p') hsorted fun a ha => ?_
      rw [rankOf, rankOf, a.entityType, r.entityType, of_decide_eq_true ha]
      exact parent_rank r.entry.1 fk hfk p' hp hlogged
    have hdone : (⟨p', y⟩ : Entry) ∈ exec (feed env).step B done :=
      (Feed.mem_exec_congr (ofKind env p') (fun a ha => ofKind_of_key a ha) hfilter).2 hy
    have hnot : ¬ (feed env).Doomed records ((feed env).key ⟨p', y⟩) := by
      rintro ⟨⟨d, hd, hdkey⟩, hdrops⟩
      have hfalse := hstays d hd (hdkey.trans hykey)
      rw [hdrops d hd hdkey] at hfalse
      cases hfalse
    refine Or.inr (Or.inl ⟨p', hp, y, (hmid.ahead.mem_iff hnot).2 hdone, ?_⟩)
    have hsamekey : Entry.key ⟨p', y⟩ = Entry.key ⟨p', x⟩ := hykey
    rw [← hsamekey] at hpoints
    exact ((pointsTo_iff hfk hp).1 hpoints).symm
  · rw [hmid.parents]
    exact Or.inr (Or.inr hother)

/-- **A RECORD THAT PUTS A ROW FITS AT THE RECEIVER.** -/
theorem fits_receiver (h : Replayable since parents B records)
    (hsorted : sorted rankOf records = done ++ r :: rest) (hput : r.op ≠ .delete)
    (hmid : Midway since parents B records done db) : Fits db.parents (held db) r := by
  obtain ⟨before, after, hsplit, hfits, _, hsame⟩ := fits_turn h hsorted
  have hown := not_doomed_of_put (mem_records hsorted) hput
  have hparents : ∀ fk ∈ r.entry.1.foreignKeys, fk.column ∈ r.entry.1.emitted →
      ParentIn parents (exec (feed env).step B before) fk (r.entry.2.val fk.column) →
        ParentIn db.parents (held db) fk (r.entry.2.val fk.column) :=
    fun fk hfk => parent_turn h hsorted hput hmid hsplit hfk
  refine ⟨fun hdelete => absurd hdelete hput, ?_, fun _ => ?_⟩
  · intro _ x hx hne
    exact hfits.apart hput x ((hsame x).2 (hmid.ahead.sub hx)) hne
  rcases hfits.put hput with ⟨hnone, hdefault, hplaces⟩ | ⟨x, hx, hkey, hkept, hplaces⟩
  · refine Or.inl ⟨?_, hdefault, fun fk hfk => ?_⟩
    · rintro ⟨k, y⟩ hy hkey
      obtain rfl : k = r.entry.1 := congrArg Prod.fst hkey
      exact hnone _ ((hsame y).2 (hmid.ahead.sub hy)) hkey
    · by_cases hlogged : fk.column ∈ r.entry.1.emitted
      · exact hparents fk hfk hlogged (hplaces fk hfk)
      · -- a column that is not logged is NULL in a new row
        obtain ⟨col, hcol, hnull⟩ := Option.map_eq_some_iff.1
          (unlogged_reference r.entry.1 fk hfk hlogged)
        rw [hdefault "" fk.column hlogged, Layout.defaults_of_column? hcol, hnull]
        exact Or.inl rfl
  · have hxkey : (feed env).key ⟨r.entry.1, x⟩ = r.entry.key := key_eq_iff.2 hkey
    have hheld : (⟨r.entry.1, x⟩ : Entry) ∈ held db :=
      (hmid.ahead.mem_iff (by rw [hxkey]; exact hown)).2 ((hsame x).1 hx)
    refine Or.inr ⟨x, hheld, hkey, hkept, fun fk hfk hne => ?_⟩
    by_cases hlogged : fk.column ∈ r.entry.1.emitted
    · exact hparents fk hfk hlogged (hplaces fk hfk hne)
    · exact absurd (hkept fk.column hlogged).symm hne

/-- A row the receiver still has, and that points to a row the page deletes, is one that
    the page only deletes. -/
theorem child_doomed (h : Replayable since parents B records)
    (hdone : ∀ a ∈ done, a ∈ records) (hmid : Midway since parents B records done db) {y : Entry}
    (hy : y ∈ held db) {d : Record env} (hd : d ∈ records) (hop : d.op = .delete) {fk : ForeignKey}
    (hpoints : PointsTo y fk d.entry.key) :
    fk.onDelete = .cascade ∧ (feed env).Doomed records y.key := by
  rcases Feed.mem_exec_cases done (hmid.ahead.sub hy) with hB | ⟨a, ha, hput, rfl⟩
  · exact h.childrenGo y hB d hd hop fk hpoints
  · have hnot : a.op ≠ .delete := of_decide_eq_false hput
    exact absurd hpoints (h.parentsStay a (hdone a ha) hnot d hd hop fk)

/-- The rows that may go with a deleted one. -/
def Leaving (r : Record env) (records : List (Record env)) (db : Db) : Set Entry :=
  {e | e ∈ held db ∧ (e = r.entry ∨ (feed env).Doomed records e.key)}

theorem closed_leaving (h : Replayable since parents B records) (hr : r ∈ records)
    (hop : r.op = .delete) (hdone : ∀ a ∈ done, a ∈ records)
    (hmid : Midway since parents B records done db) : Closed (Leaving r records db) db := by
  rintro d ⟨_, hd⟩ y hy fk hpoints
  obtain ⟨a, ha, hadelete, hakey⟩ : ∃ a ∈ records, a.op = .delete ∧ a.entry.key = d.key := by
    rcases hd with rfl | ⟨⟨a, ha, hakey⟩, hdrops⟩
    · exact ⟨r, hr, hop, rfl⟩
    · exact ⟨a, ha, drops_eq.1 (hdrops a ha hakey), hakey⟩
  rw [← hakey] at hpoints
  obtain ⟨hcascade, hdoomed⟩ := child_doomed h hdone hmid hy ha hadelete hpoints
  exact ⟨hcascade, hy, Or.inr hdoomed⟩

theorem payload_leaving (h : Replayable since parents B records)
    (hmid : Midway since parents B records done db) (hdone : ∀ a ∈ done, a ∈ records) :
    ∀ d ∈ Leaving r records db, (triggerPayload env d.1 d.2.val).isSome := by
  rintro d ⟨hheld, hd⟩
  have hwritten : ∀ a : Record env, a.entry = d → (triggerPayload env d.1 d.2.val).isSome := by
    rintro a rfl
    rw [a.payload]
    rfl
  rcases hd with rfl | hdoomed
  · exact hwritten r rfl
  · have hB : d ∈ B := by
      rcases Feed.mem_exec_cases done (hmid.ahead.sub hheld) with hB | ⟨a, ha, hput, hrow⟩
      · exact hB
      · have hkey : (feed env).key ((feed env).row a) = d.key := by
          rw [hrow]
          rfl
        rw [hdoomed.2 a (hdone a ha) hkey] at hput
        cases hput
    have hown : ∀ (S : Set Entry) (a : Record env), Fits parents S a →
        (feed env).drops a = true → ∀ x ∈ S, (feed env).key x = (feed env).key ((feed env).row a) →
          x = (feed env).row a :=
      fun S a hfits hdrops => hfits.own (drops_eq.1 hdrops)
    obtain ⟨a, _, hrow⟩ := Feed.exists_row_of_doomed hown records h.fits hB hdoomed
    exact hwritten a hrow

/-- **A RECORD THAT DROPS A ROW** is applied; rows that go with it are doomed. -/
theorem writeEntity_drop (now : String) (h : Replayable since parents B records)
    (hsorted : sorted rankOf records = done ++ r :: rest) (hop : r.op = .delete)
    (hdone : ∀ a ∈ done, a ∈ records) (hmid : Midway since parents B records done db) :
    ∃ db', writeEntity env now {} r.entry.1 r.change db = .ok db' ∧
      Lost env (Leaving r records db) db db' ∧ ∀ x ∈ held db', x.key ≠ r.entry.key := by
  obtain ⟨_, _, _, hfits, _, hsame⟩ := fits_turn h hsorted
  have htext : r.change.operation = "DELETE" := by
    rw [r.operation, hop]
    rfl
  have hwrite : writeEntity env now {} r.entry.1 r.change db =
      statement (deleteFrom env now r.entry.1 (fun x => r.entry.1.layout.same x r.entry.2.val) db) := by
    rw [writeEntity, if_pos htext]
    exact deleteEntity_eq r.sendable r.name
  rw [hwrite, deleteFrom]
  rcases filter_same_cases (db.tables r.entry.1) r.entry.2.val with hnone | ⟨old, hold, hkey, hone⟩
  · rw [hnone]
    refine ⟨db, rfl, Lost.refl env _ db, ?_⟩
    rintro ⟨k, x⟩ hx hxkey
    obtain rfl : k = r.entry.1 := congrArg Prod.fst hxkey
    exact List.filter_eq_nil_iff.1 hnone x hx (key_eq_iff.1 hxkey)
  · have hentry : (⟨r.entry.1, old⟩ : Entry) = r.entry := by
      refine hfits.own hop _ ((hsame old).2 (hmid.ahead.sub hold)) ?_
      exact key_eq_iff.2 hkey
    have hleaving : (⟨r.entry.1, old⟩ : Entry) ∈ Leaving r records db := ⟨hold, Or.inl hentry⟩
    obtain ⟨db', hremove, hlost, hgone⟩ := removeRow_lost
      (payload_leaving h hmid hdone) 3 hmid.foreignKeys
      (closed_leaving h (mem_records hsorted) hop hdone hmid) hleaving
    refine ⟨db', ?_, hlost, fun x hx => ?_⟩
    · rw [hone, foldlM_cons_eq_ok.2 ⟨db', hremove, rfl⟩]
      rfl
    · rw [← hentry]
      exact hgone (by decide) x hx

theorem latestRow_mem {log : ChangeLog} {entityType entityId : String} {row : ChangeRow}
    (h : latestRow env log entityType entityId = some row) :
    row ∈ log.rows ∧ row.entityType = entityType ∧ row.entityId = entityId := by
  have hmem := (env.desc.perm _ _).mem_iff.1 (mem_of_mem_limited (List.mem_of_mem_head? h))
  obtain ⟨hrow, hname⟩ := List.mem_filter.1 hmem
  simp only [Bool.and_eq_true, beq_iff_eq] at hname
  exact ⟨hrow, hname⟩

theorem newerPayload?_eq_none {log : ChangeLog} {change : SyncChange}
    (h : ∀ row ∈ log.rows, row.entityType = change.entityType → row.entityId = change.entityId →
      row.version ≤ change.version) : newerPayload? env log change = none := by
  rw [newerPayload?]
  split
  · next v p hlatest =>
      obtain ⟨row, hrow, hdecode⟩ := Option.bind_eq_some_iff.1 hlatest
      obtain ⟨v', hv, heq⟩ := Option.map_eq_some_iff.1 hdecode
      obtain ⟨rfl, _⟩ := Prod.mk.inj heq
      have hversion : row.version = v' := by
        rw [asI64?] at hv
        split at hv
        · exact Option.some.inj hv
        · cases hv
      obtain ⟨hmem, htype, hid⟩ := latestRow_mem hrow
      have hle := h row hmem htype hid
      rw [if_neg (by omega)]
  · rfl

/-- A change of the sender's own device is recorded: no row is its twin. -/
theorem insertChangeRow_ok (now : String) {change : SyncChange} (hdevice : change.deviceId = "local")
    (db : Db) : ∃ db', insertChangeRow now change.operation change db = .ok db' := by
  have htwin : ∀ row ∈ db.log.rows, row.remoteTwin
      { changeEntry now change.operation change with id := db.log.seq + 1 } = false := by
    intro row _
    by_cases hlocal : row.deviceId = some "local"
    · simp [ChangeRow.remoteTwin, hlocal]
    · simp [ChangeRow.remoteTwin, changeEntry, hdevice, hlocal]
  have hinsert : db.log.insert (changeEntry now change.operation change) (version_bounds change) =
      .ok (db.log.append (changeEntry now change.operation change) (version_bounds change) htwin) :=
    dif_pos htwin
  rw [insertChangeRow, hinsert]
  exact ⟨_, rfl⟩

/-- What is left to say of a write: the echoes of the record's own name are discarded, and
    its change is recorded. -/
theorem midway_record (hmid : Midway since parents B records done db) {db1 : Db} (hecho : Echoed db db1)
    (hahead : Feed.Ahead (feed env) records (held db1) (exec (feed env).step B (done ++ [r])))
    (hgone : ∀ a : Record env, (feed env).Doomed records a.entry.key →
      (∀ x ∈ held db, x.key ≠ a.entry.key) → ∀ x ∈ held db1, x.key ≠ a.entry.key)
    (hlog : ∀ row ∈ db1.log.rows, row ∈ db.log.rows ∨ NamedBy env row r.entry ∨
      ∃ a ∈ records, (feed env).Doomed records a.entry.key ∧
        (∀ x ∈ held db1, x.key ≠ a.entry.key) ∧ NamedBy env row a.entry)
    (hrecord : insertChangeRow now r.change.operation r.change
      (discardEchoes r.change (latestVersionIn db.log) db1) = .ok db') :
    Midway since parents B records (done ++ [r]) db' := by
  obtain ⟨log, hdb', hrows, _⟩ := insertChangeRow_eq_ok hrecord
  have hheld : held db' = held db1 := held_congr (by rw [hdb']; rfl)
  refine ⟨?_, ?_, hheld ▸ hahead, ?_⟩
  · rw [hdb']
    exact hecho.foreignKeys.trans hmid.foreignKeys
  · rw [hdb']
    exact hecho.parents.trans hmid.parents
  -- what was known of an old row is still known
  have hcarry : ∀ row ∈ db.log.rows, row.version ≤ since ∨
      (∃ a ∈ done ++ [r], NamedBy env row a.entry ∧ row.version = a.change.version) ∨
      ∃ a ∈ records, (feed env).Doomed records a.entry.key ∧
        (∀ x ∈ held db1, x.key ≠ a.entry.key) ∧ NamedBy env row a.entry := by
    intro row hold
    rcases hmid.log row hold with hbelow | ⟨a, ha, hnamed⟩ | ⟨a, ha, hdoomed, habsent, hnamed⟩
    · exact Or.inl hbelow
    · exact Or.inr (Or.inl ⟨a, List.mem_append_left _ ha, hnamed⟩)
    · exact Or.inr (Or.inr ⟨a, ha, hdoomed, hgone a hdoomed habsent, hnamed⟩)
  intro row hrow
  rw [hheld]
  have hrow' : row ∈ log.rows := by
    rw [hdb'] at hrow
    exact hrow
  rw [hrows, discardEchoes, ChangeLog.deleteWhere_rows] at hrow'
  rcases List.mem_append.1 hrow' with hkept | hnew
  · obtain ⟨hmem, hkeep⟩ := List.mem_filter.1 hkept
    rcases hlog row hmem with hold | hnamed | hdoomed
    · exact hcarry row hold
    · obtain ⟨new, hext⟩ := hecho.log.extends
      rw [hext.rows] at hmem
      rcases List.mem_append.1 hmem with hold | hfresh
      · exact hcarry row hold
      · -- an echo of the record's own name is above the baseline
        have habove := latestVersionIn_lt hext hfresh
        have htype : row.entityType = r.change.entityType := hnamed.1.trans r.entityType.symm
        have hid : row.entityId = r.change.entityId := by
          have hsome := hnamed.2
          rw [r.name] at hsome
          exact (Option.some.inj hsome).symm
        simp [htype, hid, habove] at hkeep
    · exact Or.inr (Or.inr hdoomed)
  · cases List.mem_singleton.1 hnew
    exact Or.inr (Or.inl ⟨r, List.mem_append_right _ List.mem_cons_self,
      named_change r rfl rfl, rfl⟩)

theorem exec_snoc (B : Set Entry) (done : List (Record env)) (r : Record env) :
    exec (feed env).step B (done ++ [r]) = (feed env).step (exec (feed env).step B done) r := by
  rw [exec_append]
  rfl

/-- The change of a record is of a table. -/
theorem table_of_record (r : Record env) : r.change.entityType ≠ "file_offer" ∧
    SyncableEntityKind.entityTypeToTable r.change.entityType = some r.entry.1 := by
  have hk : SyncableEntityKind.entityTypeToTable r.change.entityType = some r.entry.1 := by
    rw [r.entityType]
    exact r.entry.1.entityTypeToTable_name
  refine ⟨fun hoffer => ?_, hk⟩
  rw [hoffer, entityTypeToTable_file_offer] at hk
  cases hk

/-- A change that nothing newer stands against is applied once its write succeeds. -/
theorem applyChange_of_write {db1 : Db} (hnew : newerPayload? env db.log r.change = none)
    (hwrite : writeEntity env now {} r.entry.1 r.change db = .ok db1) :
    ∃ db', insertChangeRow now r.change.operation r.change
        (discardEchoes r.change (latestVersionIn db.log) db1) = .ok db' ∧
      applyChange env now {} r.change db = .ok (.applied, db') := by
  obtain ⟨hoffer, hk⟩ := table_of_record r
  have hisop : isOperation r.change.operation = true := by
    rw [r.operation]
    exact isOperation_text r.op
  obtain ⟨db', hrecord⟩ := insertChangeRow_ok now r.device
    (discardEchoes r.change (latestVersionIn db.log) db1)
  refine ⟨db', hrecord, ?_⟩
  rw [applyChange, if_neg hoffer, hk]
  simp only [hnew, hisop, if_true]
  exact bind_eq_ok.2 ⟨db1, hwrite, bind_eq_ok.2 ⟨db', hrecord, rfl⟩⟩

/-- A change that is refused. Only a row that is gone already has something newer in the
    log, so nothing is lost with it. -/
theorem midway_refused (now : String) (h : Replayable since parents B records)
    (hsorted : sorted rankOf records = done ++ r :: rest)
    (hmid : Midway since parents B records done db) {localPayload : String}
    (hnew : newerPayload? env db.log r.change = some localPayload) :
    Midway since parents B records (done ++ [r]) (recordConflict now r.change localPayload db) := by
  obtain ⟨hdoomed, habsent⟩ : (feed env).Doomed records r.entry.key ∧
      ∀ x ∈ held db, x.key ≠ r.entry.key := by
    by_contra hnot
    have hnone : newerPayload? env db.log r.change = none := by
      refine newerPayload?_eq_none fun row hrow htype hid => ?_
      exact (log_of_name h hsorted hmid hrow (named_change r htype hid)).resolve_right hnot
    rw [hnew] at hnone
    cases hnone
  refine ⟨hmid.foreignKeys, hmid.parents, ?_, ?_⟩
  · rw [exec_snoc]
    refine (hmid.ahead.step r).lose (fun x hx => Or.inl ⟨hx, habsent x hx⟩) ?_
    rintro x (⟨hx, _⟩ | ⟨hput, _⟩)
    · exact Or.inl hx
    · rw [hdoomed.2 r (mem_records hsorted) rfl] at hput
      cases hput
  · intro row hrow
    rcases hmid.log row hrow with hbelow | ⟨a, ha, hnamed⟩ | hlost
    · exact Or.inl hbelow
    · exact Or.inr (Or.inl ⟨a, List.mem_append_left _ ha, hnamed⟩)
    · exact Or.inr (Or.inr hlost)

/-- A delete, which takes rows along that the page deletes anyway. -/
theorem midway_drop (hmid : Midway since parents B records done db) (hop : r.op = .delete)
    {db1 : Db} (hwrite : writeEntity env now {} r.entry.1 r.change db = .ok db1)
    (hlost : Lost env (Leaving r records db) db db1) (hgone : ∀ x ∈ held db1, x.key ≠ r.entry.key)
    (hrecord : insertChangeRow now r.change.operation r.change
      (discardEchoes r.change (latestVersionIn db.log) db1) = .ok db') :
    Midway since parents B records (done ++ [r]) db' := by
  refine midway_record hmid (echoed_writeEntity hwrite) ?_ ?_ ?_ hrecord
  · rw [exec_snoc]
    refine (hmid.ahead.step r).lose (fun x hx => Or.inl ⟨hlost.sub hx, hgone x hx⟩) ?_
    rintro x (⟨hx, hne⟩ | ⟨hput, _⟩)
    · by_cases hkept : ∀ d ∈ Leaving r records db, d.key ≠ x.key
      · exact Or.inl (hlost.kept x hx hkept)
      · push Not at hkept
        obtain ⟨d, ⟨_, hd⟩, hdkey⟩ := hkept
        rcases hd with rfl | hdoomed
        · exact absurd hdkey.symm hne
        · have hdoomed' : (feed env).Doomed records x.key := hdkey ▸ hdoomed
          exact Or.inr hdoomed'
    · rw [drops_eq.2 hop] at hput
      cases hput
  · exact fun a _ habsent x hx => habsent x (hlost.sub hx)
  · intro row hrow
    rcases hlost.log row hrow with hold | ⟨e, ⟨hheld, he⟩, habsent, hnamed⟩
    · exact Or.inl hold
    · rcases he with rfl | hdoomed
      · exact Or.inr (Or.inl hnamed)
      · obtain ⟨a, ha, hakey⟩ := hdoomed.1
        have hakey : a.entry.key = e.key := hakey
        refine Or.inr (Or.inr ⟨a, ha, hakey ▸ hdoomed, hakey ▸ habsent, ?_⟩)
        exact named_of_key hakey hnamed

/-- An insert or an update, which logs nothing but its own row. -/
theorem midway_put (hmid : Midway since parents B records done db) (hr : r ∈ records)
    (hop : r.op ≠ .delete) {db1 : Db}
    (hwrite : writeEntity env now {} r.entry.1 r.change db = .ok db1)
    (hrows : held db1 = (feed env).step (held db) r) (howns : OwnEchoes r.change db db1)
    (hrecord : insertChangeRow now r.change.operation r.change
      (discardEchoes r.change (latestVersionIn db.log) db1) = .ok db') :
    Midway since parents B records (done ++ [r]) db' := by
  refine midway_record hmid (echoed_writeEntity hwrite) ?_ ?_ ?_ hrecord
  · rw [exec_snoc, hrows]
    exact hmid.ahead.step r
  · intro a hdoomed habsent x hx
    rw [hrows] at hx
    rcases hx with ⟨hx, _⟩ | ⟨_, rfl⟩
    · exact habsent x hx
    · intro hkey
      have hkey : r.entry.key = a.entry.key := hkey
      exact not_doomed_of_put hr hop (hkey ▸ hdoomed)
  · intro row hrow
    rcases howns row hrow with hold | ⟨htype, hid⟩
    · exact Or.inl hold
    · exact Or.inr (Or.inl (named_change r htype hid))

/-- **ONE CHANGE OF THE SORTED PAGE.** -/
theorem applyChange_midway (now : String) (h : Replayable since parents B records)
    (hsorted : sorted rankOf records = done ++ r :: rest) (hdone : ∀ a ∈ done, a ∈ records)
    (hmid : Midway since parents B records done db) :
    ∃ step db', applyChange env now {} r.change db = .ok (step, db') ∧
      Midway since parents B records (done ++ [r]) db' := by
  cases hnew : newerPayload? env db.log r.change with
  | some localPayload =>
      obtain ⟨hoffer, hk⟩ := table_of_record r
      refine ⟨.conflicted ((recordConflict now r.change localPayload db).conflicts.latest?
        r.change.entityType r.change.entityId), recordConflict now r.change localPayload db, ?_,
        midway_refused now h hsorted hmid hnew⟩
      rw [applyChange, if_neg hoffer, hk]
      simp only [hnew]
  | none =>
      by_cases hop : r.op = .delete
      · obtain ⟨db1, hwrite, hlost, hgone⟩ := writeEntity_drop now h hsorted hop hdone hmid
        obtain ⟨db', hrecord, happlied⟩ := applyChange_of_write hnew hwrite
        exact ⟨_, db', happlied, midway_drop hmid hop hwrite hlost hgone hrecord⟩
      · obtain ⟨db1, hwrite, hrows, howns⟩ := writeEntity_put now hop
          (fits_receiver h hsorted hop hmid)
        obtain ⟨db', hrecord, happlied⟩ := applyChange_of_write hnew hwrite
        exact ⟨_, db', happlied,
          midway_put hmid (mem_records hsorted) hop hwrite hrows howns hrecord⟩

/-- **THE SORTED PAGE**, change by change. By induction on what is left of it. -/
theorem applyOrdered_midway (now : String) (h : Replayable since parents B records) :
    ∀ (rest done : List (Record env)) (outcome : ApplyOutcome) {db : Db},
    sorted rankOf records = done ++ rest → Midway since parents B records done db →
      ∃ outcome' db', applyOrdered env now {} (rest.map fun r => r.change) (outcome, db) =
        .ok (outcome', db') ∧ Midway since parents B records (sorted rankOf records) db' := by
  intro rest
  induction rest with
  | nil =>
      intro done outcome db hsorted hmid
      rw [List.append_nil] at hsorted
      rw [hsorted]
      exact ⟨outcome, db, rfl, hmid⟩
  | cons r rest ih =>
      intro done outcome db hsorted hmid
      have hdone : ∀ a ∈ done, a ∈ records := by
        intro a ha
        have hmem : a ∈ sorted rankOf records := by
          rw [hsorted]
          exact List.mem_append_left _ ha
        exact mem_sorted.1 hmem
      obtain ⟨step, db1, hstep, hmid1⟩ := applyChange_midway now h hsorted hdone hmid
      obtain ⟨outcome', db', hrest, hmid'⟩ := ih (done ++ [r]) (outcome.record step)
        (by rw [hsorted, List.append_assoc]; rfl) hmid1
      exact ⟨outcome', db', applyOrdered_cons.2 ⟨step, db1, hstep, hrest⟩, hmid'⟩

theorem sortByRank_map (records : List (Record env)) :
    sortByRank (records.map fun r => r.change) =
      (sorted rankOf records).map fun r => r.change := by
  rw [sortByRank, sorted]
  symm
  apply List.map_insertionSort
  intro a _ b _
  exact Iff.rfl

/-- Sorting by rank changes nothing in the end. -/
theorem exec_sorted (B : Set Entry) (records : List (Record env)) :
    exec (feed env).step B (sorted rankOf records) = exec (feed env).step B records := by
  ext ⟨k, x⟩
  exact Feed.mem_exec_congr (ofKind env k) (fun a ha => ofKind_of_key a ha)
    (filter_sorted (rank_ofKind k) records)

theorem applyChanges_replayable (now : String) (h : Replayable since parents B records)
    (hon : db.foreignKeys = true) (hparents : db.parents = parents) (hB : held db = B)
    (hlog : ∀ row ∈ db.log.rows, row.version ≤ since) :
    ∃ outcome db', applyChanges env now (records.map fun r => r.change) {} db =
      .ok (outcome, db') ∧ held db' = exec (feed env).step B records := by
  have hstart : Midway since parents B records [] db := by
    refine ⟨hon, hparents, ?_, fun row hrow => Or.inl (hlog row hrow)⟩
    rw [hB]
    exact Feed.Ahead.refl records B
  obtain ⟨outcome, db', happly, hmid⟩ := applyOrdered_midway now h (sorted rankOf records) []
    {} rfl hstart
  refine ⟨outcome, db', ?_, ?_⟩
  · rw [applyChanges, sortByRank_map]
    exact happly
  · have hahead := hmid.ahead
    rw [exec_sorted] at hahead
    exact hahead.eq_exec

end Receiver

/-! ## The page arrives -/

/-- The receiver holds the sender's rows, and has logged nothing above the cursor. -/
structure Holds (receiver sender : Db) : Prop where
  foreignKeys : receiver.foreignKeys = true
  parents : receiver.parents = sender.parents
  rows : ∀ k x, x ∈ (receiver.tables k).rows ↔ x ∈ (sender.tables k).rows
  log : ∀ row ∈ receiver.log.rows, row.version ≤ sender.log.maxVersion

/-- The page of the sender's log that begins at one of its states and ends at another. -/
def pageBetween (env : Env) (before after final : Db) : List SyncChange :=
  (pullChanges env final.log before.log.maxVersion
    (after.log.rows.length - before.log.rows.length)).changes

/-- The receiver applies the page without an error and ends with the sender's rows. -/
def Arrives (env : Env) (now : String) (page : List SyncChange) (receiver after : Db) : Prop :=
  ∃ outcome db', applyChanges env now page {} receiver = .ok (outcome, db') ∧
    ∀ k x, x ∈ (db'.tables k).rows ↔ x ∈ (after.tables k).rows

/-- A run of edits on a device that enforces its foreign keys, and more edits after it.
    Ids have sixteen bytes, versions 64 bits. -/
structure SenderRun (env : Env) (edits later : List (String × LocalEdit))
    (before after final : Db) : Prop where
  enforcing : Enforcing before
  edited : perform env edits before = .ok after
  continued : perform env later after = .ok final
  clean : ∀ db, Visited env edits before db → Clean db
  inRange : InRange final.log

def workId : Value := .blob (List.replicate 16 1)

/-- A work and an edition of it. -/
def stocking : List (String × LocalEdit) :=
  [("2026", .insert .work [("id", workId), ("title", .text "A")]),
    ("2026", .insert .edition [("id", .blob (List.replicate 16 2)), ("work_id", workId)])]

def clearing : List (String × LocalEdit) :=
  [("2026", .delete .work (overlay (fun _ => .null) [("id", workId)]))]

/-- Where edits from an empty device end. -/
def after (edits : List (String × LocalEdit)) : Db :=
  match perform Env.reference edits (Db.empty true) with
  | .ok db => db
  | .error _ => Db.empty true

theorem clean_of_sixteen {db : Db} (h : ∀ k : SyncableEntityKind, ∀ x ∈ (db.tables k).rows,
    ∀ c ∈ k.emitted, SyncConvergence.sixteen (x.val c) = true) : Clean db := by
  intro k x hx
  refine ⟨x.property, fun c hc b hb => ?_⟩
  have hsixteen := h k x hx c hc
  rw [hb] at hsixteen
  exact of_decide_eq_true hsixteen

/-- The states of a run of one edit. -/
theorem visited_one {env : Env} {e : String × LocalEdit} {before mid db : Db}
    (hrun : perform env [e] before = .ok mid) (h : Visited env [e] before db) :
    db = before ∨ db = mid := by
  obtain ⟨done, hdone, hperform⟩ := h
  rcases List.prefix_cons_iff.1 hdone with rfl | ⟨t, rfl, ht⟩
  · exact Or.inl (Except.ok.inj hperform).symm
  · rw [List.prefix_nil.1 ht, hrun] at hperform
    exact Or.inr (Except.ok.inj hperform).symm

theorem perform_clearing : perform Env.reference clearing (after stocking) =
    .ok (after (stocking ++ clearing)) := rfl

theorem senderRun_clearing : SenderRun Env.reference clearing [] (after stocking)
    (after (stocking ++ clearing)) (after (stocking ++ clearing)) where
  enforcing := ⟨rfl, by decide⟩
  edited := perform_clearing
  continued := rfl
  clean := by
    intro db hvisited
    rcases visited_one perform_clearing hvisited with rfl | rfl
    · exact clean_of_sixteen (by decide)
    · exact clean_of_sixteen (by decide)
  inRange := by
    have hrows : ∀ r ∈ (after (stocking ++ clearing)).log.rows, r.version ≤ maxI64 := by decide
    exact hrows

/-- The error a computation stops with. -/
def failure {ε α : Type} : Except ε α → Option ε
  | .error e => some e
  | .ok _ => none

end SyncReordered

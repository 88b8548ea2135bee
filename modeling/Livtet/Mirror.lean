import Livtet.Image
import Livtet.Wire

/-! # What a bootstrap mirrors

    The device ends with the images of the dumped rows, so whether it mirrors the
    peer is a comparison of lists: the tables that are dumped, the columns that are,
    and the values that a dump, a trigger or a foreign key cannot take. -/

namespace SyncMirror

open SqlRows JsonText SyncSchema SyncStore SyncEngine SyncBootstrap SyncImage SyncWire

/-! ## The condition -/

/-- The library of the peer is one a bootstrap can carry, and the device one it can
    carry it to. -/
structure Mirrorable (peer device : Db) : Prop where
  /-- The tables that are not dumped are empty. -/
  complete : ∀ k : SyncableEntityKind, k.dumpColumns = none → (peer.tables k).rows = []
  /-- No work has a language. -/
  language : ∀ r ∈ (peer.tables .work).rows, r.val "language_id" = .null
  /-- Every id a trigger emits is sixteen bytes long. -/
  ids : ∀ k : SyncableEntityKind, ∀ r ∈ (peer.tables k).rows, ∀ c ∈ k.emitted, ∀ b,
    r.val c = .blob b → b.length = 16
  /-- No owned edition has a condition: the device's trigger cannot write it. -/
  condition : ∀ r ∈ (peer.tables .ownedEdition).rows, r.val "condition_id" = .null
  /-- What an emitted column refers to is in the peer's library, or in a table of the
      device that does not sync. -/
  parents : device.foreignKeys = true → ∀ k : SyncableEntityKind, ∀ r ∈ (peer.tables k).rows,
    ∀ fk ∈ k.foreignKeys, fk.column ∈ k.emitted →
      ({ peer with parents := device.parents } : Db).hasParent fk (r.val fk.column) = true

/-- The bootstrap succeeds, and every table then holds exactly the peer's rows, on the
    columns the triggers emit. -/
def Mirrors (env : Env) (now : String) (limit : Int) (peer device : Db) : Prop :=
  ∃ report, (bootstrap env now limit peer device).1 = .ok report ∧
    ∀ k, (((bootstrap env now limit peer device).2.tables k).rows.map
      fun r => emittedValues k r.val).Perm ((peer.tables k).rows.map fun r => emittedValues k r.val)

section Mirror

variable {env : Env} {now : String} {limit : Int} {peer device : Db}

theorem mem_peerRows {p : SyncableEntityKind × Row} :
    p ∈ peerRows peer ↔ p.1 ∈ SyncableEntityKind.dumpOrder ∧
      ∃ r ∈ (peer.tables p.1).rows, r.val = p.2 := by
  rw [peerRows, List.mem_flatMap]
  constructor
  · rintro ⟨k, hk, hp⟩
    obtain ⟨r, hr, rfl⟩ := List.mem_map.1 hp
    exact ⟨hk, r, hr, rfl⟩
  · rintro ⟨hk, r, hr, hval⟩
    exact ⟨p.1, hk, List.mem_map.2 ⟨r, hr, by rw [hval]⟩⟩

/-- The rows of one table in the dump. -/
theorem filter_peerRows (k : SyncableEntityKind) :
    (peerRows peer).filter (fun p => decide (p.1 = k)) =
      if k ∈ SyncableEntityKind.dumpOrder then
        (peer.tables k).rows.map fun r => (k, r.val) else [] := by
  have hnodup : SyncableEntityKind.dumpOrder.Nodup := by decide
  rw [peerRows, List.filter_flatMap]
  generalize SyncableEntityKind.dumpOrder = order at hnodup
  induction order with
  | nil => rfl
  | cons a rest ih =>
      obtain ⟨ha, hrest⟩ := List.nodup_cons.1 hnodup
      rw [List.flatMap_cons, ih hrest]
      by_cases hak : a = k
      · subst hak
        rw [if_neg ha, if_pos List.mem_cons_self, List.append_nil, List.filter_eq_self]
        intro p hp
        obtain ⟨r, _, rfl⟩ := List.mem_map.1 hp
        exact decide_eq_true rfl
      · have hnone : ((peer.tables a).rows.map fun r => (a, r.val)).filter
            (fun p => decide (p.1 = k)) = [] := by
          rw [List.filter_eq_nil_iff]
          intro p hp
          obtain ⟨r, _, rfl⟩ := List.mem_map.1 hp
          simpa using hak
        rw [hnone, List.nil_append]
        simp [Ne.symm hak]

/-- The dumped columns are emitted; an emitted column of a dumped table that is not
    dumped is a work's language. -/
theorem mem_columnsOf {k : SyncableEntityKind} (hk : k ∈ SyncableEntityKind.dumpOrder) {c : String} :
    c ∈ columnsOf k ↔ c ∈ k.emitted ∧ ¬(k = .work ∧ c = "language_id") := by
  obtain ⟨columns, hcolumns⟩ := Option.isSome_iff_exists.1 ((mem_dumpOrder k).1 hk)
  rw [columnsOf, hcolumns, Option.getD_some,
    SyncableEntityKind.dumpColumns_emitted k columns hcolumns, List.mem_filter, decide_eq_true_eq]

/-- Emitted values survive a bootstrap when every id has sixteen bytes and no work a
    language. -/
theorem image_emitted {k : SyncableEntityKind} (hk : k ∈ SyncableEntityKind.dumpOrder) {r : Row}
    (hr : k.layout.RowOk r) (hids : ∀ c ∈ k.emitted, ∀ b, r c = .blob b → b.length = 16)
    (hlanguage : k = .work → r "language_id" = .null) {c : String} (hc : c ∈ k.emitted) :
    image now k r c = r c := by
  by_cases hdumped : c ∈ columnsOf k
  · cases hv : r c with
    | null =>
        -- a NULL column is nullable, and then its default is NULL
        obtain ⟨col, hmem, hcol, _⟩ := dumped_column k c hdumped
        have hnullable : col.notNull = false := by
          by_contra hne
          exact hr.present c col hcol (by simpa using hne) hv
        have hcarried : carried (r c) = false := by
          rw [hv]
          rfl
        rw [image_of_not_carried hcarried, Layout.defaults_of_column? hcol,
          default_null k c hdumped col hmem hcol hnullable]
        rfl
    | blob b =>
        rw [image_of_carried hdumped (by rw [hv]; exact decide_eq_true (hids c hc b hv)), hv]
    | _ => rw [image_of_carried hdumped (by rw [hv]; rfl), hv]
  · have hlang : k = .work ∧ c = "language_id" := by
      by_contra hnot
      exact hdumped ((mem_columnsOf hk).2 ⟨hc, hnot⟩)
    obtain ⟨rfl, rfl⟩ := hlang
    rw [image_of_not_mem hdumped, hlanguage rfl]
    rfl

/-- The row's own trigger can write it when the one raw id column is NULL. -/
theorem auditable_of_condition {k : SyncableEntityKind} {r : Row} (hr : k.layout.RowOk r)
    (hcondition : k = .ownedEdition → r "condition_id" = .null) : Auditable env k r := by
  refine ⟨entityId_isSome hr, object_isSome fun p hp => encodeColumn_ne_blob hr hp ?_⟩
  intro hk hc
  rw [hc]
  exact hcondition hk

/-- An owned edition the trigger could write has no condition. -/
theorem condition_of_auditable {r : Row} (hr : SyncableEntityKind.ownedEdition.layout.RowOk r)
    (h : Auditable env .ownedEdition r) : r "condition_id" = .null := by
  have htyped := hr.typed "condition_id" _ rfl
  cases hv : r "condition_id" with
  | null => rfl
  | blob b =>
      have hnone : triggerPayload env .ownedEdition r = none := by
        rw [triggerPayload, env.json.object_eq_none]
        refine ⟨("condition_id", r "condition_id"), ?_, b, hv⟩
        exact List.mem_map.2 ⟨("condition_id", .raw), by decide, rfl⟩
      have hsome := h.2
      rw [hnone] at hsome
      cases hsome
  | _ =>
      rw [hv] at htyped
      cases htyped

/-! ### What images that mirror their rows say of the rows -/

/-- The device holds the images of the peer's rows, and they mirror the rows. -/
structure Imaged (now : String) (peer device db : Db) : Prop where
  progress : Progress device now (peerRows peer) db
  perm : ∀ k, ((db.tables k).rows.map fun r => emittedValues k r.val).Perm
    ((peer.tables k).rows.map fun r => emittedValues k r.val)

namespace Imaged

variable {db : Db} {k : SyncableEntityKind} {r : k.layout.StoredRow}

/-- An emitted value on the peer is an emitted value of an image. -/
theorem exists_image (h : Imaged now peer device db) (hr : r ∈ (peer.tables k).rows) :
    ∃ q ∈ peerRows peer, q.1 = k ∧ ∀ c ∈ k.emitted, r.val c = image now k q.2 c := by
  have hmem : emittedValues k r.val ∈ (db.tables k).rows.map fun r => emittedValues k r.val :=
    (h.perm k).mem_iff.2 (List.mem_map_of_mem hr)
  obtain ⟨x, hx, hvalues⟩ := List.mem_map.1 hmem
  obtain ⟨q, hq, hkind, hval⟩ := h.progress.mem hx
  refine ⟨q, hq, hkind, fun c hc => ?_⟩
  rw [← hval]
  exact (List.map_inj_left.1 hvalues c hc).symm

theorem dumped (h : Imaged now peer device db) (hr : r ∈ (peer.tables k).rows) :
    k ∈ SyncableEntityKind.dumpOrder := by
  obtain ⟨q, hq, rfl, _⟩ := h.exists_image hr
  exact (mem_peerRows.1 hq).1

/-- The dump leaves the language out, so the image of a work has none. -/
theorem language (h : Imaged now peer device db)
    {r : SyncableEntityKind.work.layout.StoredRow} (hr : r ∈ (peer.tables .work).rows) :
    r.val "language_id" = .null := by
  obtain ⟨q, _, _, hvalues⟩ := h.exists_image hr
  rw [hvalues "language_id" (by decide), image_of_not_mem (by decide)]
  rfl

/-- An image carries no id but one of sixteen bytes. -/
theorem ids (h : Imaged now peer device db) (hr : r ∈ (peer.tables k).rows) :
    ∀ c ∈ k.emitted, ∀ b, r.val c = .blob b → b.length = 16 := by
  intro c hc b hb
  obtain ⟨q, _, _, hvalues⟩ := h.exists_image hr
  rw [hvalues c hc] at hb
  rcases image_null_or_carried now k q.2 c with hnull | hcarried
  · rw [hb] at hnull
    cases hnull
  · rw [hb] at hcarried
    exact of_decide_eq_true hcarried

/-- So every row is its own image, as far as rows are mirrored. -/
theorem image_eq (h : Imaged now peer device db) (hr : r ∈ (peer.tables k).rows) :
    ∀ c ∈ k.emitted, image now k r.val c = r.val c := by
  intro c hc
  refine image_emitted (h.dumped hr) r.property (h.ids hr) ?_ hc
  rintro rfl
  exact h.language hr

end Imaged

/-- A row that another one refers to comes before it in the dump. -/
theorem mem_before_of_parent {before after : List (SyncableEntityKind × Row)}
    {p q : SyncableEntityKind × Row} (hsplit : peerRows peer = before ++ p :: after)
    (hq : q ∈ peerRows peer) {fk : ForeignKey} (hfk : fk ∈ p.1.foreignKeys)
    (hc : fk.column ∈ columnsOf p.1) (hparent : fk.parent = .synced q.1) (hne : q.1 ≠ p.1) :
    q ∈ before := by
  rw [hsplit] at hq
  rcases List.mem_append.1 hq with hin | hin
  · exact hin
  rcases List.mem_cons.1 hin with hin | hin
  · exact absurd (congrArg Prod.fst hin) hne
  have hordered := (listed_peerRows peer).ordered
  rw [hsplit] at hordered
  have hlater := (List.pairwise_cons.1 (List.pairwise_append.1 hordered).2.1).1 _ hin
  exact absurd hparent (hlater fk hfk hc)

/-- With the condition, every row is accepted when its turn comes. -/
theorem accepted_of_mirrorable (h : Mirrorable peer device)
    {before after : List (SyncableEntityKind × Row)} {p : SyncableEntityKind × Row}
    (hsplit : peerRows peer = before ++ p :: after) :
    AcceptedAfter env device now before p := by
  have hmem : p ∈ peerRows peer := by
    rw [hsplit]
    exact List.mem_append_right _ List.mem_cons_self
  obtain ⟨hk, r, hr, hval⟩ := mem_peerRows.1 hmem
  have hok : p.1.layout.RowOk p.2 := by
    rw [← hval]
    exact r.property
  have hids : ∀ c ∈ p.1.emitted, ∀ b, p.2 c = .blob b → b.length = 16 := by
    rw [← hval]
    exact h.ids p.1 r hr
  have hrow : p.1.layout.RowOk (image now p.1 p.2) :=
    rowOk_image hk hok fun c hc => hids c ((mem_columnsOf hk).1 hc).1
  have hvalues : ∀ k r, k ∈ SyncableEntityKind.dumpOrder → r ∈ (peer.tables k).rows →
      ∀ c ∈ k.emitted, image now k r.val c = r.val c := by
    intro k r hk hr c hc
    refine image_emitted hk r.property (h.ids k r hr) ?_ hc
    rintro rfl
    exact h.language r hr
  refine ⟨hrow, auditable_of_condition hrow ?_, ?_⟩
  · intro howned
    have hnull : ∀ k, k = .ownedEdition → ∀ r ∈ (peer.tables k).rows,
        image now k r.val "condition_id" = .null := by
      rintro k rfl r hr
      rw [hvalues .ownedEdition r (by decide) hr "condition_id" (by decide)]
      exact h.condition r hr
    rw [← hval]
    exact hnull p.1 howned r hr
  · intro hon fk hfk
    by_cases hc : fk.column ∈ columnsOf p.1
    · have hemitted := ((mem_columnsOf hk).1 hc).1
      have hparent := h.parents hon p.1 r hr fk hfk hemitted
      rw [← hval, hvalues p.1 r hk hr fk.column hemitted, HasParentIn]
      -- the parent is dumped before its child, so its row is there
      cases hfkp : fk.parent with
      | synced k' =>
          obtain ⟨hne, hk', hid⟩ := parent_dumped p.1 hk fk hfk hc k' hfkp
          rcases (hasParent_synced hfkp).1 hparent with hnull | ⟨x, hx, hxid⟩
          · exact Or.inl hnull
          refine Or.inr ⟨(k', x.val), ?_, rfl, ?_⟩
          · exact mem_before_of_parent hsplit (mem_peerRows.2 ⟨hk', x, hx, rfl⟩) hfk hc hfkp hne
          · exact (hvalues k' x hk' hx "id"
              (SyncableEntityKind.primaryKey_emitted k' "id" hid).1).trans hxid
      | other t =>
          have hother := (hasParent_other hfkp).1 hparent
          exact hother
    · -- a reference the dump leaves out reads back as null
      exact Or.inl (image_eq_null (reference_null p.1 fk hfk hc) fun h => hc h.1)

/-- A bootstrap ends well exactly when its dump is applied, in the same database. -/
theorem bootstrap_ok_iff : (∃ report, (bootstrap env now limit peer device).1 = .ok report) ↔
    ∃ n db, applyDump env now ((peerRows peer).map (dumpOf env)) 0 device = (.ok n, db) := by
  rw [bootstrap, rows_pullFull]
  cases h : applyDump env now ((peerRows peer).map (dumpOf env)) 0 device with
  | mk result db =>
      cases result with
      | error e =>
          refine iff_of_false ?_ ?_
          · rintro ⟨report, hok⟩
            cases hok
          · rintro ⟨n, db', hok⟩
            cases hok
      | ok n => exact iff_of_true ⟨_, rfl⟩ ⟨n, db, rfl⟩

theorem bootstrap_db : (bootstrap env now limit peer device).2 =
    (applyDump env now ((peerRows peer).map (dumpOf env)) 0 device).2 := by
  rw [bootstrap, rows_pullFull]
  cases h : applyDump env now ((peerRows peer).map (dumpOf env)) 0 device with
  | mk result db => cases result <;> rfl

theorem progress_start (hempty : ∀ k, (device.tables k).rows = []) :
    Progress device now [] device := by
  refine ⟨fun k => ?_, rfl, rfl, rfl⟩
  rw [hempty k]
  rfl

/-- A mirrored library meets the condition. -/
theorem mirrorable_of_mirrors (hempty : ∀ k, (device.tables k).rows = [])
    (hloud : device.syncApply.getD "0" ≠ "1") (h : Mirrors env now limit peer device) :
    Mirrorable peer device := by
  obtain ⟨report, hok, hperm⟩ := h
  obtain ⟨n, db, happly⟩ := bootstrap_ok_iff.1 ⟨report, hok⟩
  rw [bootstrap_db, happly] at hperm
  obtain ⟨hiff, hprogress⟩ := applyDump_cases env hloud (peerRows peer) [] device 0
    (progress_start hempty) (listed_peerRows peer)
  have himaged : Imaged now peer device db := ⟨hprogress n db happly, hperm⟩
  -- every row was accepted in its turn, after rows of the peer only
  have haccepted : ∀ p ∈ peerRows peer, ∃ before, (∀ q ∈ before, q ∈ peerRows peer) ∧
      AcceptedAfter env device now before p := by
    intro p hp
    obtain ⟨before, after, hsplit⟩ := List.append_of_mem hp
    refine ⟨before, fun q hq => ?_, hiff.1 ⟨n, db, happly⟩ before p after hsplit⟩
    rw [hsplit]
    exact List.mem_append_left _ hq
  refine ⟨?_, fun r hr => himaged.language hr, fun k r hr => himaged.ids hr, ?_, ?_⟩
  · intro k hk
    by_contra hne
    obtain ⟨r, hr⟩ := List.exists_mem_of_ne_nil _ hne
    have hsome := (mem_dumpOrder k).1 (himaged.dumped hr)
    rw [hk] at hsome
    cases hsome
  · intro r hr
    obtain ⟨_, _, hp⟩ := haccepted (.ownedEdition, r.val)
      (mem_peerRows.2 ⟨himaged.dumped hr, r, hr, rfl⟩)
    rw [← himaged.image_eq hr "condition_id" (by decide)]
    exact condition_of_auditable hp.ok hp.auditable
  · intro hon k r hr fk hfk hc
    obtain ⟨before, hbefore, hp⟩ := haccepted (k, r.val)
      (mem_peerRows.2 ⟨himaged.dumped hr, r, hr, rfl⟩)
    have hparent := hp.parents hon fk hfk
    rw [himaged.image_eq hr fk.column hc, HasParentIn] at hparent
    cases hfkp : fk.parent with
    | synced k' =>
        rw [hfkp] at hparent
        refine (hasParent_synced hfkp).2 (hparent.imp id ?_)
        rintro ⟨q, hq, hkind, hid⟩
        obtain ⟨hk', x, hx, hval⟩ := mem_peerRows.1 (hbefore q hq)
        subst hkind
        have hcolumn : fk.column ∈ columnsOf k := by
          refine (mem_columnsOf (himaged.dumped hr)).2 ⟨hc, ?_⟩
          rintro ⟨rfl, hlanguage⟩
          exact language_parent fk hfk hlanguage q.1 hfkp
        have hprimary := (parent_dumped k (himaged.dumped hr) fk hfk hcolumn q.1 hfkp).2.2
        rw [← hval, himaged.image_eq hx "id"
          (SyncableEntityKind.primaryKey_emitted q.1 "id" hprimary).1] at hid
        exact ⟨x, hx, hid⟩
    | other t =>
        rw [hfkp] at hparent
        have hpeer : r.val fk.column = .null ∨
            ∃ b ∈ ({ peer with parents := device.parents } : Db).parents t,
              r.val fk.column = .blob b := hparent
        exact (hasParent_other hfkp).2 hpeer

end Mirror

/-! ## Two libraries -/

def bookId (b : UInt8) : Value := .blob (List.replicate 16 b)

/-- The library after the given edits, on a connection that enforces foreign keys or,
    as a sync daemon's, does not. -/
def libraryOf (foreignKeys : Bool) (edits : List LocalEdit) : Db :=
  edits.foldl (fun db edit =>
    (localEdit Env.reference "2026-01-01 00:00:00" edit db).toOption.getD db)
    (Db.empty foreignKeys)

/-- A work with one edition, and its file. -/
def bookEdits : List LocalEdit :=
  [.insert .work [("id", bookId 1), ("title", .text "Dune")],
    .insert .edition [("id", bookId 2), ("work_id", bookId 1)],
    .insert .digitalInventory [("id", bookId 3), ("edition_id", bookId 2)]]

theorem mirrorable_book : Mirrorable (libraryOf true bookEdits) (Db.empty true) where
  complete k hk := by
    have hempty : ∀ k : SyncableEntityKind, k.dumpColumns = none →
        ((libraryOf true bookEdits).tables k).rows.isEmpty = true := by decide
    exact List.isEmpty_iff.1 (hempty k hk)
  language := by decide
  ids k r hr c hc b hb := by
    have hcarried : ∀ k : SyncableEntityKind, ∀ r ∈ ((libraryOf true bookEdits).tables k).rows,
        ∀ c ∈ k.emitted, r.val c = .null ∨ carried (r.val c) = true := by decide
    rcases hcarried k r hr c hc with hnull | hcarried
    · rw [hb] at hnull
      cases hnull
    · rw [hb] at hcarried
      exact of_decide_eq_true hcarried
  condition := by decide
  parents := by decide

/-- A work with a language. -/
def languageEdits : List LocalEdit :=
  [.insert .work [("id", bookId 1), ("title", .text "Dune"), ("language_id", bookId 9)]]

end SyncMirror

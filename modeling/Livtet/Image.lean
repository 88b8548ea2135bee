import Livtet.Bootstrap

/-! # Dumped rows and their images

    A dumped row arrives as its `image`: the dumped columns that survive the dump,
    and the defaults of the rest. Every insert of a bootstrap into an empty device is
    a plain insert of an image, because images that could clash would be images of
    rows that clash on the peer. So the device ends with the images of all dumped
    rows, or the bootstrap stops at the first row that the device refuses. -/

namespace SyncImage

open SqlRows JsonText SyncSchema SyncStore SyncEngine SyncBootstrap Outcomes

/-! ## Facts about the lists -/

/-- The dumped columns of a table, none for a table that is not dumped. -/
def columnsOf (k : SyncableEntityKind) : List String := k.dumpColumns.getD []

/-- The values a dump carries. -/
def carried : Value → Bool
  | .null => false
  | .blob b => decide (b.length = 16)
  | _ => true

theorem mem_dumpOrder : ∀ k : SyncableEntityKind,
    k ∈ SyncableEntityKind.dumpOrder ↔ k.dumpColumns.isSome := by
  decide

/-- A dumped column exists, and it holds ids exactly when its name says so. -/
theorem dumped_column : ∀ k : SyncableEntityKind, ∀ c ∈ columnsOf k,
    ∃ col ∈ k.layout.columns, k.layout.column? c = some col ∧
      (col.type = .blob ↔ isIdColumn c = true) := by
  decide

/-- A nullable dumped column defaults to NULL. -/
theorem default_null : ∀ k : SyncableEntityKind, ∀ c ∈ columnsOf k, ∀ col ∈ k.layout.columns,
    k.layout.column? c = some col → col.notNull = false → col.default = .null := by
  decide

/-- A default is NULL or a value a dump would carry. -/
theorem default_carried : ∀ k : SyncableEntityKind, ∀ col ∈ k.layout.columns,
    col.default.eval "" = .null ∨ carried (col.default.eval "") = true := by
  decide

/-- A column that is not dumped and not nullable has a default. -/
theorem default_present : ∀ k ∈ SyncableEntityKind.dumpOrder, ∀ col ∈ k.layout.columns,
    col.notNull = true → col.name ∉ columnsOf k → col.default.eval "" ≠ .null := by
  decide

/-- The columns of a dumped table's keys are dumped, and have no default. -/
theorem key_column : ∀ k ∈ SyncableEntityKind.dumpOrder, ∀ key ∈ k.layout.keys, ∀ c ∈ key,
    c ∈ columnsOf k ∧ ((k.layout.column? c).map Column.default) = some .null := by
  decide

/-- A reference that is not dumped has no default either. -/
theorem reference_null : ∀ k : SyncableEntityKind, ∀ fk ∈ k.foreignKeys, fk.column ∉ columnsOf k →
    ((k.layout.column? fk.column).map Column.default) = some .null := by
  decide

/-- Every dumped table has a dumped column that is neither NULL nor an id. -/
theorem plain_column : ∀ k ∈ SyncableEntityKind.dumpOrder, ∃ col ∈ k.layout.columns,
    col.name ∈ columnsOf k ∧ k.layout.column? col.name = some col ∧ col.notNull = true ∧
      col.type ≠ .blob := by
  decide

/-- No table is dumped before a table its dumped columns refer to. -/
theorem parents_first : SyncableEntityKind.dumpOrder.Pairwise fun child parent =>
    ∀ fk ∈ child.foreignKeys, fk.column ∈ columnsOf child → fk.parent ≠ .synced parent := by
  decide

/-- A dumped reference leads to another table that is dumped, by its id. -/
theorem parent_dumped : ∀ child ∈ SyncableEntityKind.dumpOrder, ∀ fk ∈ child.foreignKeys,
    fk.column ∈ columnsOf child → ∀ parent, fk.parent = .synced parent →
      parent ≠ child ∧ parent ∈ SyncableEntityKind.dumpOrder ∧ "id" ∈ parent.layout.primaryKey := by
  decide

/-- Languages do not sync. -/
theorem language_parent : ∀ fk ∈ SyncableEntityKind.work.foreignKeys,
    fk.column = "language_id" → ∀ k, fk.parent ≠ .synced k := by
  decide

/-! ## The image of a row -/

/-- The row a dumped row arrives as. -/
def image (now : String) (k : SyncableEntityKind) (r : Row) : Row :=
  fun c => if c ∈ columnsOf k ∧ carried (r c) = true then r c else k.layout.defaults now c

section Image

variable {env : Env} {now : String} {k : SyncableEntityKind} {r : Row}

theorem image_of_carried {c : String} (hc : c ∈ columnsOf k) (hv : carried (r c) = true) :
    image now k r c = r c := if_pos ⟨hc, hv⟩

theorem image_of_not_mem {c : String} (hc : c ∉ columnsOf k) :
    image now k r c = k.layout.defaults now c := if_neg fun h => hc h.1

theorem image_of_not_carried {c : String} (hv : carried (r c) = false) :
    image now k r c = k.layout.defaults now c :=
  if_neg fun h => by rw [hv] at h; cases h.2

/-- A dumped value binds to itself, and what is left out is not carried. -/
theorem bind_dumpValue {c : String} {col : Column} {v : Value}
    (hid : col.type = .blob ↔ isIdColumn c = true) (htype : v.hasType col.type = true) :
    (dumpValue? env v).map (bindJson env c) = if carried v = true then some v else none := by
  cases v with
  | null => rfl
  | int n =>
      have hn : minI64 ≤ n ∧ n ≤ maxI64 := by
        cases hcol : col.type <;> rw [hcol] at htype
        · simpa [Value.hasType, minI64, maxI64] using htype
        all_goals cases htype
      simp only [dumpValue?, Option.map_some, bindJson, plainValue, numberValue, asI64?, if_pos hn]
      rfl
  | real d => rfl
  | text s =>
      have hnot : isIdColumn c = false := by
        cases hcol : isIdColumn c with
        | false => rfl
        | true =>
            rw [hid.2 hcol] at htype
            cases htype
      simp only [dumpValue?, Option.map_some, bindJson, hnot]
      rfl
  | blob b =>
      have hcol : isIdColumn c = true := by
        cases htypes : col.type <;> rw [htypes] at htype
        · cases htype
        · cases htype
        · cases htype
        · exact hid.1 htypes
      by_cases hb : b.length = 16
      · simp only [dumpValue?, if_pos hb, Option.map_some, bindJson, hcol, if_true,
          fromWire_ulidText hb, carried, decide_eq_true hb]
      · simp only [dumpValue?, Option.map_none, carried, hb, decide_false, Bool.false_eq_true,
          if_false]

/-- The bound value of a column, from the columns of the dump alone. -/
theorem lookup_bindObject (columns : List String) (c : String) :
    (bindObject env (dumpRow env columns r)).lookup c =
      if c ∈ columns then (dumpValue? env (r c)).map (bindJson env c) else none := by
  induction columns with
  | nil => rfl
  | cons a rest ih =>
      have hcons : dumpRow env (a :: rest) r =
          ((dumpValue? env (r a)).map fun v => (a, v)).toList ++ dumpRow env rest r := by
        rw [dumpRow, List.filterMap_cons]
        cases dumpValue? env (r a) <;> rfl
      rw [hcons, bindObject, List.map_append, List.lookup_append]
      rw [bindObject] at ih
      rw [ih]
      by_cases hac : c = a
      · subst hac
        cases hv : dumpValue? env (r c) with
        | none => simp
        | some v => simp
      · have hca : (c == a) = false := by simpa using hac
        cases hv : dumpValue? env (r a) with
        | none => simp [hac]
        | some v => simp [List.lookup_cons, hca, hac]

theorem hasType_dumped (hr : k.layout.RowOk r) {c : String} (hc : c ∈ columnsOf k) :
    ∃ col, k.layout.column? c = some col ∧ (col.type = .blob ↔ isIdColumn c = true) ∧
      (r c).hasType col.type = true := by
  obtain ⟨col, _, hcol, hid⟩ := dumped_column k c hc
  exact ⟨col, hcol, hid, hr.typed c col hcol⟩

/-- The row an insert of a dumped row asks for is its image. -/
theorem overlay_dump (hr : k.layout.RowOk r) :
    overlay (k.layout.defaults now) (bindObject env (dumpRow env (columnsOf k) r)) =
      image now k r := by
  funext c
  rw [overlay, lookup_bindObject]
  by_cases hc : c ∈ columnsOf k
  · obtain ⟨col, _, hid, htype⟩ := hasType_dumped hr hc
    rw [if_pos hc, bind_dumpValue hid htype, image]
    by_cases hv : carried (r c) = true
    · rw [if_pos hv, if_pos ⟨hc, hv⟩]
      rfl
    · rw [if_neg hv, if_neg fun h => hv h.2]
      rfl
  · rw [if_neg hc, image_of_not_mem hc]
    rfl

theorem defaults_typed {c : String} {col : Column} (hcol : k.layout.column? c = some col) :
    (k.layout.defaults now c).hasType col.type = true := by
  rw [Layout.defaults_of_column? hcol, Default.hasType_eval _ now ""]
  exact k.default_typed col (Layout.mem_of_column? hcol).1

theorem image_typed (hr : k.layout.RowOk r) {c : String} {col : Column}
    (hcol : k.layout.column? c = some col) : (image now k r c).hasType col.type = true := by
  rw [image]
  split
  · exact hr.typed c col hcol
  · exact defaults_typed hcol

theorem image_outside {c : String} (hc : k.layout.column? c = none) : image now k r c = .null := by
  have hnot : c ∉ columnsOf k := by
    intro hmem
    obtain ⟨col, _, hcol, _⟩ := dumped_column k c hmem
    rw [hc] at hcol
    cases hcol
  rw [image_of_not_mem hnot, Layout.defaults, hc]

/-- Typed values are stored as they are. -/
theorem stored_image (hr : k.layout.RowOk r) :
    k.layout.stored env.affinity (image now k r) = image now k r := by
  funext c
  cases hcol : k.layout.column? c with
  | none => simp only [Layout.stored, hcol, image_outside hcol]
  | some col =>
      simp only [Layout.stored, hcol,
        env.affinity.convert_self _ _ (image_typed hr hcol), Option.getD_some]

/-- With every id of sixteen bytes, the image is a row of the table. -/
theorem rowOk_image (hk : k ∈ SyncableEntityKind.dumpOrder) (hr : k.layout.RowOk r)
    (hids : ∀ c ∈ columnsOf k, ∀ b, r c = .blob b → b.length = 16) :
    k.layout.RowOk (image now k r) where
  typed c col hcol := image_typed hr hcol
  outside c hc := image_outside hc
  present c col hcol hnn := by
    obtain ⟨hmem, hname⟩ := Layout.mem_of_column? hcol
    by_cases hc : c ∈ columnsOf k
    · have hne := hr.present c col hcol hnn
      have hv : carried (r c) = true := by
        cases hval : r c with
        | null => exact absurd hval hne
        | blob b => exact decide_eq_true (hids c hc b hval)
        | _ => rfl
      rw [image_of_carried hc hv]
      exact hne
    · rw [image_of_not_mem hc, Layout.defaults_of_column? hcol]
      intro hnull
      refine default_present k hk col hmem hnn (by rw [hname]; exact hc) ?_
      exact Default.eval_eq_null "" hnull

/-- A column without a default is NULL in the image unless its value was carried. -/
theorem image_eq_null {c : String} (hdefault : ((k.layout.column? c).map Column.default) = some .null)
    (h : ¬(c ∈ columnsOf k ∧ carried (r c) = true)) : image now k r c = .null := by
  obtain ⟨col, hcol, hnull⟩ := Option.map_eq_some_iff.1 hdefault
  rw [image, if_neg h, Layout.defaults_of_column? hcol, hnull]
  rfl

/-- An image holds nothing a dump would not carry. -/
theorem image_null_or_carried (now : String) (k : SyncableEntityKind) (r : Row) (c : String) :
    image now k r c = .null ∨ carried (image now k r c) = true := by
  by_cases h : c ∈ columnsOf k ∧ carried (r c) = true
  · rw [image_of_carried h.1 h.2]
    exact Or.inr h.2
  · rw [image, if_neg h]
    cases hcol : k.layout.column? c with
    | none =>
        rw [Layout.defaults, hcol]
        exact Or.inl rfl
    | some col =>
        rw [Layout.defaults_of_column? hcol]
        have := default_carried k col (Layout.mem_of_column? hcol).1
        cases hd : col.default with
        | currentTimestamp => exact Or.inr rfl
        | _ =>
            rw [hd] at this
            exact this

/-- A key column of an image is the row's own, or NULL. -/
theorem image_key (hk : k ∈ SyncableEntityKind.dumpOrder) {key : List String}
    (hkey : key ∈ k.layout.keys) {c : String} (hc : c ∈ key) (hne : image now k r c ≠ .null) :
    image now k r c = r c := by
  by_cases h : c ∈ columnsOf k ∧ carried (r c) = true
  · exact image_of_carried h.1 h.2
  · exact absurd (image_eq_null (key_column k hk key hkey c hc).2 h) hne

/-- Images that clash are images of rows that clash. -/
theorem agree_of_agree_image (hk : k ∈ SyncableEntityKind.dumpOrder) {key : List String}
    (hkey : key ∈ k.layout.keys) {r' : Row}
    (h : agree key (image now k r) (image now k r') = true) : agree key r r' = true := by
  rw [agree_iff] at h ⊢
  intro c hc
  obtain ⟨hne, heq⟩ := h c hc
  have hr : image now k r c = r c := image_key hk hkey hc hne
  have hr' : image now k r' c = r' c := image_key hk hkey hc (by rw [← heq]; exact hne)
  rw [hr] at hne
  exact ⟨hne, by rw [← hr, heq, hr']⟩

end Image

/-! ## One insert -/

section Insert

variable {env : Env} {now : String} {k : SyncableEntityKind} {r : Row} {db db' : Db}

/-- The values a dumped row binds are values of columns of its table, none of them
    NULL. -/
theorem mem_bindObject (hr : k.layout.RowOk r) {p : String × Value}
    (hp : p ∈ bindObject env (dumpRow env (columnsOf k) r)) :
    (k.layout.column? p.1).isSome ∧ p.2 ≠ .null := by
  obtain ⟨q, hq, rfl⟩ := List.mem_map.1 hp
  obtain ⟨c, hc, hv⟩ := List.mem_filterMap.1 hq
  obtain ⟨v, hdump, rfl⟩ := Option.map_eq_some_iff.1 hv
  obtain ⟨col, hcol, hid, htype⟩ := hasType_dumped hr hc
  have hbound : (dumpValue? env (r c)).map (bindJson env c) =
      if carried (r c) = true then some (r c) else none := bind_dumpValue hid htype
  rw [hdump, Option.map_some] at hbound
  refine ⟨by rw [hcol]; rfl, ?_⟩
  intro hnull
  split at hbound
  · next hcarried =>
      rw [← Option.some.inj hbound] at hcarried
      rw [show bindJson env c v = .null from hnull] at hcarried
      cases hcarried
  · cases hbound

/-- With no row in the way, replacing is inserting the image. -/
theorem insertOrReplace_dump (hr : k.layout.RowOk r)
    (hfree : ∀ x ∈ (db.tables k).rows, ∀ key ∈ k.layout.keys,
      agree key x.val (image now k r) = false) :
    insertOrReplace env now k (bindObject env (dumpRow env (columnsOf k) r)) db =
      k.layout.store env.affinity (image now k r) >>= fun s => insertRow env now k s db := by
  -- no default is taken: what the dump leaves null may be null
  have hfilled : (bindObject env (dumpRow env (columnsOf k) r)).filter (fun p =>
      !(decide (p.2 = .null) && ((k.layout.column? p.1).map Column.notNull == some true))) =
      bindObject env (dumpRow env (columnsOf k) r) := by
    rw [List.filter_eq_self]
    intro p hp
    simp [(mem_bindObject hr hp).2]
  have hknown : k.layout.unknown? (bindObject env (dumpRow env (columnsOf k) r)) = none := by
    rw [Layout.unknown?, List.find?_eq_none]
    intro c hc
    obtain ⟨p, hp, rfl⟩ := List.mem_map.1 hc
    simpa using Option.isSome_iff_ne_none.1 (mem_bindObject hr hp).1
  have hcandidate : Table.candidate env.affinity now k.layout
      (bindObject env (dumpRow env (columnsOf k) r)) =
      k.layout.store env.affinity (image now k r) := by
    rw [Table.candidate, hknown, overlay_dump hr]
  simp only [insertOrReplace, hfilled, hknown, hcandidate]
  cases hstore : k.layout.store env.affinity (image now k r) with
  | error e => rfl
  | ok s =>
      have hval : s.val = image now k r := (Layout.store_eq_ok hstore).2.trans (stored_image hr)
      -- nothing is replaced, as no row has a key of this one
      have hclash : ((db.tables k).rows.filter fun x =>
          k.layout.keys.any fun key => agree key x.val s.val) = [] := by
        rw [List.filter_eq_nil_iff]
        intro x hx hany
        obtain ⟨key, hkey, hagree⟩ := List.any_eq_true.1 hany
        rw [hval, hfree x hx key hkey] at hagree
        cases hagree
      show (do
        let db ← ((db.tables k).rows.filter fun x => k.layout.keys.any fun key =>
          agree key x.val s.val).foldlM (fun db x => removeRow env now 3 false k x db) db
        insertRow env now k s db) = insertRow env now k s db
      rw [hclash]
      rfl

/-- What the audit trigger of a row needs: no blob among the values it writes. -/
def Auditable (env : Env) (k : SyncableEntityKind) (r : Row) : Prop :=
  (triggerEntityId env k r).isSome ∧ (triggerPayload env k r).isSome

theorem fireTrigger_insert_ok (hloud : db.syncApply.getD "0" ≠ "1") (h : Auditable env k r) :
    ∃ log, fireTrigger env now k .insert r db = .ok { db with log } := by
  obtain ⟨entityId, hid⟩ := Option.isSome_iff_exists.1 h.1
  obtain ⟨payload, hpayload⟩ := Option.isSome_iff_exists.1 h.2
  refine ⟨db.log.logLocal now k.entityTypeName entityId Operation.insert.text payload, ?_⟩
  rw [fireTrigger, if_neg hloud, if_neg (fun h => by cases h.1), hid, hpayload]

theorem fireTrigger_insert_eq_ok (h : fireTrigger env now k .insert r db = .ok db')
    (hloud : db.syncApply.getD "0" ≠ "1") :
    Auditable env k r ∧ ∃ log, db' = { db with log } := by
  rw [fireTrigger, if_neg hloud, if_neg (fun h => by cases h.1)] at h
  split at h
  · next entityId payload hid hpayload =>
      refine ⟨⟨by rw [hid]; rfl, by rw [hpayload]; rfl⟩, _, (Except.ok.inj h).symm⟩
  · cases h

/-- What the device asks of a row. -/
structure Accepted (env : Env) (db : Db) (k : SyncableEntityKind) (r : Row) : Prop where
  ok : k.layout.RowOk r
  auditable : Auditable env k r
  parents : db.foreignKeys = true → ∀ fk ∈ k.foreignKeys, db.hasParent fk (r fk.column) = true

/-- The references of an image lead to other tables. -/
theorem parent_other (hk : k ∈ SyncableEntityKind.dumpOrder) {fk : ForeignKey}
    (hfk : fk ∈ k.foreignKeys) : fk.parent ≠ .synced k ∨ image now k r fk.column = .null := by
  by_cases hc : fk.column ∈ columnsOf k
  · left
    intro hparent
    exact (parent_dumped k hk fk hfk hc k hparent).1 rfl
  · exact Or.inr (image_eq_null (reference_null k fk hfk hc) fun h => hc h.1)

/-- With no row in the way, the device takes the image exactly when it is accepted,
    and adds it behind the rows of its table. -/
theorem insertRow_image (hk : k ∈ SyncableEntityKind.dumpOrder)
    (hloud : db.syncApply.getD "0" ≠ "1") {s : k.layout.StoredRow} (hs : s.val = image now k r)
    (hfree : ∀ x ∈ (db.tables k).rows, ∀ key ∈ k.layout.keys, agree key x.val s.val = false)
    (haudit : Auditable env k s.val)
    (hparents : db.foreignKeys = true → ∀ fk ∈ k.foreignKeys,
      db.hasParent fk (s.val fk.column) = true) :
    ∃ db', insertRow env now k s db = .ok db' := by
  have hclash : k.layout.clash? (db.tables k).rows s = none := by
    rw [Layout.clash?, List.findSome?_eq_none_iff]
    intro key hkey
    rw [List.find?_eq_none]
    intro x hx
    rw [hfree x hx key hkey]
    exact Bool.false_ne_true
  obtain ⟨log, hfire⟩ : ∃ log, fireTrigger env now k .insert s.val
      (db.setTable k ((db.tables k).append s hclash)) =
        .ok { db.setTable k ((db.tables k).append s hclash) with log } :=
    fireTrigger_insert_ok hloud haudit
  refine ⟨_, insertRow_eq_ok_iff.2 ⟨_, Table.insert_eq_ok_iff.2 ⟨hclash, rfl⟩, hfire, ?_⟩⟩
  refine requireParents_ok_iff.2 fun hon fk hfk => ?_
  have hother : (db.setTable k ((db.tables k).append s hclash)).hasParent fk (s.val fk.column) =
      db.hasParent fk (s.val fk.column) := by
    refine hasParent_setTable ?_
    rw [hs]
    exact parent_other hk hfk
  exact hother.trans (hparents hon fk hfk)

/-- An insert that succeeds found its row accepted, and only added it. -/
theorem insertRow_image_eq_ok (hk : k ∈ SyncableEntityKind.dumpOrder)
    (hloud : db.syncApply.getD "0" ≠ "1") {s : k.layout.StoredRow} (hs : s.val = image now k r)
    (h : insertRow env now k s db = .ok db') :
    Accepted env db k s.val ∧
      ∃ (hclash : k.layout.clash? (db.tables k).rows s = none) (log : ChangeLog),
        db' = { db.setTable k ((db.tables k).append s hclash) with log } := by
  obtain ⟨t, hinsert, hfire, hrequire⟩ := insertRow_eq_ok_iff.1 h
  obtain ⟨hclash, rfl⟩ := Table.insert_eq_ok_iff.1 hinsert
  obtain ⟨haudit, log, rfl⟩ := fireTrigger_insert_eq_ok hfire hloud
  have hparents := requireParents_ok_iff.1 hrequire
  refine ⟨⟨s.property, haudit, fun hon fk hfk => ?_⟩, hclash, log, rfl⟩
  have hother : (db.setTable k ((db.tables k).append s hclash)).hasParent fk (s.val fk.column) =
      db.hasParent fk (s.val fk.column) := by
    refine hasParent_setTable ?_
    rw [hs]
    exact parent_other hk hfk
  exact hother.symm.trans (hparents hon fk hfk)

end Insert

/-! ## The whole dump -/

/-- The rows of a dump with their tables, before they are encoded. -/
def peerRows (peer : Db) : List (SyncableEntityKind × Row) :=
  SyncableEntityKind.dumpOrder.flatMap fun k => (peer.tables k).rows.map fun r => (k, r.val)

/-- What the rows of a dump have in common, whatever library they come from. -/
structure Listed (rows : List (SyncableEntityKind × Row)) : Prop where
  ok : ∀ p ∈ rows, p.1 ∈ SyncableEntityKind.dumpOrder ∧ p.1.layout.RowOk p.2
  apart : rows.Pairwise fun a b => a.1 = b.1 → ∀ key ∈ a.1.layout.keys, agree key a.2 b.2 = false
  ordered : rows.Pairwise fun child parent => ∀ fk ∈ child.1.foreignKeys,
    fk.column ∈ columnsOf child.1 → fk.parent ≠ .synced parent.1

theorem listed_peerRows (peer : Db) : Listed (peerRows peer) where
  ok := by
    intro p hp
    obtain ⟨k, hk, hp⟩ := List.mem_flatMap.1 hp
    obtain ⟨r, _, rfl⟩ := List.mem_map.1 hp
    exact ⟨hk, r.property⟩
  apart := by
    rw [peerRows, List.pairwise_flatMap]
    refine ⟨?_, ?_⟩
    · intro k _
      rw [List.pairwise_map]
      refine (peer.tables k).apart.imp ?_
      intro a b hab _
      exact hab
    · have hnodup : SyncableEntityKind.dumpOrder.Pairwise (· ≠ ·) := by decide
      refine hnodup.imp ?_
      intro a b hne x hx y hy heq
      obtain ⟨r, _, rfl⟩ := List.mem_map.1 hx
      obtain ⟨r', _, rfl⟩ := List.mem_map.1 hy
      exact absurd heq hne
  ordered := by
    rw [peerRows, List.pairwise_flatMap]
    refine ⟨?_, ?_⟩
    · intro k hk
      rw [List.pairwise_map]
      refine (peer.tables k).apart.imp ?_
      intro a b _ fk hfk hc hparent
      exact (parent_dumped k hk fk hfk hc k hparent).1 rfl
    · refine parents_first.imp ?_
      intro a b hab x hx y hy
      obtain ⟨r, _, rfl⟩ := List.mem_map.1 hx
      obtain ⟨r', _, rfl⟩ := List.mem_map.1 hy
      exact hab

/-- The object a row is dumped as. -/
def dumpOf (env : Env) (p : SyncableEntityKind × Row) : SyncableEntityKind × Object :=
  (p.1, dumpRow env (columnsOf p.1) p.2)

theorem rows_pullFull (env : Env) (peer : Db) :
    (pullFull env peer).rows = (peerRows peer).map (dumpOf env) := by
  rw [FullDump.rows, peerRows, List.map_flatMap]
  refine List.flatMap_congr fun k hk => ?_
  obtain ⟨columns, hcolumns⟩ := Option.isSome_iff_exists.1 ((mem_dumpOrder k).1 hk)
  have hof : columnsOf k = columns := by
    rw [columnsOf, hcolumns]
    rfl
  show (queryTable env peer k).map _ = _
  rw [queryTable, hcolumns, List.map_map, List.map_map]
  refine List.map_congr_left fun r _ => ?_
  simp [dumpOf, hof]

/-- How far a bootstrap has come: the tables hold the images of the rows done. -/
structure Progress (device : Db) (now : String) (done : List (SyncableEntityKind × Row)) (db : Db) :
    Prop where
  rows : ∀ k, (db.tables k).rows.map Subtype.val =
    (done.filter fun p => decide (p.1 = k)).map fun p => image now k p.2
  foreignKeys : db.foreignKeys = device.foreignKeys
  parents : db.parents = device.parents
  syncApply : db.syncApply = device.syncApply

/-- A parent among the rows done, or among those the device has in tables that do not
    sync. -/
def HasParentIn (device : Db) (now : String) (done : List (SyncableEntityKind × Row))
    (fk : ForeignKey) (v : Value) : Prop :=
  v = .null ∨ match fk.parent with
    | .synced k => ∃ p ∈ done, p.1 = k ∧ image now k p.2 "id" = v
    | .other t => ∃ b ∈ device.parents t, v = .blob b

/-- What the device asks of the next row, when the rows before it are done. -/
structure AcceptedAfter (env : Env) (device : Db) (now : String)
    (done : List (SyncableEntityKind × Row)) (p : SyncableEntityKind × Row) : Prop where
  ok : p.1.layout.RowOk (image now p.1 p.2)
  auditable : Auditable env p.1 (image now p.1 p.2)
  parents : device.foreignKeys = true → ∀ fk ∈ p.1.foreignKeys,
    HasParentIn device now done fk (image now p.1 p.2 fk.column)

section Run

variable {env : Env} {device db db' : Db} {now : String}
  {done rest : List (SyncableEntityKind × Row)} {p : SyncableEntityKind × Row}

theorem Progress.mem (h : Progress device now done db) {k : SyncableEntityKind}
    {x : k.layout.StoredRow} (hx : x ∈ (db.tables k).rows) :
    ∃ q ∈ done, q.1 = k ∧ x.val = image now k q.2 := by
  have hval : x.val ∈ (db.tables k).rows.map Subtype.val := List.mem_map_of_mem hx
  rw [h.rows k] at hval
  obtain ⟨q, hq, hqx⟩ := List.mem_map.1 hval
  obtain ⟨hq, hkind⟩ := List.mem_filter.1 hq
  exact ⟨q, hq, by simpa using hkind, hqx.symm⟩

theorem Progress.hasParent_iff (h : Progress device now done db) {fk : ForeignKey} {v : Value} :
    db.hasParent fk v = true ↔ HasParentIn device now done fk v := by
  rw [HasParentIn]
  cases hfk : fk.parent with
  | synced k =>
      rw [hasParent_synced hfk]
      refine or_congr_right ⟨?_, ?_⟩
      · rintro ⟨x, hx, hid⟩
        obtain ⟨q, hq, hkind, hval⟩ := h.mem hx
        exact ⟨q, hq, hkind, by rw [← hval]; exact hid⟩
      · rintro ⟨q, hq, hkind, hid⟩
        have hmem : image now k q.2 ∈ (db.tables k).rows.map Subtype.val := by
          rw [h.rows k]
          exact List.mem_map.2 ⟨q, List.mem_filter.2 ⟨hq, by simpa using hkind⟩, rfl⟩
        obtain ⟨x, hx, hval⟩ := List.mem_map.1 hmem
        exact ⟨x, hx, by rw [hval]; exact hid⟩
  | other t => rw [hasParent_other hfk, h.parents]

/-- No row done is in the way of the next one. -/
theorem Progress.free (h : Progress device now done db) (hlisted : Listed (done ++ p :: rest)) :
    ∀ x ∈ (db.tables p.1).rows, ∀ key ∈ p.1.layout.keys,
      agree key x.val (image now p.1 p.2) = false := by
  intro x hx key hkey
  obtain ⟨q, hq, hkind, hval⟩ := h.mem hx
  have hk := (hlisted.ok p (List.mem_append_right _ List.mem_cons_self)).1
  have hapart := (List.pairwise_append.1 hlisted.apart).2.2 q hq p List.mem_cons_self hkind key
    (by rw [hkind]; exact hkey)
  by_contra hagree
  rw [hval] at hagree
  rw [agree_of_agree_image hk hkey (by simpa using hagree)] at hapart
  cases hapart

/-- The next row goes in exactly when the device accepts it. -/
theorem insert_next_iff (h : Progress device now done db)
    (hlisted : Listed (done ++ p :: rest)) (hloud : device.syncApply.getD "0" ≠ "1") :
    (∃ db', insertOrReplace env now p.1 (bindObject env (dumpOf env p).2) db = .ok db') ↔
      AcceptedAfter env device now done p := by
  obtain ⟨hk, hr⟩ := hlisted.ok p (List.mem_append_right _ List.mem_cons_self)
  have hfree := h.free hlisted
  have hloud' : db.syncApply.getD "0" ≠ "1" := by
    rw [h.syncApply]
    exact hloud
  rw [dumpOf, insertOrReplace_dump hr hfree]
  constructor
  · rintro ⟨db', hok⟩
    obtain ⟨s, hstore, hinsert⟩ := bind_eq_ok.1 hok
    have hs : s.val = image now p.1 p.2 := (Layout.store_eq_ok hstore).2.trans (stored_image hr)
    obtain ⟨haccepted, _⟩ := insertRow_image_eq_ok hk hloud' hs hinsert
    rw [hs] at haccepted
    refine ⟨haccepted.ok, haccepted.auditable, fun hon fk hfk => ?_⟩
    exact h.hasParent_iff.1 (haccepted.parents (h.foreignKeys.trans hon) fk hfk)
  · intro haccepted
    rw [Layout.store_of_rowOk haccepted.ok (SyncableEntityKind.columns_nodup p.1)]
    exact insertRow_image hk hloud' rfl hfree haccepted.auditable
      fun hon fk hfk => h.hasParent_iff.2 (haccepted.parents (h.foreignKeys.symm.trans hon) fk hfk)

/-- A row that went in is behind the others. -/
theorem Progress.next (h : Progress device now done db) (hlisted : Listed (done ++ p :: rest))
    (hloud : device.syncApply.getD "0" ≠ "1")
    (hok : insertOrReplace env now p.1 (bindObject env (dumpOf env p).2) db = .ok db') :
    Progress device now (done ++ [p]) db' := by
  obtain ⟨hk, hr⟩ := hlisted.ok p (List.mem_append_right _ List.mem_cons_self)
  have hloud' : db.syncApply.getD "0" ≠ "1" := by
    rw [h.syncApply]
    exact hloud
  rw [dumpOf, insertOrReplace_dump hr (h.free hlisted)] at hok
  obtain ⟨s, hstore, hinsert⟩ := bind_eq_ok.1 hok
  have hs : s.val = image now p.1 p.2 := (Layout.store_eq_ok hstore).2.trans (stored_image hr)
  obtain ⟨_, hclash, log, rfl⟩ := insertRow_image_eq_ok hk hloud' hs hinsert
  refine ⟨fun k => ?_, h.foreignKeys, h.parents, h.syncApply⟩
  rw [List.filter_append, List.map_append, ← h.rows k]
  by_cases hkind : p.1 = k
  · subst hkind
    show ((Function.update db.tables p.1 _) p.1).rows.map Subtype.val = _
    rw [Function.update_self]
    simp [Table.append, hs]
  · show ((Function.update db.tables p.1 _) k).rows.map Subtype.val = _
    rw [Function.update_of_ne (Ne.symm hkind)]
    simp [hkind]

/-- A dumped row is never empty. -/
theorem dumpOf_ne_nil (hk : p.1 ∈ SyncableEntityKind.dumpOrder) (hr : p.1.layout.RowOk p.2) :
    (dumpOf env p).2 ≠ [] := by
  obtain ⟨col, _, hc, hcol, hnn, htype⟩ := plain_column p.1 hk
  have hsome : (dumpValue? env (p.2 col.name)).isSome := by
    have hne := hr.present col.name col hcol hnn
    have htyped := hr.typed col.name col hcol
    cases hv : p.2 col.name with
    | null => exact absurd hv hne
    | blob b =>
        rw [hv] at htyped
        cases ht : col.type with
        | blob => exact absurd ht htype
        | _ =>
            rw [ht] at htyped
            cases htyped
    | _ => rfl
  obtain ⟨v, hv⟩ := Option.isSome_iff_exists.1 hsome
  have hmem : (col.name, v) ∈ (dumpOf env p).2 :=
    List.mem_filterMap.2 ⟨col.name, hc, by rw [hv]; rfl⟩
  exact List.ne_nil_of_mem hmem

theorem applyDump_cons (hlisted : Listed (done ++ p :: rest)) (written : Nat) :
    applyDump env now ((p :: rest).map (dumpOf env)) written db =
      match insertOrReplace env now p.1 (bindObject env (dumpOf env p).2) db with
      | .error error => (.error { table := p.1.tableName, error }, db)
      | .ok db => applyDump env now (rest.map (dumpOf env)) (written + 1) db := by
  obtain ⟨hk, hr⟩ := hlisted.ok p (List.mem_append_right _ List.mem_cons_self)
  have hne : (dumpOf env p).2.isEmpty = false :=
    List.isEmpty_eq_false_iff.2 (dumpOf_ne_nil hk hr)
  rw [List.map_cons]
  show (if (dumpOf env p).2.isEmpty then _ else _) = _
  rw [hne]
  rfl

/-- **A BOOTSTRAP STOPS AT THE FIRST ROW THAT IS NOT ACCEPTED**, and otherwise the
    tables end with the images of all rows. By induction on the rows still to come. -/
theorem applyDump_cases (env : Env) (hloud : device.syncApply.getD "0" ≠ "1") :
    ∀ (rest done : List (SyncableEntityKind × Row)) (db : Db) (written : Nat),
      Progress device now done db → Listed (done ++ rest) →
      ((∃ n db', applyDump env now (rest.map (dumpOf env)) written db = (.ok n, db')) ↔
        ∀ before p after, rest = before ++ p :: after →
          AcceptedAfter env device now (done ++ before) p) ∧
      ∀ n db', applyDump env now (rest.map (dumpOf env)) written db = (.ok n, db') →
        Progress device now (done ++ rest) db' := by
  intro rest
  induction rest with
  | nil =>
      intro done db written h hlisted
      refine ⟨iff_of_true ⟨written, db, rfl⟩ ?_, ?_⟩
      · intro before p after heq
        exact absurd heq.symm (by simp)
      · intro n db' heq
        cases heq
        rw [List.append_nil]
        exact h
  | cons p rest ih =>
      intro done db written h hlisted
      have hnext : (∃ db', insertOrReplace env now p.1 (bindObject env (dumpOf env p).2) db =
          .ok db') ↔ AcceptedAfter env device now done p := insert_next_iff h hlisted hloud
      rw [applyDump_cons hlisted]
      cases hinsert : insertOrReplace env now p.1 (bindObject env (dumpOf env p).2) db with
      | error e =>
          -- the first row is the one that is not accepted
          refine ⟨iff_of_false ?_ ?_, ?_⟩
          · rintro ⟨n, db', heq⟩
            cases heq
          · intro hall
            have haccepted := hall [] p rest rfl
            rw [List.append_nil] at haccepted
            obtain ⟨db', hok⟩ := hnext.2 haccepted
            rw [hinsert] at hok
            cases hok
          · intro n db' heq
            cases heq
      | ok db1 =>
          have hp : AcceptedAfter env device now done p := hnext.1 ⟨db1, hinsert⟩
          have hlisted' : Listed ((done ++ [p]) ++ rest) := by
            rw [List.append_assoc]
            exact hlisted
          obtain ⟨hiff, hprogress⟩ := ih (done ++ [p]) db1 (written + 1)
            (h.next hlisted hloud hinsert) hlisted'
          -- a split of the rows is at the first, or one of the others
          refine ⟨hiff.trans ⟨?_, ?_⟩, ?_⟩
          · intro hall before q after heq
            cases before with
            | nil =>
                obtain ⟨rfl, _⟩ := List.cons.inj heq
                rw [List.append_nil]
                exact hp
            | cons a before =>
                obtain ⟨rfl, hrest⟩ := List.cons.inj heq
                have := hall before q after hrest
                rwa [List.append_assoc] at this
          · intro hall before q after heq
            have := hall (p :: before) q after (by rw [heq]; rfl)
            rw [List.append_assoc]
            exact this
          · intro n db' heq
            have := hprogress n db' heq
            rwa [List.append_assoc] at this

end Run

end SyncImage

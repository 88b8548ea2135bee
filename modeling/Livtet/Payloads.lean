import Livtet.Push
import Livtet.Reordered

/-! # The payload of a trigger on both write paths

    `push_changes` binds a payload by the types of the columns, `apply_changes` by their
    names. Both find the row's own value behind every member that a trigger writes but
    one: the empty text that `lower(hex(..))` makes of an absent id. `sql_value` stores
    it as NULL and `json_to_sql` refuses it, so a row whose trigger hexes an absent id
    arrives by one path only. Any other row arrives by both, in every database that has
    a place for it. -/

namespace SyncPayloads

open SqlRows JsonText SyncSchema SyncStore SyncEngine SyncSteps SyncWire SyncContents SyncApplied
open SyncHistory SyncReordered SyncPush Outcomes

/-! ## Facts about the lists -/

theorem modelColumns_column : ∀ k : SyncableEntityKind, ∀ col ∈ k.modelColumns,
    k.layout.column? col.name = some col := by
  decide

/-- A column that the triggers emit is a column of the model. -/
theorem emitted_modelColumns : ∀ k : SyncableEntityKind, ∀ c ∈ k.emitted,
    ∃ col ∈ k.modelColumns, col.name = c := by
  decide

/-- A table all of whose emitted columns are in its key has no other key. -/
theorem uniques_of_key_only : ∀ k : SyncableEntityKind,
    (∀ c ∈ k.emitted, c ∈ k.layout.primaryKey) → k.layout.uniques = [] := by
  decide

/-! ## What the members of a payload bind to -/

section Members

variable {env : Env} {k : SyncableEntityKind} {x : Row} {payload : String}

/-- The member a trigger writes for a column. -/
def member (x : Row) (p : String × Encoding) : String × Json :=
  (p.1, Json.ofValue (encodeColumn p.2 (x p.1)))

/-- Every id that the triggers write in hex is there. -/
def HexedPresent (k : SyncableEntityKind) (x : Row) : Prop :=
  ∀ p ∈ k.auditTrigger.payload, p.2 = .hex → x p.1 ≠ .null

theorem payload_members (hpayload : triggerPayload env k x = some payload) :
    ∃ members, env.json.parse payload = .ok (.obj members) ∧
      members.Perm (k.auditTrigger.payload.map (member x)) := by
  have hnames : ((jsonFields k.auditTrigger.payload x).map Prod.fst).Nodup := by
    rw [jsonFields, List.map_map]
    exact k.emitted_nodup
  obtain ⟨members, hparse, hperm⟩ := env.json.parse_object _ payload hnames hpayload
  rw [jsonFields, List.map_map] at hperm
  exact ⟨members, hparse, hperm⟩

/-- A payload was written, so no member of it is a blob. -/
theorem plain_of_payload (hpayload : triggerPayload env k x = some payload)
    {p : String × Encoding} (hp : p ∈ k.auditTrigger.payload) (b : List UInt8) :
    encodeColumn p.2 (x p.1) ≠ .blob b := by
  intro hb
  have hnone := (env.json.object_eq_none (jsonFields k.auditTrigger.payload x)).2
    ⟨_, List.mem_map_of_mem hp, b, hb⟩
  rw [show env.json.object _ = _ from hpayload] at hnone
  cases hnone

/-- A hex text binds by type to the id it was written from. -/
theorem jsonToSql_encode {col : Column} {b : List UInt8} {entityType : String}
    (htype : col.type = .blob) (h : b.length = 16) :
    jsonToSql env col (.str (HexText.encode b)) entityType = .ok (.blob b) := by
  simp only [jsonToSql, htype, fromWire_encode h]

theorem jsonToSql_null (col : Column) (entityType : String) :
    jsonToSql env col .null entityType = .ok .null := by
  simp only [jsonToSql]

/-- What a trigger writes for a column binds by type to the column's own value, unless
    it is the hex of an absent id. -/
theorem jsonToSql_member (h : Sendable k x) {p : String × Encoding}
    (hp : p ∈ k.auditTrigger.payload) (hplain : ∀ b, encodeColumn p.2 (x p.1) ≠ .blob b)
    (hpresent : p.2 = .hex → x p.1 ≠ .null) {col : Column} (hcol : k.layout.column? p.1 = some col)
    (entityType : String) : jsonToSql env col (member x p).2 entityType = .ok (x p.1) := by
  obtain ⟨c, enc⟩ := p
  obtain ⟨col', _, hcol', _, hhex⟩ := payload_column k (c, enc) hp
  obtain rfl : col = col' := Option.some.inj (hcol.symm.trans hcol')
  have htyped := h.ok.typed c col hcol
  have hids := h.ids c (List.mem_map_of_mem hp)
  cases enc with
  | raw =>
      -- the value is read back by the type of its column, which it has
      show jsonToSql env col (Json.ofValue (x c)) entityType = .ok (x c)
      cases hv : x c with
      | null => exact jsonToSql_null col entityType
      | blob b => exact absurd hv (hplain b)
      | int n =>
          rw [hv] at htyped
          cases htype : col.type <;> rw [htype] at htyped
          · have hn : minI64 ≤ n ∧ n ≤ maxI64 := by
              simpa [Value.hasType, minI64, maxI64] using htyped
            simp only [Json.ofValue, jsonToSql, htype, asI64?, if_pos hn]
          all_goals cases htyped
      | real d =>
          rw [hv] at htyped
          cases htype : col.type <;> rw [htype] at htyped
          case real => simp only [Json.ofValue, jsonToSql, htype]
          all_goals cases htyped
      | text s =>
          rw [hv] at htyped
          cases htype : col.type <;> rw [htype] at htyped
          case text => simp only [Json.ofValue, jsonToSql, htype]
          all_goals cases htyped
  | hex =>
      have hblob := hhex (fun hraw => by cases hraw)
      rcases blob_or_null hblob htyped with hv | ⟨b, hv⟩
      · exact absurd hv (hpresent rfl)
      · show jsonToSql env col (.str (lowerHex (x c))) entityType = .ok (x c)
        rw [hv]
        exact jsonToSql_encode hblob (hids b hv)
  | hexIfPresent =>
      have hblob := hhex (fun hraw => by cases hraw)
      show jsonToSql env col (Json.ofValue (encodeColumn .hexIfPresent (x c))) entityType = _
      rcases blob_or_null hblob htyped with hv | ⟨b, hv⟩
      · rw [hv]
        exact jsonToSql_null col entityType
      · rw [hv]
        exact jsonToSql_encode hblob (hids b hv)

/-- An absent id in hex is the empty text, which is no id. -/
theorem jsonToSql_absent (hulid : env.ulidParse "" = none) {p : String × Encoding}
    (hp : p ∈ k.auditTrigger.payload) (hhex : p.2 = .hex) (hnull : x p.1 = .null) {col : Column}
    (hcol : k.layout.column? p.1 = some col) {entityType : String} {v : Value} :
    jsonToSql env col (member x p).2 entityType ≠ .ok v := by
  obtain ⟨col', _, hcol', _, htype⟩ := payload_column k p hp
  obtain rfl : col = col' := Option.some.inj (hcol.symm.trans hcol')
  have htype : col.type = .blob := htype (by rw [hhex]; exact fun hraw => by cases hraw)
  have hwire : fromWire env "" = none := by
    rw [fromWire, hulid, Option.or_none]
    decide
  have hmember : (member x p).2 = .str "" := by
    rw [member, hhex, hnull]
    rfl
  rw [hmember]
  simp only [jsonToSql, htype, hwire]
  exact fun h => by cases h

end Members

/-! ## What a push makes of a payload -/

section Bound

variable {env : Env} {k : SyncableEntityKind} {x : Row} {payload : String}
  {members : List (String × Json)}

/-- A member of the payload was written for a column. -/
theorem member_of_get? (hperm : members.Perm (k.auditTrigger.payload.map (member x)))
    {c : String} {v : Json} (h : (Json.obj members).get? c = some v) :
    ∃ p ∈ k.auditTrigger.payload, p.1 = c ∧ (member x p).2 = v := by
  obtain ⟨before, after, hsplit, _⟩ := List.lookup_eq_some_iff.1
    (show members.reverse.lookup c = some v from h)
  have hmem : (c, v) ∈ members := by
    rw [← List.mem_reverse, hsplit]
    exact List.mem_append_right _ List.mem_cons_self
  obtain ⟨p, hp, heq⟩ := List.mem_map.1 (hperm.mem_iff.1 hmem)
  exact ⟨p, hp, (Prod.mk.inj heq).1, (Prod.mk.inj heq).2⟩

/-- Every column that the triggers emit has a member. -/
theorem get?_emitted (hperm : members.Perm (k.auditTrigger.payload.map (member x)))
    {c : String} (hc : c ∈ k.emitted) : ∃ v, (Json.obj members).get? c = some v := by
  obtain ⟨p, hp, rfl⟩ := List.mem_map.1 hc
  rw [← Option.isSome_iff_exists]
  show (members.reverse.lookup p.1).isSome = true
  rw [Option.isSome_iff_ne_none]
  intro hnone
  have hne := List.lookup_eq_none_iff.1 hnone (member x p)
    (List.mem_reverse.2 (hperm.mem_iff.2 (List.mem_map_of_mem hp)))
  exact bne_iff_ne.1 hne rfl

/-- The keys of a payload are its own. -/
theorem resolvePrimaryKeys_payload (env : Env)
    (hperm : members.Perm (k.auditTrigger.payload.map (member x))) (change : SyncChange) :
    ∃ resolved, resolvePrimaryKeys env k change (some (.obj members)) = .ok resolved ∧
      ∀ c, ((Json.obj members).get? c).or (resolved.lookup c) = (Json.obj members).get? c := by
  refine ⟨k.layout.primaryKey.map fun c => (c, ((Json.obj members).get? c).getD .null), ?_, ?_⟩
  · refine mapM_eq_ok fun c hc => ?_
    obtain ⟨v, hv⟩ := get?_emitted hperm (k.primaryKey_emitted c hc).1
    simp only [Option.bind_some, hv, Option.getD_some]
  · intro c
    cases hget : (Json.obj members).get? c with
    | some v => rfl
    | none =>
        rw [Option.none_or, List.lookup_eq_none_iff]
        intro p hp
        obtain ⟨c', hc', rfl⟩ := List.mem_map.1 hp
        obtain ⟨v, hv⟩ := get?_emitted hperm (k.primaryKey_emitted c' hc').1
        rw [bne_iff_ne]
        rintro rfl
        rw [hget] at hv
        cases hv

/-- The columns of the model with a member, and the values they are bound to. -/
def boundValues (k : SyncableEntityKind) (x : Row) (members : List (String × Json)) :
    Assignments :=
  (k.modelColumns.filterMap fun c => ((Json.obj members).get? c.name).map fun v => (c, v)).map
    fun p => (p.1.name, x p.1.name)

theorem boundValues_emitted (hperm : members.Perm (k.auditTrigger.payload.map (member x))) :
    Names k x (boundValues k x members) ∧ ∀ p ∈ boundValues k x members, p.1 ∈ k.emitted := by
  refine ⟨⟨?_, ?_⟩, ?_⟩
  · intro p hp
    obtain ⟨q, _, rfl⟩ := List.mem_map.1 hp
    rfl
  · intro c hc
    obtain ⟨col, hcol, rfl⟩ := emitted_modelColumns k c hc
    obtain ⟨v, hv⟩ := get?_emitted hperm hc
    rw [boundValues, List.map_map]
    exact List.mem_map.2 ⟨(col, v), List.mem_filterMap.2 ⟨col, hcol, by rw [hv]; rfl⟩, rfl⟩
  · intro p hp
    obtain ⟨q, hq, rfl⟩ := List.mem_map.1 hp
    obtain ⟨col, _, hmap⟩ := List.mem_filterMap.1 hq
    obtain ⟨v, hv, rfl⟩ := Option.map_eq_some_iff.1 hmap
    obtain ⟨p, hp, hname, _⟩ := member_of_get? hperm hv
    rw [← hname]
    exact List.mem_map_of_mem hp

/-- **BINDING BY TYPE** gives the row's own values, when every id in hex is there. -/
theorem bindColumns_payload (h : Sendable k x) (hpayload : triggerPayload env k x = some payload)
    (hperm : members.Perm (k.auditTrigger.payload.map (member x))) (hpresent : HexedPresent k x)
    (entityType : String) :
    bindColumns env k.modelColumns (fun c => (Json.obj members).get? c) entityType =
      .ok (boundValues k x members) := by
  refine mapM_eq_ok fun q hq => ?_
  obtain ⟨col, hcol, hmap⟩ := List.mem_filterMap.1 hq
  obtain ⟨v, hv, rfl⟩ := Option.map_eq_some_iff.1 hmap
  obtain ⟨p, hp, hname, rfl⟩ := member_of_get? hperm hv
  have hcolumn := modelColumns_column k col hcol
  rw [← hname] at hcolumn ⊢
  have hbound : jsonToSql env col (member x p).2 entityType = .ok (x p.1) :=
    jsonToSql_member h hp (plain_of_payload hpayload hp) (hpresent p hp) hcolumn entityType
  exact bind_eq_ok.2 ⟨x p.1, hbound, rfl⟩

/-- Where an absent id is in hex, binding by type fails. -/
theorem present_of_bindColumns (hulid : env.ulidParse "" = none)
    (hperm : members.Perm (k.auditTrigger.payload.map (member x))) {entityType : String}
    {values : Assignments}
    (hbind : bindColumns env k.modelColumns (fun c => (Json.obj members).get? c) entityType =
      .ok values) : HexedPresent k x := by
  intro p hp hhex hnull
  have hc : p.1 ∈ k.emitted := List.mem_map_of_mem hp
  obtain ⟨col, hcol, hname⟩ := emitted_modelColumns k p.1 hc
  obtain ⟨v, hv⟩ := get?_emitted hperm hc
  obtain ⟨q, hq, hqp, rfl⟩ := member_of_get? hperm hv
  have hpq : q = p := List.inj_on_of_nodup_map k.emitted_nodup hq hp hqp
  subst hpq
  have hmem : (col, (member x q).2) ∈ k.modelColumns.filterMap fun c =>
      ((Json.obj members).get? c.name).map fun v => (c, v) := by
    refine List.mem_filterMap.2 ⟨col, hcol, ?_⟩
    rw [hname, hv]
    rfl
  obtain ⟨_, hy⟩ := ok_of_mapM_eq_ok hbind _ hmem
  obtain ⟨w, hw, _⟩ := bind_eq_ok.1 hy
  have hcolumn := modelColumns_column k col hcol
  rw [hname] at hcolumn
  exact jsonToSql_absent hulid hp hhex hnull hcolumn hw

end Bound

/-! ## When a row is let in -/

/-- A row of the table has the values of `x` in every column that the triggers emit. -/
def Stores (db : Db) (k : SyncableEntityKind) (x : Row) : Prop :=
  ∃ r ∈ (db.tables k).rows, ∀ c ∈ k.emitted, r.val c = x c

/-- The database has a place for the row: no row of another primary key shares a unique
    key with it, and, where foreign keys are enforced, every parent that it names is
    there or was named by the row of its key before. -/
structure Accepts (db : Db) (k : SyncableEntityKind) (x : k.layout.StoredRow) : Prop where
  unique : ∀ y ∈ (db.tables k).rows, k.layout.same y.val x.val = false → k.layout.Apart y x
  parents : db.foreignKeys = true → ∀ fk ∈ k.foreignKeys, fk.column ∈ k.emitted →
    db.hasParent fk (x.val fk.column) = true ∨
      ∃ y ∈ (db.tables k).rows, k.layout.same y.val x.val = true ∧
        y.val fk.column = x.val fk.column

section Admission

variable {env : Env} {now : String} {k : SyncableEntityKind} {db db' : Db}
  {x old s : k.layout.StoredRow}

/-- The trigger is suppressed, or can write the row. -/
def Loggable (env : Env) (db : Db) (k : SyncableEntityKind) (r : Row) : Prop :=
  Suppressed db ∨ (triggerPayload env k r).isSome

theorem exists_fireTrigger (now : String) (op : Operation) (hlog : Loggable env db k s.val) :
    ∃ db', fireTrigger env now k op s.val db = .ok db' := by
  rcases hlog with hquiet | hsome
  · exact ⟨db, if_pos hquiet⟩
  · obtain ⟨i, hi⟩ := Option.isSome_iff_exists.1
      (entityId_isSome s.property : (triggerEntityId env k s.val).isSome)
    obtain ⟨payload, hpayload⟩ := Option.isSome_iff_exists.1 hsome
    obtain ⟨db', hfire, _⟩ := fireTrigger_ok op hi hpayload db
    exact ⟨db', hfire⟩

/-- After the trigger, the foreign keys of the row find what they found before. -/
theorem requireParents_iff {t : Table k.layout} {op : Operation} {mid : Db} {fks : List ForeignKey}
    (hfire : fireTrigger env now k op s.val (db.setTable k t) = .ok mid)
    (hfks : ∀ fk ∈ fks, fk ∈ k.foreignKeys) :
    mid.requireParents fks s.val = .ok mid ↔
      (db.foreignKeys = true → ∀ fk ∈ fks, db.hasParent fk (s.val fk.column) = true) := by
  have htables := tables_of_fireTrigger hfire
  have hecho := Echoed.fireTrigger hfire
  have hfk : mid.foreignKeys = db.foreignKeys := hecho.foreignKeys
  rw [requireParents_ok_iff, hfk]
  refine imp_congr_right fun _ => forall₂_congr fun fk hmem => ?_
  rw [hasParent_after (hfks fk hmem) htables hecho.parents]

theorem insertRow_iff (hlog : Loggable env db k s.val) :
    (∃ db', insertRow env now k s db = .ok db') ↔
      k.layout.clash? (db.tables k).rows s = none ∧
        (db.foreignKeys = true →
          ∀ fk ∈ k.foreignKeys, db.hasParent fk (s.val fk.column) = true) := by
  constructor
  · rintro ⟨db', h⟩
    obtain ⟨t, ht, hfire, hrequire⟩ := insertRow_eq_ok_iff.1 h
    obtain ⟨hclash, rfl⟩ := Table.insert_eq_ok_iff.1 ht
    exact ⟨hclash, (requireParents_iff hfire fun _ hfk => hfk).1 hrequire⟩
  · rintro ⟨hclash, hparents⟩
    have hlog' : Loggable env (db.setTable k ((db.tables k).append s hclash)) k s.val := hlog
    obtain ⟨mid, hfire⟩ := exists_fireTrigger now .insert hlog'
    exact ⟨mid, insertRow_eq_ok_iff.2 ⟨_, Table.insert_eq_ok_iff.2 ⟨hclash, rfl⟩, hfire,
      (requireParents_iff hfire fun _ hfk => hfk).2 hparents⟩⟩

theorem mem_of_insertRow (h : insertRow env now k s db = .ok db') : s ∈ (db'.tables k).rows := by
  obtain ⟨t, ht, hfire, _⟩ := insertRow_eq_ok_iff.1 h
  obtain ⟨hclash, rfl⟩ := Table.insert_eq_ok_iff.1 ht
  rw [rows_of_tables (tables_of_fireTrigger hfire)]
  exact List.mem_append_right _ List.mem_cons_self

theorem updateRow_iff (hlog : Loggable env db k s.val)
    (hsame : k.layout.same old.val s.val = true) :
    (∃ db', updateRow env now k old s.val db = .ok db') ↔
      k.layout.clash? ((db.tables k).erase old).rows s = none ∧
        (db.foreignKeys = true → ∀ fk ∈ k.foreignKeys, old.val fk.column ≠ s.val fk.column →
          db.hasParent fk (s.val fk.column) = true) := by
  have hstore : k.layout.store env.affinity s.val = .ok s :=
    Layout.store_of_rowOk s.property k.columns_nodup
  have hfks : ∀ fk ∈ k.foreignKeys.filter fun fk => decide (old.val fk.column ≠ s.val fk.column),
      fk ∈ k.foreignKeys := fun _ hfk => List.mem_of_mem_filter hfk
  have hfilter : (∀ fk ∈ k.foreignKeys.filter fun fk =>
      decide (old.val fk.column ≠ s.val fk.column), db.hasParent fk (s.val fk.column) = true) ↔
      ∀ fk ∈ k.foreignKeys, old.val fk.column ≠ s.val fk.column →
        db.hasParent fk (s.val fk.column) = true := by
    simp only [List.mem_filter, decide_eq_true_eq, and_imp]
  constructor
  · rintro ⟨db', h⟩
    obtain ⟨r, t, ht, hfire, hparents, _⟩ := updateRow_eq_ok_iff.1 h
    obtain ⟨hr, hclash, rfl⟩ := Table.update_eq_ok_iff.1 ht
    cases Except.ok.inj (hstore.symm.trans hr)
    exact ⟨hclash, fun hfk => hfilter.1 ((requireParents_iff hfire hfks).1 hparents hfk)⟩
  · rintro ⟨hclash, hparents⟩
    have hlog' : Loggable env (db.setTable k ((db.tables k).replace old s hclash)) k s.val := hlog
    obtain ⟨mid, hfire⟩ := exists_fireTrigger now .update hlog'
    have hrequire := (requireParents_iff hfire hfks).2 fun hfk => hfilter.2 (hparents hfk)
    refine ⟨mid, updateRow_eq_ok_iff.2
      ⟨s, _, Table.update_eq_ok_iff.2 ⟨hstore, hclash, rfl⟩, hfire, hrequire, ?_⟩⟩
    rw [decide_eq_false (not_not.2 (id_eq_of_same hsame)), Bool.and_false, Bool.false_and]
    exact Bool.false_ne_true

theorem mem_of_updateRow (hold : old ∈ (db.tables k).rows)
    (hsame : k.layout.same old.val s.val = true)
    (h : updateRow env now k old s.val db = .ok db') : s ∈ (db'.tables k).rows := by
  obtain ⟨r, t, ht, hfire, _⟩ := updateRow_eq_ok_iff.1 h
  obtain ⟨hr, hclash, rfl⟩ := Table.update_eq_ok_iff.1 ht
  have hstore : k.layout.store env.affinity s.val = .ok s :=
    Layout.store_of_rowOk s.property k.columns_nodup
  cases Except.ok.inj (hstore.symm.trans hr)
  rw [rows_of_tables (tables_of_fireTrigger hfire)]
  exact (mem_replace_iff hold hsame s).2 (Or.inr rfl)

theorem apart_congr (hs : ∀ c ∈ k.emitted, s.val c = x.val c) (y : k.layout.StoredRow) :
    k.layout.Apart y s ↔ k.layout.Apart y x :=
  forall₂_congr fun _ hkey => by rw [agree_congr hkey y.val hs]

theorem same_congr (hs : ∀ c ∈ k.emitted, s.val c = x.val c) (y : k.layout.StoredRow) :
    k.layout.same y.val s.val = k.layout.same y.val x.val :=
  agree_congr List.mem_cons_self y.val hs

/-- A new row is let in exactly when the database has a place for it. -/
theorem insertRow_accepts (hlog : Loggable env db k s.val)
    (hs : ∀ c ∈ k.emitted, s.val c = x.val c)
    (hdefault : ∀ c ∉ k.emitted, s.val c = k.layout.defaults now c)
    (hfree : ∀ y ∈ (db.tables k).rows, k.layout.same y.val x.val = false) :
    (∃ db', insertRow env now k s db = .ok db') ↔ Accepts db k x := by
  rw [insertRow_iff hlog]
  constructor
  · rintro ⟨hclash, hparents⟩
    refine ⟨fun y hy _ => (apart_congr hs y).1 (Layout.apart_of_clash?_eq_none hclash y hy), ?_⟩
    intro hfk fk hmem hc
    rw [← hs fk.column hc]
    exact Or.inl (hparents hfk fk hmem)
  · rintro ⟨hunique, hparents⟩
    refine ⟨clash?_eq_none hs fun y hy => hunique y hy (hfree y hy), ?_⟩
    intro hfk fk hmem
    by_cases hc : fk.column ∈ k.emitted
    · rw [hs fk.column hc]
      rcases hparents hfk fk hmem hc with hparent | ⟨y, hy, hsame, _⟩
      · exact hparent
      · rw [hfree y hy] at hsame
        cases hsame
    · -- a reference that is not logged is NULL by default
      obtain ⟨col, hcol, hnull⟩ := Option.map_eq_some_iff.1 (unlogged_reference k fk hmem hc)
      rw [hdefault fk.column hc, Layout.defaults_of_column? hcol, hnull]
      rfl

/-- A row that takes the place of an older one is let in exactly when the database has a
    place for it. -/
theorem updateRow_accepts (hlog : Loggable env db k s.val)
    (hs : ∀ c ∈ k.emitted, s.val c = x.val c) (hkept : ∀ c ∉ k.emitted, s.val c = old.val c)
    (hold : old ∈ (db.tables k).rows) (hsame : k.layout.same old.val x.val = true) :
    (∃ db', updateRow env now k old s.val db = .ok db') ↔ Accepts db k x := by
  have hown : k.layout.same old.val s.val = true := by
    rw [same_congr hs]
    exact hsame
  rw [updateRow_iff hlog hown]
  constructor
  · rintro ⟨hclash, hparents⟩
    refine ⟨fun y hy hne => (apart_congr hs y).1 (Layout.apart_of_clash?_eq_none hclash y ?_), ?_⟩
    · refine mem_erase_iff.2 ⟨hy, ?_⟩
      rw [Bool.eq_false_iff] at hne ⊢
      exact fun hyo => hne (agree_trans hyo hsame)
    · intro hfk fk hmem hc
      rw [← hs fk.column hc]
      by_cases heq : old.val fk.column = s.val fk.column
      · exact Or.inr ⟨old, hold, hsame, heq⟩
      · exact Or.inl (hparents hfk fk hmem heq)
  · rintro ⟨hunique, hparents⟩
    refine ⟨clash?_eq_none hs fun y hy => ?_, ?_⟩
    · obtain ⟨hy, hne⟩ := mem_erase_iff.1 hy
      refine hunique y hy ?_
      rw [Bool.eq_false_iff] at hne ⊢
      exact fun hyx => hne (agree_trans hyx (agree_symm hsame))
    · intro hfk fk hmem hne
      have hc : fk.column ∈ k.emitted := by
        by_contra hc
        exact hne (hkept fk.column hc).symm
      rw [hs fk.column hc] at hne ⊢
      rcases hparents hfk fk hmem hc with hparent | ⟨y, hy, hyx, heq⟩
      · exact hparent
      · -- the row of this key is the old one
        have hyo := eq_of_same hy hold (agree_trans hyx (agree_symm hsame))
        exact absurd (hyo ▸ heq) hne

/-- A row with the logged columns of one row and the other columns of another one. -/
theorem rowOk_mixed {r : Row} (hs : ∀ c ∈ k.emitted, r c = x.val c)
    (hkept : ∀ c ∉ k.emitted, r c = old.val c) : k.layout.RowOk r where
  typed c col hcol := by
    by_cases hc : c ∈ k.emitted
    · rw [hs c hc]
      exact x.property.typed c col hcol
    · rw [hkept c hc]
      exact old.property.typed c col hcol
  present c col hcol hnotNull := by
    by_cases hc : c ∈ k.emitted
    · rw [hs c hc]
      exact x.property.present c col hcol hnotNull
    · rw [hkept c hc]
      exact old.property.present c col hcol hnotNull
  outside c hcol := by
    have hc : c ∉ k.emitted := by
      intro hc
      have hsome := k.emitted_subset c hc
      rw [hcol] at hsome
      cases hsome
    rw [hkept c hc]
    exact old.property.outside c hcol

/-- What an upsert of the logged columns of `x` comes to: `result` is the insert of a row
    with these columns, or the update of the row of `x`'s key. -/
inductive Lands (env : Env) (now : String) (db : Db) (x : k.layout.StoredRow)
    (result : Except SqlError Db) : Prop
  | inserts (s : k.layout.StoredRow) (hs : ∀ c ∈ k.emitted, s.val c = x.val c)
      (hdefault : ∀ c ∉ k.emitted, s.val c = k.layout.defaults now c)
      (hfree : ∀ y ∈ (db.tables k).rows, k.layout.same y.val x.val = false)
      (h : result = insertRow env now k s db)
  | updates (old s : k.layout.StoredRow) (hs : ∀ c ∈ k.emitted, s.val c = x.val c)
      (hkept : ∀ c ∉ k.emitted, s.val c = old.val c) (hold : old ∈ (db.tables k).rows)
      (hsame : k.layout.same old.val x.val = true)
      (h : result = updateRow env now k old s.val db)

theorem loggable_congr (hs : ∀ c ∈ k.emitted, s.val c = x.val c)
    (hlog : Loggable env db k x.val) : Loggable env db k s.val := by
  rw [Loggable, triggerPayload_congr hs]
  exact hlog

theorem Lands.accepts {result : Except SqlError Db} (h : Lands env now db x result)
    (hlog : Loggable env db k x.val) : (∃ db', result = .ok db') ↔ Accepts db k x := by
  cases h with
  | inserts s hs hdefault hfree h =>
      rw [h]
      exact insertRow_accepts (loggable_congr hs hlog) hs hdefault hfree
  | updates old s hs hkept hold hsame h =>
      rw [h]
      exact updateRow_accepts (loggable_congr hs hlog) hs hkept hold hsame

theorem Lands.stores {result : Except SqlError Db} (h : Lands env now db x result)
    (hok : result = .ok db') : Stores db' k x.val := by
  cases h with
  | inserts s hs hdefault hfree h => exact ⟨s, mem_of_insertRow (h ▸ hok), hs⟩
  | updates old s hs hkept hold hsame h =>
      have hown : k.layout.same old.val s.val = true := by
        rw [same_congr hs]
        exact hsame
      exact ⟨s, mem_of_updateRow hold hown (h ▸ hok), hs⟩

/-- The old row with the logged columns of the candidate, those of the key or not. -/
theorem overlay_candidate {values : Assignments} (hvalues : Names k x.val values)
    (hplain : ∀ p ∈ values, p.1 ∈ k.emitted) (hs : ∀ c ∈ k.emitted, s.val c = x.val c)
    (hsame : k.layout.same old.val x.val = true) {named : Assignments}
    (hsub : ∀ p ∈ named, p ∈ values)
    (hrest : ∀ p ∈ values, p ∉ named → p.1 ∈ k.layout.primaryKey) :
    (∀ c ∈ k.emitted, overlay old.val (named.map fun p => (p.1, s.val p.1)) c = x.val c) ∧
      ∀ c ∉ k.emitted, overlay old.val (named.map fun p => (p.1, s.val p.1)) c = old.val c := by
  have hown : ∀ p ∈ named.map fun p => (p.1, s.val p.1), p.2 = s.val p.1 := by
    intro p hp
    obtain ⟨q, _, rfl⟩ := List.mem_map.1 hp
    rfl
  constructor
  · intro c hc
    by_cases hnamed : c ∈ (named.map fun p => (p.1, s.val p.1)).map Prod.fst
    · rw [overlay_of_named hown hnamed, hs c hc]
    · -- the column is in the key, where the old row agrees already
      obtain ⟨p, hp, rfl⟩ := List.mem_map.1 (hvalues.2 c hc)
      have hkey : p.1 ∈ k.layout.primaryKey := by
        refine hrest p hp fun hmem => hnamed ?_
        rw [List.map_map]
        exact List.mem_map.2 ⟨p, hmem, rfl⟩
      have hkeep : overlay old.val (named.map fun p => (p.1, s.val p.1)) p.1 = old.val p.1 := by
        refine overlay_eq_self fun q hq hname => absurd ?_ hnamed
        rw [← hname]
        exact List.mem_map_of_mem hq
      rw [hkeep, (same_iff old.property).1 hsame p.1 hkey]
  · intro c hc
    refine overlay_unlogged old.val (fun p hp => ?_) hc
    obtain ⟨q, hq, rfl⟩ := List.mem_map.1 hp
    exact hplain q (hsub q hq)

/-- The push path looks for the row of the primary key. A table without further columns
    has nothing to update. -/
theorem upsertOnKey_cases (hsend : Sendable k x.val) {values : Assignments}
    (hvalues : Names k x.val values) (hplain : ∀ p ∈ values, p.1 ∈ k.emitted) :
    Lands env now db x (upsertOnKey env now k values db) ∨
      (upsertOnKey env now k values db = .ok db ∧ (∀ c ∈ k.emitted, c ∈ k.layout.primaryKey) ∧
        ∃ old ∈ (db.tables k).rows, k.layout.same old.val x.val = true) := by
  obtain ⟨s, hcandidate, hs, hdefault⟩ := candidate_ok env now hsend hvalues hplain
  cases hfind : (db.tables k).rows.find? fun y => k.layout.same y.val s.val with
  | none =>
      have heq : upsertOnKey env now k values db = insertRow env now k s db := by
        rw [upsertOnKey, hcandidate]
        simp only [ok_bind, hfind]
      refine Or.inl (.inserts s hs hdefault (fun y hy => ?_) heq)
      rw [← same_congr hs, Bool.eq_false_iff]
      exact List.find?_eq_none.1 hfind y hy
  | some old =>
      have heq : upsertOnKey env now k values db =
          if (values.filter fun p => !k.layout.primaryKey.contains p.1).isEmpty then .ok db
          else updateRow env now k old (overlay old.val
            ((values.filter fun p => !k.layout.primaryKey.contains p.1).map
              fun p => (p.1, s.val p.1))) db := by
        rw [upsertOnKey, hcandidate]
        simp only [ok_bind, hfind]
      have hold := List.mem_of_find?_eq_some hfind
      have hfound := List.find?_some hfind
      have hsame : k.layout.same old.val x.val = true := (same_congr hs old).symm.trans hfound
      by_cases hempty : (values.filter fun p => !k.layout.primaryKey.contains p.1).isEmpty = true
      · refine Or.inr ⟨heq.trans (if_pos hempty), ?_, old, hold, hsame⟩
        intro c hc
        obtain ⟨p, hp, rfl⟩ := List.mem_map.1 (hvalues.2 c hc)
        have hall := List.filter_eq_nil_iff.1 (List.isEmpty_iff.1 hempty) p hp
        simpa using hall
      · have hrest : ∀ p ∈ values,
            p ∉ values.filter (fun p => !k.layout.primaryKey.contains p.1) →
              p.1 ∈ k.layout.primaryKey := by
          intro p hp hnot
          by_contra hkey
          exact hnot (List.mem_filter.2 ⟨hp, by simpa using hkey⟩)
        have hmixed := overlay_candidate hvalues hplain hs hsame
          (fun p hp => List.mem_of_mem_filter hp) hrest
        exact Or.inl (.updates old ⟨_, rowOk_mixed hmixed.1 hmixed.2⟩ hmixed.1 hmixed.2 hold hsame
          (heq.trans (if_neg hempty)))

/-- **ON THE PUSH PATH** the row is let in exactly when the database has a place for it,
    and is stored then. -/
theorem upsertOnKey_accepts (now : String) (hsend : Sendable k x.val) {values : Assignments}
    (hvalues : Names k x.val values) (hplain : ∀ p ∈ values, p.1 ∈ k.emitted)
    (hlog : Loggable env db k x.val) :
    ((∃ db', upsertOnKey env now k values db = .ok db') ↔ Accepts db k x) ∧
      ∀ db', upsertOnKey env now k values db = .ok db' → Stores db' k x.val := by
  rcases upsertOnKey_cases hsend hvalues hplain with hlands | ⟨hok, hkey, old, hold, hsame⟩
  · exact ⟨hlands.accepts hlog, fun db' h => hlands.stores h⟩
  · have hown : ∀ c ∈ k.emitted, old.val c = x.val c :=
      fun c hc => (same_iff old.property).1 hsame c (hkey c hc)
    constructor
    · refine iff_of_true ⟨db, hok⟩ ⟨?_, ?_⟩
      · intro y _ hne key hmem
        rw [Layout.keys, uniques_of_key_only k hkey] at hmem
        cases List.mem_singleton.1 hmem
        exact hne
      · exact fun _ fk _ hc => Or.inr ⟨old, hold, hsame, hown fk.column hc⟩
    · intro db' h
      rw [hok] at h
      cases Except.ok.inj h
      exact ⟨old, hold, hown⟩

/-- The pull path looks for a row of any key. Where the database has a place for the row,
    that is the row of the primary key. -/
theorem upsertInto_lands (env : Env) (now : String) (hsend : Sendable k x.val)
    {values : Assignments} (hvalues : Names k x.val values) (hplain : ∀ p ∈ values, p.1 ∈ k.emitted)
    (haccepts : Accepts db k x) :
    Lands env now db x (upsertInto env now k values db) := by
  obtain ⟨s, hcandidate, hs, hdefault⟩ := candidate_ok env now hsend hvalues hplain
  by_cases hfound : ∃ old ∈ (db.tables k).rows, k.layout.same old.val x.val = true
  · obtain ⟨old, hold, hsame⟩ := hfound
    have heq : upsertInto env now k values db =
        updateRow env now k old (overlay old.val (values.map fun p => (p.1, s.val p.1))) db := by
      rw [upsertInto, hcandidate]
      simp only [ok_bind, clash?_own hs hold hsame]
    have hmixed := overlay_candidate hvalues hplain hs hsame (fun p hp => hp)
      (fun p hp hnot => absurd hp hnot)
    exact .updates old ⟨_, rowOk_mixed hmixed.1 hmixed.2⟩ hmixed.1 hmixed.2 hold hsame heq
  · have hfree : ∀ y ∈ (db.tables k).rows, k.layout.same y.val x.val = false := by
      intro y hy
      rw [Bool.eq_false_iff]
      exact fun hsame => hfound ⟨y, hy, hsame⟩
    have hnone := clash?_eq_none hs fun y hy => haccepts.unique y hy (hfree y hy)
    have heq : upsertInto env now k values db = insertRow env now k s db := by
      rw [upsertInto, hcandidate]
      simp only [ok_bind, hnone]
    exact .inserts s hs hdefault hfree heq

end Admission

/-! ## One logged change on both paths -/

/-- The change is one that the audit triggers log for the row: an insert or an update. -/
structure LoggedFor (env : Env) (k : SyncableEntityKind) (x : Row) (change : SyncChange) :
    Prop where
  entityType : change.entityType = k.entityTypeName
  entityId : triggerEntityId env k x = some change.entityId
  operation : change.operation = "INSERT" ∨ change.operation = "UPDATE"
  payload : triggerPayload env k x = some change.payload

/-- The log holds neither the change itself nor one of its entity that is newer, or as new
    with another payload. -/
def News (env : Env) (log : ChangeLog) (change : SyncChange) : Prop :=
  alreadyLogged log change.operation change = false ∧ divergentPayload? env log change = none

/-- Both paths take the change, and leave the row's values in every emitted column. -/
def TakenByBoth (env : Env) (now : String) (options : ApplyOptions) (k : SyncableEntityKind)
    (x : Row) (change : SyncChange) (db : Db) : Prop :=
  (∃ response pushed, pushChanges env now [change] db = .ok (response, pushed) ∧
    Stores pushed k x) ∧
  ∃ outcome applied, applyChanges env now [change] options db = .ok (outcome, applied) ∧
    Stores applied k x

section Change

variable {env : Env} {now : String} {k : SyncableEntityKind} {db db' : Db}
  {x : k.layout.StoredRow} {change : SyncChange}

theorem LoggedFor.uppercase (h : LoggedFor env k x.val change) :
    toAsciiUppercase change.operation = change.operation := by
  rcases h.operation with hop | hop
  · rw [hop]
    decide
  · rw [hop]
    decide

theorem LoggedFor.table (h : LoggedFor env k x.val change) :
    SyncableEntityKind.entityTypeToTable change.entityType = some k := by
  rw [h.entityType]
  exact SyncableEntityKind.entityTypeToTable_name k

theorem emitted_ne_nil (k : SyncableEntityKind) : k.emitted ≠ [] := by
  intro hnil
  obtain ⟨c, hc⟩ := List.exists_mem_of_ne_nil _ (primaryKey_ne_nil k)
  have hmem := (k.primaryKey_emitted c hc).1
  rw [hnil] at hmem
  cases hmem

theorem boundValues_ne_nil {members : List (String × Json)}
    (hnames : Names k x.val (boundValues k x.val members)) :
    (boundValues k x.val members).isEmpty = false := by
  rw [List.isEmpty_eq_false_iff]
  intro hnil
  obtain ⟨c, hc⟩ := List.exists_mem_of_ne_nil _ (emitted_ne_nil k)
  have hmem := hnames.2 c hc
  rw [hnil] at hmem
  cases hmem

/-- A push of a payload upserts the bound values, unless an absent id is in hex. -/
theorem upsertOne_eq_ok_iff (hulid : env.ulidParse "" = none) (hsend : Sendable k x.val)
    (hlogged : LoggedFor env k x.val change) {members : List (String × Json)}
    (hparse : env.json.parse change.payload = .ok (.obj members))
    (hperm : members.Perm (k.auditTrigger.payload.map (member x.val))) :
    upsertOne env now k change db = .ok db' ↔
      HexedPresent k x.val ∧
        upsertOnKey env now k (boundValues k x.val members) db = .ok db' := by
  obtain ⟨resolved, hresolved, hget⟩ := resolvePrimaryKeys_payload env hperm change
  have hobject : payloadObject env change = .ok (.obj members) := by
    rw [payloadObject, hparse]
  have hmembers : (fun c => ((Json.obj members).get? c).or (resolved.lookup c)) =
      fun c => (Json.obj members).get? c := funext hget
  have hne := boundValues_ne_nil (boundValues_emitted hperm).1
  constructor
  · intro h
    obtain ⟨object, hobject', h⟩ := bind_eq_ok.1 h
    rw [hobject] at hobject'
    cases Except.ok.inj hobject'
    obtain ⟨resolved', hresolved', h⟩ := bind_eq_ok.1 h
    rw [hresolved] at hresolved'
    cases Except.ok.inj hresolved'
    obtain ⟨values, hbind, h⟩ := bind_eq_ok.1 h
    rw [hmembers] at hbind
    have hpresent := present_of_bindColumns hulid hperm hbind
    rw [bindColumns_payload hsend hlogged.payload hperm hpresent] at hbind
    cases Except.ok.inj hbind
    rw [hne] at h
    exact ⟨hpresent, statement_eq_ok h⟩
  · rintro ⟨hpresent, h⟩
    have hbind := bindColumns_payload hsend hlogged.payload hperm hpresent change.entityType
    rw [← hmembers] at hbind
    refine bind_eq_ok.2 ⟨_, hobject, bind_eq_ok.2 ⟨_, hresolved, bind_eq_ok.2 ⟨_, hbind, ?_⟩⟩⟩
    rw [hne, h]
    rfl

/-- **THE PUSH PATH** writes the change exactly when no absent id is in hex and the
    database has a place for the row. -/
theorem applyOne_iff (now : String) (hulid : env.ulidParse "" = none) (hsend : Sendable k x.val)
    (hlogged : LoggedFor env k x.val change) (hlog : Loggable env db k x.val) :
    ((∃ db', applyOne env now k change db = .ok db') ↔
        HexedPresent k x.val ∧ Accepts db k x) ∧
      ∀ db', applyOne env now k change db = .ok db' → Stores db' k x.val := by
  obtain ⟨members, hparse, hperm⟩ := payload_members hlogged.payload
  obtain ⟨hnames, hplain⟩ := boundValues_emitted hperm
  have hone : applyOne env now k change db = upsertOne env now k change db := by
    rw [applyOne, hlogged.uppercase]
    rcases hlogged.operation with hop | hop
    · rw [hop]
      rfl
    · rw [hop]
      rfl
  have hwrite : ∀ {db'}, upsertOne env now k change db = .ok db' ↔ _ ∧ _ :=
    upsertOne_eq_ok_iff hulid hsend hlogged hparse hperm
  obtain ⟨haccepts, hstores⟩ := upsertOnKey_accepts now hsend hnames hplain hlog
  rw [hone]
  constructor
  · rw [← haccepts]
    constructor
    · rintro ⟨db', h⟩
      exact ⟨(hwrite.1 h).1, db', (hwrite.1 h).2⟩
    · rintro ⟨hpresent, db', h⟩
      exact ⟨db', hwrite.2 ⟨hpresent, h⟩⟩
  · intro db' h
    exact hstores db' (hwrite.1 h).2

/-- **THE PULL PATH** writes the change when the database has a place for the row. -/
theorem writeEntity_stores (now : String) {options : ApplyOptions}
    (hoptions : k = .digitalInventory → options.inventoryPaths = []) (hsend : Sendable k x.val)
    (hlogged : LoggedFor env k x.val change) (haccepts : Accepts db k x) :
    ∃ db', writeEntity env now options k change db = .ok db' ∧ Stores db' k x.val := by
  obtain ⟨members, hparse, hperm⟩ := bound_payload hsend hlogged.payload
  have hplain : ∀ p ∈ members.map fun m => (m.1, sqlValue env m.1 m.2), p.1 ∈ k.emitted := by
    intro p hp
    obtain ⟨c, hc, rfl⟩ := List.mem_map.1 (hperm.mem_iff.1 hp)
    exact hc
  have hemitted : ∀ m ∈ members, m.1 ∈ k.emitted :=
    fun m hm => hplain (m.1, sqlValue env m.1 m.2) (List.mem_map.2 ⟨m, hm, rfl⟩)
  have hne : members.isEmpty = false := by
    rw [List.isEmpty_eq_false_iff]
    rintro rfl
    exact emitted_ne_nil k (List.map_eq_nil_iff.1 (List.nil_perm.1 hperm))
  have hdelete : change.operation ≠ "DELETE" := by
    rcases hlogged.operation with hop | hop
    · rw [hop]
      decide
    · rw [hop]
      decide
  -- without paths given, an inventory keeps the path of its payload
  have hpaths : (if change.entityType = "digital_inventory" then
      applyInventoryPaths (.obj members) change options else .obj members) = .obj members := by
    split
    · next htype =>
        have hk : k = .digitalInventory := by
          have htable := hlogged.table
          rw [htype] at htable
          exact (Option.some.inj htable).symm
        obtain rfl : options = {} := by
          cases options
          exact congrArg ApplyOptions.mk (hoptions hk)
        exact applyInventoryPaths_nil _ change
    · rfl
  have hlands := upsertInto_lands env now hsend (names_of_perm hperm) hplain haccepts
  have hlog : Loggable env db k x.val :=
    Or.inr (Option.isSome_iff_exists.2 ⟨change.payload, hlogged.payload⟩)
  obtain ⟨db', hupsert⟩ := (hlands.accepts hlog).2 haccepts
  refine ⟨db', ?_, hlands.stores hupsert⟩
  rw [writeEntity, if_neg hdelete, hparse]
  simp only [hpaths, upsertPayload, find?_unsafe hemitted, hne, Bool.false_eq_true, if_false,
    hupsert]
  rfl

/-- A change that the log does not hold is recorded, also when rows of this device were
    added or rows were taken out. -/
theorem insertChangeRow_news (now : String) (db : Db) {log : ChangeLog} {operation : String}
    (hnews : alreadyLogged log operation change = false)
    (hrows : ∀ row ∈ db.log.rows, row ∈ log.rows ∨ row.deviceId = some "local") :
    ∃ db', insertChangeRow now operation change db = .ok db' := by
  have htwin : ∀ row ∈ db.log.rows, row.remoteTwin
      { changeEntry now operation change with id := db.log.seq + 1 } = false := by
    intro row hrow
    rcases hrows row hrow with hmem | hlocal
    · rw [alreadyLogged, List.any_eq_false] at hnews
      have hne := hnews row hmem
      rw [Bool.eq_false_iff]
      intro htwin
      simp only [ChangeRow.remoteTwin, changeEntry, Bool.and_eq_true] at htwin
      simp only [Bool.and_eq_true] at hne
      exact hne ⟨⟨⟨⟨htwin.1.1.1.1.2, htwin.1.1.1.2⟩, htwin.1.1.2⟩, htwin.1.2⟩, htwin.2⟩
    · simp [ChangeRow.remoteTwin, hlocal]
  have hinsert : db.log.insert (changeEntry now operation change) (version_bounds change) =
      .ok (db.log.append (changeEntry now operation change) (version_bounds change) htwin) :=
    dif_pos htwin
  rw [insertChangeRow, hinsert]
  exact ⟨_, rfl⟩

theorem tables_of_insertChangeRow {operation : String}
    (h : insertChangeRow now operation change db = .ok db') : db'.tables = db.tables := by
  obtain ⟨log, rfl, _⟩ := insertChangeRow_eq_ok h
  rfl

theorem Stores.congr {y : Row} (h : Stores db k y) (htables : db'.tables = db.tables) :
    Stores db' k y := by
  rw [Stores, htables]
  exact h

/-- What a push does not take for a conflict, a pull does not either. -/
theorem News.newer (h : News env db.log change) : newerPayload? env db.log change = none := by
  obtain ⟨_, hdivergent⟩ := h
  rw [newerPayload?, latestChange]
  rw [divergentPayload?] at hdivergent
  cases hlatest : latestRow env db.log change.entityType change.entityId with
  | none => rfl
  | some row =>
      rw [hlatest] at hdivergent
      cases hversion : asI64? row.version with
      | none => simp [hversion]
      | some v =>
          simp only [hversion, Option.getD_some] at hdivergent
          split at hdivergent
          · cases hdivergent
          · next hnot =>
              have hle : ¬ v > change.version := fun hlt => hnot (Or.inl hlt)
              simp [hversion, if_neg hle]

/-- A push of one change that is news writes it and records it. -/
theorem pushChanges_iff (now : String) (hulid : env.ulidParse "" = none)
    (hsend : Sendable k x.val) (hlogged : LoggedFor env k x.val change)
    (hnews : News env db.log change) :
    (∃ response pushed, pushChanges env now [change] db = .ok (response, pushed) ∧
      Stores pushed k x.val) ↔ HexedPresent k x.val ∧ Accepts db k x := by
  have hquiet : Suppressed { db with syncApply := some "1" } := rfl
  obtain ⟨hwrite, hstores⟩ := applyOne_iff now hulid hsend hlogged
    (show Loggable env { db with syncApply := some "1" } k x.val from Or.inl hquiet)
  have haccepts : Accepts { db with syncApply := some "1" } k x ↔ Accepts db k x :=
    ⟨fun h => ⟨h.unique, h.parents⟩, fun h => ⟨h.unique, h.parents⟩⟩
  have hunlogged : alreadyLogged db.log (toAsciiUppercase change.operation) change = false := by
    rw [hlogged.uppercase]
    exact hnews.1
  rw [haccepts] at hwrite
  constructor
  · rintro ⟨response, pushed, h, _⟩
    obtain ⟨⟨conflicts, last⟩, hloop, _⟩ := bind_eq_ok.1 h
    obtain ⟨conflict, db1, hchange, _⟩ := pushLoop_cons.1 hloop
    cases pushChange_cases hchange with
    | known hk hseen => exact absurd (hunlogged.symm.trans hseen) Bool.false_ne_true
    | conflict hk hseen hdivergent => cases hnews.2.symm.trans hdivergent
    | applied hk hseen hdivergent happly hrecord =>
        cases Option.some.inj (hlogged.table.symm.trans hk)
        exact hwrite.1 ⟨_, happly⟩
  · intro h
    obtain ⟨db1, happly⟩ := hwrite.2 h
    have hlog : db1.log = db.log := (echoed_applyOne happly).quiet hquiet
    obtain ⟨db2, hrecord⟩ := insertChangeRow_news now db1 hunlogged (fun row hrow => by
      rw [hlog] at hrow
      exact Or.inl hrow)
    have hchange : pushChange env now change { db with syncApply := some "1" } =
        .ok (none, db2) := by
      rw [pushChange, hlogged.table]
      simp only [hunlogged, hnews.2, Bool.false_eq_true, if_false]
      exact bind_eq_ok.2 ⟨db1, happly, bind_eq_ok.2 ⟨db2, hrecord, rfl⟩⟩
    have hloop : pushLoop env now [change] ([], { db with syncApply := some "1" }) =
        .ok ([] ++ none.toList, db2) := pushLoop_cons.2 ⟨none, db2, hchange, rfl⟩
    have htables := tables_of_insertChangeRow hrecord
    exact ⟨_, { db2 with syncApply := none }, bind_eq_ok.2 ⟨_, hloop, rfl⟩,
      (hstores db1 happly).congr htables⟩

/-- A pull of one change that is news writes it and records it. -/
theorem applyChanges_stores (now : String) {options : ApplyOptions}
    (hoptions : k = .digitalInventory → options.inventoryPaths = []) (hsend : Sendable k x.val)
    (hlogged : LoggedFor env k x.val change) (hnews : News env db.log change)
    (haccepts : Accepts db k x) :
    ∃ outcome applied, applyChanges env now [change] options db = .ok (outcome, applied) ∧
      Stores applied k x.val := by
  obtain ⟨db1, hwrite, hstores⟩ := writeEntity_stores now hoptions hsend hlogged haccepts
  obtain ⟨new, hext⟩ := (echoed_writeEntity hwrite).log.extends
  obtain ⟨db2, hrecord⟩ := insertChangeRow_news now
    (discardEchoes change (latestVersionIn db.log) db1) hnews.1 (fun row hrow => by
      have hmem := List.mem_of_mem_filter hrow
      rw [hext.rows] at hmem
      exact (List.mem_append.1 hmem).imp id (hext.device row))
  have hoffer : change.entityType ≠ "file_offer" := by
    intro hoffer
    have htable := hlogged.table
    rw [hoffer, entityTypeToTable_file_offer] at htable
    cases htable
  have hoperation : isOperation change.operation = true := by
    rcases hlogged.operation with hop | hop
    · rw [hop]
      rfl
    · rw [hop]
      rfl
  have hchange : applyChange env now options change db = .ok (.applied, db2) := by
    rw [applyChange, if_neg hoffer, hlogged.table]
    simp only [hnews.newer, hoperation, if_true]
    exact bind_eq_ok.2 ⟨db1, hwrite, bind_eq_ok.2 ⟨db2, hrecord, rfl⟩⟩
  have htables := tables_of_insertChangeRow hrecord
  exact ⟨_, db2, applyOrdered_cons.2 ⟨.applied, db2, hchange, rfl⟩, hstores.congr htables⟩

end Change

/-- The row of the given values. -/
def rowOf (k : SyncableEntityKind) (values : Assignments)
    (h : k.layout.fault? Affinity.rigid (overlay (fun _ => .null) values) = none) :
    k.layout.StoredRow :=
  ⟨k.layout.stored Affinity.rigid (overlay (fun _ => .null) values), Layout.rowOk_stored h⟩

/-- The change that a peer logs for the insert of a row. -/
def insertOf (k : SyncableEntityKind) (x : Row) : SyncChange :=
  { id := 1, entityType := k.entityTypeName
    entityId := (triggerEntityId Env.reference k x).getD "", operation := "INSERT", version := 5
    payload := (triggerPayload Env.reference k x).getD "", changedAt := "2026"
    deviceId := "laptop", version_i64 := five_i64 }

theorem sendable_of_sixteen {k : SyncableEntityKind} {x : k.layout.StoredRow}
    (h : ∀ c ∈ k.emitted, SyncConvergence.sixteen (x.val c) = true) : Sendable k x.val := by
  refine ⟨x.property, fun c hc b hb => ?_⟩
  have hsixteen := h c hc
  rw [hb] at hsixteen
  exact of_decide_eq_true hsixteen

theorem loggedFor_insertOf {k : SyncableEntityKind} {x : Row}
    (hi : (triggerEntityId Env.reference k x).isSome)
    (hpayload : (triggerPayload Env.reference k x).isSome) :
    LoggedFor Env.reference k x (insertOf k x) := by
  obtain ⟨i, hi⟩ := Option.isSome_iff_exists.1 hi
  obtain ⟨payload, hpayload⟩ := Option.isSome_iff_exists.1 hpayload
  refine ⟨rfl, ?_, Or.inl rfl, ?_⟩
  · rw [insertOf, hi]
    rfl
  · rw [insertOf, hpayload]
    rfl

def shelfList : SyncableEntityKind.readingList.layout.StoredRow :=
  rowOf .readingList [("id", .blob (List.replicate 16 7)), ("name", .text "A"),
    ("created_at", .text "2026")] (by decide)

/-- An edition without a format and a language. -/
def plainEdition : SyncableEntityKind.edition.layout.StoredRow :=
  rowOf .edition [("id", .blob (List.replicate 16 2)), ("work_id", workId),
    ("created_at", .text "2026")] (by decide)

/-- The receiver holds the work. -/
def workShelf : Db := after (stocking.take 1)

theorem accepts_plainEdition : Accepts workShelf .edition plainEdition where
  unique y hy := by
    have hnone : (workShelf.tables .edition).rows = [] := by decide
    rw [hnone] at hy
    cases hy
  parents _ fk hfk hc := by
    have hparents : ∀ fk ∈ SyncableEntityKind.edition.foreignKeys,
        fk.column ∈ SyncableEntityKind.edition.emitted →
          workShelf.hasParent fk (plainEdition.val fk.column) = true := by
      decide
    exact Or.inl (hparents fk hfk hc)

end SyncPayloads

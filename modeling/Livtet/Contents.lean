import Livtet.Steps
import Livtet.Wire
import Mathlib.Data.List.Pairwise

/-! # What a statement does to the entities of a device

    The contents of a device, entity by entity: the emitted values of the row a
    trigger would name so. Every statement of a local edit or of an applied change
    sets one entity and leaves the rest, and what it logs says what it did. -/

namespace SyncContents

open SqlRows JsonText SyncSchema SyncStore SyncEngine SyncSteps SyncWire Outcomes

/-! ## Contents -/

/-- The emitted values of the row with this name. -/
def contentOf (env : Env) (k : SyncableEntityKind) (t : Table k.layout) (i : String) :
    Option (List Value) :=
  (t.rows.find? fun x => decide (triggerEntityId env k x.val = some i)).map fun x =>
    emittedValues k x.val

/-- What an entity, given by its type and its id, holds. -/
def content (env : Env) (db : Db) (e : String × String) : Option (List Value) :=
  match SyncableEntityKind.entityTypeToTable e.1 with
  | some k => contentOf env k (db.tables k) e.2
  | none => none

/-- Every emitted id has sixteen bytes. -/
def Clean (db : Db) : Prop := ∀ k, ∀ x ∈ (db.tables k).rows, Sendable k x.val

section Tables

variable {env : Env} {k : SyncableEntityKind} {t : Table k.layout} {i j : String}

theorem eq_of_same {x y : k.layout.StoredRow} (hx : x ∈ t.rows) (hy : y ∈ t.rows)
    (hsame : k.layout.same x.val y.val = true) : x = y := by
  by_contra hne
  have : Std.Symm k.layout.Apart := ⟨fun _ _ h => Layout.apart_symm h⟩
  have hapart := t.apart.forall hx hy hne
  have hno := hapart k.layout.primaryKey List.mem_cons_self
  rw [Layout.same] at hsame
  rw [hsame] at hno
  cases hno

/-- Rows of one name are one row. -/
theorem eq_of_entityId (hclean : ∀ x ∈ t.rows, Sendable k x.val) {x y : k.layout.StoredRow}
    (hx : x ∈ t.rows) (hy : y ∈ t.rows) (hi : triggerEntityId env k x.val = some i)
    (hi' : triggerEntityId env k y.val = some i) : x = y :=
  eq_of_same hx hy ((same_iff x.property).2
    (key_of_entityId (hclean x hx) (hclean y hy) hi hi'))

theorem contentOf_eq_some_iff (hclean : ∀ x ∈ t.rows, Sendable k x.val) {v : List Value} :
    contentOf env k t i = some v ↔
      ∃ x ∈ t.rows, triggerEntityId env k x.val = some i ∧ emittedValues k x.val = v := by
  constructor
  · intro h
    obtain ⟨x, hfind, hv⟩ := Option.map_eq_some_iff.1 h
    have hi := List.find?_some hfind
    exact ⟨x, List.mem_of_find?_eq_some hfind, of_decide_eq_true hi, hv⟩
  · rintro ⟨x, hx, hi, hv⟩
    have hsome : (t.rows.find? fun x => decide (triggerEntityId env k x.val = some i)).isSome :=
      List.find?_isSome.2 ⟨x, hx, decide_eq_true hi⟩
    obtain ⟨y, hfind⟩ := Option.isSome_iff_exists.1 hsome
    have hy := List.find?_some hfind
    rw [contentOf, hfind, Option.map_some, eq_of_entityId hclean (List.mem_of_find?_eq_some hfind)
      hx (of_decide_eq_true hy) hi, hv]

/-- Tables with the same rows of a name hold the same for it. -/
theorem contentOf_congr {t' : Table k.layout} (hclean : ∀ x ∈ t.rows, Sendable k x.val)
    (hclean' : ∀ x ∈ t'.rows, Sendable k x.val)
    (h : ∀ x : k.layout.StoredRow, triggerEntityId env k x.val = some j →
      (x ∈ t'.rows ↔ x ∈ t.rows)) :
    contentOf env k t' j = contentOf env k t j := by
  refine Option.ext fun v => ?_
  rw [contentOf_eq_some_iff hclean, contentOf_eq_some_iff hclean']
  constructor
  · rintro ⟨x, hx, hi, hv⟩
    exact ⟨x, (h x hi).1 hx, hi, hv⟩
  · rintro ⟨x, hx, hi, hv⟩
    exact ⟨x, (h x hi).2 hx, hi, hv⟩

/-- One entity of a table is set, the others stay. -/
structure SetsIn (env : Env) (k : SyncableEntityKind) (t t' : Table k.layout) (i : String)
    (v : Option (List Value)) : Prop where
  here : contentOf env k t' i = v
  others : ∀ j, j ≠ i → contentOf env k t' j = contentOf env k t j

theorem setsIn_append {r : k.layout.StoredRow} {h : k.layout.clash? t.rows r = none}
    (hclean : ∀ x ∈ (t.append r h).rows, Sendable k x.val)
    (hi : triggerEntityId env k r.val = some i) :
    SetsIn env k t (t.append r h) i (some (emittedValues k r.val)) where
  here := (contentOf_eq_some_iff hclean).2
    ⟨r, List.mem_append_right _ List.mem_cons_self, hi, rfl⟩
  others j hj := by
    refine contentOf_congr (fun x hx => hclean x (List.mem_append_left _ hx)) hclean ?_
    intro x hx
    refine ⟨fun hmem => ?_, fun hmem => List.mem_append_left _ hmem⟩
    rcases List.mem_append.1 hmem with hmem | hmem
    · exact hmem
    · cases List.mem_singleton.1 hmem
      rw [hi] at hx
      exact absurd (Option.some.inj hx).symm hj

theorem setsIn_erase {old : k.layout.StoredRow} (hclean : ∀ x ∈ t.rows, Sendable k x.val)
    (hold : old ∈ t.rows) (hi : triggerEntityId env k old.val = some i) :
    SetsIn env k t (t.erase old) i none := by
  have hclean' : ∀ x ∈ (t.erase old).rows, Sendable k x.val :=
    fun x hx => hclean x (List.mem_of_mem_filter hx)
  constructor
  · refine Option.eq_none_iff_forall_ne_some.2 fun v hv => ?_
    obtain ⟨x, hx, hix, _⟩ := (contentOf_eq_some_iff hclean').1 hv
    obtain ⟨hmem, hnot⟩ := List.mem_filter.1 hx
    rw [eq_of_entityId hclean hmem hold hix hi, (same_iff old.property).2 fun _ _ => rfl] at hnot
    cases hnot
  · intro j hj
    refine contentOf_congr hclean hclean' ?_
    intro x hx
    refine ⟨fun hmem => List.mem_of_mem_filter hmem, fun hmem => List.mem_filter.2 ⟨hmem, ?_⟩⟩
    -- a row of another name has another key
    rw [Bool.not_eq_true', Bool.eq_false_iff]
    intro hsame
    rw [triggerEntityId_congr ((same_iff x.property).1 hsame), hi] at hx
    exact hj (Option.some.inj hx).symm

theorem setsIn_replace {old r : k.layout.StoredRow}
    {h : k.layout.clash? (t.erase old).rows r = none}
    (hclean : ∀ x ∈ t.rows, Sendable k x.val)
    (hclean' : ∀ x ∈ (t.replace old r h).rows, Sendable k x.val) (hold : old ∈ t.rows)
    (hi : triggerEntityId env k old.val = some i) (hr : triggerEntityId env k r.val = some i) :
    SetsIn env k t (t.replace old r h) i (some (emittedValues k r.val)) := by
  have hsame : k.layout.same old.val old.val = true := (same_iff old.property).2 fun _ _ => rfl
  constructor
  · refine (contentOf_eq_some_iff hclean').2 ⟨r, List.mem_map.2 ⟨old, hold, ?_⟩, hr, rfl⟩
    rw [if_pos hsame]
  · intro j hj
    refine contentOf_congr hclean hclean' ?_
    intro x hx
    have hother : k.layout.same x.val old.val = false := by
      rw [Bool.eq_false_iff]
      intro hsame
      rw [triggerEntityId_congr ((same_iff x.property).1 hsame), hi] at hx
      exact hj (Option.some.inj hx).symm
    constructor
    · intro hmem
      obtain ⟨y, hy, hyx⟩ := List.mem_map.1 hmem
      split at hyx
      · subst hyx
        rw [hr] at hx
        exact absurd (Option.some.inj hx).symm hj
      · exact hyx ▸ hy
    · intro hmem
      refine List.mem_map.2 ⟨x, hmem, ?_⟩
      rw [hother]
      rfl

end Tables

/-! ## Statements -/

/-- A device that does not enforce foreign keys and whose triggers write. -/
structure Auditing (db : Db) : Prop where
  foreignKeys : db.foreignKeys = false
  triggers : db.syncApply.getD "0" ≠ "1"

theorem Auditing.of_echoed {db db' : Db} (h : Auditing db) (he : Echoed db db') : Auditing db' where
  foreignKeys := he.foreignKeys.trans h.foreignKeys
  triggers := by
    rw [he.syncApply]
    exact h.triggers

/-- The trigger row of `x` is added to the log, and its table becomes `t`. -/
structure Audited (env : Env) (now : String) (k : SyncableEntityKind) (op : Operation) (x : Row)
    (i payload : String) (t : Table k.layout) (db db' : Db) : Prop where
  name : triggerEntityId env k x = some i
  written : triggerPayload env k x = some payload
  tables : db'.tables = (db.setTable k t).tables
  log : db'.log = db.log.logLocal now k.entityTypeName i op.text payload

section Statements

variable {env : Env} {now : String} {k : SyncableEntityKind} {db db' : Db}

theorem fireTrigger_eq_ok {op : Operation} {x : Row}
    (h : fireTrigger env now k op x db = .ok db') (hloud : db.syncApply.getD "0" ≠ "1") :
    (op = .update ∧ k.auditTrigger.onUpdate = false ∧ db' = db) ∨
      ∃ i payload, triggerEntityId env k x = some i ∧ triggerPayload env k x = some payload ∧
        db' = { db with log := db.log.logLocal now k.entityTypeName i op.text payload } := by
  rw [fireTrigger, if_neg hloud] at h
  split at h
  · next hquiet => exact Or.inl ⟨hquiet.1, hquiet.2, (Except.ok.inj h).symm⟩
  · split at h
    · next i payload hi hpayload => exact Or.inr ⟨i, payload, hi, hpayload, (Except.ok.inj h).symm⟩
    · cases h

theorem auditing_setTable (hdb : Auditing db) (t : Table k.layout) : Auditing (db.setTable k t) :=
  hdb.of_echoed (Echoed.setTable db t)

/-- An insert adds its row and logs it. -/
theorem insertRow_eq_ok (hloud : db.syncApply.getD "0" ≠ "1") {r : k.layout.StoredRow}
    (h : insertRow env now k r db = .ok db') :
    ∃ hclash i payload,
      Audited env now k .insert r.val i payload ((db.tables k).append r hclash) db db' := by
  obtain ⟨t, ht, hfire, _⟩ := insertRow_eq_ok_iff.1 h
  obtain ⟨hclash, rfl⟩ := Table.insert_eq_ok_iff.1 ht
  rcases fireTrigger_eq_ok hfire hloud with ⟨hop, _⟩ | ⟨i, payload, hi, hpayload, rfl⟩
  · cases hop
  · exact ⟨hclash, i, payload, hi, hpayload, rfl, rfl⟩

/-- An update stores its row in the place of the old one, and logs it where the table
    has an update trigger. -/
theorem updateRow_eq_ok (hloud : db.syncApply.getD "0" ≠ "1") {old : k.layout.StoredRow} {new : Row}
    (h : updateRow env now k old new db = .ok db') :
    ∃ (r : k.layout.StoredRow) (hclash : k.layout.clash? ((db.tables k).erase old).rows r = none),
      r.val = k.layout.stored env.affinity new ∧
      ((k.auditTrigger.onUpdate = false ∧
          db' = db.setTable k ((db.tables k).replace old r hclash)) ∨
        ∃ i payload,
          Audited env now k .update r.val i payload ((db.tables k).replace old r hclash) db db') := by
  obtain ⟨s, t, ht, hfire, _⟩ := updateRow_eq_ok_iff.1 h
  obtain ⟨hstore, hclash, rfl⟩ := Table.update_eq_ok_iff.1 ht
  refine ⟨s, hclash, (Layout.store_eq_ok hstore).2, ?_⟩
  rcases fireTrigger_eq_ok hfire hloud with ⟨_, hquiet, rfl⟩ | ⟨i, payload, hi, hpayload, rfl⟩
  · exact Or.inl ⟨hquiet, rfl⟩
  · exact Or.inr ⟨i, payload, hi, hpayload, rfl, rfl⟩

theorem removeRow_eq_ok (hdb : Auditing db) {old : k.layout.StoredRow} {depth : Nat}
    (h : removeRow env now (depth + 1) true k old db = .ok db') :
    ∃ i payload, Audited env now k .delete old.val i payload ((db.tables k).erase old) db db' := by
  obtain ⟨db1, hactions, hfire⟩ := removeRow_eq_ok_iff.1 h
  have hdb1 : db1 = db.setTable k ((db.tables k).erase old) := by
    have hoff := (auditing_setTable hdb ((db.tables k).erase old)).foreignKeys
    rw [deleteActions, hoff] at hactions
    exact (Except.ok.inj hactions).symm
  subst hdb1
  rcases fireTrigger_eq_ok hfire hdb.triggers with ⟨hop, _⟩ |
    ⟨i, payload, hi, hpayload, rfl⟩
  · cases hop
  · exact ⟨i, payload, hi, hpayload, rfl, rfl⟩

/-- At most one row has a given key. -/
theorem filter_same_cases (t : Table k.layout) (x : Row) :
    (t.rows.filter fun r => k.layout.same r.val x) = [] ∨
      ∃ old ∈ t.rows, k.layout.same old.val x = true ∧
        (t.rows.filter fun r => k.layout.same r.val x) = [old] := by
  have hapart := t.apart.filter fun r => k.layout.same r.val x
  have hsame : ∀ r ∈ t.rows.filter (fun r => k.layout.same r.val x),
      r ∈ t.rows ∧ k.layout.same r.val x = true := fun r hr => List.mem_filter.1 hr
  cases hlist : t.rows.filter fun r => k.layout.same r.val x with
  | nil => exact Or.inl rfl
  | cons a rest =>
      rw [hlist] at hapart hsame
      obtain ⟨ha, hax⟩ := hsame a List.mem_cons_self
      cases rest with
      | nil => exact Or.inr ⟨a, ha, hax, rfl⟩
      | cons b rest =>
          -- two rows of one key are not apart
          have hbx := (hsame b (List.mem_cons_of_mem _ List.mem_cons_self)).2
          have hab := agree_trans hax (agree_symm hbx)
          have hno := (List.pairwise_cons.1 hapart).1 b List.mem_cons_self
            k.layout.primaryKey List.mem_cons_self
          rw [hab] at hno
          cases hno

/-- Deleting by key removes the one row of that key, if there is one. -/
theorem deleteFrom_same_eq_ok (hdb : Auditing db) {x : Row}
    (h : deleteFrom env now k (fun r => k.layout.same r x) db = .ok db') :
    ((∀ r ∈ (db.tables k).rows, k.layout.same r.val x = false) ∧ db' = db) ∨
      ∃ old ∈ (db.tables k).rows, k.layout.same old.val x = true ∧
        ∃ i payload, Audited env now k .delete old.val i payload ((db.tables k).erase old) db db' := by
  rw [deleteFrom] at h
  rcases filter_same_cases (db.tables k) x with hnone | ⟨old, hold, hsame, hone⟩
  · rw [hnone] at h
    refine Or.inl ⟨?_, (Except.ok.inj h).symm⟩
    intro r hr
    have := List.filter_eq_nil_iff.1 hnone r hr
    simpa using this
  · rw [hone, foldlM_cons_eq_ok] at h
    obtain ⟨mid, hremove, hrest⟩ := h
    cases Except.ok.inj hrest
    exact Or.inr ⟨old, hold, hsame, removeRow_eq_ok hdb hremove⟩

end Statements

/-! ## What a log row says -/

/-- The values a payload binds to the emitted columns. -/
def payloadValues (env : Env) (k : SyncableEntityKind) (payload : String) : Option (List Value) :=
  match env.json.parse payload with
  | .ok (.obj members) => some (emittedValues k
      (overlay (fun _ => .null) (members.map fun m => (m.1, sqlValue env m.1 m.2))))
  | _ => none

/-- What an operation leaves its entity with. -/
def bodyOf (env : Env) (entityType operation payload : String) : Option (List Value) :=
  if operation = "DELETE" then none
  else (SyncableEntityKind.entityTypeToTable entityType).bind fun k => payloadValues env k payload

/-- The texts are those of a trigger, on a row of some table. -/
def Shaped (env : Env) (entityType entityId operation payload : String) : Prop :=
  ∃ k x, Sendable k x ∧ entityType = k.entityTypeName ∧ triggerEntityId env k x = some entityId ∧
    triggerPayload env k x = some payload ∧ isOperation operation = true

section Says

variable {env : Env} {now : String} {k : SyncableEntityKind} {x : Row} {db db' : Db}

theorem payloadValues_trigger (h : Sendable k x) {payload : String}
    (hpayload : triggerPayload env k x = some payload) :
    payloadValues env k payload = some (emittedValues k x) := by
  obtain ⟨members, hparse, hperm⟩ := bound_payload h hpayload
  rw [payloadValues, hparse]
  refine congrArg some (List.map_congr_left fun c hc => overlay_of_named ?_ ?_)
  · intro p hp
    obtain ⟨c, _, rfl⟩ := List.mem_map.1 (hperm.mem_iff.1 hp)
    rfl
  · refine (hperm.map Prod.fst).mem_iff.2 ?_
    rw [List.map_map]
    exact List.mem_map.2 ⟨c, hc, rfl⟩

theorem bodyOf_trigger (h : Sendable k x) {payload operation : String}
    (hpayload : triggerPayload env k x = some payload) (hop : operation ≠ "DELETE") :
    bodyOf env k.entityTypeName operation payload = some (emittedValues k x) := by
  rw [bodyOf, if_neg hop, k.entityTypeToTable_name, Option.bind_some,
    payloadValues_trigger h hpayload]

theorem bodyOf_delete (entityType payload : String) : bodyOf env entityType "DELETE" payload = none :=
  if_pos rfl

/-- Setting one entity of one table sets one entity of the device. -/
theorem content_of_setsIn {t : Table k.layout} {i : String} {v : Option (List Value)}
    (h : SetsIn env k (db.tables k) t i v) (htables : db'.tables = (db.setTable k t).tables) :
    content env db' (k.entityTypeName, i) = v ∧
      ∀ e, e ≠ (k.entityTypeName, i) → content env db' e = content env db e := by
  have hhere : db'.tables k = t := by
    rw [htables]
    exact Function.update_self ..
  constructor
  · simp only [content, k.entityTypeToTable_name, hhere]
    exact h.here
  · rintro ⟨entityType, j⟩ hne
    simp only [content]
    cases hk : SyncableEntityKind.entityTypeToTable entityType with
    | none => rfl
    | some k' =>
        by_cases hkk : k' = k
        · subst hkk
          have hname := SyncableEntityKind.name_of_entityTypeToTable hk
          have hj : j ≠ i := by
            rintro rfl
            exact hne (by rw [hname])
          simp only [hhere]
          exact h.others j hj
        · have hother : db'.tables k' = db.tables k' := by
            rw [htables]
            exact Function.update_of_ne hkk ..
          simp only [hother]

end Says

/-! ## Local edits -/

/-- An update gives a key column no other value than it has. -/
def KeyKept : LocalEdit → Prop
  | .update k key values => ∀ p ∈ values, p.1 ∈ k.layout.primaryKey → p.2 = key p.1
  | _ => True

/-- The write logs one row, and the device does what the row says. -/
structure Did (env : Env) (now : String) (db db' : Db) (e : String × String)
    (operation payload : String) : Prop where
  shaped : Shaped env e.1 e.2 operation payload
  log : db'.log = db.log.logLocal now e.1 e.2 operation payload
  here : content env db' e = bodyOf env e.1 operation payload
  others : ∀ e', e' ≠ e → content env db' e' = content env db e'

section Edits

variable {env : Env} {now : String} {k : SyncableEntityKind} {db db' : Db}

theorem isOperation_text (op : Operation) : isOperation op.text = true := by
  cases op <;> decide

/-- A statement that put a row there did what it logged. -/
theorem did_of_put {op : Operation} {r : k.layout.StoredRow} {i payload : String}
    {t : Table k.layout} (h : Audited env now k op r.val i payload t db db') (hop : op ≠ .delete)
    (hclean : Sendable k r.val)
    (hsets : SetsIn env k (db.tables k) t i (some (emittedValues k r.val))) :
    Did env now db db' (k.entityTypeName, i) op.text payload := by
  obtain ⟨hhere, hothers⟩ := content_of_setsIn hsets h.tables
  have htext : op.text ≠ "DELETE" := by
    cases op with
    | delete => exact absurd rfl hop
    | _ => decide
  refine ⟨⟨k, r.val, hclean, rfl, h.name, h.written, isOperation_text op⟩, h.log, ?_, hothers⟩
  rw [hhere, bodyOf_trigger hclean h.written htext]

theorem did_of_erase {old : k.layout.StoredRow} {i payload : String} (hclean : Clean db)
    (hold : old ∈ (db.tables k).rows)
    (h : Audited env now k .delete old.val i payload ((db.tables k).erase old) db db') :
    Did env now db db' (k.entityTypeName, i) "DELETE" payload := by
  obtain ⟨hhere, hothers⟩ := content_of_setsIn (setsIn_erase (hclean k) hold h.name) h.tables
  refine ⟨⟨k, old.val, hclean k old hold, rfl, h.name, h.written, by decide⟩, h.log, ?_, hothers⟩
  rw [hhere, bodyOf_delete]

theorem rows_of_tables {t : Table k.layout} (h : db'.tables = (db.setTable k t).tables) :
    (db'.tables k).rows = t.rows := by
  rw [h]
  exact congrArg Table.rows (Function.update_self ..)

/-- A table without an update trigger emits its key alone. -/
theorem emitted_of_quiet : ∀ k : SyncableEntityKind, k.auditTrigger.onUpdate = false →
    ∀ c ∈ k.emitted, c ∈ k.layout.primaryKey := by
  decide

/-- A column the row has, with a typed value, is stored as it is. -/
theorem stored_key {old : k.layout.StoredRow} {new : Row} {c : String}
    (hc : c ∈ k.layout.primaryKey) (h : new c = old.val c) :
    k.layout.stored env.affinity new c = old.val c := by
  obtain ⟨_, hnn⟩ := k.primaryKey_emitted c hc
  obtain ⟨col, hcol, _⟩ := Option.map_eq_some_iff.1 hnn
  rw [Layout.stored_of_typed hcol, h]
  rw [h]
  exact old.property.typed c col hcol

theorem mem_replace {t : Table k.layout} {old r : k.layout.StoredRow}
    {h : k.layout.clash? (t.erase old).rows r = none} (hold : old ∈ t.rows) :
    r ∈ (t.replace old r h).rows := by
  refine List.mem_map.2 ⟨old, hold, ?_⟩
  rw [(same_iff old.property).2 fun _ _ => rfl]
  rfl

/-- An update that keeps the key sets the row's entity, whether or not it is logged. -/
theorem update_effect (hdb : Auditing db) (hclean : Clean db) {old : k.layout.StoredRow}
    {new : Row} (hold : old ∈ (db.tables k).rows) (hkey : ∀ c ∈ k.layout.primaryKey, new c = old.val c)
    (hsend : ∀ r : k.layout.StoredRow, r.val = k.layout.stored env.affinity new →
      r ∈ (db'.tables k).rows → Sendable k r.val)
    (h : updateRow env now k old new db = .ok db') :
    ∃ r : k.layout.StoredRow, r.val = k.layout.stored env.affinity new ∧ Sendable k r.val ∧
      ∃ i t, triggerEntityId env k old.val = some i ∧ db'.tables = (db.setTable k t).tables ∧
        (∀ x ∈ t.rows, x = r ∨ x ∈ (db.tables k).rows) ∧
        SetsIn env k (db.tables k) t i (some (emittedValues k r.val)) ∧
        ((k.auditTrigger.onUpdate = false ∧ db'.log = db.log) ∨
          ∃ payload, Audited env now k .update r.val i payload t db db') := by
  obtain ⟨r, hclash, hr, hcases⟩ := updateRow_eq_ok hdb.triggers h
  have hsome : (triggerEntityId env k old.val).isSome := entityId_isSome old.property
  obtain ⟨i, hi⟩ := Option.isSome_iff_exists.1 hsome
  have htables : db'.tables = (db.setTable k ((db.tables k).replace old r hclash)).tables := by
    rcases hcases with ⟨_, rfl⟩ | ⟨_, _, haudit⟩
    · rfl
    · exact haudit.tables
  have hsendr : Sendable k r.val := by
    refine hsend r hr ?_
    rw [rows_of_tables htables]
    exact mem_replace hold
  have hrows : ∀ x ∈ ((db.tables k).replace old r hclash).rows, x = r ∨ x ∈ (db.tables k).rows := by
    intro x hx
    obtain ⟨y, hy, hyx⟩ := List.mem_map.1 hx
    split at hyx
    · exact Or.inl hyx.symm
    · exact Or.inr (hyx ▸ hy)
  have hclean' : ∀ x ∈ ((db.tables k).replace old r hclash).rows, Sendable k x.val := by
    intro x hx
    rcases hrows x hx with rfl | hx
    · exact hsendr
    · exact hclean k x hx
  -- the key is kept, so the trigger names the entity as before
  have hname : triggerEntityId env k r.val = some i := by
    rw [← hi]
    refine triggerEntityId_congr fun c hc => ?_
    rw [hr]
    exact stored_key hc (hkey c hc)
  refine ⟨r, hr, hsendr, i, _, hi, htables, hrows,
    setsIn_replace (hclean k) hclean' hold hi hname, ?_⟩
  rcases hcases with ⟨hquiet, rfl⟩ | ⟨i', payload, haudit⟩
  · exact Or.inl ⟨hquiet, rfl⟩
  · have hii := haudit.name
    rw [hname] at hii
    cases Option.some.inj hii
    exact Or.inr ⟨payload, haudit⟩

/-- **A LOCAL EDIT DOES WHAT IT LOGS**, or changes no entity. -/
theorem localEdit_effect (hdb : Auditing db) (hclean : Clean db) (hclean' : Clean db')
    {edit : LocalEdit} (hkept : KeyKept edit) (h : localEdit env now edit db = .ok db') :
    (db'.log = db.log ∧ content env db' = content env db) ∨
      ∃ e operation payload, Did env now db db' e operation payload := by
  cases edit with
  | insert k values =>
      obtain ⟨r, _, hinsert⟩ := bind_eq_ok.1 h
      -- an insert is always logged
      obtain ⟨hclash, i, payload, haudit⟩ := insertRow_eq_ok hdb.triggers hinsert
      have hrows := rows_of_tables haudit.tables
      have hsend : ∀ x ∈ ((db.tables k).append r hclash).rows, Sendable k x.val := by
        rw [← hrows]
        exact hclean' k
      have hr := hsend r (List.mem_append_right _ List.mem_cons_self)
      exact Or.inr ⟨_, _, _, did_of_put haudit (fun hop => by cases hop) hr
        (setsIn_append hsend haudit.name)⟩
  | update k key values =>
      simp only [localEdit, updateByKey] at h
      split at h
      · cases h
      split at h
      · cases Except.ok.inj h
        exact Or.inl ⟨rfl, rfl⟩
      next old hfind =>
        -- an update keeps the key, so the row it changes is of the same entity
        have hold := List.mem_of_find?_eq_some hfind
        have hfound := List.find?_some hfind
        have hsame := (same_iff old.property).1 hfound
        obtain ⟨r, hr, hsend, i, t, hi, htables, _, hsets, hlog⟩ := update_effect hdb hclean hold
          (fun c hc => overlay_eq_self fun p hp hpc => by
            subst hpc
            rw [hkept p hp hc, hsame p.1 hc])
          (fun r _ hr => hclean' k r hr) h
        rcases hlog with ⟨hquiet, hlog⟩ | ⟨payload, haudit⟩
        · -- only the key is emitted, and the key is kept
          refine Or.inl ⟨hlog, ?_⟩
          have hvalues : emittedValues k r.val = emittedValues k old.val := by
            refine List.map_congr_left fun c hc => ?_
            have hkey := emitted_of_quiet k hquiet c hc
            rw [hr]
            refine stored_key hkey (overlay_eq_self fun p hp hpc => ?_)
            subst hpc
            rw [hkept p hp hkey, hsame p.1 hkey]
          obtain ⟨hhere, hothers⟩ := content_of_setsIn hsets htables
          funext e
          by_cases he : e = (k.entityTypeName, i)
          · subst he
            rw [hhere, hvalues]
            simp only [content, k.entityTypeToTable_name]
            exact ((contentOf_eq_some_iff (hclean k)).2 ⟨old, hold, hi, rfl⟩).symm
          · exact hothers e he
        · exact Or.inr ⟨_, _, _, did_of_put haudit (fun hop => by cases hop) hsend hsets⟩
  | delete k key =>
      rcases deleteFrom_same_eq_ok hdb h with ⟨_, rfl⟩ | ⟨old, hold, _, i, payload, haudit⟩
      · exact Or.inl ⟨rfl, rfl⟩
      · exact Or.inr ⟨_, _, _, did_of_erase hclean hold haudit⟩

end Edits

end SyncContents

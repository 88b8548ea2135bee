import Livtet.Contents

/-! # The rows an upsert touches

    `upsert_payload` gives its conflict clause no target, so the row it overwrites is
    the first one that agrees with the payload on any unique key, and the overwrite
    sets the id column too. Where the change's own row is missing and another row holds
    its secondary key, that row is re-keyed. Every other upsert leaves the rows of
    other primary keys alone. -/

namespace SyncOwnRow

open SqlRows JsonText SyncSchema SyncStore SyncEngine SyncSteps SyncWire SyncContents Outcomes

/-! ## What an upsert does -/

section Upsert

variable (env : Env) (now : String) (options : ApplyOptions)

/-- The members that an upsert of the change binds, with the receiver's own paths. -/
def payloadMembers (change : SyncChange) : List (String × Json) :=
  match env.json.parse change.payload with
  | .error _ => []
  | .ok payload =>
      match (if change.entityType = "digital_inventory" then
        applyInventoryPaths payload change options else payload) with
      | .obj object => object
      | _ => []

/-- The columns that an upsert of the change names, with the values it binds. -/
def upsertValues (change : SyncChange) : Assignments :=
  (payloadMembers env options change).map fun p => (p.1, sqlValue env p.1 p.2)

end Upsert

variable {env : Env} {now : String} {options : ApplyOptions} {k : SyncableEntityKind}
  {change : SyncChange} {db db' : Db}

/-- Any write but a delete is an upsert of the bound members. -/
theorem writeEntity_upsert (hop : change.operation ≠ "DELETE")
    (h : writeEntity env now options k change db = .ok db') :
    upsertInto env now k (upsertValues env options change) db = .ok db' := by
  rw [writeEntity, if_neg hop] at h
  cases hparse : env.json.parse change.payload with
  | error message =>
      rw [hparse] at h
      cases h
  | ok payload =>
      rw [hparse] at h
      simp only at h
      unfold upsertPayload at h
      split at h
      · next object hobject =>
          have hmembers : payloadMembers env options change = object := by
            unfold payloadMembers
            rw [hparse]
            simp only [hobject]
          split at h
          · cases h
          split at h
          · cases h
          · rw [upsertValues, hmembers]
            exact statement_eq_ok h
      · cases h

/-- The outcomes of an upsert: the candidate is added, or a row that agrees with it on a
    key is replaced. -/
inductive UpsertCase (env : Env) (now : String) (k : SyncableEntityKind) (values : Assignments)
    (db db' : Db) : Prop
  | added (r : k.layout.StoredRow) (hclash : k.layout.clash? (db.tables k).rows r = none)
      (hr : Table.candidate env.affinity now k.layout values = .ok r)
      (hfire : fireTrigger env now k .insert r.val
        (db.setTable k ((db.tables k).append r hclash)) = .ok db')
  | replaced (r old s : k.layout.StoredRow)
      (hr : Table.candidate env.affinity now k.layout values = .ok r)
      (hold : k.layout.clash? (db.tables k).rows r = some old)
      (hs : k.layout.store env.affinity
        (overlay old.val (values.map fun p => (p.1, r.val p.1))) = .ok s)
      (hclash : k.layout.clash? ((db.tables k).erase old).rows s = none)
      (hfire : fireTrigger env now k .update s.val
        (db.setTable k ((db.tables k).replace old s hclash)) = .ok db')

theorem upsertInto_cases {values : Assignments} (h : upsertInto env now k values db = .ok db') :
    UpsertCase env now k values db db' := by
  obtain ⟨r, hr, h⟩ := bind_eq_ok.1 h
  split at h
  · next hnone =>
      obtain ⟨t, ht, hfire, _⟩ := insertRow_eq_ok_iff.1 h
      obtain ⟨hclash, rfl⟩ := Table.insert_eq_ok_iff.1 ht
      exact .added r hclash hr hfire
  · next old hold =>
      obtain ⟨s, t, ht, hfire, _⟩ := updateRow_eq_ok_iff.1 h
      obtain ⟨hs, hclash, rfl⟩ := Table.update_eq_ok_iff.1 ht
      exact .replaced r old s hr hold hs hclash hfire

/-! ## The change's own row -/

/-- The key an entity id names, as `delete_entity` reads it. -/
def namedKey (env : Env) (entityId : String) : Assignments :=
  match env.json.parse entityId with
  | .ok (.obj key) => key.map fun p => (p.1, sqlValue env p.1 p.2)
  | _ =>
      match fromHex entityId with
      | some id => [("id", .blob id)]
      | none => []

/-- The payload carries the primary key that the entity id names. -/
def CarriesKey (env : Env) (options : ApplyOptions) (k : SyncableEntityKind)
    (change : SyncChange) : Prop :=
  ∀ c ∈ k.layout.primaryKey, ∃ v, (namedKey env change.entityId).lookup c = some v ∧
    (upsertValues env options change).lookup c = some v

/-- The row has the primary key that the entity id names. -/
def isOwn (env : Env) (k : SyncableEntityKind) (change : SyncChange) (x : k.layout.StoredRow) :
    Bool :=
  k.layout.primaryKey.all fun c =>
    columnEquals env k x.val (c, ((namedKey env change.entityId).lookup c).getD .null)

/-- The rows of other primary keys are the same, in the same places. -/
def OthersKept (env : Env) (k : SyncableEntityKind) (change : SyncChange) (db db' : Db) : Prop :=
  ((db'.tables k).rows.filter fun x => !isOwn env k change x) =
    (db.tables k).rows.filter fun x => !isOwn env k change x

/-- No row agrees with the row of the payload on a key other than the primary one. -/
def SecondaryFree (env : Env) (now : String) (options : ApplyOptions) (k : SyncableEntityKind)
    (change : SyncChange) (db : Db) : Prop :=
  ∀ r, Table.candidate env.affinity now k.layout (upsertValues env options change) = .ok r →
    ∀ key ∈ k.layout.uniques, ∀ x ∈ (db.tables k).rows, agree key x.val r.val = false

/-- A named column of a candidate holds the bound value as the column stores it. -/
theorem candidate_named {values : Assignments} {r : k.layout.StoredRow} {c : String} {v : Value}
    (hr : Table.candidate env.affinity now k.layout values = .ok r)
    (hv : values.lookup c = some v) {col : Column} (hcol : k.layout.column? c = some col) :
    env.affinity.convert col.type v = some (r.val c) := by
  unfold Table.candidate at hr
  split at hr
  · cases hr
  obtain ⟨hfault, hstored⟩ := Layout.store_eq_ok hr
  have hover : overlay (k.layout.defaults now) values c = v := by
    rw [overlay, hv, Option.getD_some]
  obtain ⟨w, hw, _⟩ := Layout.convert_of_no_fault hfault hcol
  rw [hover] at hw
  rw [hstored, Layout.stored, hcol]
  simp only [hover, hw, Option.getD_some]

/-- The rows of the key the entity id names are those of the candidate's key. -/
theorem isOwn_eq (hkey : CarriesKey env options k change) {r : k.layout.StoredRow}
    (hr : Table.candidate env.affinity now k.layout (upsertValues env options change) = .ok r)
    (x : k.layout.StoredRow) : isOwn env k change x = k.layout.same x.val r.val := by
  have hcolumn : ∀ c ∈ k.layout.primaryKey,
      columnEquals env k x.val (c, ((namedKey env change.entityId).lookup c).getD .null) =
        (decide (x.val c ≠ .null) && decide (x.val c = r.val c)) := by
    intro c hc
    obtain ⟨v, hnamed, hvalue⟩ := hkey c hc
    obtain ⟨_, hnn⟩ := k.primaryKey_emitted c hc
    obtain ⟨col, hcol, _⟩ := Option.map_eq_some_iff.1 hnn
    have hconv := candidate_named hr hvalue hcol
    simp only [columnEquals, hcol, hnamed, Option.getD_some, hconv]
  rw [Bool.eq_iff_iff, isOwn, Layout.same, agree, List.all_eq_true, List.all_eq_true]
  constructor
  · intro h c hc
    rw [← hcolumn c hc]
    exact h c hc
  · intro h c hc
    rw [hcolumn c hc]
    exact h c hc

/-- The primary key is tried first: a row found under another key means that no row has
    the primary key. -/
theorem same_of_clash? {rows : List k.layout.StoredRow} {r old : k.layout.StoredRow}
    (h : k.layout.clash? rows r = some old) :
    k.layout.same old.val r.val = true ∨
      (∀ x ∈ rows, k.layout.same x.val r.val = false) ∧
        ∃ key ∈ k.layout.uniques, agree key old.val r.val = true := by
  rw [Layout.clash?, Layout.keys, List.findSome?_cons] at h
  split at h
  · next found hfound =>
      cases Option.some.inj h
      have := List.find?_some hfound
      exact Or.inl (by simpa [Layout.same] using this)
  · next hnone =>
      refine Or.inr ⟨?_, ?_⟩
      · intro x hx
        have := List.find?_eq_none.1 hnone x hx
        simpa [Layout.same] using this
      · obtain ⟨_, key, _, hkeys, hfound, _⟩ := List.findSome?_eq_some_iff.1 h
        refine ⟨key, ?_, ?_⟩
        · rw [hkeys]
          exact List.mem_append_right _ List.mem_cons_self
        · have := List.find?_some hfound
          simpa using this

/-- The row an upsert stores in the place of another one has the candidate's key. -/
theorem same_replaced (hkey : CarriesKey env options k change) {r old s : k.layout.StoredRow}
    (hs : k.layout.store env.affinity (overlay old.val
      ((upsertValues env options change).map fun p => (p.1, r.val p.1))) = .ok s) :
    k.layout.same s.val r.val = true := by
  refine (same_iff s.property).2 ?_
  intro c hc
  obtain ⟨v, _, hvalue⟩ := hkey c hc
  obtain ⟨_, hnn⟩ := k.primaryKey_emitted c hc
  obtain ⟨col, hcol, _⟩ := Option.map_eq_some_iff.1 hnn
  have hover : overlay old.val ((upsertValues env options change).map fun p => (p.1, r.val p.1)) c =
      r.val c := by
    refine overlay_of_named ?_ ?_
    · intro p hp
      obtain ⟨q, _, rfl⟩ := List.mem_map.1 hp
      rfl
    · rw [List.map_map]
      exact List.mem_map.2 ⟨(c, v), mem_of_lookup hvalue, rfl⟩
  rw [(Layout.store_eq_ok hs).2, Layout.stored_of_typed hcol, hover]
  rw [hover]
  exact r.property.typed c col hcol

/-- Replacing own rows by own rows keeps the others. -/
theorem filter_replace {L : Layout} {rows : List L.StoredRow} {old s : L.StoredRow}
    {own : L.StoredRow → Bool} (hs : own s = true)
    (hold : ∀ x, L.same x.val old.val = true → own x = true) :
    ((rows.map fun x => if L.same x.val old.val then s else x).filter fun x => !own x) =
      rows.filter fun x => !own x := by
  induction rows with
  | nil => rfl
  | cons x rest ih =>
      rw [List.map_cons]
      by_cases hx : L.same x.val old.val = true
      · rw [if_pos hx, List.filter_cons_of_neg (by simp [hs]), ih,
          List.filter_cons_of_neg (by simp [hold x hx])]
      · rw [if_neg hx]
        by_cases hown : own x = true
        · rw [List.filter_cons_of_neg (by simp [hown]), ih,
            List.filter_cons_of_neg (by simp [hown])]
        · rw [List.filter_cons_of_pos (by simpa using hown), ih,
            List.filter_cons_of_pos (by simpa using hown)]

theorem othersKept_added (hkey : CarriesKey env options k change) {r : k.layout.StoredRow}
    (hr : Table.candidate env.affinity now k.layout (upsertValues env options change) = .ok r)
    {hclash : k.layout.clash? (db.tables k).rows r = none}
    (htables : db'.tables = (db.setTable k ((db.tables k).append r hclash)).tables) :
    OthersKept env k change db db' := by
  have hrows : (db'.tables k).rows = (db.tables k).rows ++ [r] := by
    rw [rows_of_tables htables]
    rfl
  have hown : isOwn env k change r = true := by
    rw [isOwn_eq hkey hr]
    exact (same_iff r.property).2 fun _ _ => rfl
  rw [OthersKept, hrows, List.filter_append, List.filter_cons_of_neg (by simp [hown])]
  exact List.append_nil _

/-- Replacing a row keeps the others exactly when it is the change's own. -/
theorem othersKept_replaced_iff (hkey : CarriesKey env options k change)
    {r old s : k.layout.StoredRow}
    (hr : Table.candidate env.affinity now k.layout (upsertValues env options change) = .ok r)
    (hold : k.layout.clash? (db.tables k).rows r = some old)
    (hs : k.layout.store env.affinity (overlay old.val
      ((upsertValues env options change).map fun p => (p.1, r.val p.1))) = .ok s)
    {hclash : k.layout.clash? ((db.tables k).erase old).rows s = none}
    (htables : db'.tables = (db.setTable k ((db.tables k).replace old s hclash)).tables) :
    OthersKept env k change db db' ↔ k.layout.same old.val r.val = true := by
  have hrows : (db'.tables k).rows =
      (db.tables k).rows.map fun x => if k.layout.same x.val old.val then s else x := by
    rw [rows_of_tables htables]
    rfl
  have hown : isOwn env k change s = true := by
    rw [isOwn_eq hkey hr]
    exact same_replaced hkey hs
  constructor
  · intro hkept
    by_contra hne
    -- the old row was there and is not any more
    have hmem : old ∈ (db.tables k).rows.filter fun x => !isOwn env k change x := by
      refine List.mem_filter.2 ⟨Layout.mem_of_clash? hold, ?_⟩
      rw [isOwn_eq hkey hr]
      simpa using hne
    rw [← hkept, hrows] at hmem
    obtain ⟨hmap, hnot⟩ := List.mem_filter.1 hmem
    obtain ⟨x, _, hx⟩ := List.mem_map.1 hmap
    split at hx
    · rw [← hx, hown] at hnot
      cases hnot
    · next hsame =>
        rw [hx] at hsame
        exact hsame ((same_iff old.property).2 fun _ _ => rfl)
  · intro hsame
    rw [OthersKept, hrows]
    refine filter_replace hown ?_
    intro x hx
    rw [isOwn_eq hkey hr]
    exact agree_trans hx hsame

/-- **A CHANGE TOUCHES ONLY ITS OWN ROW** exactly when it is a conflict, or its own row is
    there already, or no row holds its secondary key. -/
theorem othersKept_iff (env : Env) (now : String) (options : ApplyOptions)
    (k : SyncableEntityKind) (change : SyncChange) (db db' : Db) (outcome : ApplyOutcome)
    (hk : SyncableEntityKind.entityTypeToTable change.entityType = some k)
    (hop : change.operation = "INSERT" ∨ change.operation = "UPDATE")
    (hkey : CarriesKey env options k change)
    (h : applyChanges env now [change] options db = .ok (outcome, db')) :
    OthersKept env k change db db' ↔
      (newerPayload? env db.log change).isSome ∨
        (∃ x ∈ (db.tables k).rows, isOwn env k change x = true) ∨
          SecondaryFree env now options k change db := by
  obtain ⟨step, db1, hchange, hrest⟩ := applyOrdered_cons.1 h
  obtain ⟨_, rfl⟩ := Prod.mk.inj (Except.ok.inj hrest)
  cases applyChange_cases hchange with
  | ignored hign =>
      rcases hign with hnone | ⟨_, hno⟩
      · rw [hk] at hnone
        cases hnone
      · rcases hop with hop | hop
        · rw [hop] at hno
          cases hno
        · rw [hop] at hno
          cases hno
  | conflict _ hnew => exact ⟨fun _ => Or.inl (by rw [hnew]; rfl), fun _ => rfl⟩
  | @applied k' written _ hk' hnew _ hwrite hrecord =>
      rw [hk] at hk'
      cases Option.some.inj hk'
      obtain ⟨log, rfl, _, _⟩ := insertChangeRow_eq_ok hrecord
      have hdelete : change.operation ≠ "DELETE" := by
        rcases hop with hop | hop
        · rw [hop]
          decide
        · rw [hop]
          decide
      have hnew : ¬ (newerPayload? env db.log change).isSome = true := by
        rw [hnew]
        exact Bool.false_ne_true
      -- the table is the written one: dropping echoes and logging leave it
      show OthersKept env k change db written ↔ _
      cases upsertInto_cases (writeEntity_upsert hdelete hwrite) with
      | added r hclash hr hfire =>
          refine ⟨fun _ => Or.inr (Or.inr ?_), fun _ =>
            othersKept_added hkey hr (tables_of_fireTrigger hfire)⟩
          intro r' hr' key hkeys x hx
          rw [hr] at hr'
          cases Except.ok.inj hr'
          exact Layout.apart_of_clash?_eq_none hclash x hx key (List.mem_cons_of_mem _ hkeys)
      | replaced r old s hr hold hs hclash hfire =>
          -- the row that clashed is the one written over, whoever's it is
          rw [othersKept_replaced_iff hkey hr hold hs (tables_of_fireTrigger hfire)]
          have hmem := Layout.mem_of_clash? hold
          constructor
          · intro hsame
            refine Or.inr (Or.inl ⟨old, hmem, ?_⟩)
            rw [isOwn_eq hkey hr]
            exact hsame
          · intro hcond
            rcases same_of_clash? hold with hsame | ⟨hnone, key, hkeys, hagree⟩
            · exact hsame
            rcases hcond with hsome | ⟨x, hx, hown⟩ | hfree
            · exact absurd hsome hnew
            · rw [isOwn_eq hkey hr, hnone x hx] at hown
              cases hown
            · rw [hfree r hr key hkeys old hmem] at hagree
              cases hagree

/-! ## Two devices that added the file of one edition -/

/-- The change of a device that added a file of the edition, under an id of its own. -/
def addedFile : SyncChange :=
  { id := 1, entityType := "digital_inventory", entityId := "03030303030303030303030303030303"
    operation := "INSERT", version := 1
    payload := "\x7b\"id\":\"03030303030303030303030303030303\"," ++
      "\"edition_id\":\"02020202020202020202020202020202\"\x7d"
    changedAt := "2026", deviceId := "tablet", version_i64 := one_i64 }

/-- A device with a file of the edition. -/
def shelved : Db :=
  (localEdit Env.reference "2026" (.insert .digitalInventory
    [("id", .blob (List.replicate 16 1)), ("edition_id", .blob (List.replicate 16 2))])
    (Db.empty false)).toOption.getD (Db.empty false)

theorem carriesKey_addedFile :
    CarriesKey Env.reference {} .digitalInventory addedFile := by
  intro c hc
  cases List.mem_singleton.1 hc
  exact ⟨.blob (List.replicate 16 3), by decide, by decide⟩

/-- On a device without the edition's file the change touches only its row. -/
theorem othersKept_addedFile :
    ∃ outcome db', applyChanges Env.reference "2026" [addedFile] {}
        (Db.empty false) = .ok (outcome, db') ∧
      OthersKept Env.reference .digitalInventory addedFile (Db.empty false) db' := by
  obtain ⟨outcome, db', h⟩ : ∃ outcome db', applyChanges Env.reference "2026"
      [addedFile] {} (Db.empty false) = .ok (outcome, db') := ⟨_, _, rfl⟩
  refine ⟨outcome, db', h, (othersKept_iff _ _ _ _ _ _ _ _ (by decide) (Or.inl rfl)
    carriesKey_addedFile h).2 (Or.inr (Or.inr ?_))⟩
  intro r _ key _ x hx
  cases hx

/-- The device after it applied the change. -/
def rekeyed : Db :=
  match applyChanges Env.reference "2026" [addedFile] {} shelved with
  | .ok p => p.2
  | .error _ => shelved

/-- On a device with a file of its own, that file's row takes the other id. -/
theorem not_othersKept_addedFile :
    (∃ outcome, applyChanges Env.reference "2026" [addedFile] {} shelved =
      .ok (outcome, rekeyed)) ∧
      CarriesKey Env.reference {} .digitalInventory addedFile ∧
      ¬ OthersKept Env.reference .digitalInventory addedFile shelved rekeyed := by
  refine ⟨⟨_, rfl⟩, carriesKey_addedFile, ?_⟩
  have hbefore : ((shelved.tables .digitalInventory).rows.filter fun x =>
      !isOwn Env.reference .digitalInventory addedFile x).length = 1 := by
    decide
  have hafter : ((rekeyed.tables .digitalInventory).rows.filter fun x =>
      !isOwn Env.reference .digitalInventory addedFile x).length = 0 := by
    decide
  intro hkept
  have hlen := congrArg List.length hkept
  rw [hbefore, hafter] at hlen
  cases hlen

end SyncOwnRow

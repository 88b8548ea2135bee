import Livtet.Engine

/-! # What a trigger writes, and what the engine reads back

    A trigger writes a row's emitted columns as a JSON object and names the row by a
    text of its key. The engine binds the members of the object to columns and finds
    the row by the text. For a row whose ids have sixteen bytes nothing is lost on the
    way: the bound values are the row's own, and two rows of one text have one key. -/

namespace SyncWire

open SqlRows JsonText SyncSchema SyncStore SyncEngine

/-! ## Facts about the lists -/

/-- The one column a trigger emits raw although it holds ids. -/
theorem raw_blob : ∀ k : SyncableEntityKind, ∀ p ∈ k.auditTrigger.payload, p.2 = .raw →
    ∀ col ∈ k.layout.columns, k.layout.column? p.1 = some col → col.type = .blob →
      k = .ownedEdition ∧ p.1 = "condition_id" := by
  decide

/-- The columns a trigger names the row by, where it writes them as an object. -/
def keyFields (k : SyncableEntityKind) : List (String × Encoding) :=
  match k.auditTrigger.entityId with
  | .hexId => []
  | .json key => key
  | .lowerJson key => key

theorem keyFields_payload : ∀ k : SyncableEntityKind, ∀ p ∈ keyFields k,
    p ∈ k.auditTrigger.payload ∧ p.1 ≠ "condition_id" := by
  decide

/-- An emitted column exists, holds ids exactly when its name says so, and holds ids
    when it is written in hex. -/
theorem payload_column : ∀ k : SyncableEntityKind, ∀ p ∈ k.auditTrigger.payload,
    ∃ col ∈ k.layout.columns, k.layout.column? p.1 = some col ∧
      (col.type = .blob ↔ isIdColumn p.1 = true) ∧ (p.2 ≠ .raw → col.type = .blob) := by
  decide

/-- A trigger names a row by its primary key. -/
theorem key_names : ∀ k : SyncableEntityKind,
    (k.auditTrigger.entityId = .hexId ∧ k.layout.primaryKey = ["id"]) ∨
      (k.auditTrigger.entityId ≠ .hexId ∧ (keyFields k).map Prod.fst = k.layout.primaryKey) := by
  decide

theorem primaryKey_nodup : ∀ k : SyncableEntityKind, k.layout.primaryKey.Nodup := by
  decide

/-- The columns the triggers emit have names that `is_identifier` accepts. -/
theorem isIdentifier_emitted : ∀ k : SyncableEntityKind, ∀ c ∈ k.emitted,
    isIdentifier c = true := by
  decide

theorem primaryKey_ne_nil : ∀ k : SyncableEntityKind, k.layout.primaryKey ≠ [] := by
  decide

theorem lowerJson_fields_all : ∀ k : SyncableEntityKind,
    k.auditTrigger.entityId = .lowerJson (keyFields k) →
      ∀ p ∈ keyFields k, p.2 = .hex ∧ (p.1.toList.all fun c => c.toLower == c) = true := by
  decide

/-- Where a key is written in lower case, it is lower case already. -/
theorem lowerJson_fields (k : SyncableEntityKind)
    (h : k.auditTrigger.entityId = .lowerJson (keyFields k)) :
    ∀ p ∈ keyFields k, p.2 = .hex ∧ ∀ c ∈ p.1.toList, c.toLower = c := by
  intro p hp
  obtain ⟨henc, hall⟩ := lowerJson_fields_all k h p hp
  exact ⟨henc, fun c hc => beq_iff_eq.1 (List.all_eq_true.1 hall c hc)⟩

/-! ## The values of a row -/

/-- The values of the columns the triggers emit. -/
def emittedValues (k : SyncableEntityKind) (r : Row) : List Value := k.emitted.map r

/-- A row of the table whose ids have sixteen bytes. -/
structure Sendable (k : SyncableEntityKind) (x : Row) : Prop where
  ok : k.layout.RowOk x
  ids : ∀ c ∈ k.emitted, ∀ b, x c = .blob b → b.length = 16

theorem fromWire_encode {env : Env} {b : List UInt8} (h : b.length = 16) :
    fromWire env (HexText.encode b) = some b := by
  rw [fromWire, fromHex, HexText.decode_encode, Option.filter_some, if_pos (decide_eq_true h),
    Option.some_or]

theorem encode_ne_empty {b : List UInt8} (h : b.length = 16) : HexText.encode b ≠ "" := by
  intro hempty
  have hchars := congrArg String.toList hempty
  rw [HexText.encode, String.toList_ofList] at hchars
  have hlen := congrArg List.length hchars
  rw [HexText.length_encodeChars, h] at hlen
  cases hlen

/-- A hex text binds to the id it was written from. -/
theorem sqlValue_encode {env : Env} {c : String} {b : List UInt8} (hid : isIdColumn c = true)
    (h : b.length = 16) : sqlValue env c (.str (HexText.encode b)) = .blob b := by
  simp only [sqlValue, hid, if_true, if_neg (encode_ne_empty h), fromWire_encode h]

section Values

variable {env : Env} {k : SyncableEntityKind} {x y : Row}

theorem blob_or_null {col : Column} {v : Value} (htype : col.type = .blob)
    (hv : v.hasType col.type = true) : v = .null ∨ ∃ b, v = .blob b := by
  rw [htype] at hv
  cases v with
  | null => exact Or.inl rfl
  | blob b => exact Or.inr ⟨b, rfl⟩
  | _ => cases hv

/-- Only texts are read as ids. -/
theorem sqlValue_of_not_str (c : String) {value : Json} (h : ∀ text, value ≠ .str text) :
    sqlValue env c value = plainValue env value := by
  cases value with
  | str text => exact absurd rfl (h text)
  | _ => simp only [sqlValue, ite_self]

theorem sqlValue_null (c : String) : sqlValue env c .null = .null :=
  sqlValue_of_not_str c fun _ h => by cases h

/-- What a trigger writes for a column binds to the column's own value. -/
theorem sqlValue_encodeColumn (h : Sendable k x) {p : String × Encoding}
    (hp : p ∈ k.auditTrigger.payload) (hplain : ∀ b, encodeColumn p.2 (x p.1) ≠ .blob b) :
    sqlValue env p.1 (Json.ofValue (encodeColumn p.2 (x p.1))) = x p.1 := by
  obtain ⟨c, enc⟩ := p
  obtain ⟨col, _, hcol, hid, hhex⟩ := payload_column k (c, enc) hp
  have htyped := h.ok.typed c col hcol
  have hids := h.ids c (List.mem_map_of_mem hp)
  cases enc with
  | raw =>
      show sqlValue env c (Json.ofValue (x c)) = x c
      cases hv : x c with
      | null => exact sqlValue_null c
      | int n =>
          rw [hv] at htyped
          have hn : minI64 ≤ n ∧ n ≤ maxI64 := by
            cases ht : col.type <;> rw [ht] at htyped
            · simpa [Value.hasType, minI64, maxI64] using htyped
            all_goals cases htyped
          have hplainInt : plainValue env (.int n) = .int n := by
            simp only [plainValue, numberValue, asI64?, if_pos hn]
          have hnum : ∀ text, Json.int n ≠ .str text := fun _ h => by cases h
          exact (sqlValue_of_not_str c hnum).trans hplainInt
      | real d =>
          have hnum : ∀ text, Json.real d ≠ .str text := fun _ h => by cases h
          exact sqlValue_of_not_str c hnum
      | text s =>
          -- a text column holds no ids
          have hnot : isIdColumn c = false := by
            cases hc : isIdColumn c with
            | false => rfl
            | true =>
                rw [hid.2 hc, hv] at htyped
                cases htyped
          show sqlValue env c (.str s) = .text s
          simp only [sqlValue, hnot]
          rfl
      | blob b => exact absurd hv (hplain b)
  | hex =>
      have hblob := hhex (fun hraw => by cases hraw)
      show sqlValue env c (.str (lowerHex (x c))) = x c
      rcases blob_or_null hblob htyped with hv | ⟨b, hv⟩
      · rw [hv]
        simp only [sqlValue, hid.1 hblob, if_true, lowerHex]
      · rw [hv]
        exact sqlValue_encode (hid.1 hblob) (hids b hv)
  | hexIfPresent =>
      have hblob := hhex (fun hraw => by cases hraw)
      rcases blob_or_null hblob htyped with hv | ⟨b, hv⟩
      · rw [hv]
        exact sqlValue_null c
      · rw [hv]
        exact sqlValue_encode (hid.1 hblob) (hids b hv)

/-- The members of an object written from some of a row's fields bind to the row's
    own values. -/
theorem bound_object (h : Sendable k x) {fields : List (String × Encoding)}
    (hsub : ∀ p ∈ fields, p ∈ k.auditTrigger.payload) (hnodup : (fields.map Prod.fst).Nodup)
    {text : String} (htext : env.json.object (jsonFields fields x) = some text) :
    ∃ members, env.json.parse text = .ok (.obj members) ∧
      (members.map fun m => (m.1, sqlValue env m.1 m.2)).Perm
        (fields.map fun p => (p.1, x p.1)) := by
  have hnames : ((jsonFields fields x).map Prod.fst).Nodup := by
    rw [jsonFields, List.map_map]
    exact hnodup
  obtain ⟨members, hparse, hperm⟩ := env.json.parse_object _ text hnames htext
  have hplain : ∀ p ∈ fields, ∀ b, encodeColumn p.2 (x p.1) ≠ .blob b := by
    intro p hp b hb
    have hnone := (env.json.object_eq_none (jsonFields fields x)).2
      ⟨_, List.mem_map_of_mem hp, b, hb⟩
    rw [htext] at hnone
    cases hnone
  refine ⟨members, hparse, ?_⟩
  have hbound := hperm.map fun m => (m.1, sqlValue env m.1 m.2)
  rw [jsonFields, List.map_map, List.map_map] at hbound
  refine hbound.trans (List.Perm.of_eq (List.map_congr_left fun p hp => ?_))
  exact congrArg (Prod.mk p.1) (sqlValue_encodeColumn h (hsub p hp) (hplain p hp))

/-- **THE PAYLOAD READS BACK** as the emitted values. -/
theorem bound_payload (h : Sendable k x) {text : String}
    (htext : triggerPayload env k x = some text) :
    ∃ members, env.json.parse text = .ok (.obj members) ∧
      (members.map fun m => (m.1, sqlValue env m.1 m.2)).Perm
        (k.emitted.map fun c => (c, x c)) := by
  obtain ⟨members, hparse, hperm⟩ := bound_object h (fun _ hp => hp) k.emitted_nodup htext
  refine ⟨members, hparse, ?_⟩
  rw [SyncableEntityKind.emitted, List.map_map]
  exact hperm

/-- The payload depends on the emitted values alone. -/
theorem triggerPayload_congr (h : ∀ c ∈ k.emitted, x c = y c) :
    triggerPayload env k x = triggerPayload env k y := by
  rw [triggerPayload, triggerPayload, jsonFields, jsonFields]
  refine congrArg env.json.object (List.map_congr_left fun p hp => ?_)
  rw [h p.1 (List.mem_map_of_mem hp)]

/-! ## The name of a row -/

theorem keyFields_of_json {key : List (String × Encoding)}
    (h : k.auditTrigger.entityId = .json key) : keyFields k = key := by
  rw [keyFields, h]

theorem keyFields_of_lowerJson {key : List (String × Encoding)}
    (h : k.auditTrigger.entityId = .lowerJson key) : keyFields k = key := by
  rw [keyFields, h]

/-- A hex text has no upper-case letter. -/
theorem isLower_lowerHex (v : Value) : IsLower (lowerHex v) := by
  have hdigit : ∀ n, n < 16 → (HexText.digitChar n).toLower = HexText.digitChar n := by decide
  intro c hc
  cases v with
  | blob b =>
      rw [lowerHex, HexText.encode, String.toList_ofList] at hc
      obtain ⟨n, hn, rfl⟩ := HexText.isLowerHex_of_mem b c hc
      exact hdigit n hn
  | _ => cases hc

/-- The primary key of a row is there, and its ids have sixteen bytes. -/
theorem id_of_hexId (h : Sendable k x) (hform : k.auditTrigger.entityId = .hexId) :
    k.layout.primaryKey = ["id"] ∧ ∃ b, x "id" = .blob b ∧ b.length = 16 := by
  have hkey : k.layout.primaryKey = ["id"] := by
    rcases key_names k with ⟨_, hkey⟩ | ⟨hne, _⟩
    · exact hkey
    · exact absurd hform hne
  refine ⟨hkey, ?_⟩
  have hmem : "id" ∈ k.layout.primaryKey := by
    rw [hkey]
    exact List.mem_cons_self
  obtain ⟨hemitted, hnn⟩ := k.primaryKey_emitted "id" hmem
  obtain ⟨col, hcol, hnotNull⟩ := Option.map_eq_some_iff.1 hnn
  have htype : col.type = .blob := by
    obtain ⟨p, hp, hname⟩ := List.mem_map.1 hemitted
    obtain ⟨col', _, hcol', hid, _⟩ := payload_column k p hp
    rw [hname, hcol] at hcol'
    cases Option.some.inj hcol'
    refine hid.2 ?_
    rw [hname]
    rfl
  rcases blob_or_null htype (h.ok.typed "id" col hcol) with hnull | ⟨b, hb⟩
  · exact absurd hnull (h.ok.present "id" col hcol hnotNull)
  · exact ⟨b, hb, h.ids "id" hemitted b hb⟩

/-- What a trigger names a row by: the hex of its id, or the object of its key. -/
theorem entityId_cases (h : Sendable k x) {i : String} (hi : triggerEntityId env k x = some i) :
    (k.layout.primaryKey = ["id"] ∧ ∃ b, x "id" = .blob b ∧ b.length = 16 ∧
      i = HexText.encode b) ∨
    ((keyFields k).map Prod.fst = k.layout.primaryKey ∧
      env.json.object (jsonFields (keyFields k) x) = some i) := by
  have hnames : k.auditTrigger.entityId ≠ .hexId →
      (keyFields k).map Prod.fst = k.layout.primaryKey := by
    intro hne
    rcases key_names k with ⟨hform, _⟩ | ⟨_, hnames⟩
    · exact absurd hform hne
    · exact hnames
  rw [triggerEntityId] at hi
  split at hi
  · next hform =>
      obtain ⟨hkey, b, hb, h16⟩ := id_of_hexId h hform
      rw [hb] at hi
      exact Or.inl ⟨hkey, b, hb, h16, (Option.some.inj hi).symm⟩
  · next key hform =>
      refine Or.inr ⟨hnames (by rw [hform]; exact fun hne => by cases hne), ?_⟩
      rw [keyFields_of_json hform]
      exact hi
  · next key hform =>
      refine Or.inr ⟨hnames (by rw [hform]; exact fun hne => by cases hne), ?_⟩
      obtain ⟨text, htext, rfl⟩ := Option.map_eq_some_iff.1 hi
      -- the trigger lowers the text, but hex digits and names of columns are lower already
      have hlower : IsLower text := by
        refine env.json.lower_object _ text htext ?_
        intro q hq
        obtain ⟨p, hp, rfl⟩ := List.mem_map.1 hq
        rw [← keyFields_of_lowerJson hform] at hp hform
        obtain ⟨henc, hname⟩ := lowerJson_fields k hform p hp
        refine ⟨hname, lowerHex (x p.1), ?_, isLower_lowerHex _⟩
        rw [henc]
        rfl
      rw [lower_of_isLower hlower, keyFields_of_lowerJson hform]
      exact htext

theorem keyFields_nodup (h : (keyFields k).map Prod.fst = k.layout.primaryKey) :
    ((keyFields k).map Prod.fst).Nodup := by
  rw [h]
  exact primaryKey_nodup k

/-- A key column of a row is not NULL. -/
theorem key_ne_null (h : k.layout.RowOk x) {c : String} (hc : c ∈ k.layout.primaryKey) :
    x c ≠ .null := by
  obtain ⟨_, hnn⟩ := k.primaryKey_emitted c hc
  obtain ⟨col, hcol, hnotNull⟩ := Option.map_eq_some_iff.1 hnn
  exact h.present c col hcol hnotNull

theorem same_iff (h : k.layout.RowOk x) :
    k.layout.same x y = true ↔ ∀ c ∈ k.layout.primaryKey, x c = y c := by
  rw [Layout.same, agree_iff]
  exact ⟨fun hsame c hc => (hsame c hc).2, fun heq c hc => ⟨key_ne_null h hc, heq c hc⟩⟩

/-- A row is named by its primary key alone. -/
theorem triggerEntityId_congr (h : ∀ c ∈ k.layout.primaryKey, x c = y c) :
    triggerEntityId env k x = triggerEntityId env k y := by
  have hfields : k.auditTrigger.entityId ≠ .hexId →
      jsonFields (keyFields k) x = jsonFields (keyFields k) y := by
    intro hne
    rcases key_names k with ⟨hform, _⟩ | ⟨_, hnames⟩
    · exact absurd hform hne
    · refine List.map_congr_left fun p hp => ?_
      rw [h p.1 (by rw [← hnames]; exact List.mem_map_of_mem hp)]
  rw [triggerEntityId, triggerEntityId]
  split
  · next hform =>
      rcases key_names k with ⟨_, hkey⟩ | ⟨hne, _⟩
      · rw [h "id" (by rw [hkey]; exact List.mem_cons_self)]
      · exact absurd hform hne
  · next key hform =>
      rw [← keyFields_of_json hform, hfields (by rw [hform]; exact fun hne => by cases hne)]
  · next key hform =>
      rw [← keyFields_of_lowerJson hform, hfields (by rw [hform]; exact fun hne => by cases hne)]

/-- A hex text holds no brace, so it is no object. -/
theorem parse_encode_ne_obj (b : List UInt8) (members : List (String × Json)) :
    env.json.parse (HexText.encode b) ≠ .ok (.obj members) := by
  intro hparse
  have hbrace := env.json.brace_of_object _ _ hparse
  rw [HexText.encode, String.toList_ofList] at hbrace
  obtain ⟨n, hn, hdigit⟩ := HexText.isLowerHex_of_mem b _ hbrace
  exact HexText.digitChar_ne_brace n hn hdigit.symm

/-- **A NAME BELONGS TO ONE KEY.** -/
theorem key_of_entityId (h : Sendable k x) (h' : Sendable k y) {i : String}
    (hi : triggerEntityId env k x = some i) (hi' : triggerEntityId env k y = some i) :
    ∀ c ∈ k.layout.primaryKey, x c = y c := by
  intro c hc
  rcases entityId_cases h hi with ⟨hkey, b, hb, _, rfl⟩ | ⟨hnames, htext⟩
  · rcases entityId_cases h' hi' with ⟨_, b', hb', _, hencode⟩ | ⟨hnames, htext'⟩
    · rw [hkey] at hc
      cases List.mem_singleton.1 hc
      rw [hb, hb', HexText.encode_injective hencode]
    · obtain ⟨members, hparse, _⟩ := bound_object h' (fun p hp => (keyFields_payload k p hp).1)
        (keyFields_nodup hnames) htext'
      exact absurd hparse (parse_encode_ne_obj b members)
  · have hmem : c ∈ (keyFields k).map Prod.fst := by
      rw [hnames]
      exact hc
    obtain ⟨p, hp, rfl⟩ := List.mem_map.1 hmem
    have hsub := fun p hp => (keyFields_payload k p hp).1
    obtain ⟨members, hparse, hperm⟩ := bound_object h hsub (keyFields_nodup hnames) htext
    rcases entityId_cases h' hi' with ⟨_, b', _, _, rfl⟩ | ⟨_, htext'⟩
    · exact absurd hparse (parse_encode_ne_obj b' members)
    · obtain ⟨members', hparse', hperm'⟩ := bound_object h' hsub (keyFields_nodup hnames) htext'
      rw [hparse] at hparse'
      cases hparse'
      have hbound := (hperm.symm.trans hperm').mem_iff.1 (List.mem_map_of_mem hp)
      obtain ⟨q, _, hq⟩ := List.mem_map.1 hbound
      obtain ⟨hname, hvalue⟩ := Prod.mk.inj hq
      rw [← hvalue, hname]

/-- A blob among the values a trigger writes would be the one raw id column. -/
theorem encodeColumn_ne_blob (hr : k.layout.RowOk x) {p : String × Encoding}
    (hp : p ∈ k.auditTrigger.payload)
    (hcondition : k = .ownedEdition → p.1 = "condition_id" → x p.1 = .null) (b : List UInt8) :
    encodeColumn p.2 (x p.1) ≠ .blob b := by
  obtain ⟨c, enc⟩ := p
  intro hblob
  cases enc with
  | raw =>
      have hblob : x c = .blob b := hblob
      obtain ⟨col, hmem, hcol, _⟩ := payload_column k (c, .raw) hp
      have htyped := hr.typed c col hcol
      rw [hblob] at htyped
      have htype : col.type = .blob := by
        cases ht : col.type with
        | blob => rfl
        | _ =>
            rw [ht] at htyped
            cases htyped
      obtain ⟨hk, hc⟩ := raw_blob k (c, .raw) hp rfl col hmem hcol htype
      rw [show x c = .null from hcondition hk hc] at hblob
      cases hblob
  | hex => cases hblob
  | hexIfPresent => cases hv : x c <;> simp [encodeColumn, hv] at hblob

theorem object_isSome {fields : List (String × Encoding)}
    (h : ∀ p ∈ fields, ∀ b, encodeColumn p.2 (x p.1) ≠ .blob b) :
    (env.json.object (jsonFields fields x)).isSome := by
  rw [Option.isSome_iff_ne_none]
  intro hnone
  obtain ⟨q, hq, b, hb⟩ := (env.json.object_eq_none _).1 hnone
  obtain ⟨p, hp, rfl⟩ := List.mem_map.1 hq
  exact h p hp b hb

/-- Every row has a name. -/
theorem entityId_isSome (hr : k.layout.RowOk x) : (triggerEntityId env k x).isSome := by
  have hkey : (env.json.object (jsonFields (keyFields k) x)).isSome := by
    refine object_isSome fun p hp => ?_
    obtain ⟨hpayload, hne⟩ := keyFields_payload k p hp
    exact encodeColumn_ne_blob hr hpayload fun _ hc => absurd hc hne
  rw [triggerEntityId]
  split
  · rfl
  · next key hform =>
      rw [← keyFields_of_json hform]
      exact hkey
  · next key hform =>
      rw [← keyFields_of_lowerJson hform, Option.isSome_map]
      exact hkey

/-! ## Finding a row by its name -/

/-- A row equals a typed value in a column as it is. -/
theorem columnEquals_iff {r : Row} (h : k.layout.RowOk x) (c : String) :
    columnEquals env k r (c, x c) = true ↔ r c ≠ .null ∧ r c = x c := by
  rw [columnEquals]
  simp only [Bool.and_eq_true, decide_eq_true_eq]
  cases hcol : k.layout.column? c with
  | none => exact Iff.rfl
  | some col => simp only [env.affinity.convert_self _ _ (h.typed c col hcol), Option.getD_some]

/-- Conditions on the columns of the key pick the rows of that key. -/
theorem all_columnEquals (h : k.layout.RowOk x) {conditions : Assignments}
    (hperm : conditions.Perm (k.layout.primaryKey.map fun c => (c, x c))) (r : Row) :
    conditions.all (columnEquals env k r) = k.layout.same r x := by
  rw [Bool.eq_iff_iff, List.all_eq_true, Layout.same, agree_iff]
  constructor
  · intro hall c hc
    exact (columnEquals_iff h c).1 (hall _ (hperm.mem_iff.2 (List.mem_map_of_mem hc)))
  · intro hagree p hp
    obtain ⟨c, hc, rfl⟩ := List.mem_map.1 (hperm.mem_iff.1 hp)
    exact (columnEquals_iff h c).2 (hagree c hc)

/-- A statement that names emitted columns names columns of the table. -/
theorem unknown?_eq_none {values : Assignments} (h : ∀ p ∈ values, p.1 ∈ k.emitted) :
    k.layout.unknown? values = none := by
  rw [Layout.unknown?, List.find?_eq_none]
  intro c hc hnone
  obtain ⟨p, hp, rfl⟩ := List.mem_map.1 hc
  have hsome := k.emitted_subset p.1 (h p hp)
  rw [Option.isNone_iff_eq_none.1 hnone] at hsome
  cases hsome

theorem deleteMatching_eq {now : String} {db : Db} (h : k.layout.RowOk x)
    {conditions : Assignments}
    (hperm : conditions.Perm (k.layout.primaryKey.map fun c => (c, x c))) :
    deleteMatching env now k conditions db =
      deleteFrom env now k (fun r => k.layout.same r x) db := by
  have hknown : k.layout.unknown? conditions = none := by
    refine unknown?_eq_none fun p hp => ?_
    obtain ⟨c, hc, rfl⟩ := List.mem_map.1 (hperm.mem_iff.1 hp)
    exact (k.primaryKey_emitted c hc).1
  have hcond : (fun r => conditions.all (columnEquals env k r)) =
      fun r => k.layout.same r x := funext (all_columnEquals h hperm)
  rw [deleteMatching, hknown]
  simp only [hcond]

/-- Members named like columns that the triggers emit have safe names. -/
theorem find?_unsafe {members : List (String × Json)} (h : ∀ m ∈ members, m.1 ∈ k.emitted) :
    (members.find? fun m => !isIdentifier m.1) = none := by
  rw [List.find?_eq_none]
  intro m hm
  rw [isIdentifier_emitted k m.1 (h m hm)]
  exact fun hfalse => by cases hfalse

/-- **A NAME FINDS ITS ROW.** Deleting by the name of a row deletes the rows of its
    key. -/
theorem deleteEntity_eq {now i : String} {db : Db} (h : Sendable k x)
    (hi : triggerEntityId env k x = some i) :
    deleteEntity env now k i db =
      statement (deleteFrom env now k (fun r => k.layout.same r x) db) := by
  rcases entityId_cases h hi with ⟨hkey, b, hb, h16, rfl⟩ | ⟨hnames, htext⟩
  · have hhex : fromHex (HexText.encode b) = some b := by
      rw [fromHex, HexText.decode_encode, Option.filter_some, if_pos (decide_eq_true h16)]
    rw [deleteEntity]
    split
    · next key hparse => exact absurd hparse (parse_encode_ne_obj b key)
    · rw [hhex]
      simp only
      rw [deleteMatching_eq h.ok]
      rw [hkey, List.map_singleton, hb]
  · obtain ⟨members, hparse, hperm⟩ := bound_object h (fun p hp => (keyFields_payload k p hp).1)
      (keyFields_nodup hnames) htext
    have hbound : (members.map fun m => (m.1, sqlValue env m.1 m.2)).Perm
        (k.layout.primaryKey.map fun c => (c, x c)) := by
      rw [← hnames, List.map_map]
      exact hperm
    have hemitted : ∀ m ∈ members, m.1 ∈ k.emitted := by
      intro m hm
      obtain ⟨c, hc, heq⟩ := List.mem_map.1 (hbound.mem_iff.1 (List.mem_map_of_mem hm))
      rw [← (Prod.mk.inj heq).1]
      exact (k.primaryKey_emitted c hc).1
    have hne : members.isEmpty = false := by
      rw [List.isEmpty_eq_false_iff]
      rintro rfl
      exact primaryKey_ne_nil k (List.map_eq_nil_iff.1 (List.nil_perm.1 hbound))
    simp only [deleteEntity, hparse, find?_unsafe hemitted, hne, Bool.false_eq_true, if_false,
      deleteMatching_eq h.ok hbound]

end Values

end SyncWire

import Livtet.Payloads

/-! # Local edits under the audit triggers

    A trigger runs inside the statement that fires it: where it fails, the edit fails. Of
    all the values a trigger puts into its JSON only one can be a blob, the condition of
    an owned edition, and `json_object` refuses it. So an edit that the tables accept
    goes through, and is logged, unless it writes an owned edition with a condition or
    deletes one, be it on the way of a cascade.

    The audited run of a statement is compared with the run of the same statement while
    the triggers are switched off: it reaches the same tables, or stops at a trigger. -/

namespace SyncAudit

open SqlRows JsonText SyncSchema SyncStore SyncEngine SyncWire SyncContents SyncApplied
open SyncHistory SyncReordered SyncPush SyncPayloads Outcomes

/-! ## The one id that is not written in hex -/

/-- The row is no owned edition with a condition. -/
def Plain (k : SyncableEntityKind) (r : Row) : Prop :=
  k = .ownedEdition → r "condition_id" = .null

theorem condition_emitted :
    ("condition_id", Encoding.raw) ∈ SyncableEntityKind.ownedEdition.auditTrigger.payload ∧
      (SyncableEntityKind.ownedEdition.layout.column? "condition_id").map Column.type =
        some .blob := by
  decide

theorem ownedEdition_audited : SyncableEntityKind.ownedEdition.auditTrigger.onUpdate = true := by
  decide

/-- A trigger can write a row unless it is an owned edition with a condition. -/
theorem payload_isSome_iff {env : Env} {k : SyncableEntityKind} {r : Row} (hr : k.layout.RowOk r) :
    (triggerPayload env k r).isSome ↔ Plain k r := by
  constructor
  · rintro hsome rfl
    obtain ⟨hmem, htype⟩ := condition_emitted
    obtain ⟨col, hcol, htype⟩ := Option.map_eq_some_iff.1 htype
    rcases blob_or_null htype (hr.typed "condition_id" col hcol) with hnull | ⟨b, hb⟩
    · exact hnull
    · have hnone := (env.json.object_eq_none
        (jsonFields SyncableEntityKind.ownedEdition.auditTrigger.payload r)).2
        ⟨_, List.mem_map_of_mem hmem, b, hb⟩
      rw [triggerPayload, hnone] at hsome
      cases hsome
  · intro hplain
    refine object_isSome fun p hp => encodeColumn_ne_blob hr hp fun hk hc => ?_
    rw [hc]
    exact hplain hk

/-! ## With and without triggers -/

/-- The same tables, under whatever log. -/
structure Alike (a b : Db) : Prop where
  tables : a.tables = b.tables
  parents : a.parents = b.parents
  foreignKeys : a.foreignKeys = b.foreignKeys

/-- The statement took `a` to `a'`. From a database like `a` with triggers it succeeds
    exactly when `C` holds, and ends in a database like `a'`. -/
def Follows (f : Db → Except SqlError Db) (a a' : Db) (C : Prop) : Prop :=
  ∀ b, Alike a b → ¬ Suppressed b →
    (C → ∃ b', f b = .ok b') ∧ ∀ b', f b = .ok b' → C ∧ Alike a' b'

section Statements

variable {env : Env} {now : String} {k : SyncableEntityKind} {a a' b b' : Db}

theorem Alike.refl (a : Db) : Alike a a := ⟨rfl, rfl, rfl⟩

theorem Alike.setTable (h : Alike a b) (t : Table k.layout) :
    Alike (a.setTable k t) (b.setTable k t) where
  tables := by
    show Function.update a.tables k t = Function.update b.tables k t
    rw [h.tables]
  parents := h.parents
  foreignKeys := h.foreignKeys

theorem Alike.fire (h : Alike a b) {op : Operation} {r : Row}
    (hfire : fireTrigger env now k op r b = .ok b') : Alike a b' where
  tables := h.tables.trans (tables_of_fireTrigger hfire).symm
  parents := h.parents.trans (Echoed.fireTrigger hfire).parents.symm
  foreignKeys := h.foreignKeys.trans (Echoed.fireTrigger hfire).foreignKeys.symm

theorem Alike.hasParent (h : Alike a b) (fk : ForeignKey) (v : Value) :
    a.hasParent fk v = b.hasParent fk v := by
  simp only [Db.hasParent, h.tables, h.parents]

theorem Alike.requireParents (h : Alike a b) {fks : List ForeignKey} {r : Row}
    (ha : a.requireParents fks r = .ok a) : b.requireParents fks r = .ok b := by
  rw [requireParents_ok_iff] at ha ⊢
  intro hfk fk hmem
  rw [← h.hasParent]
  exact ha (h.foreignKeys.trans hfk) fk hmem

theorem Alike.referencing (h : Alike a b) (child : SyncableEntityKind) (fk : ForeignKey) (r : Row) :
    a.referencing child fk r = b.referencing child fk r := by
  rw [Db.referencing, Db.referencing, h.tables]

/-- A trigger that is on succeeds on the rows it can write. -/
theorem fireTrigger_iff {op : Operation} {r : Row} (hr : k.layout.RowOk r) (hb : ¬ Suppressed b) :
    (∃ b', fireTrigger env now k op r b = .ok b') ↔ Plain k r := by
  constructor
  · rintro ⟨b', hfire⟩
    rcases fireTrigger_eq_ok hfire hb with ⟨_, hquiet, _⟩ | ⟨i, payload, _, hpayload, _⟩
    · rintro rfl
      rw [ownedEdition_audited] at hquiet
      cases hquiet
    · exact (payload_isSome_iff hr).1 (Option.isSome_iff_exists.2 ⟨payload, hpayload⟩)
  · intro hplain
    exact exists_fireTrigger now op (s := ⟨r, hr⟩) (Or.inr ((payload_isSome_iff hr).2 hplain))

/-- **AN INSERT** of a row that the tables accept succeeds when the row can be logged. -/
theorem insertRow_follows {r : k.layout.StoredRow} (ha : Suppressed a)
    (h : insertRow env now k r a = .ok a') :
    Follows (insertRow env now k r) a a' (Plain k r.val) := by
  intro b hab hb
  obtain ⟨t, ht, hfire, hrequire⟩ := insertRow_eq_ok_iff.1 h
  rw [Blind.fireTrigger_suppressed (show Suppressed (a.setTable k t) from ha)] at hfire
  obtain rfl := Except.ok.inj hfire
  have htb : (b.tables k).insert r = .ok t := by
    rw [← hab.tables]
    exact ht
  have hset := hab.setTable t
  have hloud : ¬ Suppressed (b.setTable k t) := hb
  constructor
  · intro hplain
    obtain ⟨b', hfire⟩ := (fireTrigger_iff r.property hloud).2 hplain
    exact ⟨b', insertRow_eq_ok_iff.2 ⟨t, htb, hfire, (hset.fire hfire).requireParents hrequire⟩⟩
  · intro b' hb'
    obtain ⟨t', ht', hfire, _⟩ := insertRow_eq_ok_iff.1 hb'
    rw [htb] at ht'
    cases Except.ok.inj ht'
    exact ⟨(fireTrigger_iff r.property hloud).1 ⟨_, hfire⟩, hset.fire hfire⟩

/-- An update left children behind under the old id of its row. -/
def Strands (db : Db) (k : SyncableEntityKind) (old s : Row) : Prop :=
  (db.foreignKeys && decide (old "id" ≠ s "id") &&
    k.references.any fun p => !(db.referencing p.1 p.2 old).isEmpty) = true

theorem Alike.strands (h : Alike a b) {old s : Row} : Strands a k old s ↔ Strands b k old s := by
  simp only [Strands, h.foreignKeys, h.referencing]

/-- **AN UPDATE** that the tables accept succeeds when the new row can be logged. -/
theorem updateRow_follows {old : k.layout.StoredRow} {new : Row} (ha : Suppressed a)
    (h : updateRow env now k old new a = .ok a') :
    ∃ s t, (a.tables k).update env.affinity old new = .ok (s, t) ∧ a' = a.setTable k t ∧
      Follows (updateRow env now k old new) a a' (Plain k s.val) := by
  obtain ⟨s, t, ht, hfire, hparents, hstrands⟩ := updateRow_eq_ok_iff.1 h
  rw [Blind.fireTrigger_suppressed (show Suppressed (a.setTable k t) from ha)] at hfire
  obtain rfl := Except.ok.inj hfire
  refine ⟨s, t, ht, rfl, ?_⟩
  intro b hab hb
  have htb : (b.tables k).update env.affinity old new = .ok (s, t) := by
    rw [← hab.tables]
    exact ht
  have hset := hab.setTable t
  have hloud : ¬ Suppressed (b.setTable k t) := hb
  constructor
  · intro hplain
    obtain ⟨b', hfire⟩ := (fireTrigger_iff s.property hloud).2 hplain
    have hlike := hset.fire hfire
    exact ⟨b', updateRow_eq_ok_iff.2 ⟨s, t, htb, hfire, hlike.requireParents hparents,
      fun hb' => hstrands (hlike.strands.2 hb')⟩⟩
  · intro b' hb'
    obtain ⟨s', t', ht', hfire, _⟩ := updateRow_eq_ok_iff.1 hb'
    rw [htb] at ht'
    obtain ⟨rfl, rfl⟩ := Prod.mk.inj (Except.ok.inj ht')
    exact ⟨(fireTrigger_iff s.property hloud).1 ⟨_, hfire⟩, hset.fire hfire⟩

end Statements

/-! ## Deletes -/

/-- The owned editions that went between two states have no condition. -/
def PlainLost (a a' : Db) : Prop :=
  ∀ e ∈ held a, e.1 = .ownedEdition → e ∉ held a' → Plain e.1 e.2.val

/-- A statement that may delete rows and is asked to delete those of `E`: no owned edition
    comes in, those of `E` go, and with triggers it succeeds exactly when the rows of `E`
    and the owned editions that go can be logged. `W` holds the owned editions there ever
    were, one for each key. -/
structure Judged (W E : Set Entry) (f : Db → Except SqlError Db) : Prop where
  echoed : ∀ {db db'}, f db = .ok db' → Echoed db db'
  shrinks : ∀ {a a'}, f a = .ok a' → ∀ e ∈ held a', e.1 = .ownedEdition →
    e ∈ held a ∧ ∀ d ∈ E, d.key ≠ e.key
  follows : ∀ {a a'}, Suppressed a → (∀ e ∈ held a, e.1 = .ownedEdition → e ∈ W) →
    (∀ d ∈ E, d.1 = .ownedEdition → d ∈ W) → f a = .ok a' →
      Follows f a a' (PlainLost a a' ∧ ∀ d ∈ E, Plain d.1 d.2.val)

section Deletes

variable {env : Env} {now : String} {W E F : Set Entry} {k : SyncableEntityKind} {a a' m : Db}
  {f g : Db → Except SqlError Db}

theorem PlainLost.refl (a : Db) : PlainLost a a := fun _ he _ hno => absurd he hno

/-- What goes in two steps goes in one of them. -/
theorem plainLost_trans (hfirst : ∀ e ∈ held m, e.1 = .ownedEdition → e ∈ held a)
    (hsecond : ∀ e ∈ held a', e.1 = .ownedEdition → e ∈ held m) :
    PlainLost a a' ↔ PlainLost a m ∧ PlainLost m a' := by
  constructor
  · intro h
    refine ⟨fun e he hk hno => h e he hk fun he' => hno (hsecond e he' hk), ?_⟩
    exact fun e he hk hno => h e (hfirst e he hk) hk hno
  · rintro ⟨h, h'⟩ e he hk hno
    by_cases hm : e ∈ held m
    · exact h' e hm hk hno
    · exact h e he hk hm

/-- One statement after the other. -/
theorem Judged.seq (hf : Judged W E f) (hg : Judged W F g) :
    Judged W (E ∪ F) fun db => f db >>= g where
  echoed h := by
    obtain ⟨mid, hmid, h⟩ := bind_eq_ok.1 h
    exact (hf.echoed hmid).trans (hg.echoed h)
  shrinks h e he hk := by
    obtain ⟨mid, hmid, h⟩ := bind_eq_ok.1 h
    obtain ⟨hemid, hF⟩ := hg.shrinks h e he hk
    obtain ⟨hea, hE⟩ := hf.shrinks hmid e hemid hk
    exact ⟨hea, fun d hd => hd.elim (hE d) (hF d)⟩
  follows := by
    intro a a' ha hW hEF h b hab hb
    obtain ⟨m, hm, h⟩ := bind_eq_ok.1 h
    have hWm : ∀ e ∈ held m, e.1 = .ownedEdition → e ∈ W :=
      fun e he hk => hW e (hf.shrinks hm e he hk).1 hk
    have hfirst := hf.follows ha hW (fun d hd => hEF d (Or.inl hd)) hm b hab hb
    have hsecond := hg.follows (ha.of_echoed (hf.echoed hm)) hWm (fun d hd => hEF d (Or.inr hd)) h
    -- what is lost on the way is lost in the first part or in the second
    have hlost := plainLost_trans (fun e he hk => (hf.shrinks hm e he hk).1)
      (fun e he hk => (hg.shrinks h e he hk).1)
    have hloud : ∀ mb, f b = .ok mb → ¬ Suppressed mb := by
      intro mb hmb
      rw [Suppressed, (hf.echoed hmb).syncApply]
      exact hb
    constructor
    · rintro ⟨hplain, hall⟩
      obtain ⟨hplain, hplain'⟩ := hlost.1 hplain
      obtain ⟨mb, hmb⟩ := hfirst.1 ⟨hplain, fun d hd => hall d (Or.inl hd)⟩
      have hlike := (hfirst.2 mb hmb).2
      obtain ⟨b', hb'⟩ := (hsecond mb hlike (hloud mb hmb)).1
        ⟨hplain', fun d hd => hall d (Or.inr hd)⟩
      exact ⟨b', bind_eq_ok.2 ⟨mb, hmb, hb'⟩⟩
    · intro b' hb'
      obtain ⟨mb, hmb, hb'⟩ := bind_eq_ok.1 hb'
      obtain ⟨⟨hplain, hE⟩, hlike⟩ := hfirst.2 mb hmb
      obtain ⟨⟨hplain', hF⟩, hlike'⟩ := (hsecond mb hlike (hloud mb hmb)).2 b' hb'
      exact ⟨⟨hlost.2 ⟨hplain, hplain'⟩, fun d hd => hd.elim (hE d) (hF d)⟩, hlike'⟩

/-- A list of statements. -/
theorem Judged.fold {α : Type} {step : Db → α → Except SqlError Db} {E : α → Set Entry} :
    ∀ xs : List α, (∀ x ∈ xs, Judged W (E x) fun db => step db x) →
      Judged W {d | ∃ x ∈ xs, d ∈ E x} fun db => xs.foldlM step db := by
  intro xs
  induction xs with
  | nil =>
      intro _
      refine ⟨?_, ?_, ?_⟩
      · intro db db' h
        cases Except.ok.inj h
        exact Echoed.refl db
      · rintro a a' h e he hk
        cases Except.ok.inj h
        exact ⟨he, fun d hd => by simp at hd⟩
      · intro a a' _ _ _ h b hab _
        cases Except.ok.inj h
        refine ⟨fun _ => ⟨b, rfl⟩, fun b' hb' => ?_⟩
        cases Except.ok.inj hb'
        exact ⟨⟨PlainLost.refl a, fun d hd => by simp at hd⟩, hab⟩
  | cons x rest ih =>
      intro hstep
      have hrest := ih fun y hy => hstep y (List.mem_cons_of_mem _ hy)
      have hseq := (hstep x List.mem_cons_self).seq hrest
      have hset : {d | ∃ y ∈ x :: rest, d ∈ E y} = E x ∪ {d | ∃ y ∈ rest, d ∈ E y} := by
        ext d
        simp
      rw [hset]
      simp only [List.foldlM_cons]
      exact hseq

/-- A foreign key that sets columns to NULL does not stand in an owned edition. -/
theorem setNull_child : ∀ k : SyncableEntityKind, ∀ p ∈ k.references, p.2.onDelete = .setNull →
    p.1 ≠ .ownedEdition := by
  decide

theorem held_of_updateRow {old : k.layout.StoredRow} {new : Row}
    (h : updateRow env now k old new a = .ok a') {e : Entry} (he : e.1 ≠ k) :
    e ∈ held a' ↔ e ∈ held a := by
  obtain ⟨s, t, _, hfire, _⟩ := updateRow_eq_ok_iff.1 h
  rw [held_of_tables (tables_of_fireTrigger hfire)]
  constructor
  · rintro (⟨_, hheld⟩ | ⟨x, _, rfl⟩)
    · exact hheld
    · exact absurd rfl he
  · exact fun hheld => Or.inl ⟨he, hheld⟩

theorem judged_update (hk : k ≠ .ownedEdition) (old : k.layout.StoredRow) (new : Row) :
    Judged W ∅ (updateRow env now k old new) where
  echoed := Echoed.updateRow
  shrinks h e he howned :=
    ⟨(held_of_updateRow h fun hek => hk (hek.symm.trans howned)).1 he, fun d hd => by cases hd⟩
  follows := by
    intro a a' ha _ _ h b hab hb
    obtain ⟨s, t, _, _, hfollows⟩ := updateRow_follows ha h
    have hplain : Plain k s.val := fun hko => absurd hko hk
    have hlost : PlainLost a a' := by
      intro e he howned hno
      exact absurd ((held_of_updateRow h fun hek => hk (hek.symm.trans howned)).2 he) hno
    obtain ⟨hok, hlike⟩ := hfollows b hab hb
    exact ⟨fun _ => hok hplain, fun b' hb' => ⟨⟨hlost, fun d hd => by cases hd⟩, (hlike b' hb').2⟩⟩

/-- What the removal of a row of low enough height is known to be. -/
def RemovalJudged (env : Env) (now : String) (W : Set Entry) (depth : Nat) : Prop :=
  ∀ (k : SyncableEntityKind) (r : k.layout.StoredRow), cascadeHeight k < depth →
    Judged W {⟨k, r⟩} (removeRow env now depth true k r)

/-- What a delete asks of one row that points to the deleted one. -/
def childAction (env : Env) (now : String) (depth : Nat) (p : SyncableEntityKind × ForeignKey)
    (db : Db) (child : p.1.layout.StoredRow) : Except SqlError Db :=
  match p.2.onDelete with
  | .cascade => removeRow env now depth true p.1 child db
  | .setNull => updateRow env now p.1 child (overlay child.val [(p.2.column, .null)]) db

theorem deleteAction_eq (depth : Nat) (r : k.layout.StoredRow)
    (p : SyncableEntityKind × ForeignKey) (db : Db) :
    deleteAction env now depth r db p =
      (db.referencing p.1 p.2 r.val).foldlM (childAction env now depth p) db := rfl

theorem judged_childAction {depth : Nat} (ih : RemovalJudged env now W depth)
    {p : SyncableEntityKind × ForeignKey} (hp : p ∈ k.references) (hdepth : cascadeHeight k ≤ depth)
    (child : p.1.layout.StoredRow) :
    Judged W {d | p.2.onDelete = .cascade ∧ d = ⟨p.1, child⟩}
      fun db => childAction env now depth p db child := by
  cases hdelete : p.2.onDelete with
  | cascade =>
      have hset : {d : Entry | OnDelete.cascade = .cascade ∧ d = ⟨p.1, child⟩} =
          {⟨p.1, child⟩} := by
        ext d
        simp
      rw [hset]
      simp only [childAction, hdelete]
      exact ih p.1 child (lt_of_lt_of_le (cascadeHeight_lt k p hp hdelete) hdepth)
  | setNull =>
      have hset : {d : Entry | OnDelete.setNull = .cascade ∧ d = ⟨p.1, child⟩} = ∅ := by
        ext d
        simp
      rw [hset]
      simp only [childAction, hdelete]
      exact judged_update (setNull_child k p hp hdelete) child _

/-- The rows that a foreign key leads to: those that a cascade removes are gone afterwards,
    so they are among the lost ones. -/
theorem judged_deleteAction {depth : Nat} (ih : RemovalJudged env now W depth)
    (r : k.layout.StoredRow) {p : SyncableEntityKind × ForeignKey} (hp : p ∈ k.references)
    (hdepth : cascadeHeight k ≤ depth) :
    Judged W ∅ fun db => deleteAction env now depth r db p := by
  have hfold := fun children : List p.1.layout.StoredRow =>
    Judged.fold children fun child _ => judged_childAction ih hp hdepth child
  refine ⟨echoed_deleteAction, ?_, ?_⟩
  · intro a a' h e he howned
    exact ⟨((hfold (a.referencing p.1 p.2 r.val)).shrinks h e he howned).1, fun d hd => by cases hd⟩
  · intro a a' ha hW _ h b hab hb
    have hchild : ∀ d ∈ {d : Entry | ∃ c ∈ a.referencing p.1 p.2 r.val,
        d ∈ {d : Entry | p.2.onDelete = .cascade ∧ d = ⟨p.1, c⟩}}, d ∈ held a := by
      rintro d ⟨c, hc, _, rfl⟩
      exact (mem_referencing.1 hc).1
    obtain ⟨hok, hlike⟩ := (hfold (a.referencing p.1 p.2 r.val)).follows ha hW
      (fun d hd howned => hW d (hchild d hd) howned) h b hab hb
    dsimp only at hok hlike ⊢
    rw [deleteAction_eq, ← hab.referencing]
    constructor
    · rintro ⟨hlost, _⟩
      refine hok ⟨hlost, fun d hd howned => ?_⟩
      refine hlost d (hchild d hd) howned (fun hgone => ?_) howned
      exact ((hfold (a.referencing p.1 p.2 r.val)).shrinks h d hgone howned).2 d hd rfl
    · intro b' hb'
      obtain ⟨⟨hlost, _⟩, hlike⟩ := hlike b' hb'
      exact ⟨⟨hlost, fun d hd => by cases hd⟩, hlike⟩

theorem judged_deleteActions {depth : Nat} (ih : RemovalJudged env now W depth)
    (r : k.layout.StoredRow) (hdepth : cascadeHeight k ≤ depth) :
    Judged W ∅ (deleteActions env now (removeRow env now depth true) k r) := by
  have hfold := Judged.fold (W := W) (E := fun _ => ∅) k.references fun p hp =>
    judged_deleteAction ih r hp hdepth
  have hset : {d : Entry | ∃ p ∈ k.references, d ∈ (∅ : Set Entry)} = ∅ := by
    ext d
    simp
  rw [hset] at hfold
  refine ⟨Echoed.deleteActions fun _ _ _ _ => Echoed.removeRow depth, ?_, ?_⟩
  · intro a a' h e he howned
    rw [deleteActions] at h
    split at h
    · exact hfold.shrinks h e he howned
    · cases Except.ok.inj h
      exact ⟨he, fun d hd => by cases hd⟩
  · intro a a' ha hW hE h b hab hb
    rw [deleteActions] at h
    split at h
    · next hfk =>
        rw [deleteActions, if_pos (hab.foreignKeys.symm.trans hfk)]
        exact hfold.follows ha hW hE h b hab hb
    · next hfk =>
        cases Except.ok.inj h
        have hoff : ¬ b.foreignKeys = true := by
          rw [← hab.foreignKeys]
          exact hfk
        rw [deleteActions, if_neg hoff]
        refine ⟨fun _ => ⟨b, rfl⟩, fun b' hb' => ?_⟩
        cases Except.ok.inj hb'
        exact ⟨⟨PlainLost.refl a, fun d hd => by cases hd⟩, hab⟩

/-- The row of the key of `r` goes first, the others with what follows. -/
theorem plainLost_erase (hW : Set.InjOn Entry.key W) {r : k.layout.StoredRow}
    (hsub : ∀ e ∈ held a, e.1 = .ownedEdition → e ∈ W)
    (hr : k = .ownedEdition → (⟨k, r⟩ : Entry) ∈ W) (hplain : Plain k r.val) :
    PlainLost a a' ↔ PlainLost (a.setTable k ((a.tables k).erase r)) a' := by
  constructor
  · intro hlost e he
    exact hlost e ((held_erase rfl e).1 he).1
  · intro hlost e he howned hno
    by_cases hkey : Entry.key ⟨k, r⟩ = e.key
    · have hk : k = e.1 := congrArg Prod.fst hkey
      rw [← hW (hr (hk.trans howned)) (hsub e he howned) hkey]
      exact hplain
    · exact hlost e ((held_erase rfl e).2 ⟨he, hkey⟩) howned hno

/-- **A DELETE** that the tables accept succeeds when its row and the owned editions that
    go with it can be logged, given that of the removals one level down. -/
theorem judged_removeRow {depth : Nat} (hW : Set.InjOn Entry.key W)
    (ih : RemovalJudged env now W depth) (r : k.layout.StoredRow)
    (hdepth : cascadeHeight k ≤ depth) :
    Judged W {⟨k, r⟩} (removeRow env now (depth + 1) true k r) := by
  have hactions := judged_deleteActions ih r hdepth
  refine ⟨Echoed.removeRow (depth + 1), ?_, ?_⟩
  · intro a a' h e he howned
    obtain ⟨mid, hmid, hfire⟩ := removeRow_eq_ok_iff.1 h
    rw [held_congr (tables_of_fireTrigger hfire)] at he
    obtain ⟨hea, hkey⟩ := (held_erase rfl e).1 (hactions.shrinks hmid e he howned).1
    refine ⟨hea, fun d hd => ?_⟩
    rw [Set.mem_singleton_iff.1 hd]
    exact hkey
  · intro a a' ha hsub hr h b hab hb
    obtain ⟨mid, hmid, hfire⟩ := removeRow_eq_ok_iff.1 h
    have hset : Suppressed (a.setTable k ((a.tables k).erase r)) := ha
    -- the quiet run ends where its actions end, since its trigger writes nothing
    rw [Blind.fireTrigger_suppressed (hset.of_echoed (hactions.echoed hmid))] at hfire
    cases Except.ok.inj hfire
    have hlike : Alike (a.setTable k ((a.tables k).erase r))
        (b.setTable k ((b.tables k).erase r)) := by
      rw [← hab.tables]
      exact hab.setTable _
    obtain ⟨hok, hend⟩ := hactions.follows hset
      (fun e he howned => hsub e ((held_erase rfl e).1 he).1 howned) (fun d hd => by cases hd) hmid _
      hlike hb
    have hloud : ∀ {mb}, deleteActions env now (removeRow env now depth true) k r
        (b.setTable k ((b.tables k).erase r)) = .ok mb → ¬ Suppressed mb := by
      intro mb hmb
      rw [Suppressed, (hactions.echoed hmb).syncApply]
      exact hb
    have hlost : Plain k r.val →
        (PlainLost a a' ↔ PlainLost (a.setTable k ((a.tables k).erase r)) a') :=
      plainLost_erase hW hsub (hr ⟨k, r⟩ rfl)
    constructor
    · rintro ⟨hplainLost, hall⟩
      have hplain : Plain k r.val := hall ⟨k, r⟩ rfl
      obtain ⟨mb, hmb⟩ := hok ⟨(hlost hplain).1 hplainLost, fun d hd => by cases hd⟩
      obtain ⟨b', hfire'⟩ := (fireTrigger_iff r.property (hloud hmb)).2 hplain
      exact ⟨b', removeRow_eq_ok_iff.2 ⟨mb, hmb, hfire'⟩⟩
    · intro b' hb'
      obtain ⟨mb, hmb, hfire'⟩ := removeRow_eq_ok_iff.1 hb'
      obtain ⟨⟨hplainLost, _⟩, hlike'⟩ := hend mb hmb
      have hplain : Plain k r.val := (fireTrigger_iff r.property (hloud hmb)).1 ⟨b', hfire'⟩
      refine ⟨⟨(hlost hplain).2 hplainLost, fun d hd => ?_⟩, hlike'.fire hfire'⟩
      rw [Set.mem_singleton_iff.1 hd]
      exact hplain

/-- By induction on the depth of the cascade. -/
theorem removalJudged (hW : Set.InjOn Entry.key W) :
    ∀ depth, RemovalJudged env now W depth := by
  intro depth
  induction depth with
  | zero =>
      intro k r hdepth
      exact absurd hdepth (Nat.not_lt_zero _)
  | succ depth ih =>
      intro k r hdepth
      exact judged_removeRow hW ih r (Nat.le_of_lt_succ hdepth)

end Deletes

/-! ## The owned editions that go with a row -/

/-- The row of `y` goes when the row of `e` is deleted, where `y` is an owned edition: it is
    that row, or it is a copy of the deleted edition, or of an edition of the deleted
    work. -/
def Takes (db : Db) (e y : Entry) : Prop :=
  y = e ∨ (db.foreignKeys = true ∧
    ((e.1 = .edition ∧ y.2.val "edition_id" = e.2.val "id") ∨
      (e.1 = .work ∧ ∃ c ∈ (db.tables .edition).rows,
        c.val "work_id" = e.2.val "id" ∧ y.2.val "edition_id" = c.val "id")))

/-- The action of the foreign key leaves the table `j` alone: it stands in another table,
    and does not lead further. -/
def Harmless (j : SyncableEntityKind) (p : SyncableEntityKind × ForeignKey) : Prop :=
  p.1 ≠ j ∧ (p.2.onDelete = .setNull ∨ p.1.references = [])

instance (j : SyncableEntityKind) (p : SyncableEntityKind × ForeignKey) :
    Decidable (Harmless j p) :=
  inferInstanceAs (Decidable (_ ∧ _))

theorem harmless_references : ∀ k : SyncableEntityKind, k ≠ .work → k ≠ .edition →
    ∀ p ∈ k.references, Harmless .ownedEdition p := by
  decide

theorem edition_references : ∀ p ∈ SyncableEntityKind.edition.references,
    Harmless .ownedEdition p ∨
      p = (.ownedEdition, ⟨"edition_id", .synced .edition, .cascade⟩) := by
  decide

theorem mem_edition_references :
    ((.ownedEdition, ⟨"edition_id", .synced .edition, .cascade⟩) :
      SyncableEntityKind × ForeignKey) ∈ SyncableEntityKind.edition.references := by
  decide

theorem work_references : ∃ rest, SyncableEntityKind.work.references =
    (.edition, ⟨"work_id", .synced .work, .cascade⟩) :: rest ∧
      ∀ p ∈ rest, Harmless .ownedEdition p :=
  ⟨SyncableEntityKind.work.references.tail, by decide, by decide⟩

section Gone

variable {env : Env} {now : String} {k j : SyncableEntityKind} {db db' : Db} {depth : Nat}

theorem removeRow_leaf (hleaf : k.references = []) (hj : k ≠ j) {audited : Bool}
    {r : k.layout.StoredRow} (h : removeRow env now depth audited k r db = .ok db') :
    db'.tables j = db.tables j := by
  cases depth with
  | zero =>
      cases Except.ok.inj h
      rfl
  | succ depth =>
      obtain ⟨mid, hactions, hfire⟩ := bind_eq_ok.1 h
      have hmid : mid = db.setTable k ((db.tables k).erase r) := by
        rw [deleteActions, hleaf] at hactions
        split at hactions
        · exact (Except.ok.inj hactions).symm
        · exact (Except.ok.inj hactions).symm
      have htables : db'.tables = mid.tables := by
        split at hfire
        · exact tables_of_fireTrigger hfire
        · cases Except.ok.inj hfire
          rfl
      rw [htables, hmid]
      exact Function.update_of_ne hj.symm ..

theorem childAction_frame {p : SyncableEntityKind × ForeignKey} (hp : Harmless j p)
    {child : p.1.layout.StoredRow} (h : childAction env now depth p db child = .ok db') :
    db'.tables j = db.tables j := by
  obtain ⟨hj, hend⟩ := hp
  unfold childAction at h
  split at h
  · next hcascade =>
      rcases hend with hnull | hleaf
      · rw [hcascade] at hnull
        cases hnull
      · exact removeRow_leaf hleaf hj h
  · obtain ⟨s, t, _, hfire, _⟩ := updateRow_eq_ok_iff.1 h
    rw [tables_of_fireTrigger hfire]
    exact Function.update_of_ne hj.symm ..

theorem deleteAction_frame {r : k.layout.StoredRow} {p : SyncableEntityKind × ForeignKey}
    (hp : Harmless j p) (h : deleteAction env now depth r db p = .ok db') :
    db'.tables j = db.tables j := by
  rw [deleteAction_eq] at h
  refine foldlM_invariant (fun mid => mid.tables j = db.tables j) ?_ h rfl
  intro mid child mid' _ hchild hmid
  exact (childAction_frame hp hchild).trans hmid

theorem deleteActions_frame {refs : List (SyncableEntityKind × ForeignKey)}
    {r : k.layout.StoredRow} (hrefs : ∀ p ∈ refs, Harmless j p)
    (h : refs.foldlM (deleteAction env now depth r) db = .ok db') :
    db'.tables j = db.tables j := by
  refine foldlM_invariant (fun mid => mid.tables j = db.tables j) ?_ h rfl
  intro mid p mid' hp hstep hmid
  exact (deleteAction_frame (hrefs p hp) hstep).trans hmid

/-- The actions of a delete, where foreign keys are enforced. -/
theorem removeRow_steps {r : k.layout.StoredRow}
    (h : removeRow env now (depth + 1) true k r db = .ok db') :
    ∃ mid, db'.tables = mid.tables ∧
      ((db.foreignKeys = true ∧ k.references.foldlM (deleteAction env now depth r)
          (db.setTable k ((db.tables k).erase r)) = .ok mid) ∨
        (db.foreignKeys = false ∧ mid = db.setTable k ((db.tables k).erase r))) := by
  obtain ⟨mid, hactions, hfire⟩ := removeRow_eq_ok_iff.1 h
  refine ⟨mid, tables_of_fireTrigger hfire, ?_⟩
  rw [deleteActions] at hactions
  split at hactions
  · next hon => exact Or.inl ⟨hon, hactions⟩
  · next hoff => exact Or.inr ⟨Bool.not_eq_true _ ▸ hoff, (Except.ok.inj hactions).symm⟩

/-- Only works and editions take other owned editions along. -/
theorem held_of_harmless (hrefs : ∀ p ∈ k.references, Harmless .ownedEdition p)
    {r : k.layout.StoredRow} (h : removeRow env now (depth + 1) true k r db = .ok db')
    {e : Entry} (he : e.1 = .ownedEdition) :
    e ∈ held db' ↔ e ∈ held db ∧ Entry.key ⟨k, r⟩ ≠ e.key := by
  obtain ⟨mid, htables, hmid⟩ := removeRow_steps h
  have howned : db'.tables .ownedEdition =
      (db.setTable k ((db.tables k).erase r)).tables .ownedEdition := by
    rw [htables]
    rcases hmid with ⟨_, hfold⟩ | ⟨_, rfl⟩
    · exact deleteActions_frame hrefs hfold
    · rfl
  rw [← held_erase rfl]
  obtain ⟨k', y⟩ := e
  cases he
  show y ∈ (db'.tables _).rows ↔ y ∈ ((db.setTable k ((db.tables k).erase r)).tables _).rows
  rw [howned]

/-- What a list of statements takes away is what each of them takes away. By induction on
    the list, while the foreign keys are enforced. -/
theorem held_fold {α : Type} {step : Db → α → Except SqlError Db} {Q : α → Entry → Prop} :
    ∀ (xs : List α) {db db' : Db},
      (∀ x ∈ xs, ∀ mid mid', mid.foreignKeys = true → step mid x = .ok mid' →
        mid'.foreignKeys = true ∧ ∀ e : Entry, e.1 = .ownedEdition →
          (e ∈ held mid' ↔ e ∈ held mid ∧ ¬ Q x e)) →
      db.foreignKeys = true → xs.foldlM step db = .ok db' →
        ∀ e : Entry, e.1 = .ownedEdition → (e ∈ held db' ↔ e ∈ held db ∧ ∀ x ∈ xs, ¬ Q x e) := by
  intro xs
  induction xs with
  | nil =>
      intro db db' _ _ h e _
      cases Except.ok.inj h
      simp
  | cons x rest ih =>
      intro db db' hstep hon h e he
      obtain ⟨mid, hx, h⟩ := foldlM_cons_eq_ok.1 h
      obtain ⟨hon', hmid⟩ := hstep x List.mem_cons_self db mid hon hx
      have hrest := ih (fun y hy => hstep y (List.mem_cons_of_mem _ hy)) hon' h e he
      rw [hrest, hmid e he, List.forall_mem_cons, and_assoc]

/-- The copies of a deleted edition go. -/
theorem held_copies {r : SyncableEntityKind.edition.layout.StoredRow}
    (hon : db.foreignKeys = true)
    (h : deleteAction env now (depth + 1) r db
      (.ownedEdition, ⟨"edition_id", .synced .edition, .cascade⟩) = .ok db')
    {e : Entry} (he : e.1 = .ownedEdition) :
    e ∈ held db' ↔ e ∈ held db ∧ e.2.val "edition_id" ≠ r.val "id" := by
  rw [deleteAction_eq] at h
  have hstep : ∀ c : SyncableEntityKind.ownedEdition.layout.StoredRow, ∀ mid mid',
      mid.foreignKeys = true → removeRow env now (depth + 1) true .ownedEdition c mid = .ok mid' →
        mid'.foreignKeys = true ∧ ∀ e : Entry, e.1 = .ownedEdition →
          (e ∈ held mid' ↔ e ∈ held mid ∧ ¬ Entry.key ⟨.ownedEdition, c⟩ = e.key) := by
    intro c mid mid' hmid hstep
    refine ⟨(Echoed.removeRow _ hstep).foreignKeys.trans hmid, fun e he => ?_⟩
    exact held_of_harmless (harmless_references .ownedEdition (by decide) (by decide)) hstep he
  rw [held_fold _ (fun c _ => hstep c) hon h e he]
  refine and_congr_right fun hheld => ?_
  obtain ⟨k', y⟩ := e
  cases he
  constructor
  · intro hall hid
    exact hall y (mem_referencing.2 ⟨hheld, hid⟩) rfl
  · intro hne c hc hkey
    obtain ⟨hrow, hid⟩ := mem_referencing.1 hc
    have hsame : (⟨.ownedEdition, c⟩ : Entry) = ⟨.ownedEdition, y⟩ :=
      injOn_key db (show (⟨.ownedEdition, c⟩ : Entry) ∈ held db from hrow) hheld hkey
    cases hsame
    exact hne hid

/-- A row of another table is not touched by an erase. -/
theorem held_erase_other {r : k.layout.StoredRow} {e : Entry} (he : e.1 ≠ k) :
    e ∈ held (db.setTable k ((db.tables k).erase r)) ↔ e ∈ held db := by
  rw [held_erase rfl, and_iff_left]
  exact fun hkey => he (congrArg Prod.fst hkey).symm

theorem held_of_frame (h : db'.tables .ownedEdition = db.tables .ownedEdition) {e : Entry}
    (he : e.1 = .ownedEdition) : e ∈ held db' ↔ e ∈ held db := by
  obtain ⟨k', y⟩ := e
  cases he
  show y ∈ (db'.tables _).rows ↔ y ∈ (db.tables _).rows
  rw [h]

/-- **A DELETED EDITION** takes its copies along. -/
theorem held_of_edition {r : SyncableEntityKind.edition.layout.StoredRow}
    (h : removeRow env now (depth + 2) true .edition r db = .ok db')
    {e : Entry} (he : e.1 = .ownedEdition) :
    e ∈ held db' ↔
      e ∈ held db ∧ ¬ (db.foreignKeys = true ∧ e.2.val "edition_id" = r.val "id") := by
  have hne : e.1 ≠ .edition := by
    rw [he]
    decide
  obtain ⟨mid, htables, hmid⟩ := removeRow_steps h
  rw [held_congr htables]
  rcases hmid with ⟨hon, hfold⟩ | ⟨hoff, rfl⟩
  · have hstep : ∀ p ∈ SyncableEntityKind.edition.references, ∀ mid mid',
        mid.foreignKeys = true → deleteAction env now (depth + 1) r mid p = .ok mid' →
          mid'.foreignKeys = true ∧ ∀ e : Entry, e.1 = .ownedEdition →
            (e ∈ held mid' ↔ e ∈ held mid ∧
              ¬ (p.1 = .ownedEdition ∧ e.2.val "edition_id" = r.val "id")) := by
      intro p hp mid mid' hmid hstep
      refine ⟨(echoed_deleteAction hstep).foreignKeys.trans hmid, fun e he => ?_⟩
      rcases edition_references p hp with hharmless | rfl
      · rw [held_of_frame (deleteAction_frame hharmless hstep) he, and_iff_left]
        exact fun hq => hharmless.1 hq.1
      · rw [held_copies hmid hstep he]
        simp
    have hstart : (db.setTable .edition ((db.tables .edition).erase r)).foreignKeys = true := hon
    rw [held_fold _ hstep hstart hfold e he, held_erase_other hne]
    refine and_congr_right fun _ => ?_
    constructor
    · exact fun hall hid => hall _ mem_edition_references ⟨rfl, hid.2⟩
    · exact fun hid p _ hq => hid ⟨hon, hq.2⟩
  · rw [held_erase_other hne, hoff]
    simp

/-- **A DELETED WORK** takes the copies of its editions along. -/
theorem held_of_work {r : SyncableEntityKind.work.layout.StoredRow}
    (h : removeRow env now (depth + 3) true .work r db = .ok db')
    {e : Entry} (he : e.1 = .ownedEdition) :
    e ∈ held db' ↔ e ∈ held db ∧ ¬ (db.foreignKeys = true ∧
      ∃ c ∈ (db.tables .edition).rows,
        c.val "work_id" = r.val "id" ∧ e.2.val "edition_id" = c.val "id") := by
  have hne : e.1 ≠ .work := by
    rw [he]
    decide
  obtain ⟨mid, htables, hmid⟩ := removeRow_steps h
  rw [held_congr htables]
  rcases hmid with ⟨hon, hfold⟩ | ⟨hoff, rfl⟩
  · obtain ⟨rest, hrefs, hharmless⟩ := work_references
    rw [hrefs] at hfold
    obtain ⟨mid', heditions, hrest⟩ := foldlM_cons_eq_ok.1 hfold
    rw [deleteAction_eq] at heditions
    -- each edition that goes takes its own copies, so the copies go by edition
    have hstep : ∀ c : SyncableEntityKind.edition.layout.StoredRow, ∀ mid mid',
        mid.foreignKeys = true → removeRow env now (depth + 2) true .edition c mid = .ok mid' →
          mid'.foreignKeys = true ∧ ∀ e : Entry, e.1 = .ownedEdition →
            (e ∈ held mid' ↔ e ∈ held mid ∧ ¬ e.2.val "edition_id" = c.val "id") := by
      intro c mid mid' hmid hstep
      refine ⟨(Echoed.removeRow _ hstep).foreignKeys.trans hmid, fun e he => ?_⟩
      rw [held_of_edition hstep he, hmid]
      simp
    have hstart : (db.setTable .work ((db.tables .work).erase r)).foreignKeys = true := hon
    have hchildren := held_fold _ (fun c _ => hstep c) hstart heditions e he
    rw [held_of_frame (deleteActions_frame hharmless hrest) he, hchildren, held_erase_other hne]
    have hother : SyncableEntityKind.edition ≠ .work := by decide
    have hrows : (db.setTable .work ((db.tables .work).erase r)).tables .edition =
        db.tables .edition :=
      Function.update_of_ne hother ((db.tables .work).erase r) db.tables
    have hreferencing : ∀ c : SyncableEntityKind.edition.layout.StoredRow,
        c ∈ (db.setTable .work ((db.tables .work).erase r)).referencing .edition
          ⟨"work_id", .synced .work, .cascade⟩ r.val ↔
        c ∈ (db.tables .edition).rows ∧ c.val "work_id" = r.val "id" := by
      intro c
      rw [← hrows]
      exact mem_referencing (p := (.edition, ⟨"work_id", .synced .work, .cascade⟩))
    refine and_congr_right fun _ => ?_
    constructor
    · rintro hall ⟨_, c, hc, hwork, hid⟩
      exact hall c ((hreferencing c).2 ⟨hc, hwork⟩) hid
    · intro hnot c hc hid
      obtain ⟨hrow, hwork⟩ := (hreferencing c).1 hc
      exact hnot ⟨hon, c, hrow, hwork, hid⟩
  · rw [held_erase_other hne, hoff]
    simp

/-- **WHICH OWNED EDITIONS GO** with a deleted row. -/
theorem takes_iff {r : k.layout.StoredRow} (hr : r ∈ (db.tables k).rows)
    (h : removeRow env now 3 true k r db = .ok db') {y : Entry} (hy : y ∈ held db)
    (howned : y.1 = .ownedEdition) : y ∉ held db' ↔ Takes db ⟨k, r⟩ y := by
  have hself : k ≠ .ownedEdition → y ≠ ⟨k, r⟩ := by
    rintro hk rfl
    exact hk howned
  have hgone : y ∈ held db' ↔ y ∈ held db ∧ ¬ Takes db ⟨k, r⟩ y := by
    by_cases hwork : k = .work
    · subst hwork
      rw [held_of_work h howned]
      refine and_congr_right fun _ => not_congr ?_
      simp [Takes, hself (by decide)]
    by_cases hedition : k = .edition
    · subst hedition
      rw [held_of_edition h howned]
      refine and_congr_right fun _ => not_congr ?_
      simp [Takes, hself (by decide)]
    · rw [held_of_harmless (harmless_references k hwork hedition) h howned]
      refine and_congr_right fun _ => not_congr ?_
      have hheld : (⟨k, r⟩ : Entry) ∈ held db := hr
      have hkey : Entry.key ⟨k, r⟩ = y.key ↔ y = ⟨k, r⟩ :=
        ⟨fun heq => (injOn_key db hheld hy heq).symm, fun heq => by rw [heq]⟩
      rw [hkey]
      simp [Takes, hwork, hedition]
  rw [hgone, not_and, not_not]
  exact ⟨fun himp => himp hy, fun htakes _ => htakes⟩

end Gone

/-! ## The log rows of a delete -/

/-- The row of `d` is gone: no row has its key. -/
def NoKey (d : Entry) (db : Db) : Prop := ∀ e ∈ held db, e.key ≠ d.key

/-- The rows that were added to the log do not name `d`. -/
def Unnamed (env : Env) (d : Entry) (db db' : Db) : Prop :=
  ∀ row ∈ db'.log.rows, row ∈ db.log.rows ∨ ¬ NamedBy env row d

/-- Rows that others point to are named by their id. -/
theorem hexId_of_references : ∀ k : SyncableEntityKind, k.references ≠ [] →
    k.auditTrigger.entityId = .hexId ∧ k.layout.primaryKey = ["id"] := by
  decide

/-- A column that is set to NULL is no part of a key. -/
theorem setNull_column : ∀ k : SyncableEntityKind, ∀ p ∈ k.references, p.2.onDelete = .setNull →
    p.2.column ∉ p.1.layout.primaryKey := by
  decide

section Names

variable {env : Env} {now : String} {k : SyncableEntityKind} {d : Entry} {db mid db' : Db}

theorem Unnamed.refl (env : Env) (d : Entry) (db : Db) : Unnamed env d db db :=
  fun _ hrow => Or.inl hrow

theorem Unnamed.trans (h : Unnamed env d db mid) (h' : Unnamed env d mid db') :
    Unnamed env d db db' :=
  fun row hrow => (h' row hrow).elim (h row) Or.inr

/-- The id that is the primary key of a row is there. -/
theorem id_blob (hprimary : k.layout.primaryKey = ["id"]) (z : k.layout.StoredRow) :
    ∃ bytes, z.val "id" = .blob bytes := by
  have hmem : "id" ∈ k.layout.primaryKey := by
    rw [hprimary]
    exact List.mem_cons_self
  obtain ⟨p, hp, hname⟩ := List.mem_map.1 (k.primaryKey_emitted "id" hmem).1
  obtain ⟨col, _, hcol, hid, _⟩ := payload_column k p hp
  rw [hname] at hcol hid
  rcases blob_or_null (hid.2 rfl) (z.property.typed "id" col hcol) with hnull | hbytes
  · exact absurd hnull (key_ne_null z.property hmem)
  · exact hbytes

/-- A row of another key has another name. -/
theorem unnamed_fireTrigger (hd : d.1.references ≠ []) {op : Operation} {x : k.layout.StoredRow}
    (hkey : Entry.key ⟨k, x⟩ ≠ d.key) (h : fireTrigger env now k op x.val db = .ok db') :
    Unnamed env d db db' := by
  intro row hrow
  by_cases hquiet : Suppressed db
  · rw [Blind.fireTrigger_suppressed hquiet] at h
    cases Except.ok.inj h
    exact Or.inl hrow
  rcases fireTrigger_eq_ok h hquiet with ⟨_, _, rfl⟩ | ⟨i, payload, hi, _, rfl⟩
  · exact Or.inl hrow
  rcases List.mem_append.1 hrow with hold | hnew
  · exact Or.inl hold
  cases List.mem_singleton.1 hnew
  refine Or.inr fun hnamed => hkey ?_
  obtain ⟨k', y⟩ := d
  obtain ⟨htype, hid⟩ := hnamed
  have hk : k = k' := by
    by_contra hne
    exact SyncableEntityKind.entityTypeName_ne hne htype
  subst hk
  obtain ⟨hform, hprimary⟩ := hexId_of_references k hd
  have hname : ∀ z : k.layout.StoredRow,
      triggerEntityId env k z.val = some (lowerHex (z.val "id")) := by
    intro z
    rw [triggerEntityId, hform]
  have hhex : lowerHex (x.val "id") = lowerHex (y.val "id") := by
    rw [hname] at hi hid
    exact (Option.some.inj hi).trans (Option.some.inj hid).symm
  obtain ⟨bytes, hx⟩ := id_blob hprimary x
  obtain ⟨bytes', hy⟩ := id_blob hprimary y
  rw [hx, hy] at hhex
  have hbytes : bytes = bytes' := HexText.encode_injective hhex
  rw [Entry.key, Entry.key, hprimary, List.map_singleton, List.map_singleton, hx, hy, hbytes]

/-- Setting a column outside the key to NULL names the row by its key, and keeps the keys. -/
theorem spares_update (hd : d.1.references ≠ []) {old : k.layout.StoredRow} {c : String}
    (hc : c ∉ k.layout.primaryKey) (hold : Entry.key ⟨k, old⟩ ≠ d.key) (hno : NoKey d db)
    (h : updateRow env now k old (overlay old.val [(c, .null)]) db = .ok db') :
    NoKey d db' ∧ Unnamed env d db db' := by
  obtain ⟨s, t, ht, hfire, _⟩ := updateRow_eq_ok_iff.1 h
  have hs : s.val = k.layout.stored env.affinity (overlay old.val [(c, .null)]) ∧
      ∀ x ∈ t.rows, x = s ∨ x ∈ (db.tables k).rows := by
    obtain ⟨hstore, hclash, rfl⟩ := Table.update_eq_ok_iff.1 ht
    refine ⟨(Layout.store_eq_ok hstore).2, fun x hx => ?_⟩
    obtain ⟨y, hy, hyx⟩ := List.mem_map.1 hx
    split at hyx
    · exact Or.inl hyx.symm
    · exact Or.inr (hyx ▸ hy)
  have hkey : Entry.key ⟨k, s⟩ = Entry.key ⟨k, old⟩ := by
    refine key_eq_iff.2 ((same_iff s.property).2 fun column hcolumn => ?_)
    rw [hs.1]
    refine stored_key hcolumn (overlay_eq_self fun p hp hname => ?_)
    cases List.mem_singleton.1 hp
    cases hname
    exact absurd hcolumn hc
  constructor
  · intro e he
    rcases (held_of_tables (tables_of_fireTrigger hfire)).1 he with ⟨_, hheld⟩ | ⟨x, hx, rfl⟩
    · exact hno e hheld
    · rcases hs.2 x hx with rfl | hx
      · rw [hkey]
        exact hold
      · exact hno ⟨k, x⟩ hx
  · have hset : Unnamed env d (db.setTable k t) db' := unnamed_fireTrigger hd (hkey ▸ hold) hfire
    exact hset

/-- The actions of a delete spare `d`, when the removals they ask for do. -/
theorem spares_deleteActions_of (hd : d.1.references ≠ []) {depth : Nat}
    (ih : ∀ {k : SyncableEntityKind} {x : k.layout.StoredRow} {db db' : Db},
      Entry.key ⟨k, x⟩ ≠ d.key → NoKey d db →
        removeRow env now depth true k x db = .ok db' → NoKey d db' ∧ Unnamed env d db db')
    {r : k.layout.StoredRow} (hno : NoKey d db)
    (h : deleteActions env now (removeRow env now depth true) k r db = .ok db') :
    NoKey d db' ∧ Unnamed env d db db' := by
  rw [deleteActions] at h
  split at h
  · refine foldlM_invariant (fun mid => NoKey d mid ∧ Unnamed env d db mid) ?_ h
      ⟨hno, Unnamed.refl env d db⟩
    intro mid p mid' hp haction hmid
    refine foldlM_invariant (fun mid => NoKey d mid ∧ Unnamed env d db mid) ?_ haction hmid
    intro t child t' hchild hstep ht
    -- the child was there when the action began, so it is not `d`
    have hkey : Entry.key ⟨p.1, child⟩ ≠ d.key := hmid.1 ⟨p.1, child⟩ (mem_referencing.1 hchild).1
    split at hstep
    · obtain ⟨hno', hunnamed⟩ := ih hkey ht.1 hstep
      exact ⟨hno', ht.2.trans hunnamed⟩
    · next hnull =>
        obtain ⟨hno', hunnamed⟩ := spares_update hd (setNull_column k p hp hnull) hkey ht.1 hstep
        exact ⟨hno', ht.2.trans hunnamed⟩
  · cases Except.ok.inj h
    exact ⟨hno, Unnamed.refl env d db⟩

/-- **THE CASCADE NAMES OTHER ROWS.** By induction on its depth: every row it removes or
    changes was there, so it has another key. -/
theorem spares_removeRow (hd : d.1.references ≠ []) : ∀ (depth : Nat) {k : SyncableEntityKind}
    {x : k.layout.StoredRow} {db db' : Db}, Entry.key ⟨k, x⟩ ≠ d.key → NoKey d db →
      removeRow env now depth true k x db = .ok db' → NoKey d db' ∧ Unnamed env d db db' := by
  intro depth
  induction depth with
  | zero =>
      intro k x db db' _ hno h
      cases Except.ok.inj h
      exact ⟨hno, Unnamed.refl env d db⟩
  | succ depth ih =>
      intro k x db db' hkey hno h
      obtain ⟨mid, hactions, hfire⟩ := bind_eq_ok.1 h
      have herase : NoKey d (db.setTable k ((db.tables k).erase x)) :=
        fun e he => hno e ((held_erase rfl e).1 he).1
      have hmid := spares_deleteActions_of hd ih herase hactions
      have hfire : fireTrigger env now k .delete x.val mid = .ok db' := hfire
      refine ⟨?_, hmid.2.trans (unnamed_fireTrigger hd hkey hfire)⟩
      rw [NoKey, held_congr (tables_of_fireTrigger hfire)]
      exact hmid.1

end Names

/-! ## An edit of one row -/

/-- The database with its triggers switched off. -/
def unaudited (db : Db) : Db := { db with syncApply := some "1" }

/-- The edit is an insert of `r`, an update of a row to `r`, or a delete of `r`; an update
    is one of a table whose updates are logged. -/
inductive Aims (env : Env) (now : String) (db : Db) : LocalEdit → (k : SyncableEntityKind) →
    Operation → k.layout.StoredRow → Prop
  | insert {k : SyncableEntityKind} {values : Assignments} {r : k.layout.StoredRow}
      (hr : Table.candidate env.affinity now k.layout values = .ok r) :
      Aims env now db (.insert k values) k .insert r
  | update {k : SyncableEntityKind} {key : Row} {values : Assignments}
      {old r : k.layout.StoredRow} (hlogged : k.auditTrigger.onUpdate = true)
      (hold : old ∈ (db.tables k).rows) (hsame : k.layout.same old.val key = true)
      (hr : k.layout.store env.affinity (overlay old.val values) = .ok r) :
      Aims env now db (.update k key values) k .update r
  | delete {k : SyncableEntityKind} {key : Row} {r : k.layout.StoredRow}
      (hr : r ∈ (db.tables k).rows) (hsame : k.layout.same r.val key = true) :
      Aims env now db (.delete k key) k .delete r

/-- The log row has the name of the row. -/
def names (env : Env) (k : SyncableEntityKind) (r : Row) (row : ChangeRow) : Bool :=
  row.entityType == k.entityTypeName && triggerEntityId env k r == some row.entityId

/-- `upsert_payload` makes an upsert of the row's own values of the payload. -/
def ReadsBack (env : Env) (now : String) (k : SyncableEntityKind) (r : Row) (payload : String) :
    Prop :=
  ∃ members values, env.json.parse payload = .ok (.obj members) ∧
    values.Perm (k.emitted.map fun c => (c, r c)) ∧
    ∀ db, upsertPayload env now k (.obj members) db = statement (upsertInto env now k values db)

/-- Of the rows that were added to the log one names the row, and its payload reads back. -/
def LogsOnce (env : Env) (now : String) (k : SyncableEntityKind) (op : Operation) (r : Row)
    (db db' : Db) : Prop :=
  ∃ new row, db'.log.rows = db.log.rows ++ new ∧ new.filter (names env k r) = [row] ∧
    row.operation = op.text ∧ ReadsBack env now k r row.payload

/-- The edit succeeds, leaves the tables as it does without triggers, and is logged once. -/
def GoesThrough (env : Env) (now : String) (edit : LocalEdit) (k : SyncableEntityKind)
    (op : Operation) (r : Row) (db : Db) : Prop :=
  ∃ db', localEdit env now edit db = .ok db' ∧ LogsOnce env now k op r db db' ∧
    ∀ q, localEdit env now edit (unaudited db) = .ok q → db'.tables = q.tables

/-- No owned edition with a condition is written, or deleted with the row. -/
def Unblocked (db : Db) (k : SyncableEntityKind) (r : k.layout.StoredRow) : Operation → Prop
  | .delete => ∀ y ∈ held db, y.1 = .ownedEdition → Takes db ⟨k, r⟩ y →
      y.2.val "condition_id" = .null
  | _ => Plain k r.val

section Edits

variable {env : Env} {now : String} {k : SyncableEntityKind} {op : Operation}
  {r : k.layout.StoredRow} {db mid db' q : Db}

theorem readsBack_of_trigger (now : String) (hsend : Sendable k r.val) {payload : String}
    (hpayload : triggerPayload env k r.val = some payload) :
    ReadsBack env now k r.val payload := by
  obtain ⟨members, hparse, hperm⟩ := bound_payload hsend hpayload
  have hemitted : ∀ m ∈ members, m.1 ∈ k.emitted := by
    intro m hm
    obtain ⟨c, hc, heq⟩ := List.mem_map.1 (hperm.mem_iff.1 (List.mem_map_of_mem hm))
    rw [← (Prod.mk.inj heq).1]
    exact hc
  have hne : members.isEmpty = false := by
    rw [List.isEmpty_eq_false_iff]
    rintro rfl
    exact emitted_ne_nil k (List.map_eq_nil_iff.1 (List.nil_perm.1 hperm))
  refine ⟨members, _, hparse, hperm, fun db => ?_⟩
  simp only [upsertPayload, find?_unsafe hemitted, hne, Bool.false_eq_true, if_false]

/-- The trigger of the row's own table writes the one log row that names it. -/
theorem logsOnce_of_fire (now : String) (hsend : Sendable k r.val) {new : List ChangeRow}
    {i payload : String} (hrows : mid.log.rows = db.log.rows ++ new)
    (hnew : new.filter (names env k r.val) = [])
    (hi : triggerEntityId env k r.val = some i)
    (hpayload : triggerPayload env k r.val = some payload)
    (hlog : db'.log = mid.log.logLocal now k.entityTypeName i op.text payload) :
    LogsOnce env now k op r.val db db' := by
  refine ⟨new ++ [mid.log.localRow now k.entityTypeName i op.text payload],
    mid.log.localRow now k.entityTypeName i op.text payload, ?_, ?_, rfl,
    readsBack_of_trigger now hsend hpayload⟩
  · rw [hlog, ChangeLog.logLocal_rows, hrows, List.append_assoc]
  · have hnamed : names env k r.val
        (mid.log.localRow now k.entityTypeName i op.text payload) = true := by
      simp [names, hi, ChangeLog.localRow]
    rw [List.filter_append, hnew, List.filter_cons_of_pos hnamed]
    rfl

theorem alike_unaudited (db : Db) : Alike (unaudited db) db := ⟨rfl, rfl, rfl⟩

theorem suppressed_unaudited (db : Db) : Suppressed (unaudited db) := rfl

theorem loud_of_none (h : db.syncApply = none) : ¬ Suppressed db := by
  rw [Suppressed, h]
  decide

/-- An edit that comes to one statement goes through exactly when the statement does. -/
theorem goesThrough_iff_of {edit : LocalEdit} {f : Db → Except SqlError Db} {C : Prop}
    (hrun : localEdit env now edit db = f db)
    (hquiet : localEdit env now edit (unaudited db) = .ok q) (hloud : ¬ Suppressed db)
    (hfollows : Follows f (unaudited db) q C)
    (hlogs : ∀ db', f db = .ok db' → LogsOnce env now k op r.val db db') :
    GoesThrough env now edit k op r.val db ↔ C := by
  obtain ⟨hok, hlike⟩ := hfollows db (alike_unaudited db) hloud
  constructor
  · rintro ⟨db', h, _⟩
    exact (hlike db' (hrun.symm.trans h)).1
  · intro hC
    obtain ⟨db', h⟩ := hok hC
    refine ⟨db', hrun.trans h, hlogs db' h, fun q' hq' => ?_⟩
    rw [hquiet] at hq'
    cases Except.ok.inj hq'
    exact (hlike db' h).2.tables.symm

theorem goesThrough_insert {values : Assignments} (hloud : ¬ Suppressed db)
    (hsend : Sendable k r.val) (hr : Table.candidate env.affinity now k.layout values = .ok r)
    (hq : localEdit env now (.insert k values) (unaudited db) = .ok q) :
    GoesThrough env now (.insert k values) k .insert r.val db ↔ Plain k r.val := by
  have hrun : ∀ db, localEdit env now (.insert k values) db = insertRow env now k r db := by
    intro db
    rw [localEdit, insertInto, hr]
    rfl
  have hinsert := hq
  rw [hrun] at hinsert
  refine goesThrough_iff_of (hrun db) hq hloud
    (insertRow_follows (suppressed_unaudited db) hinsert) fun db' h => ?_
  obtain ⟨hclash, i, payload, haudited⟩ := insertRow_eq_ok hloud h
  exact logsOnce_of_fire now hsend (List.append_nil _).symm rfl haudited.name haudited.written
    haudited.log

theorem goesThrough_update {key : Row} {values : Assignments} {old : k.layout.StoredRow}
    (hloud : ¬ Suppressed db) (hsend : Sendable k r.val)
    (hlogged : k.auditTrigger.onUpdate = true) (hold : old ∈ (db.tables k).rows)
    (hsame : k.layout.same old.val key = true)
    (hr : k.layout.store env.affinity (overlay old.val values) = .ok r)
    (hq : localEdit env now (.update k key values) (unaudited db) = .ok q) :
    GoesThrough env now (.update k key values) k .update r.val db ↔ Plain k r.val := by
  have hunknown : k.layout.unknown? values = none := by
    cases hunknown : k.layout.unknown? values with
    | none => rfl
    | some c =>
        rw [localEdit, updateByKey, hunknown] at hq
        cases hq
  have hfind : ((db.tables k).rows.find? fun x => k.layout.same x.val key) = some old := by
    cases hfound : (db.tables k).rows.find? fun x => k.layout.same x.val key with
    | none => exact absurd hsame (List.find?_eq_none.1 hfound old hold)
    | some x =>
        have hx := List.find?_some hfound
        rw [eq_of_same (List.mem_of_find?_eq_some hfound) hold (agree_trans hx (agree_symm hsame))]
  -- the row is found in the tables alone, so audited or not the same row is updated
  have hrun : ∀ a : Db, a.tables = db.tables → localEdit env now (.update k key values) a =
      updateRow env now k old (overlay old.val values) a := by
    intro a ha
    rw [localEdit, updateByKey, hunknown, ha]
    simp only [hfind]
  have hupdate := hq
  rw [hrun (unaudited db) rfl] at hupdate
  obtain ⟨s, t, ht, _, hfollows⟩ := updateRow_follows (suppressed_unaudited db) hupdate
  have hs : s = r := Except.ok.inj ((Table.update_eq_ok_iff.1 ht).1.symm.trans hr)
  subst hs
  refine goesThrough_iff_of (hrun db rfl) hq hloud hfollows fun db' h => ?_
  obtain ⟨s', hclash, hs', hcases⟩ := updateRow_eq_ok hloud h
  have hsr : s'.val = s.val := hs'.trans (Layout.store_eq_ok hr).2.symm
  rcases hcases with ⟨hsilent, _⟩ | ⟨i, payload, haudited⟩
  · rw [hlogged] at hsilent
    cases hsilent
  · have hname := haudited.name
    have hwritten := haudited.written
    rw [hsr] at hname hwritten
    exact logsOnce_of_fire now hsend (List.append_nil _).symm rfl hname hwritten haudited.log

/-- The actions of a delete add no row that names the deleted one. -/
theorem logsOnce_of_removeRow (hloud : ¬ Suppressed db) (hsend : Sendable k r.val) {depth : Nat}
    (h : removeRow env now (depth + 1) true k r db = .ok db') :
    LogsOnce env now k .delete r.val db db' := by
  obtain ⟨mid, hactions, hfire⟩ := removeRow_eq_ok_iff.1 h
  have hecho := Echoed.deleteActions (fun _ _ _ _ => Echoed.removeRow depth) hactions
  obtain ⟨new, hext⟩ := hecho.log.extends
  have hno : NoKey ⟨k, r⟩ (db.setTable k ((db.tables k).erase r)) :=
    fun e he heq => ((held_erase rfl e).1 he).2 heq.symm
  have hunnamed : Unnamed env ⟨k, r⟩ db mid := by
    by_cases hrefs : k.references = []
    · -- nothing points to the row
      rw [deleteActions, hrefs] at hactions
      have hmid : mid = db.setTable k ((db.tables k).erase r) := by
        split at hactions
        · exact (Except.ok.inj hactions).symm
        · exact (Except.ok.inj hactions).symm
      rw [hmid]
      exact Unnamed.refl env ⟨k, r⟩ db
    · exact (spares_deleteActions_of hrefs (spares_removeRow hrefs depth) hno hactions).2
  have hnew : new.filter (names env k r.val) = [] := by
    rw [List.filter_eq_nil_iff]
    intro row hrow hnamed
    have hmem : row ∈ mid.log.rows := by
      rw [hext.rows]
      exact List.mem_append_right _ hrow
    rcases hunnamed row hmem with hold | hnot
    · have hle := db.log.ids_le row hold
      have hlt : db.log.seq < row.id := hext.fresh row hrow
      omega
    · simp only [names, Bool.and_eq_true, beq_iff_eq] at hnamed
      exact hnot hnamed
  have hloud' : ¬ Suppressed mid := by
    rw [Suppressed, hecho.syncApply]
    exact hloud
  rcases fireTrigger_eq_ok hfire hloud' with ⟨hop, _⟩ | ⟨i, payload, hi, hpayload, rfl⟩
  · cases hop
  · exact logsOnce_of_fire now hsend hext.rows hnew hi hpayload rfl

theorem goesThrough_delete {key : Row} (hloud : ¬ Suppressed db) (hsend : Sendable k r.val)
    (hr : r ∈ (db.tables k).rows) (hsame : k.layout.same r.val key = true)
    (hq : localEdit env now (.delete k key) (unaudited db) = .ok q) :
    GoesThrough env now (.delete k key) k .delete r.val db ↔ Unblocked db k r .delete := by
  have hfilter : ((db.tables k).rows.filter fun x => k.layout.same x.val key) = [r] := by
    rcases filter_same_cases (db.tables k) key with hnone | ⟨old, hold, holdkey, hone⟩
    · exact absurd hsame (List.filter_eq_nil_iff.1 hnone r hr)
    · rw [hone, eq_of_same hold hr (agree_trans holdkey (agree_symm hsame))]
  have hrun : ∀ a : Db, a.tables = db.tables → localEdit env now (.delete k key) a =
      removeRow env now 3 true k r a := by
    intro a ha
    rw [localEdit, deleteFrom, ha, hfilter, List.foldlM_cons]
    cases removeRow env now 3 true k r a <;> rfl
  have hremove := hq
  rw [hrun (unaudited db) rfl] at hremove
  have hrheld : (⟨k, r⟩ : Entry) ∈ held db := hr
  have hfollows := (removalJudged (injOn_key db) 3 k r (cascadeHeight_lt_three k)).follows
    (suppressed_unaudited db) (fun e he _ => he)
    (fun d hd _ => by rw [Set.mem_singleton_iff.1 hd]; exact hrheld) hremove
  have hr' : r ∈ ((unaudited db).tables k).rows := hr
  have htakes : ∀ {y : Entry}, y ∈ held db → y.1 = .ownedEdition →
      (y ∉ held q ↔ Takes db ⟨k, r⟩ y) := fun hy howned => takes_iff hr' hremove hy howned
  rw [goesThrough_iff_of (hrun db rfl) hq hloud hfollows fun db' h =>
    logsOnce_of_removeRow hloud hsend h]
  constructor
  · rintro ⟨hlost, _⟩ y hy howned hty
    exact hlost y hy howned ((htakes hy howned).2 hty) howned
  · intro hunblocked
    refine ⟨fun y hy howned hno => fun _ => ?_, fun d hd howned => ?_⟩
    · exact hunblocked y hy howned ((htakes hy howned).1 hno)
    · rw [Set.mem_singleton_iff.1 hd] at howned ⊢
      exact hunblocked ⟨k, r⟩ hrheld howned (Or.inl rfl)

end Edits

/-- **AUDITING LETS AN EDIT THROUGH** and logs it once exactly when the edit neither writes
    nor deletes an owned edition with a condition. -/
theorem goesThrough_iff_unblocked (env : Env) (now : String) (edit : LocalEdit)
    (k : SyncableEntityKind) (op : Operation) (r : k.layout.StoredRow) (db q : Db)
    (hflag : db.syncApply = none) (haims : Aims env now db edit k op r)
    (hsend : Sendable k r.val) (hq : localEdit env now edit (unaudited db) = .ok q) :
    GoesThrough env now edit k op r.val db ↔ Unblocked db k r op := by
  have hloud := loud_of_none hflag
  cases haims with
  | insert hr => exact goesThrough_insert hloud hsend hr hq
  | update hlogged hold hsame hr =>
      exact goesThrough_update hloud hsend hlogged hold hsame hr hq
  | delete hr hsame => exact goesThrough_delete hloud hsend hr hsame hq

/-! ## A work, and a copy with a condition -/

/-- The work that is deleted, and where the delete ends without triggers. -/
def stockedWork : SyncableEntityKind.work.layout.StoredRow :=
  ((after stocking).tables .work).rows.head (by decide)

def dropWork : LocalEdit := .delete .work stockedWork.val

def droppedWork : Db :=
  match localEdit Env.reference "2026" dropWork (unaudited (after stocking)) with
  | .ok db => db
  | .error _ => Db.empty true

/-- The work goes with its edition, and is logged once. -/
theorem goesThrough_dropWork :
    GoesThrough Env.reference "2026" dropWork .work .delete stockedWork.val (after stocking) := by
  refine (goesThrough_iff_unblocked Env.reference "2026" dropWork .work .delete stockedWork
    (after stocking) droppedWork rfl (.delete (List.head_mem _) (by decide))
    (sendable_of_sixteen (by decide)) rfl).2 ?_
  rintro ⟨k, y⟩ hy rfl
  have hnone : ((after stocking).tables .ownedEdition).rows = [] := by decide
  have hy : y ∈ ((after stocking).tables .ownedEdition).rows := hy
  rw [hnone] at hy
  cases hy

/-- A work with an edition, and a book condition to refer to. -/
def conditioned : Db :=
  { after stocking with
    parents := fun table => if table = "book_conditions" then [List.replicate 16 5] else [] }

def copyValues : Assignments :=
  [("id", .blob (List.replicate 16 3)), ("edition_id", .blob (List.replicate 16 2)),
    ("condition_id", .blob (List.replicate 16 5))]

/-- A copy of the edition with its condition. -/
def wornCopy : SyncableEntityKind.ownedEdition.layout.StoredRow :=
  ⟨SyncableEntityKind.ownedEdition.layout.stored Affinity.rigid
    (overlay (SyncableEntityKind.ownedEdition.layout.defaults "2026") copyValues),
    Layout.rowOk_stored (by decide)⟩

/-- The tables accept the copy; with triggers the insert fails. -/
theorem not_goesThrough_wornCopy :
    conditioned.syncApply = none ∧
      Aims Env.reference "2026" conditioned (.insert .ownedEdition copyValues) .ownedEdition
        .insert wornCopy ∧
      Sendable .ownedEdition wornCopy.val ∧
      (∃ q, localEdit Env.reference "2026" (.insert .ownedEdition copyValues)
        (unaudited conditioned) = .ok q) ∧
      localEdit Env.reference "2026" (.insert .ownedEdition copyValues) conditioned =
        .error .blobInJson ∧
      ¬ GoesThrough Env.reference "2026" (.insert .ownedEdition copyValues) .ownedEdition .insert
        wornCopy.val conditioned := by
  have herror : localEdit Env.reference "2026" (.insert .ownedEdition copyValues) conditioned =
      .error .blobInJson := rfl
  refine ⟨rfl, .insert rfl, sendable_of_sixteen (by decide), ⟨_, rfl⟩, herror, ?_⟩
  rintro ⟨db', h, _⟩
  rw [herror] at h
  cases h

end SyncAudit

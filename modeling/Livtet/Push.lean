import Livtet.Conflict
import Livtet.Lib.Transactions

/-! # What a push does

    `push_changes` runs its statements in one transaction and returns early on four
    kinds of error, with the transaction half done and the triggers suppressed. Its
    specification looks only at the log: `judge` gives every change of the batch its
    verdict on the log as the changes before it left it. A push logs and writes the
    fresh changes, in batch order, adds a conflict for every clash, and nothing else;
    a push that fails leaves no trace.

    A change that was applied is recognised when it comes again, one that clashed is
    not. So pushing a batch twice is pushing it once exactly when nothing clashed. -/

namespace SyncPush

open SqlRows SyncSchema SyncStore SyncEngine SyncSteps Outcomes Transactions

/-! ## The transaction -/

section Session

variable (env : Env) (now : String)

/-- The statements of one change. -/
def pushStatements (change : SyncChange) : Session SyncError Db (Option ConflictRow) :=
  match SyncableEntityKind.entityTypeToTable change.entityType with
  | none => Session.throw (.unknownEntityType change.entityType)
  | some k => do
      let operation := toAsciiUppercase change.operation
      let seen ← Session.query fun db => alreadyLogged db.log operation change
      if seen then pure none
      else do
        let divergent ← Session.query fun db => divergentPayload? env db.log change
        match divergent with
        | some localPayload => do
            Session.execute fun db => .ok (recordConflict now change localPayload db)
            Session.query fun db => db.conflicts.latest? change.entityType change.entityId
        | none => do
            Session.execute (applyOne env now k change)
            Session.execute (insertChangeRow now operation change)
            pure none

/-- What a push does between the begin and the commit of its transaction. -/
def pushBody (changes : List SyncChange) : Session SyncError Db (List ConflictRow) := do
  Session.execute fun db => .ok { db with syncApply := some "1" }
  let conflicts ← changes.foldlM (fun conflicts change => do
    let conflict ← pushStatements env now change
    pure (conflicts ++ conflict.toList)) []
  Session.execute fun db => .ok { db with syncApply := none }
  pure conflicts

/-- `push_changes` on a connection. -/
def pushSession (changes : List SyncChange) : Session SyncError Db PushResponse := do
  let conflicts ← Session.dropping do
    Session.begin
    let conflicts ← pushBody env now changes
    Session.commit
    pure conflicts
  let latestVersion ← Session.query fun db => getLatestVersion db.log
  pure { accepted := conflicts.isEmpty, conflicts, latestVersion }

end Session

variable {env : Env} {now : String} {change : SyncChange} {changes : List SyncChange} {db db' : Db}

theorem follows_pushStatements (env : Env) (now : String) (change : SyncChange) :
    (pushStatements env now change).Follows (pushChange env now change) := by
  unfold pushStatements pushChange
  cases SyncableEntityKind.entityTypeToTable change.entityType with
  | none => exact Session.Follows.throw _
  | some k =>
      refine Session.Follows.query_bind (g := fun (seen : Bool) (db : Db) =>
        if seen then .ok (none, db)
        else match divergentPayload? env db.log change with
          | some localPayload =>
              let db := recordConflict now change localPayload db
              .ok (db.conflicts.latest? change.entityType change.entityId, db)
          | none => do
              let db ← applyOne env now k change db
              let db ← insertChangeRow now (toAsciiUppercase change.operation) change db
              .ok (none, db)) ?_
      intro seen
      cases seen with
      | true => exact Session.Follows.pure none
      | false =>
          refine Session.Follows.query_bind (g := fun (divergent : Option String) (db : Db) =>
            match divergent with
            | some localPayload =>
                let db := recordConflict now change localPayload db
                .ok (db.conflicts.latest? change.entityType change.entityId, db)
            | none => do
                let db ← applyOne env now k change db
                let db ← insertChangeRow now (toAsciiUppercase change.operation) change db
                .ok (none, db)) ?_
          intro divergent
          cases divergent with
          | some localPayload =>
              exact Session.Follows.execute_bind (g := fun db : Db =>
                .ok (db.conflicts.latest? change.entityType change.entityId, db))
                (Session.Follows.query _)
          | none =>
              exact Session.Follows.execute_bind
                (Session.Follows.execute_bind (Session.Follows.pure none))

/-- The body of the transaction follows the loop, between setting and removing the flag. -/
theorem follows_pushBody (env : Env) (now : String) (changes : List SyncChange) :
    (pushBody env now changes).Follows (fun db =>
      pushLoop env now changes ([], { db with syncApply := some "1" }) >>= fun p =>
        .ok (p.1, { p.2 with syncApply := none })) := by
  refine Session.Follows.execute_bind (g := fun db =>
    pushLoop env now changes ([], db) >>= fun p => .ok (p.1, { p.2 with syncApply := none })) ?_
  refine Session.Follows.bind (f := fun db => pushLoop env now changes ([], db))
    (g := fun (conflicts : List ConflictRow) (db : Db) =>
      .ok (conflicts, { db with syncApply := none })) ?_ ?_
  · refine Session.Follows.foldlM (f := fun conflicts change db =>
      pushChange env now change db >>= fun p => .ok (conflicts ++ p.1.toList, p.2)) ?_ changes []
    intro conflicts change
    exact Session.Follows.bind (follows_pushStatements env now change) fun conflict =>
      Session.Follows.pure (conflicts ++ conflict.toList)
  · intro conflicts
    exact Session.Follows.execute_bind (g := fun db : Db => .ok (conflicts, db))
      (Session.Follows.pure conflicts)

/-- A push stores what `pushChanges` gives, or leaves the connection as it found it. -/
theorem pushSession_idle (env : Env) (now : String) (changes : List SyncChange) (db : Db) :
    pushSession env now changes (.idle db) = match pushChanges env now changes db with
      | .ok (response, db') => (.ok response, .idle db')
      | .error e => (.error e, .idle db) := by
  have htxn := (follows_pushBody env now changes).transaction db
  unfold pushSession pushChanges
  cases hloop : pushLoop env now changes ([], { db with syncApply := some "1" }) with
  | ok p =>
      rw [hloop] at htxn
      rw [Session.bind_of_ok htxn]
      rfl
  | error e =>
      rw [hloop] at htxn
      rw [Session.bind_of_error htxn]
      rfl

/-! ## While the triggers are suppressed

    The tables a statement leaves depend on the tables alone: it neither reads nor
    writes the log and the conflicts. -/

/-- A database with another log and other conflicts. -/
def withRecord (log : ChangeLog) (conflicts : Conflicts) (db : Db) : Db :=
  { db with log, conflicts }

/-- The audit triggers are suppressed. -/
def Suppressed (db : Db) : Prop := db.syncApply.getD "0" = "1"

/-- A statement that does the same under every log and all conflicts, and leaves the
    triggers suppressed. -/
def Blind {ε : Type} (f : Db → Except ε Db) : Prop :=
  ∀ db, Suppressed db →
    (∀ log conflicts, f (withRecord log conflicts db) = (f db).map (withRecord log conflicts)) ∧
      ∀ db', f db = .ok db' → Suppressed db'

theorem Suppressed.of_echoed (h : Suppressed db) (he : Echoed db db') : Suppressed db' := by
  show db'.syncApply.getD "0" = "1"
  rw [he.syncApply]
  exact h

namespace Blind

variable {ε : Type} {k : SyncableEntityKind}

/-- By induction on the list: every step is blind, and starts from a suppressed state. -/
theorem foldlM {α : Type} {step : Db → α → Except ε Db} (hstep : ∀ x, Blind fun db => step db x) :
    ∀ xs : List α, Blind fun db => xs.foldlM step db := by
  intro xs
  induction xs with
  | nil =>
      intro db hdb
      refine ⟨fun log conflicts => rfl, ?_⟩
      intro db' h
      cases Except.ok.inj h
      exact hdb
  | cons x rest ih =>
      intro db hdb
      obtain ⟨hframe, hkeep⟩ := hstep x db hdb
      simp only at hframe hkeep
      simp only [List.foldlM_cons]
      cases hx : step db x with
      | error e =>
          refine ⟨?_, fun db' h => by cases h⟩
          intro log conflicts
          rw [hframe log conflicts, hx]
          rfl
      | ok mid =>
          obtain ⟨hrest, hend⟩ := ih mid (hkeep mid hx)
          refine ⟨?_, hend⟩
          intro log conflicts
          rw [hframe log conflicts, hx]
          exact hrest log conflicts

theorem requireParents_withRecord (fks : List ForeignKey) (r : Row) (log : ChangeLog)
    (conflicts : Conflicts) (db : Db) :
    (withRecord log conflicts db).requireParents fks r =
      (db.requireParents fks r).map (withRecord log conflicts) := by
  show (if (db.foreignKeys && fks.any fun fk => !db.hasParent fk (r fk.column)) = true then
      Except.error SqlError.foreignKey else .ok (withRecord log conflicts db)) = _
  rw [Db.requireParents]
  split
  · rfl
  · rfl

theorem fireTrigger_suppressed {env : Env} {now : String} {op : Operation} {r : Row}
    (h : Suppressed db) : fireTrigger env now k op r db = .ok db :=
  if_pos h

theorem insertRow (env : Env) (now : String) (r : k.layout.StoredRow) :
    Blind (insertRow env now k r) := by
  intro db hdb
  refine ⟨?_, fun db' h => hdb.of_echoed (Echoed.insertRow h)⟩
  intro log conflicts
  unfold SyncStore.insertRow
  show ((db.tables k).insert r >>= _) = _
  cases (db.tables k).insert r with
  | error e => rfl
  | ok t =>
      have hset : Suppressed (db.setTable k t) := hdb
      have hset' : Suppressed ((withRecord log conflicts db).setTable k t) := hdb
      simp only [ok_bind, fireTrigger_suppressed hset, fireTrigger_suppressed hset']
      exact requireParents_withRecord k.foreignKeys r.val log conflicts (db.setTable k t)

theorem updateRow (env : Env) (now : String) (old : k.layout.StoredRow) (new : Row) :
    Blind (updateRow env now k old new) := by
  intro db hdb
  refine ⟨?_, fun db' h => hdb.of_echoed (Echoed.updateRow h)⟩
  intro log conflicts
  unfold SyncStore.updateRow
  show ((db.tables k).update env.affinity old new >>= _) = _
  cases (db.tables k).update env.affinity old new with
  | error e => rfl
  | ok p =>
      obtain ⟨r, t⟩ := p
      have hset : Suppressed (db.setTable k t) := hdb
      have hset' : Suppressed ((withRecord log conflicts db).setTable k t) := hdb
      simp only [ok_bind, fireTrigger_suppressed hset, fireTrigger_suppressed hset']
      have hparents : ((withRecord log conflicts db).setTable k t).requireParents
            (k.foreignKeys.filter fun fk => decide (old.val fk.column ≠ r.val fk.column)) r.val =
          ((db.setTable k t).requireParents
            (k.foreignKeys.filter fun fk => decide (old.val fk.column ≠ r.val fk.column))
            r.val).map (withRecord log conflicts) :=
        requireParents_withRecord _ r.val log conflicts (db.setTable k t)
      rw [hparents]
      cases (db.setTable k t).requireParents (k.foreignKeys.filter fun fk =>
          decide (old.val fk.column ≠ r.val fk.column)) r.val with
      | error e => rfl
      | ok d =>
          -- the last check reads the tables only
          show (if (d.foreignKeys && decide (old.val "id" ≠ r.val "id") && k.references.any fun p =>
              !(d.referencing p.1 p.2 old.val).isEmpty) = true then
            Except.error SqlError.foreignKey else .ok (withRecord log conflicts d)) = _
          simp only [ok_bind]
          split
          · rfl
          · rfl

theorem deleteActions (env : Env) (now : String) {remove : (k : SyncableEntityKind) →
      k.layout.StoredRow → Db → Except SqlError Db} (hremove : ∀ k r, Blind (remove k r))
    (r : k.layout.StoredRow) : Blind (deleteActions env now remove k r) := by
  intro db hdb
  rw [SyncStore.deleteActions]
  show (∀ log conflicts, (if db.foreignKeys = true then _ else _) = _) ∧ _
  by_cases hfk : db.foreignKeys = true
  · simp only [if_pos hfk]
    refine foldlM ?_ _ db hdb
    intro p mid hmid
    refine foldlM ?_ (mid.referencing p.1 p.2 r.val) mid hmid
    intro child
    cases p.2.onDelete with
    | cascade => exact hremove p.1 child
    | setNull => exact updateRow env now child _
  · simp only [if_neg hfk]
    refine ⟨fun log conflicts => rfl, ?_⟩
    intro db' h
    cases Except.ok.inj h
    exact hdb

/-- By induction on the depth of the cascade. -/
theorem removeRow (env : Env) (now : String) : ∀ (depth : Nat) (audited : Bool)
    (k : SyncableEntityKind) (r : k.layout.StoredRow),
    Blind (removeRow env now depth audited k r) := by
  intro depth
  induction depth with
  | zero =>
      intro audited k r db hdb
      refine ⟨fun log conflicts => rfl, ?_⟩
      intro db' h
      cases Except.ok.inj h
      exact hdb
  | succ depth ih =>
      intro audited k r db hdb
      refine ⟨?_, fun db' h => hdb.of_echoed (Echoed.removeRow (depth + 1) h)⟩
      intro log conflicts
      have hset : Suppressed (db.setTable k ((db.tables k).erase r)) := hdb
      obtain ⟨hframe, hkeep⟩ := deleteActions env now (fun k r => ih true k r) r
        (db.setTable k ((db.tables k).erase r)) hset
      have hframe : SyncStore.deleteActions env now (SyncStore.removeRow env now depth true) k r
          ((withRecord log conflicts db).setTable k ((db.tables k).erase r)) = _ :=
        hframe log conflicts
      simp only [SyncStore.removeRow]
      show (SyncStore.deleteActions env now (SyncStore.removeRow env now depth true) k r
        ((withRecord log conflicts db).setTable k ((db.tables k).erase r)) >>= _) = _
      rw [hframe]
      cases hact : SyncStore.deleteActions env now (SyncStore.removeRow env now depth true) k r
          (db.setTable k ((db.tables k).erase r)) with
      | error e => rfl
      | ok d =>
          -- the flag is still set, so the last trigger is silent too
          have hd := hkeep d hact
          have hd' : Suppressed (withRecord log conflicts d) := hd
          cases audited with
          | true =>
              show fireTrigger env now k .delete r.val (withRecord log conflicts d) =
                (fireTrigger env now k .delete r.val d).map (withRecord log conflicts)
              rw [fireTrigger_suppressed hd, fireTrigger_suppressed hd']
              rfl
          | false => rfl

theorem deleteMatching (env : Env) (now : String) (k : SyncableEntityKind)
    (conditions : Assignments) : Blind (deleteMatching env now k conditions) := by
  intro db hdb
  refine ⟨?_, fun db' h => hdb.of_echoed (Echoed.deleteMatching h)⟩
  intro log conflicts
  unfold SyncStore.deleteMatching
  split
  · rfl
  · exact (foldlM (fun r => removeRow env now 3 true k r) _ db hdb).1 log conflicts

theorem upsertOnKey (env : Env) (now : String) (k : SyncableEntityKind) (values : Assignments) :
    Blind (upsertOnKey env now k values) := by
  intro db hdb
  refine ⟨?_, fun db' h => hdb.of_echoed (Echoed.upsertOnKey h)⟩
  intro log conflicts
  unfold SyncStore.upsertOnKey
  cases Table.candidate env.affinity now k.layout values with
  | error e => rfl
  | ok r =>
      simp only [ok_bind, withRecord]
      cases (db.tables k).rows.find? fun x => k.layout.same x.val r.val with
      | none => exact (insertRow env now r db hdb).1 log conflicts
      | some old =>
          dsimp only
          split
          · rfl
          · exact (updateRow env now old _ db hdb).1 log conflicts

theorem statement {f : Db → Except SqlError Db} (hf : Blind f) :
    Blind fun db => statement (f db) := by
  intro db hdb
  obtain ⟨hframe, hkeep⟩ := hf db hdb
  refine ⟨?_, fun db' h => hkeep db' (statement_eq_ok h)⟩
  intro log conflicts
  dsimp only
  rw [hframe log conflicts]
  cases f db with
  | error e => rfl
  | ok d => rfl

theorem deleteOne (env : Env) (now : String) (k : SyncableEntityKind) (change : SyncChange) :
    Blind (deleteOne env now k change) := by
  intro db hdb
  refine ⟨?_, fun db' h => hdb.of_echoed (echoed_deleteOne h)⟩
  intro log conflicts
  unfold SyncEngine.deleteOne
  cases resolvePrimaryKeys env k change none with
  | error e => rfl
  | ok resolved =>
      simp only [ok_bind]
      cases bindColumns env (k.layout.columns.filter fun c => k.layout.primaryKey.contains c.name)
          (fun n => resolved.lookup n) change.entityType with
      | error e => rfl
      | ok values => exact ((deleteMatching env now k values).statement db hdb).1 log conflicts

theorem upsertOne (env : Env) (now : String) (k : SyncableEntityKind) (change : SyncChange) :
    Blind (upsertOne env now k change) := by
  intro db hdb
  refine ⟨?_, fun db' h => hdb.of_echoed (echoed_upsertOne h)⟩
  intro log conflicts
  unfold SyncEngine.upsertOne
  cases payloadObject env change with
  | error e => rfl
  | ok payload =>
      simp only [ok_bind]
      cases resolvePrimaryKeys env k change (some payload) with
      | error e => rfl
      | ok resolved =>
          simp only [ok_bind]
          cases bindColumns env k.modelColumns
              (fun n => (payload.get? n).or (resolved.lookup n)) change.entityType with
          | error e => rfl
          | ok values =>
              simp only [ok_bind]
              split
              · rfl
              · exact ((upsertOnKey env now k values).statement db hdb).1 log conflicts

theorem applyOne (env : Env) (now : String) (k : SyncableEntityKind) (change : SyncChange) :
    Blind (applyOne env now k change) := by
  intro db hdb
  refine ⟨?_, fun db' h => hdb.of_echoed (echoed_applyOne h)⟩
  intro log conflicts
  unfold SyncEngine.applyOne
  split
  · exact (deleteOne env now k change db hdb).1 log conflicts
  · exact (upsertOne env now k change db hdb).1 log conflicts
  · exact (upsertOne env now k change db hdb).1 log conflicts
  · rfl

end Blind

/-! ## The specification -/

/-- What the log says about a pushed change. -/
inductive Verdict
  | known
  | clash (localPayload : String)
  | fresh
deriving DecidableEq, Repr

section Specification

variable (env : Env) (now : String)

def verdict (log : ChangeLog) (change : SyncChange) : Verdict :=
  if alreadyLogged log (toAsciiUppercase change.operation) change then .known
  else match divergentPayload? env log change with
    | some localPayload => .clash localPayload
    | none => .fresh

/-- The log with the row of a change. -/
def logged (log : ChangeLog) (change : SyncChange) : ChangeLog :=
  match log.insert (changeEntry now (toAsciiUppercase change.operation) change)
      (version_bounds change) with
  | .ok log => log
  | .error _ => log

/-- The log after a change with this verdict. -/
def logAfter (log : ChangeLog) (change : SyncChange) : Verdict → ChangeLog
  | .fresh => logged now log change
  | _ => log

/-- Every change of a batch with its verdict: each is judged on the log as the changes
    before it left it. -/
def judge : List SyncChange → ChangeLog → List (SyncChange × Verdict)
  | [], _ => []
  | change :: rest, log =>
      (change, verdict env log change) ::
        judge rest (logAfter now log change (verdict env log change))

/-- The changes judged fresh, in batch order. -/
def fresh (judged : List (SyncChange × Verdict)) : List SyncChange :=
  judged.filterMap fun p =>
    match p.2 with
    | .fresh => some p.1
    | _ => none

/-- The changes judged a clash, with the payload they clash with. -/
def clashes (judged : List (SyncChange × Verdict)) : List (SyncChange × String) :=
  judged.filterMap fun p =>
    match p.2 with
    | .clash localPayload => some (p.1, localPayload)
    | _ => none

/-- One log row for each change, under consecutive ids. -/
def logRows (seq : Nat) (changes : List SyncChange) : List ChangeRow :=
  (changes.zipIdx seq).map fun p => recordedRow now (toAsciiUppercase p.1.operation) p.1 p.2

/-- One conflict row for each clash, under consecutive ids. -/
def conflictRows (seq : Nat) (clashes : List (SyncChange × String)) : List ConflictRow :=
  (clashes.zipIdx seq).map fun p =>
    { id := p.2 + 1, entityType := p.1.1.entityType, entityId := p.1.1.entityId
      localPayload := p.1.2, remotePayload := p.1.1.payload, detectedAt := now }

/-- Write a change to its table. -/
def writeChange (db : Db) (change : SyncChange) : Except SyncError Db :=
  match SyncableEntityKind.entityTypeToTable change.entityType with
  | none => .error (.unknownEntityType change.entityType)
  | some k => applyOne env now k change db

/-- Write the changes in order, with the triggers suppressed. -/
def writeAll (changes : List SyncChange) (db : Db) : Except SyncError Db :=
  changes.foldlM (writeChange env now) db

/-- What the loop over judged changes leaves: the record grows with the verdicts, the
    tables are those of the fresh changes written in order. -/
structure Advanced (judged : List (SyncChange × Verdict)) (db : Db) (found : List ConflictRow)
    (db' : Db) : Prop where
  log : db'.log.rows = db.log.rows ++ logRows now db.log.seq (fresh judged)
  conflicts : db'.conflicts.rows = db.conflicts.rows ++
    conflictRows now db.conflicts.seq (clashes judged)
  found : found = conflictRows now db.conflicts.seq (clashes judged)
  parents : db'.parents = db.parents
  tables : ∃ written, writeAll env now (fresh judged) db = .ok written ∧
    db'.tables = written.tables

/-- What a push of a batch is for. -/
structure Pushed (changes : List SyncChange) (db : Db) (response : PushResponse) (db' : Db) :
    Prop where
  advanced : Advanced env now (judge env now changes db.log) { db with syncApply := some "1" }
    response.conflicts db'
  accepted : response.accepted = (clashes (judge env now changes db.log)).isEmpty
  syncApply : db'.syncApply = none

end Specification

theorem Blind.writeAll (env : Env) (now : String) (changes : List SyncChange) :
    Blind (writeAll env now changes) := by
  refine Blind.foldlM ?_ changes
  intro change db hdb
  unfold writeChange
  cases SyncableEntityKind.entityTypeToTable change.entityType with
  | none => exact ⟨fun log conflicts => rfl, fun db' h => by cases h⟩
  | some k => exact Blind.applyOne env now k change db hdb

theorem latest?_insert (c : Conflicts) (now entityType entityId localPayload remotePayload : String) :
    (c.insert now entityType entityId localPayload remotePayload).latest? entityType entityId =
      some { id := c.seq + 1, entityType, entityId, localPayload, remotePayload
             detectedAt := now } := by
  show ((c.rows ++ [_]).filter _).getLast? = _
  rw [List.filter_append]
  simp

theorem verdict_known (h : alreadyLogged db.log (toAsciiUppercase change.operation) change = true) :
    verdict env db.log change = .known :=
  if_pos h

theorem verdict_clash {localPayload : String}
    (hseen : alreadyLogged db.log (toAsciiUppercase change.operation) change = false)
    (hdiv : divergentPayload? env db.log change = some localPayload) :
    verdict env db.log change = .clash localPayload := by
  rw [verdict, hseen, hdiv]
  rfl

theorem verdict_fresh
    (hseen : alreadyLogged db.log (toAsciiUppercase change.operation) change = false)
    (hdiv : divergentPayload? env db.log change = none) : verdict env db.log change = .fresh := by
  rw [verdict, hseen, hdiv]
  rfl

theorem logged_eq (h : insertChangeRow now (toAsciiUppercase change.operation) change db = .ok db') :
    logged now db.log change = db'.log := by
  rw [insertChangeRow] at h
  split at h
  · next log hlog =>
      cases Except.ok.inj h
      rw [logged, hlog]
  · cases h

namespace Advanced

variable {judged : List (SyncChange × Verdict)} {found : List ConflictRow}

theorem nil (db : Db) : Advanced env now [] db [] db where
  log := (List.append_nil _).symm
  conflicts := (List.append_nil _).symm
  found := rfl
  parents := rfl
  tables := ⟨db, rfl, rfl⟩

theorem known (h : Advanced env now judged db found db') :
    Advanced env now ((change, .known) :: judged) db found db' :=
  ⟨h.log, h.conflicts, h.found, h.parents, h.tables⟩

/-- A clash adds its row; the writes after it do not see the row. -/
theorem clash (hdb : Suppressed db) {localPayload : String}
    (h : Advanced env now judged (recordConflict now change localPayload db) found db') :
    Advanced env now ((change, .clash localPayload) :: judged) db
      ({ id := db.conflicts.seq + 1, entityType := change.entityType, entityId := change.entityId
         localPayload, remotePayload := change.payload, detectedAt := now } :: found) db' where
  log := h.log
  conflicts := by
    rw [h.conflicts]
    exact List.append_assoc _ _ _
  found := by
    rw [h.found]
    rfl
  parents := h.parents
  tables := by
    obtain ⟨written, hwrite, htables⟩ := h.tables
    have hframe := (Blind.writeAll env now (fresh judged) db hdb).1 db.log
      (db.conflicts.insert now change.entityType change.entityId localPayload change.payload)
    have hwrite : (writeAll env now (fresh judged) db).map (withRecord _ _) = .ok written :=
      hframe.symm.trans hwrite
    obtain ⟨plain, hplain, rfl⟩ := map_eq_ok.1 hwrite
    exact ⟨plain, hplain, htables⟩

/-- A fresh change is written and logged; the writes after it do not see its row. -/
theorem fresh {k : SyncableEntityKind} {mid : Db} {log : ChangeLog}
    (hk : SyncableEntityKind.entityTypeToTable change.entityType = some k)
    (hdb : Suppressed db) (hwrite : applyOne env now k change db = .ok mid)
    (hrows : log.rows = mid.log.rows ++
      [recordedRow now (toAsciiUppercase change.operation) change mid.log.seq])
    (hseq : log.seq = mid.log.seq + 1)
    (h : Advanced env now judged { mid with log } found db') :
    Advanced env now ((change, .fresh) :: judged) db found db' := by
  have hecho := echoed_applyOne hwrite
  have hlog : mid.log = db.log := hecho.quiet hdb
  refine ⟨?_, ?_, ?_, ?_, ?_⟩
  · rw [h.log]
    show log.rows ++ logRows now log.seq _ = _
    rw [hrows, hseq, hlog]
    exact List.append_assoc _ _ _
  · rw [h.conflicts]
    show mid.conflicts.rows ++ conflictRows now mid.conflicts.seq _ = _
    rw [hecho.conflicts]
    rfl
  · rw [h.found]
    show conflictRows now mid.conflicts.seq _ = _
    rw [hecho.conflicts]
    rfl
  · exact h.parents.trans hecho.parents
  · obtain ⟨written, hrest, htables⟩ := h.tables
    have hframe := (Blind.writeAll env now (SyncPush.fresh judged) mid
      (hdb.of_echoed hecho)).1 log mid.conflicts
    have hrest : (writeAll env now (SyncPush.fresh judged) mid).map (withRecord _ _) =
        .ok written :=
      hframe.symm.trans hrest
    obtain ⟨plain, hplain, rfl⟩ := map_eq_ok.1 hrest
    refine ⟨plain, ?_, htables⟩
    have hfirst : writeChange env now db change = .ok mid := by
      rw [writeChange, hk]
      exact hwrite
    exact foldlM_cons_eq_ok.2 ⟨mid, hfirst, hplain⟩

end Advanced

/-- The loop from any suppressed state, by induction on the batch. -/
theorem pushLoop_spec : ∀ (changes : List SyncChange) (state state' : List ConflictRow × Db),
    Suppressed state.2 → pushLoop env now changes state = .ok state' →
    ∃ found, state'.1 = state.1 ++ found ∧
      Advanced env now (judge env now changes state.2.log) state.2 found state'.2 := by
  intro changes
  induction changes with
  | nil =>
      intro state state' _ h
      cases Except.ok.inj h
      exact ⟨[], (List.append_nil _).symm, Advanced.nil state.2⟩
  | cons change rest ih =>
      intro state state' hquiet h
      obtain ⟨conflict, mid, hstep, hrest⟩ := pushLoop_cons.1 h
      rw [judge]
      cases pushChange_cases hstep with
      | known hk hseen =>
          obtain ⟨found, hfound, hadv⟩ := ih (state.1 ++ [], state.2) state' hquiet hrest
          rw [verdict_known hseen]
          exact ⟨found, by simpa using hfound, hadv.known⟩
      | @conflict k localPayload hk hseen hdiv =>
          obtain ⟨found, hfound, hadv⟩ :=
            ih (_, recordConflict now change localPayload state.2) state' hquiet hrest
          rw [verdict_clash hseen hdiv]
          refine ⟨_, ?_, hadv.clash hquiet⟩
          rw [hfound]
          show _ ++ (Conflicts.latest? (Conflicts.insert _ _ _ _ _ _) _ _).toList ++ found = _
          rw [latest?_insert]
          exact List.append_assoc _ _ _
      | @applied k db1 _ hk hseen hdiv hwrite hrecord =>
          have hecho := echoed_applyOne hwrite
          have hlogged := logged_eq hrecord
          rw [hecho.quiet hquiet] at hlogged
          obtain ⟨log, rfl, hrows, hseq⟩ := insertChangeRow_eq_ok hrecord
          -- the triggers stay off, so the change is the one row that is logged
          have hquiet1 : Suppressed db1 := hquiet.of_echoed hecho
          obtain ⟨found, hfound, hadv⟩ :=
            ih (state.1 ++ [], { db1 with log }) state' hquiet1 hrest
          rw [verdict_fresh hseen hdiv, logAfter, hlogged]
          exact ⟨found, by simpa using hfound, Advanced.fresh hk hquiet hwrite hrows hseq hadv⟩

/-- What `pushChanges` gives when it succeeds. -/
theorem pushed_of_ok {response : PushResponse}
    (h : pushChanges env now changes db = .ok (response, db')) :
    Pushed env now changes db response db' := by
  obtain ⟨⟨conflicts, last⟩, hloop, h⟩ := bind_eq_ok.1 h
  obtain ⟨rfl, rfl⟩ := Prod.mk.inj (Except.ok.inj h)
  have hquiet : Suppressed { db with syncApply := some "1" } := rfl
  obtain ⟨found, hfound, hadv⟩ := pushLoop_spec changes _ _ hquiet hloop
  have hfound : conflicts = found := hfound
  subst hfound
  refine ⟨⟨hadv.log, hadv.conflicts, hadv.found, hadv.parents, hadv.tables⟩, ?_, rfl⟩
  show conflicts.isEmpty = _
  rw [hadv.found, conflictRows, List.isEmpty_map]
  cases clashes (judge env now changes db.log) with
  | nil => rfl
  | cons p rest => rfl

/-- **A PUSH MEETS ITS SPECIFICATION** or leaves everything as it was: on a connection
    without an open transaction, either the batch is judged, logged and written as
    `Pushed` says and the transaction is over, or the stored database is untouched. -/
theorem pushSession_meets_specification (env : Env) (now : String) (changes : List SyncChange)
    (db : Db) :
    match pushSession env now changes (.idle db) with
    | (.ok response, connection) =>
        ∃ db', connection = .idle db' ∧ Pushed env now changes db response db'
    | (.error _, connection) => connection = .idle db := by
  rw [pushSession_idle]
  cases h : pushChanges env now changes db with
  | ok p =>
      obtain ⟨response, db'⟩ := p
      exact ⟨db', rfl, pushed_of_ok h⟩
  | error e => rfl

/-! ## A batch pushed twice -/

/-- A second push of the batch succeeds with the same answer and changes nothing. -/
def Repeats (env : Env) (now : String) (changes : List SyncChange) (accepted : Bool) (db : Db) :
    Prop :=
  ∃ response db', pushSession env now changes (.idle db) = (.ok response, .idle db') ∧
    response.accepted = accepted ∧ db'.tables = db.tables ∧ db'.log = db.log ∧
      db'.conflicts = db.conflicts

/-- A push of the change passes it over. -/
def Recognised (log : ChangeLog) (change : SyncChange) : Prop :=
  (∃ k, SyncableEntityKind.entityTypeToTable change.entityType = some k) ∧
    alreadyLogged log (toAsciiUppercase change.operation) change = true

theorem Recognised.mono {log log' : ChangeLog} {new : List ChangeRow}
    (hrows : log'.rows = log.rows ++ new) (h : Recognised log change) : Recognised log' change := by
  refine ⟨h.1, ?_⟩
  have hseen := h.2
  unfold alreadyLogged at hseen ⊢
  rw [hrows, List.any_append, hseen, Bool.true_or]

theorem recognised_recordedRow {log : ChangeLog} {rows : List ChangeRow} {seq : Nat}
    {k : SyncableEntityKind}
    (hk : SyncableEntityKind.entityTypeToTable change.entityType = some k)
    (hrows : log.rows = rows ++ [recordedRow now (toAsciiUppercase change.operation) change seq]) :
    Recognised log change := by
  refine ⟨⟨k, hk⟩, ?_⟩
  rw [alreadyLogged, hrows, List.any_append]
  simp [recordedRow, changeEntry]

/-- Without a clash, every change of the batch is recognised afterwards: it was already,
    or its row was added. -/
theorem recognised_of_pushLoop : ∀ (changes : List SyncChange)
    (state state' : List ConflictRow × Db), Suppressed state.2 →
    pushLoop env now changes state = .ok state' →
    clashes (judge env now changes state.2.log) = [] →
    ∀ change ∈ changes, Recognised state'.2.log change := by
  intro changes
  induction changes with
  | nil =>
      intro state state' _ _ _ change hmem
      cases hmem
  | cons first rest ih =>
      intro state state' hquiet h hclash change hmem
      obtain ⟨conflict, mid, hstep, hrest⟩ := pushLoop_cons.1 h
      rw [judge] at hclash
      cases pushChange_cases hstep with
      | @known k hk hseen =>
          rw [verdict_known hseen] at hclash
          obtain ⟨_, _, hadv⟩ := pushLoop_spec rest (state.1 ++ [], state.2) state' hquiet hrest
          rcases List.mem_cons.1 hmem with rfl | hmem
          · exact Recognised.mono hadv.log ⟨⟨k, hk⟩, hseen⟩
          · exact ih (state.1 ++ [], state.2) state' hquiet hrest hclash change hmem
      | conflict hk hseen hdiv =>
          rw [verdict_clash hseen hdiv] at hclash
          cases hclash
      | @applied k db1 _ hk hseen hdiv hwrite hrecord =>
          have hecho := echoed_applyOne hwrite
          have hquiet1 : Suppressed db1 := hquiet.of_echoed hecho
          have hlogged := logged_eq hrecord
          rw [hecho.quiet hquiet] at hlogged
          rw [verdict_fresh hseen hdiv, logAfter, hlogged] at hclash
          obtain ⟨log, rfl, hrows, hseq⟩ := insertChangeRow_eq_ok hrecord
          obtain ⟨_, _, hadv⟩ :=
            pushLoop_spec rest (state.1 ++ [], { db1 with log }) state' hquiet1 hrest
          rcases List.mem_cons.1 hmem with rfl | hmem
          · exact Recognised.mono hadv.log (recognised_recordedRow hk hrows)
          · exact ih (state.1 ++ [], { db1 with log }) state' hquiet1 hrest hclash change hmem

/-- A batch of recognised changes is passed over. -/
theorem pushLoop_of_recognised (env : Env) (now : String) : ∀ (changes : List SyncChange)
    (state : List ConflictRow × Db),
    (∀ change ∈ changes, Recognised state.2.log change) →
    pushLoop env now changes state = .ok state := by
  intro changes
  induction changes with
  | nil =>
      intro state _
      rfl
  | cons first rest ih =>
      intro state h
      obtain ⟨⟨k, hk⟩, hseen⟩ := h first List.mem_cons_self
      have hstep : pushChange env now first state.2 = .ok (none, state.2) := by
        simp only [pushChange, hk, hseen, if_true]
      refine pushLoop_cons.2 ⟨none, state.2, hstep, ?_⟩
      have hnone : state.1 ++ (none : Option ConflictRow).toList = state.1 := List.append_nil _
      rw [hnone]
      exact ih state fun change hmem => h change (List.mem_cons_of_mem _ hmem)

theorem pushChanges_of_session {response : PushResponse}
    (h : pushSession env now changes (.idle db) = (.ok response, .idle db')) :
    pushChanges env now changes db = .ok (response, db') := by
  rw [pushSession_idle] at h
  cases hpush : pushChanges env now changes db with
  | ok p =>
      rw [hpush] at h
      obtain ⟨hresponse, hconn⟩ := Prod.mk.inj h
      cases Except.ok.inj hresponse
      cases hconn
      rfl
  | error e =>
      rw [hpush] at h
      cases (Prod.mk.inj h).1

theorem clashes_of_repeats {now' : String} {response : PushResponse}
    (h : pushChanges env now changes db = .ok (response, db'))
    (hrepeats : Repeats env now' changes response.accepted db') :
    clashes (judge env now changes db.log) = [] := by
  obtain ⟨response2, db2, h2, haccepted, _, _, hconflicts⟩ := hrepeats
  have hsecond := pushed_of_ok (pushChanges_of_session h2)
  -- the second push added no conflict, so it was accepted, and so was the first
  have hrows := hsecond.advanced.conflicts
  rw [hconflicts] at hrows
  have hnone : clashes (judge env now' changes db'.log) = [] := by
    have hlen := congrArg List.length hrows
    rw [List.length_append, conflictRows, List.length_map, List.length_zipIdx] at hlen
    exact List.eq_nil_of_length_eq_zero (by simp only at hlen; omega)
  rw [hsecond.accepted, hnone, (pushed_of_ok h).accepted] at haccepted
  exact List.isEmpty_iff.1 haccepted.symm

theorem clashes_eq_nil_iff {judged : List (SyncChange × Verdict)} :
    clashes judged = [] ↔ ∀ p ∈ judged, p.2 = .known ∨ p.2 = .fresh := by
  rw [clashes, List.filterMap_eq_nil_iff]
  constructor
  · intro h p hp
    have hnone := h p hp
    cases hv : p.2 with
    | known => exact Or.inl rfl
    | fresh => exact Or.inr rfl
    | clash localPayload =>
        rw [hv] at hnone
        cases hnone
  · intro h p hp
    rcases h p hp with hv | hv
    · rw [hv]
    · rw [hv]

/-- **PUSHING TWICE IS PUSHING ONCE** exactly when no change of the batch clashes. -/
theorem repeats_iff_no_clash (env : Env) (now now' : String) (changes : List SyncChange)
    (db db' : Db) (response : PushResponse)
    (h : pushSession env now changes (.idle db) = (.ok response, .idle db')) :
    Repeats env now' changes response.accepted db' ↔
      ∀ p ∈ judge env now changes db.log, p.2 = .known ∨ p.2 = .fresh := by
  have hpush := pushChanges_of_session h
  rw [← clashes_eq_nil_iff]
  constructor
  · intro hrepeats
    exact clashes_of_repeats hpush hrepeats
  · intro hclash
    obtain ⟨⟨conflicts, last⟩, hloop, hend⟩ := bind_eq_ok.1 hpush
    obtain ⟨hresponse, rfl⟩ := Prod.mk.inj (Except.ok.inj hend)
    have hquiet : Suppressed { db with syncApply := some "1" } := rfl
    have hknown := recognised_of_pushLoop changes _ _ hquiet hloop hclash
    -- the second loop passes every change over
    have hsecond : pushChanges env now' changes { last with syncApply := none } =
        .ok ({ accepted := true, conflicts := [], latestVersion := getLatestVersion last.log },
          { last with syncApply := none }) :=
      bind_eq_ok.2 ⟨([], { last with syncApply := some "1" }),
        pushLoop_of_recognised env now' changes _ hknown, rfl⟩
    refine ⟨{ accepted := true, conflicts := [], latestVersion := getLatestVersion last.log },
      { last with syncApply := none }, ?_, ?_, rfl, rfl, rfl⟩
    · rw [pushSession_idle, hsecond]
    · rw [(pushed_of_ok hpush).accepted, hclash]
      rfl

/-- The tablet's delete pushed to an empty device, and pushed again. -/
theorem repeats_delete :
    ∃ response db', pushSession Env.reference "2026-01-01 00:00:00"
        [SyncConflict.deleteWork "tablet" "null"] (.idle (Db.empty false)) =
          (.ok response, .idle db') ∧
      Repeats Env.reference "2026-01-01 00:00:01" [SyncConflict.deleteWork "tablet" "null"]
        response.accepted db' := by
  obtain ⟨response, db', h⟩ : ∃ response db', pushSession Env.reference "2026-01-01 00:00:00"
      [SyncConflict.deleteWork "tablet" "null"] (.idle (Db.empty false)) =
        (.ok response, .idle db') := ⟨_, _, rfl⟩
  refine ⟨response, db', h, (repeats_iff_no_clash _ _ _ _ _ _ _ h).2 ?_⟩
  intro p hp
  cases List.mem_singleton.1 hp
  exact Or.inr (by decide)

/-- A delete with another payload, at the version the tablet's has: each push adds a
    conflict. -/
theorem not_repeats_clash :
    ∃ response db', pushSession Env.reference "2026-01-01 00:00:00"
        [SyncConflict.deleteWork "phone" "true"] (.idle SyncConflict.tabletDeleted) =
          (.ok response, .idle db') ∧
      ¬ Repeats Env.reference "2026-01-01 00:00:01" [SyncConflict.deleteWork "phone" "true"]
        response.accepted db' := by
  obtain ⟨response, db', h⟩ : ∃ response db', pushSession Env.reference "2026-01-01 00:00:00"
      [SyncConflict.deleteWork "phone" "true"] (.idle SyncConflict.tabletDeleted) =
        (.ok response, .idle db') := ⟨_, _, rfl⟩
  refine ⟨response, db', h, ?_⟩
  intro hrepeats
  have hclash := clashes_of_repeats (pushChanges_of_session h) hrepeats
  revert hclash
  decide

end SyncPush

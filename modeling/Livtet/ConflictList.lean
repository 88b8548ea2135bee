import Livtet.Push
import Livtet.Lib.Runs

/-! # Conflicts — recorded, listed, resolved once

    Both write paths put the changes they do not take on record. A reader, at this
    device or at a paired one, lists the open records and says what became of each.

    Over any run the records are a ledger: none is lost and no id is given twice, an open
    record stays open until one request closes it, and what that request said is what
    stays on the record. -/

namespace SyncConflictList

open SyncStore SyncEngine SyncSteps SyncConflict Outcomes Runs

/-! ## Listing and resolving -/

/-- `list_conflicts`: the open rows, newest first. -/
def listConflicts (c : Conflicts) : List ConflictRow :=
  (c.rows.filter fun r => !r.resolved).reverse

/-- `WHERE id = ? AND resolved = 0`. -/
def isOpen (id : Int) (r : ConflictRow) : Bool := decide ((r.id : Int) = id) && !r.resolved

def resolveRow (id : Int) (resolution : String) (mergedPayload : Option String) (r : ConflictRow) :
    ConflictRow :=
  if isOpen id r then { r with resolved := true, resolution := some resolution, mergedPayload }
  else r

@[simp] theorem id_resolveRow (id : Int) (resolution : String) (mergedPayload : Option String)
    (r : ConflictRow) : (resolveRow id resolution mergedPayload r).id = r.id := by
  rw [resolveRow]
  split <;> rfl

/-- `resolve_conflict`: whether a row was affected. -/
def resolveConflict (id : Int) (resolution : String) (mergedPayload : Option String)
    (c : Conflicts) : Bool × Conflicts :=
  (c.rows.any (isOpen id),
    { rows := c.rows.map (resolveRow id resolution mergedPayload)
      seq := c.seq
      ascending := by
        rw [List.pairwise_map]
        simp only [id_resolveRow]
        exact c.ascending
      ids_le := by
        intro r hr
        obtain ⟨old, hold, rfl⟩ := List.mem_map.1 hr
        rw [id_resolveRow]
        exact c.ids_le old hold })

/-- The resolutions that both handlers let through to the engine. -/
def isResolution (resolution : String) : Bool :=
  resolution == "local" || resolution == "remote" || resolution == "merged"

/-- `handle_conflicts_resolve`; a peer's request goes through the same check. -/
def handleConflictsResolve (id : Int) (resolution : String) (mergedPayload : Option String)
    (db : Db) : Except String Bool × Db :=
  if isResolution resolution then
    let (resolved, conflicts) := resolveConflict id resolution mergedPayload db.conflicts
    (.ok resolved, { db with conflicts })
  else (.error ("invalid resolution: " ++ resolution), db)

/-! ## The store -/

/-- Whatever writes to the synced tables, the log or the conflicts: an edit at this
    device, a batch pulled from a peer, a batch a peer pushed, a resolution. -/
inductive Write
  | edit (now : String) (edit : LocalEdit)
  | apply (now : String) (changes : List SyncChange) (options : ApplyOptions)
  | push (now : String) (changes : List SyncChange)
  | resolve (id : Int) (resolution : String) (mergedPayload : Option String)

section Store

variable (env : Env)

/-- A write that fails is rolled back. -/
def write (db : Db) : Write → Db
  | .edit now edit => (localEdit env now edit db).toOption.getD db
  | .apply now changes options =>
      ((applyChanges env now changes options db).toOption.map Prod.snd).getD db
  | .push now changes => ((pushChanges env now changes db).toOption.map Prod.snd).getD db
  | .resolve id resolution mergedPayload =>
      (handleConflictsResolve id resolution mergedPayload db).2

/-- The conflicts the answer to a write reports. -/
def reported (db : Db) : Write → List ConflictRow
  | .apply now changes options =>
      ((applyChanges env now changes options db).toOption.map fun p => p.1.conflicts).getD []
  | .push now changes =>
      ((pushChanges env now changes db).toOption.map fun p => p.1.conflicts).getD []
  | _ => []

/-- The request was answered that it resolved the conflict. -/
def Resolves (db : Db) (id : Int) (resolution : String) (mergedPayload : Option String) : Prop :=
  (handleConflictsResolve id resolution mergedPayload db).1 = .ok true

/-- The rows are about one clash. -/
def SameClash (r r' : ConflictRow) : Prop :=
  r'.id = r.id ∧ r'.entityType = r.entityType ∧ r'.entityId = r.entityId ∧
    r'.localPayload = r.localPayload ∧ r'.remotePayload = r.remotePayload ∧
    r'.detectedAt = r.detectedAt

/-- What a run does to the records. -/
structure ResolvedOnce (start : Db) (run : List Write) : Prop where
  /-- No record is lost or rewritten; one that is closed stays as it is. -/
  kept : ∀ r ∈ start.conflicts.rows, ∃ r' ∈ (exec (write env) start run).conflicts.rows,
    SameClash r r' ∧ (r.resolved = true → r' = r)
  /-- A record that the run closed has the words of the request that closed it, and
      was listed when that request came. -/
  decided : ∀ r' ∈ (exec (write env) start run).conflicts.rows, r'.resolved = true →
    r' ∈ start.conflicts.rows ∨
    ∃ pre resolution post, run = pre ++ .resolve r'.id resolution r'.mergedPayload :: post ∧
      r'.resolution = some resolution ∧ isResolution resolution = true ∧
      ∃ r ∈ listConflicts (exec (write env) start pre).conflicts, SameClash r r'
  /-- At most one request is told that it resolved a conflict. -/
  once : ∀ pre mid post id resolution resolution' mergedPayload mergedPayload',
    run = pre ++ .resolve id resolution mergedPayload ::
      (mid ++ .resolve id resolution' mergedPayload' :: post) →
    Resolves (exec (write env) start pre) id resolution mergedPayload →
    ¬ Resolves (exec (write env) start (pre ++ .resolve id resolution mergedPayload :: mid)) id
        resolution' mergedPayload'
  /-- Every conflict that the answer to a batch reports can be listed after it. -/
  listed : ∀ pre a post, run = pre ++ a :: post →
    ∀ r ∈ reported env (exec (write env) start pre) a,
      r ∈ listConflicts (exec (write env) start (pre ++ [a])).conflicts
  /-- The list is in descending order of ids. -/
  newest_first : (listConflicts (exec (write env) start run).conflicts).Pairwise
    fun a b => b.id < a.id

end Store

/-! ## Rows and lists -/

section Rows

variable {c : Conflicts} {id : Int} {resolution : String} {mergedPayload : Option String}

theorem mem_listConflicts {r : ConflictRow} :
    r ∈ listConflicts c ↔ r ∈ c.rows ∧ r.resolved = false := by
  rw [listConflicts, List.mem_reverse, List.mem_filter, Bool.not_eq_true']

theorem isOpen_iff {r : ConflictRow} : isOpen id r = true ↔ (r.id : Int) = id ∧ r.resolved = false := by
  rw [isOpen, Bool.and_eq_true, decide_eq_true_eq, Bool.not_eq_true']

/-- A row is found by its id. -/
theorem eq_of_id {r r' : ConflictRow} (hr : r ∈ c.rows) (hr' : r' ∈ c.rows) (h : r.id = r'.id) :
    r = r' := by
  have hnodup : (c.rows.map ConflictRow.id).Nodup :=
    List.pairwise_map.2 (c.ascending.imp Nat.ne_of_lt)
  exact List.inj_on_of_nodup_map hnodup hr hr' h

theorem resolveRow_of_not (r : ConflictRow) (h : isOpen id r = false) :
    resolveRow id resolution mergedPayload r = r := by
  rw [resolveRow, h]
  rfl

theorem sameClash_refl (r : ConflictRow) : SameClash r r := ⟨rfl, rfl, rfl, rfl, rfl, rfl⟩

theorem SameClash.trans {r r' r'' : ConflictRow} (h : SameClash r r') (h' : SameClash r' r'') :
    SameClash r r'' :=
  ⟨h'.1.trans h.1, h'.2.1.trans h.2.1, h'.2.2.1.trans h.2.2.1, h'.2.2.2.1.trans h.2.2.2.1,
    h'.2.2.2.2.1.trans h.2.2.2.2.1, h'.2.2.2.2.2.trans h.2.2.2.2.2⟩

theorem sameClash_resolveRow (r : ConflictRow) :
    SameClash r (resolveRow id resolution mergedPayload r) := by
  rw [resolveRow]
  split
  · exact ⟨rfl, rfl, rfl, rfl, rfl, rfl⟩
  · exact sameClash_refl r

theorem resolves_iff {db : Db} : Resolves db id resolution mergedPayload ↔
    isResolution resolution = true ∧ ∃ r ∈ db.conflicts.rows, isOpen id r = true := by
  rw [Resolves, handleConflictsResolve, ← List.any_eq_true]
  split
  · next hres =>
      constructor
      · intro h
        exact ⟨hres, Except.ok.inj h⟩
      · rintro ⟨_, hany⟩
        exact congrArg Except.ok hany
  · next hres => exact ⟨fun h => (by cases h), fun h => absurd h.1 hres⟩

end Rows

/-! ## A later state of the records -/

/-- Every record is still there, a closed one unchanged, and the ids that were given
    then are the old records'. -/
structure Later (c c' : Conflicts) : Prop where
  seq_le : c.seq ≤ c'.seq
  kept : ∀ r ∈ c.rows, ∃ r' ∈ c'.rows, SameClash r r' ∧ (r.resolved = true → r' = r)
  known : ∀ r' ∈ c'.rows, r'.id ≤ c.seq → ∃ r ∈ c.rows, r.id = r'.id

namespace Later

theorem refl (c : Conflicts) : Later c c :=
  ⟨le_refl _, fun r hr => ⟨r, hr, sameClash_refl r, fun _ => rfl⟩, fun r hr _ => ⟨r, hr, rfl⟩⟩

theorem trans {a b c : Conflicts} (h : Later a b) (h' : Later b c) : Later a c where
  seq_le := h.seq_le.trans h'.seq_le
  kept := by
    intro r hr
    obtain ⟨r', hr', hsame, hclosed⟩ := h.kept r hr
    obtain ⟨r'', hr'', hsame', hclosed'⟩ := h'.kept r' hr'
    refine ⟨r'', hr'', hsame.trans hsame', fun hres => ?_⟩
    cases hclosed hres
    exact hclosed' hres
  known := by
    intro r'' hr'' hle
    obtain ⟨r', hr', hid⟩ := h'.known r'' hr'' (hle.trans h.seq_le)
    obtain ⟨r, hr, hid'⟩ := h.known r' hr' (hid ▸ hle)
    exact ⟨r, hr, hid'.trans hid⟩

theorem insert (c : Conflicts) (now entityType entityId localPayload remotePayload : String) :
    Later c (c.insert now entityType entityId localPayload remotePayload) where
  seq_le := Nat.le_succ _
  kept := fun r hr => ⟨r, List.mem_append_left _ hr, sameClash_refl r, fun _ => rfl⟩
  known := by
    intro r' hr' hle
    rcases List.mem_append.1 hr' with hr' | hr'
    · exact ⟨r', hr', rfl⟩
    · cases List.mem_singleton.1 hr'
      exact absurd hle (Nat.not_succ_le_self _)

theorem resolve (c : Conflicts) (id : Int) (resolution : String) (mergedPayload : Option String) :
    Later c (resolveConflict id resolution mergedPayload c).2 where
  seq_le := le_refl _
  kept := by
    intro r hr
    refine ⟨_, List.mem_map_of_mem hr, sameClash_resolveRow r, fun hres => resolveRow_of_not r ?_⟩
    rw [isOpen, hres, Bool.not_true, Bool.and_false]
  known := by
    intro r' hr' _
    obtain ⟨r, hr, rfl⟩ := List.mem_map.1 hr'
    exact ⟨r, hr, (id_resolveRow _ _ _ r).symm⟩

end Later

/-- The records grow by open ones only: a batch does not resolve anything. -/
structure Recorded (c c' : Conflicts) : Prop where
  later : Later c c'
  new_open : ∀ r ∈ c'.rows, r ∈ c.rows ∨ r.resolved = false
  open_kept : ∀ r ∈ c.rows, r ∈ c'.rows

namespace Recorded

theorem refl (c : Conflicts) : Recorded c c :=
  ⟨.refl c, fun _ hr => Or.inl hr, fun _ hr => hr⟩

theorem of_eq {c c' : Conflicts} (h : c' = c) : Recorded c c' := h ▸ refl c

theorem trans {a b c : Conflicts} (h : Recorded a b) (h' : Recorded b c) : Recorded a c where
  later := h.later.trans h'.later
  new_open := by
    intro r hr
    rcases h'.new_open r hr with hr | hopen
    · exact h.new_open r hr
    · exact Or.inr hopen
  open_kept := fun r hr => h'.open_kept r (h.open_kept r hr)

theorem insert (c : Conflicts) (now entityType entityId localPayload remotePayload : String) :
    Recorded c (c.insert now entityType entityId localPayload remotePayload) where
  later := .insert c now entityType entityId localPayload remotePayload
  new_open := by
    intro r hr
    rcases List.mem_append.1 hr with hr | hr
    · exact Or.inl hr
    · cases List.mem_singleton.1 hr
      exact Or.inr rfl
  open_kept := fun _ hr => List.mem_append_left _ hr

end Recorded

/-! ## What a batch records -/

section Batches

variable {env : Env} {now : String} {options : ApplyOptions} {change : SyncChange}
  {changes : List SyncChange} {db db' : Db}

/-- The conflict just recorded is the one that is reported, and it is listed. -/
theorem latest?_recordConflict (localPayload : String) :
    ∀ r, (recordConflict now change localPayload db).conflicts.latest? change.entityType
        change.entityId = some r →
      r ∈ listConflicts (recordConflict now change localPayload db).conflicts := by
  intro r hr
  have hnew : (recordConflict now change localPayload db).conflicts.latest? change.entityType
      change.entityId = _ := SyncPush.latest?_insert db.conflicts now change.entityType
        change.entityId localPayload change.payload
  cases Option.some.inj (hnew.symm.trans hr)
  exact mem_listConflicts.2 ⟨List.mem_append_right _ List.mem_cons_self, rfl⟩

theorem recorded_applyChange {step : ApplyStep}
    (h : applyChange env now options change db = .ok (step, db')) :
    Recorded db.conflicts db'.conflicts ∧
      ∀ conflict r, step = .conflicted conflict → r ∈ conflict.toList →
        r ∈ listConflicts db'.conflicts := by
  cases applyChange_cases h with
  | ignored _ => exact ⟨.refl _, fun _ _ h => by cases h⟩
  | @conflict _ localPayload _ _ =>
      refine ⟨.insert _ _ _ _ _ _, fun conflict r hstep hr => ?_⟩
      cases hstep
      exact latest?_recordConflict localPayload r (Option.mem_toList.1 hr)
  | applied _ _ _ hwrite hrecord =>
      exact ⟨.of_eq (conflicts_of_applied (echoed_writeEntity hwrite) hrecord), fun _ _ h => by cases h⟩

theorem recorded_pushChange {conflict : Option ConflictRow}
    (h : pushChange env now change db = .ok (conflict, db')) :
    Recorded db.conflicts db'.conflicts ∧
      ∀ r ∈ conflict.toList, r ∈ listConflicts db'.conflicts := by
  cases pushChange_cases h with
  | known _ _ => exact ⟨.refl _, fun _ h => by cases h⟩
  | @conflict _ localPayload _ _ _ =>
      exact ⟨.insert _ _ _ _ _ _,
        fun r hr => latest?_recordConflict localPayload r (Option.mem_toList.1 hr)⟩
  | applied _ _ _ hwrite hrecord =>
      obtain ⟨log, rfl, _, _⟩ := insertChangeRow_eq_ok hrecord
      exact ⟨.of_eq (echoed_applyOne hwrite).conflicts, fun _ h => by cases h⟩

/-- Listed conflicts stay listed while others are recorded. -/
theorem Recorded.listed {c c' : Conflicts} (h : Recorded c c') {r : ConflictRow}
    (hr : r ∈ listConflicts c) : r ∈ listConflicts c' :=
  mem_listConflicts.2 ⟨h.open_kept r (mem_listConflicts.1 hr).1, (mem_listConflicts.1 hr).2⟩

/-- The loop of a pulled batch, from what was reported before it. -/
theorem recorded_applyOrdered : ∀ (changes : List SyncChange) {state state' : ApplyOutcome × Db},
    applyOrdered env now options changes state = .ok state' →
    (∀ r ∈ state.1.conflicts, r ∈ listConflicts state.2.conflicts) →
    Recorded state.2.conflicts state'.2.conflicts ∧
      ∀ r ∈ state'.1.conflicts, r ∈ listConflicts state'.2.conflicts := by
  intro changes
  induction changes with
  | nil =>
      intro state state' h hbefore
      cases Except.ok.inj h
      exact ⟨.refl _, hbefore⟩
  | cons change rest ih =>
      intro state state' h hbefore
      obtain ⟨step, db1, hchange, hrest⟩ := applyOrdered_cons.1 h
      obtain ⟨hrec, hnew⟩ := recorded_applyChange hchange
      have hkept : ∀ r ∈ state.1.conflicts, r ∈ listConflicts db1.conflicts :=
        fun r hr => hrec.listed (hbefore r hr)
      obtain ⟨hrec', hlisted⟩ := ih hrest (by
        intro r hr
        cases step with
        | applied => exact hkept r hr
        | skipped => exact hkept r hr
        | conflicted conflict =>
            rcases List.mem_append.1 hr with hr | hr
            · exact hkept r hr
            · exact hnew conflict r rfl hr)
      exact ⟨hrec.trans hrec', hlisted⟩

theorem recorded_pushLoop : ∀ (changes : List SyncChange) {state state' : List ConflictRow × Db},
    pushLoop env now changes state = .ok state' →
    (∀ r ∈ state.1, r ∈ listConflicts state.2.conflicts) →
    Recorded state.2.conflicts state'.2.conflicts ∧
      ∀ r ∈ state'.1, r ∈ listConflicts state'.2.conflicts := by
  intro changes
  induction changes with
  | nil =>
      intro state state' h hbefore
      cases Except.ok.inj h
      exact ⟨.refl _, hbefore⟩
  | cons change rest ih =>
      intro state state' h hbefore
      obtain ⟨conflict, db1, hchange, hrest⟩ := pushLoop_cons.1 h
      obtain ⟨hrec, hnew⟩ := recorded_pushChange hchange
      obtain ⟨hrec', hlisted⟩ := ih hrest (by
        intro r hr
        rcases List.mem_append.1 hr with hr | hr
        · exact hrec.listed (hbefore r hr)
        · exact hnew r hr)
      exact ⟨hrec.trans hrec', hlisted⟩

end Batches

/-! ## One write -/

section Steps

variable {env : Env} {db : Db}

/-- A write that is no resolution records open conflicts, and lists those it reports. -/
theorem recorded_write (a : Write) (h : ∀ id resolution mergedPayload,
      a ≠ .resolve id resolution mergedPayload) :
    Recorded db.conflicts (write env db a).conflicts ∧
      ∀ r ∈ reported env db a, r ∈ listConflicts (write env db a).conflicts := by
  cases a with
  | edit now edit =>
      refine ⟨?_, fun r hr => by cases hr⟩
      simp only [write]
      cases hrun : localEdit env now edit db with
      | error e => exact .refl _
      | ok db' => exact .of_eq (Echoed.localEdit hrun).conflicts
  | apply now changes options =>
      simp only [write, reported]
      cases hrun : applyChanges env now changes options db with
      | error e => exact ⟨.refl _, fun r hr => by cases hr⟩
      | ok p => exact recorded_applyOrdered _ hrun fun r hr => by cases hr
  | push now changes =>
      simp only [write, reported]
      cases hrun : pushChanges env now changes db with
      | error e => exact ⟨.refl _, fun r hr => by cases hr⟩
      | ok p =>
          obtain ⟨⟨conflicts, db1⟩, hloop, hp⟩ := bind_eq_ok.1 hrun
          cases Except.ok.inj hp
          exact recorded_pushLoop changes hloop fun r hr => by cases hr
  | resolve id resolution mergedPayload => exact absurd rfl (h id resolution mergedPayload)

theorem later_write (a : Write) : Later db.conflicts (write env db a).conflicts := by
  cases a with
  | resolve id resolution mergedPayload =>
      show Later db.conflicts (handleConflictsResolve id resolution mergedPayload db).2.conflicts
      rw [handleConflictsResolve]
      split
      · exact .resolve db.conflicts id resolution mergedPayload
      · exact .refl _
  | edit now edit => exact (recorded_write _ fun _ _ _ h => by cases h).1.later
  | apply now changes options => exact (recorded_write _ fun _ _ _ h => by cases h).1.later
  | push now changes => exact (recorded_write _ fun _ _ _ h => by cases h).1.later

/-- A closed record was closed before, or the write closed it. -/
theorem resolved_write (a : Write) {r' : ConflictRow}
    (hr' : r' ∈ (write env db a).conflicts.rows) (hres : r'.resolved = true) :
    r' ∈ db.conflicts.rows ∨
    ∃ resolution, a = .resolve r'.id resolution r'.mergedPayload ∧
      r'.resolution = some resolution ∧ isResolution resolution = true ∧
      ∃ r ∈ listConflicts db.conflicts, SameClash r r' := by
  have hbatch : (∀ id resolution mergedPayload, a ≠ .resolve id resolution mergedPayload) →
      r' ∈ db.conflicts.rows := by
    intro hne
    rcases (recorded_write a hne).1.new_open r' hr' with hold | hopen
    · exact hold
    · cases hopen.symm.trans hres
  cases a with
  | edit now edit => exact Or.inl (hbatch fun _ _ _ h => by cases h)
  | apply now changes options => exact Or.inl (hbatch fun _ _ _ h => by cases h)
  | push now changes => exact Or.inl (hbatch fun _ _ _ h => by cases h)
  | resolve id resolution mergedPayload =>
      have hr' : r' ∈ (handleConflictsResolve id resolution mergedPayload db).2.conflicts.rows := hr'
      rw [handleConflictsResolve] at hr'
      split at hr'
      · next hvalid =>
          obtain ⟨r, hr, rfl⟩ := List.mem_map.1 hr'
          cases hopen : isOpen id r with
          | false =>
              rw [resolveRow_of_not r hopen]
              exact Or.inl hr
          | true =>
              obtain ⟨hid, hunresolved⟩ := isOpen_iff.1 hopen
              have hrow : resolveRow id resolution mergedPayload r = _ := if_pos hopen
              refine Or.inr ⟨resolution, ?_, ?_, hvalid, r, mem_listConflicts.2 ⟨hr, hunresolved⟩,
                sameClash_resolveRow r⟩
              · rw [hrow]
                exact congrArg (fun n => Write.resolve n resolution mergedPayload) hid.symm
              · rw [hrow]
      · exact Or.inl hr'

/-- A resolution that is answered to have resolved leaves no open record of the id. -/
theorem closed_of_resolves (env : Env) {id : Int} {resolution : String} {mergedPayload : Option String}
    (h : Resolves db id resolution mergedPayload) :
    ∃ r ∈ (write env db (.resolve id resolution mergedPayload)).conflicts.rows,
      (r.id : Int) = id ∧ r.resolved = true := by
  obtain ⟨hvalid, r, hr, hopen⟩ := resolves_iff.1 h
  have hrow : resolveRow id resolution mergedPayload r = _ := if_pos hopen
  have hwrite : (write env db (.resolve id resolution mergedPayload)).conflicts =
      (resolveConflict id resolution mergedPayload db.conflicts).2 := by
    rw [write, handleConflictsResolve, if_pos hvalid]
  refine ⟨resolveRow id resolution mergedPayload r, ?_, ?_, ?_⟩
  · rw [hwrite]
    exact List.mem_map_of_mem hr
  · rw [id_resolveRow]
    exact (isOpen_iff.1 hopen).1
  · rw [hrow]

end Steps

/-! ## Runs -/

section Runs

variable {env : Env} {start : Db}

theorem later_run (run : List Write) :
    Later start.conflicts (exec (write env) start run).conflicts := by
  have hstep : ∀ (db : Db) a, Later start.conflicts db.conflicts →
      Later start.conflicts (write env db a).conflicts := fun _ a h => h.trans (later_write a)
  exact preserved hstep run (.refl _)

/-- By induction on the run: the first write that leaves the record closed closed it. -/
theorem resolved_run : ∀ (run : List Write) {start : Db} {r' : ConflictRow},
    r' ∈ (exec (write env) start run).conflicts.rows → r'.resolved = true →
    r' ∈ start.conflicts.rows ∨
    ∃ pre resolution post, run = pre ++ .resolve r'.id resolution r'.mergedPayload :: post ∧
      r'.resolution = some resolution ∧ isResolution resolution = true ∧
      ∃ r ∈ listConflicts (exec (write env) start pre).conflicts, SameClash r r' := by
  intro run
  induction run with
  | nil => exact fun hr' _ => Or.inl hr'
  | cons a rest ih =>
      intro start r' hr' hres
      rcases ih hr' hres with hstep | ⟨pre, resolution, post, rfl, hwords, hvalid, hlisted⟩
      · rcases resolved_write a hstep hres with hold | ⟨resolution, rfl, hwords, hvalid, hlisted⟩
        · exact Or.inl hold
        · exact Or.inr ⟨[], resolution, rest, rfl, hwords, hvalid, hlisted⟩
      · exact Or.inr ⟨a :: pre, resolution, post, rfl, hwords, hvalid, hlisted⟩

/-- Once a record is closed, no later request is told that it resolved its id. -/
theorem not_resolves_of_closed {db db' : Db} (h : Later db.conflicts db'.conflicts) {r : ConflictRow}
    (hr : r ∈ db.conflicts.rows) (hres : r.resolved = true) {resolution : String}
    {mergedPayload : Option String} : ¬ Resolves db' r.id resolution mergedPayload := by
  intro hresolves
  obtain ⟨_, r', hr', hopen⟩ := resolves_iff.1 hresolves
  obtain ⟨hid, hunresolved⟩ := isOpen_iff.1 hopen
  obtain ⟨old, hold, _, hclosed⟩ := h.kept r hr
  cases hclosed hres
  cases eq_of_id hr' hold (Int.ofNat.inj hid)
  cases hunresolved.symm.trans hres

end Runs

/-- **RECORDED AND RESOLVED ONCE.** -/
theorem conflicts_resolved_once (env : Env) (start : Db) (run : List Write) :
    ResolvedOnce env start run where
  kept := (later_run run).kept
  decided := fun r' hr' hres => resolved_run run hr' hres
  once := by
    intro pre mid post id resolution resolution' mergedPayload mergedPayload' _ hfirst
    obtain ⟨r, hr, rfl, hres⟩ := closed_of_resolves env hfirst
    rw [exec_append, exec_cons]
    exact not_resolves_of_closed (later_run mid) hr hres
  listed := by
    intro pre a post _ r hr
    rw [exec_append]
    cases a with
    | resolve id resolution mergedPayload => cases hr
    | edit now edit => cases hr
    | apply now changes options => exact (recorded_write _ fun _ _ _ h => by cases h).2 r hr
    | push now changes => exact (recorded_write _ fun _ _ _ h => by cases h).2 r hr
  newest_first := by
    rw [listConflicts, List.pairwise_reverse]
    exact ((exec (write env) start run).conflicts.ascending).filter _

end SyncConflictList

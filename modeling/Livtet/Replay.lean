import Livtet.Conflict

/-! # Applying a batch twice

    A pull that crashed after the apply committed and before the cursor was written
    is repeated. `apply_changes` has no memory of what it applied: a change that was
    written is written and logged again under a new id (or refused by the index on
    remote identities), and one that was a conflict adds a second conflict row. A
    repetition leaves everything as it was exactly when every change of the batch
    was ignored the first time. -/

namespace SyncReplay

open SqlRows SyncSchema SyncStore SyncEngine SyncSteps Outcomes

/-- A second application succeeds and changes no table, log row or conflict row. -/
def ReplaySafe (env : Env) (now : String) (changes : List SyncChange) (options : ApplyOptions)
    (db : Db) : Prop :=
  ∃ outcome db', applyChanges env now changes options db = .ok (outcome, db') ∧
    db'.tables = db.tables ∧ db'.log.rows = db.log.rows ∧ db'.conflicts.rows = db.conflicts.rows

variable {env : Env} {now : String} {options : ApplyOptions} {db db' : Db}

/-- Changes that are never written, whatever the log says. -/
def NeverWritten (change : SyncChange) : Prop :=
  SyncableEntityKind.entityTypeToTable change.entityType = none ∨
    isOperation change.operation = false

theorem neverWritten_of_ignored {log : ChangeLog} {change : SyncChange}
    (h : Ignored env log change) : NeverWritten change := by
  rcases h with hk | ⟨_, hop⟩
  · exact Or.inl hk
  · exact Or.inr hop

/-- The log right after a change was written: its row is the newest. -/
theorem log_of_applied {change : SyncChange} {db1 : Db} {baseline : Int}
    (hwrite : Echoed db db1) (hrecord : insertChangeRow now change.operation change
      (discardEchoes change baseline db1) = .ok db') :
    db.log.seq < db'.log.seq ∧ ∃ r ∈ db'.log.rows, db.log.seq < r.id := by
  obtain ⟨new, hext⟩ := hwrite.log.extends
  obtain ⟨log, rfl, hrows, hseq⟩ := insertChangeRow_eq_ok hrecord
  have hle := hext.seq_le
  refine ⟨?_, recordedRow now change.operation change db1.log.seq, ?_, ?_⟩
  · show db.log.seq < log.seq
    rw [hseq]
    exact Nat.lt_succ_of_le hle
  · show _ ∈ log.rows
    rw [hrows]
    exact List.mem_append_right _ List.mem_cons_self
  · exact Nat.lt_succ_of_le hle

/-- A pass over a batch either leaves a row under a new id, or leaves the log alone;
    in the second case, if no conflict was added, every change was ignored. By
    induction on the batch: the last change that was written keeps its row. -/
theorem applyOrdered_trace : ∀ (changes : List SyncChange) (state : ApplyOutcome × Db)
    (outcome : ApplyOutcome) (db' : Db),
    applyOrdered env now options changes state = .ok (outcome, db') →
    state.2.conflicts.rows.length ≤ db'.conflicts.rows.length ∧
      state.2.log.seq ≤ db'.log.seq ∧
      ((∃ r ∈ db'.log.rows, state.2.log.seq < r.id) ∨
        (db'.log = state.2.log ∧
          (db'.conflicts.rows.length = state.2.conflicts.rows.length →
            ∀ c ∈ changes, Ignored env state.2.log c))) := by
  intro changes
  induction changes with
  | nil =>
      intro state outcome db' h
      obtain ⟨_, rfl⟩ := Prod.mk.inj (Except.ok.inj h)
      exact ⟨le_refl _, le_refl _, Or.inr ⟨rfl, fun _ c hc => by cases hc⟩⟩
  | cons c rest ih =>
      intro state outcome db' h
      obtain ⟨step, mid, hstep, hrest⟩ := applyOrdered_cons.1 h
      -- what the rest leaves is known; the change before it adds to it or is ignored
      obtain ⟨hconf, hseq, htrace⟩ := ih _ _ _ hrest
      cases applyChange_cases hstep with
      | ignored hign =>
          refine ⟨hconf, hseq, ?_⟩
          rcases htrace with hnew | ⟨hlog, hall⟩
          · exact Or.inl hnew
          · refine Or.inr ⟨hlog, ?_⟩
            intro heq x hx
            rcases List.mem_cons.1 hx with rfl | hx
            · exact hign
            · exact hall heq x hx
      | @conflict k localPayload hk hnew =>
          have hlen : (recordConflict now c localPayload state.2).conflicts.rows.length =
              state.2.conflicts.rows.length + 1 := by
            show (_ ++ [_]).length = _
            rw [List.length_append, List.length_singleton]
          simp only [hlen] at hconf
          refine ⟨by omega, hseq, ?_⟩
          rcases htrace with hnew | ⟨hlog, _⟩
          · exact Or.inl hnew
          · refine Or.inr ⟨hlog, ?_⟩
            intro heq
            omega
      | applied hk hnew hop hwrite hrecord =>
          obtain ⟨hlt, r, hr, hid⟩ := log_of_applied (echoed_writeEntity hwrite) hrecord
          have hconflicts := SyncConflict.conflicts_of_applied (echoed_writeEntity hwrite) hrecord
          simp only [hconflicts] at hconf
          simp only at hseq
          refine ⟨hconf, by omega, Or.inl ?_⟩
          rcases htrace with ⟨x, hx, hxid⟩ | ⟨hlog, _⟩
          · exact ⟨x, hx, lt_trans hlt hxid⟩
          · exact ⟨r, hlog ▸ hr, hid⟩

/-- A batch without a writable change leaves the log alone. -/
theorem log_of_neverWritten : ∀ (changes : List SyncChange) (state : ApplyOutcome × Db)
    (outcome : ApplyOutcome) (db' : Db),
    applyOrdered env now options changes state = .ok (outcome, db') →
    (∀ c ∈ changes, NeverWritten c) → db'.log = state.2.log := by
  intro changes
  induction changes with
  | nil =>
      intro state outcome db' h _
      obtain ⟨_, rfl⟩ := Prod.mk.inj (Except.ok.inj h)
      rfl
  | cons c rest ih =>
      intro state outcome db' h hnever
      obtain ⟨step, mid, hstep, hrest⟩ := applyOrdered_cons.1 h
      have hlog := ih _ _ _ hrest fun x hx => hnever x (List.mem_cons_of_mem _ hx)
      cases applyChange_cases hstep with
      | ignored _ => exact hlog
      | conflict _ _ => exact hlog
      | applied hk _ hop _ _ =>
          rcases hnever c List.mem_cons_self with hno | hno
          · rw [hk] at hno
            cases hno
          · rw [hop] at hno
            cases hno

/-- A batch that is ignored throughout succeeds and changes nothing. -/
theorem applyOrdered_of_ignored (now : String) (options : ApplyOptions) :
    ∀ (changes : List SyncChange) (state : ApplyOutcome × Db),
    (∀ c ∈ changes, Ignored env state.2.log c) →
    ∃ outcome, applyOrdered env now options changes state = .ok (outcome, state.2) := by
  intro changes
  induction changes with
  | nil =>
      intro state _
      exact ⟨state.1, rfl⟩
  | cons c rest ih =>
      intro state hign
      obtain ⟨outcome, h⟩ := ih (state.1.record .skipped, state.2)
        fun x hx => hign x (List.mem_cons_of_mem _ hx)
      exact ⟨outcome, applyOrdered_cons.2
        ⟨_, _, applyChange_of_ignored (hign c List.mem_cons_self), h⟩⟩

theorem mem_sortByRank {changes : List SyncChange} {c : SyncChange} :
    c ∈ sortByRank changes ↔ c ∈ changes :=
  (List.perm_insertionSort _ _).mem_iff

/-- A repetition that changed nothing had nothing to do. -/
theorem ignored_of_replaySafe {now' : String} {changes : List SyncChange} {outcome : ApplyOutcome}
    (h : applyChanges env now changes options db = .ok (outcome, db'))
    (hsafe : ReplaySafe env now' changes options db') : ∀ c ∈ changes, Ignored env db.log c := by
  obtain ⟨outcome2, db2, h2, _, hrows, hconf⟩ := hsafe
  obtain ⟨_, _, htrace⟩ := applyOrdered_trace _ _ _ _ h2
  -- the repetition left no row under a new id, so it ignored everything
  have hign : ∀ c ∈ sortByRank changes, Ignored env db'.log c := by
    rcases htrace with ⟨r, hr, hid⟩ | ⟨_, hall⟩
    · rw [hrows] at hr
      have := db'.log.ids_le r hr
      simp only at hid
      omega
    · exact hall (by rw [hconf])
  -- so nothing could have been written the first time, and the log was the same then
  have hlog := log_of_neverWritten _ _ _ _ h fun c hc => neverWritten_of_ignored (hign c hc)
  intro c hc
  have := hign c (mem_sortByRank.2 hc)
  rwa [hlog] at this

/-- **REPLAY IS SAFE** exactly when every change of the batch was ignored. -/
theorem replaySafe_iff (env : Env) (now now' : String) (options : ApplyOptions)
    (changes : List SyncChange) (db db' : Db) (outcome : ApplyOutcome)
    (h : applyChanges env now changes options db = .ok (outcome, db')) :
    ReplaySafe env now' changes options db' ↔ ∀ c ∈ changes, Ignored env db.log c := by
  constructor
  · intro hsafe
    exact ignored_of_replaySafe h hsafe
  · intro hign
    have hign' : ∀ c ∈ sortByRank changes, Ignored env db.log c :=
      fun c hc => hign c (mem_sortByRank.1 hc)
    obtain ⟨_, hfirst⟩ := applyOrdered_of_ignored now options
      (sortByRank changes) ({}, db) hign'
    have hdb : db' = db := (Prod.mk.inj (Except.ok.inj (h.symm.trans hfirst))).2
    subst hdb
    obtain ⟨outcome2, hsecond⟩ := applyOrdered_of_ignored now' options
      (sortByRank changes) ({}, db') hign'
    exact ⟨outcome2, db', hsecond, rfl, rfl, rfl⟩

/-- An offer row as a page carries it. -/
def waitingOffer : SyncChange :=
  { id := 1, entityType := "file_offer", entityId := "offer-1", operation := "INSERT"
    version := 1, payload := "null", changedAt := "2026-01-01 00:00:00", deviceId := "tablet"
    version_i64 := one_i64 }

/-- An offer is ignored, so a page of one can be applied any number of times. -/
theorem replaySafe_offer :
    ∃ outcome db', applyChanges Env.reference "2026-01-01 00:00:01" [waitingOffer] {}
        (Db.empty false) = .ok (outcome, db') ∧
      ReplaySafe Env.reference "2026-01-01 00:00:02" [waitingOffer] {} db' := by
  obtain ⟨outcome, db', h⟩ : ∃ outcome db', applyChanges Env.reference "2026-01-01 00:00:01"
      [waitingOffer] {} (Db.empty false) = .ok (outcome, db') := ⟨_, _, rfl⟩
  refine ⟨outcome, db', h, (replaySafe_iff _ _ _ _ _ _ _ _ h).2 ?_⟩
  intro c hc
  cases List.mem_singleton.1 hc
  exact Or.inl (by decide)

/-- The delete of a work, applied and then applied again. -/
theorem not_replaySafe_delete :
    ∃ outcome db', applyChanges Env.reference "2026-01-01 00:00:01"
        [SyncConflict.deleteWork "tablet" "null"] {} (Db.empty false) = .ok (outcome, db') ∧
      ¬ ReplaySafe Env.reference "2026-01-01 00:00:02"
        [SyncConflict.deleteWork "tablet" "null"] {} db' := by
  obtain ⟨outcome, db', h⟩ : ∃ outcome db', applyChanges Env.reference "2026-01-01 00:00:01"
      [SyncConflict.deleteWork "tablet" "null"] {} (Db.empty false) = .ok (outcome, db') :=
    ⟨_, _, rfl⟩
  refine ⟨outcome, db', h, ?_⟩
  intro hsafe
  have hign := ignored_of_replaySafe h hsafe _ List.mem_cons_self
  revert hign
  unfold Ignored
  decide

end SyncReplay

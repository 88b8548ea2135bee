import Livtet.InStep
import Livtet.Lib.Runs
import Livtet.Lib.Tallies
import Livtet.Timestamps

/-! # Reading time

    Progress of an edition is recorded in a row for the edition and a format. A call looks
    for a row of the edition, whatever its format, adds to its time in memory and writes the
    sum back; it inserts a row if there was none. The statements of two calls may come in
    any order.

    Time is kept as long as every row that is found is written before another call writes
    it, what is added is not negative, and the sum fits (`total_of_admitted`). -/

namespace ReadingTime

open SyncPairing (DbId)
open Library (LivtetError)
open Tallies
open Timestamps (PrimitiveDateTime noon)

/-! ## Rows -/

inductive ProgressUnit
  | percentage
  | page
  | virtualPage
  | timestamp
  | chapter
  | cfi
deriving DecidableEq, Repr

def ProgressUnit.asStr : ProgressUnit → String
  | .percentage => "percentage"
  | .page => "page"
  | .virtualPage => "virtual_page"
  | .timestamp => "timestamp"
  | .chapter => "chapter"
  | .cfi => "cfi"

def unitFromStr (s : String) : Option ProgressUnit :=
  match s with
  | "percentage" => some .percentage
  | "page" => some .page
  | "virtual_page" => some .virtualPage
  | "timestamp" => some .timestamp
  | "chapter" => some .chapter
  | "cfi" => some .cfi
  | _ => none

/-- A unit that is stored is read back. -/
theorem unitFromStr_asStr (unit : ProgressUnit) : unitFromStr unit.asStr = some unit := by
  cases unit with
  | percentage => rfl
  | page => rfl
  | virtualPage => rfl
  | timestamp => rfl
  | chapter => rfl
  | cfi => rfl

/-- A row of `reading_progress`; `F` are the floating-point numbers. -/
structure Row (F : Type) where
  id : DbId
  editionId : DbId
  formatId : DbId
  progress : F
  progressUnit : Option String
  lastLocation : Option String
  totalReadingTimeSecs : Int64
  createdAt : PrimitiveDateTime

/-- `reading_progress`, under its key and `idx_reading_progress_edition_format`. -/
structure Table (F : Type) where
  rows : List (Row F)
  ids : (rows.map fun r => r.id).Nodup
  pairs : (rows.map fun r => (r.editionId, r.formatId)).Nodup

/-- What the calls find around them: the editions and formats there are, the numbers that
    SQLite stores as null, and whether the build stops at an addition that overflows. -/
structure Setting (F : Type) where
  editionIds : List DbId
  formatIds : List DbId
  isNaN : F → Bool
  overflowChecks : Bool

structure ReadingProgress (F : Type) where
  id : DbId
  editionId : DbId
  progress : F
  progressUnit : Option ProgressUnit
  lastLocation : Option String
  totalReadingTimeSecs : Int64
  createdAt : PrimitiveDateTime

def readingProgress {F : Type} (m : Row F) : ReadingProgress F :=
  { id := m.id, editionId := m.editionId, progress := m.progress
    progressUnit := m.progressUnit.bind unitFromStr, lastLocation := m.lastLocation
    totalReadingTimeSecs := m.totalReadingTimeSecs, createdAt := m.createdAt }

/-! ## Statements -/

section Statements

variable {F : Type} (setting : Setting F)

/-- The columns that an update sets. -/
def Row.record (progress : F) (unit : Option ProgressUnit) (lastLocation : Option String)
    (total : Int64) (r : Row F) : Row F :=
  { r with progress, progressUnit := unit.map ProgressUnit.asStr, lastLocation
           totalReadingTimeSecs := total }

/-- Rows that are updated by id keep what the update does not set. -/
theorem map_updated {β : Type} {f : Row F → Row F} {g : Row F → β} (h : ∀ r, g (f r) = g r)
    (id : DbId) (rows : List (Row F)) :
    (rows.map fun r => if r.id = id then f r else r).map g = rows.map g := by
  rw [List.map_map]
  refine List.map_congr_left fun r _ => ?_
  show g (if r.id = id then f r else r) = g r
  split
  · exact h r
  · rfl

/-- `UPDATE reading_progress SET .. WHERE id = ?`. -/
def update (id : DbId) (progress : F) (unit : Option ProgressUnit) (lastLocation : Option String)
    (total : Int64) (t : Table F) : Except LivtetError (Table F) :=
  if setting.isNaN progress then
    .error (.database "NOT NULL constraint failed: reading_progress.progress")
  else if id ∈ t.rows.map fun r => r.id then
    .ok {
      rows := t.rows.map fun r =>
        if r.id = id then r.record progress unit lastLocation total else r
      ids := by
        have hsame := map_updated (f := Row.record progress unit lastLocation total)
          (g := fun r => r.id) (fun _ => rfl) id t.rows
        rw [hsame]
        exact t.ids
      pairs := by
        have hsame := map_updated (f := Row.record progress unit lastLocation total)
          (g := fun r => (r.editionId, r.formatId)) (fun _ => rfl) id t.rows
        rw [hsame]
        exact t.pairs }
  else .error (.database "None of the records are updated")

theorem lawfulBEq_pair : LawfulBEq (DbId × DbId) := inferInstance

scoped instance decidableMemPair (p : DbId × DbId) (ps : List (DbId × DbId)) : Decidable (p ∈ ps) :=
  @List.instDecidableMemOfLawfulBEq _ _ lawfulBEq_pair p ps

/-- `INSERT INTO reading_progress`. -/
def insert (row : Row F) (t : Table F) : Except LivtetError (Table F) :=
  if setting.isNaN row.progress then
    .error (.database "NOT NULL constraint failed: reading_progress.progress")
  else if row.editionId ∉ setting.editionIds ∨ row.formatId ∉ setting.formatIds then
    .error (.database "FOREIGN KEY constraint failed")
  else if h : row.id ∉ (t.rows.map fun r => r.id) ∧
      (row.editionId, row.formatId) ∉ t.rows.map fun r => (r.editionId, r.formatId) then
    .ok {
      rows := t.rows ++ [row]
      ids := by
        rw [List.map_append]
        exact List.nodup_append_comm.1 (List.nodup_cons.2 ⟨h.1, t.ids⟩)
      pairs := by
        rw [List.map_append]
        exact List.nodup_append_comm.1 (List.nodup_cons.2 ⟨h.2, t.pairs⟩) }
  else .error (.database "UNIQUE constraint failed")

end Statements

/-! ## Calls -/

/-- The arguments of `record_reading_progress`. -/
structure Call (F : Type) where
  editionId : DbId
  formatId : DbId
  progress : F
  unit : Option ProgressUnit
  lastLocation : Option String
  additionalSeconds : Int64

/-- Where a call stands: before each of its statements, and how it has ended. A call that
    has found a row has it in memory. -/
inductive Task (F : Type)
  | finding (call : Call F)
  | updating (call : Call F) (prev : Row F)
  | inserting (call : Call F)
  | returned (call : Call F) (prev : Option (Row F)) (answer : ReadingProgress F)
  | failed (call : Call F) (e : LivtetError)
  | aborted (call : Call F)

structure State (F : Type) where
  table : Table F
  tasks : List (Task F)

/-- `.find` takes any of the rows of the edition, as a query without an order does. -/
inductive Action (F : Type)
  | call (c : Call F)
  | find (i pick : Nat)
  | write (i : Nat) (newId : DbId) (now : PrimitiveDateTime)

/-- The numbers of an `i64`. -/
def InRange (n : Int) : Prop := -2 ^ 63 ≤ n ∧ n < 2 ^ 63

instance (n : Int) : Decidable (InRange n) := by
  unfold InRange
  infer_instance

/-- The sum is that of the numbers. -/
def Fits (total seconds : Int64) : Prop := InRange (total.toInt + seconds.toInt)

instance (total seconds : Int64) : Decidable (Fits total seconds) := by
  unfold Fits
  infer_instance

section System

variable {F : Type} (setting : Setting F)

/-- Some row of the edition, if there is one. -/
def foundRow (t : Table F) (c : Call F) (pick : Nat) : Option (Row F) :=
  let matching := t.rows.filter fun r => decide (r.editionId = c.editionId)
  matching[pick % matching.length]?

/-- The first statement, and the addition after it. -/
def find (t : Table F) (c : Call F) (pick : Nat) : Task F :=
  match foundRow t c pick with
  | none => .inserting c
  | some prev =>
      if setting.overflowChecks ∧ ¬ Fits prev.totalReadingTimeSecs c.additionalSeconds then
        .aborted c
      else .updating c prev

/-- The row that a call inserts. -/
def newRow (c : Call F) (newId : DbId) (now : PrimitiveDateTime) : Row F :=
  { id := newId, editionId := c.editionId, formatId := c.formatId, progress := c.progress
    progressUnit := c.unit.map ProgressUnit.asStr, lastLocation := c.lastLocation
    totalReadingTimeSecs := max c.additionalSeconds 0, createdAt := now }

/-- The second statement. -/
def write (t : Table F) (newId : DbId) (now : PrimitiveDateTime) : Task F → Table F × Task F
  | .updating c prev =>
      let total := prev.totalReadingTimeSecs + c.additionalSeconds
      match update setting prev.id c.progress c.unit c.lastLocation total t with
      | .error e => (t, .failed c e)
      | .ok t' => (t', .returned c (some prev)
          (readingProgress (prev.record c.progress c.unit c.lastLocation total)))
  | .inserting c =>
      match insert setting (newRow c newId now) t with
      | .error e => (t, .failed c e)
      | .ok t' => (t', .returned c none (readingProgress (newRow c newId now)))
  | task => (t, task)

def step (s : State F) : Action F → State F
  | .call c => { s with tasks := s.tasks ++ [.finding c] }
  | .find i pick =>
      match s.tasks[i]? with
      | some (.finding c) => { s with tasks := s.tasks.set i (find setting s.table c pick) }
      | _ => s
  | .write i newId now =>
      match s.tasks[i]? with
      | none => s
      | some task =>
          let (table, task) := write setting s.table newId now task
          { table, tasks := s.tasks.set i task }

end System

/-! ## Time that is kept -/

section Time

variable {F : Type}

/-- The time of an edition over its rows. -/
def totalTime (e : DbId) (t : Table F) : Int :=
  tally (fun r => r.totalReadingTimeSecs.toInt)
    (t.rows.filter fun r => decide (r.editionId = e))

/-- What a call adds to the time of an edition when it returns. -/
def Task.added (e : DbId) : Task F → Int
  | .returned c _ _ => if c.editionId = e then max 0 c.additionalSeconds.toInt else 0
  | _ => 0

def Task.isReturned : Task F → Bool
  | .returned _ _ _ => true
  | _ => false

/-- Once every call has returned, the time of an edition is what it was and what the calls
    added, if that fits; and no call whose addition does not fit stops the program or
    returns. -/
structure Kept (start : Table F) (s : State F) : Prop where
  total : (∀ task ∈ s.tasks, task.isReturned = true) → ∀ e,
    InRange (totalTime e start + tally (Task.added e) s.tasks) →
      totalTime e s.table = totalTime e start + tally (Task.added e) s.tasks
  fits : ∀ c prev answer, .returned c (some prev) answer ∈ s.tasks →
    Fits prev.totalReadingTimeSecs c.additionalSeconds
  runs : ∀ c, .aborted c ∉ s.tasks

/-- A row is found for an amount that is not negative and fits; and it is written while its
    time is what was read. -/
def Alone (s : State F) : Action F → Prop
  | .call _ => True
  | .find i pick => ∀ c prev, s.tasks[i]? = some (.finding c) →
      foundRow s.table c pick = some prev →
        0 ≤ c.additionalSeconds ∧ Fits prev.totalReadingTimeSecs c.additionalSeconds
  | .write i _ _ => ∀ c prev, s.tasks[i]? = some (.updating c prev) →
      ∀ r ∈ s.table.rows, r.id = prev.id → r.totalReadingTimeSecs = prev.totalReadingTimeSecs

/-- The time is what it was and what the calls that have returned added. A call that is
    to update a row has found one of its edition, and may add to it. -/
structure Inv (start : Table F) (s : State F) : Prop where
  total : ∀ e, totalTime e s.table = totalTime e start + tally (Task.added e) s.tasks
  updating : ∀ c prev, .updating c prev ∈ s.tasks →
    (prev.id, c.editionId) ∈ (s.table.rows.map fun r => (r.id, r.editionId)) ∧
      0 ≤ c.additionalSeconds ∧ Fits prev.totalReadingTimeSecs c.additionalSeconds
  fits : ∀ c prev answer, .returned c (some prev) answer ∈ s.tasks →
    Fits prev.totalReadingTimeSecs c.additionalSeconds
  runs : ∀ c, .aborted c ∉ s.tasks

variable {setting : Setting F} {t t' : Table F} {start : Table F} {s : State F}

theorem Inv.kept (h : Inv start s) : Kept start s := ⟨fun _ e _ => h.total e, h.fits, h.runs⟩

theorem inv_start (start : Table F) : Inv start ⟨start, []⟩ := by
  refine ⟨fun e => ?_, fun c prev h => ?_, fun c prev answer h => ?_, fun c h => ?_⟩
  · rw [tally_nil, Int.add_zero]
  · cases h
  · cases h
  · cases h

/-! ### Statements and the time -/

theorem toInt_add_of_fits {a b : Int64} (h : Fits a b) : (a + b).toInt = a.toInt + b.toInt := by
  rw [Int64.toInt_add]
  exact Int.bmod_eq_of_le h.1 h.2

theorem toInt_max_zero (a : Int64) : (max a 0).toInt = max 0 a.toInt := by
  show (if a ≤ 0 then 0 else a).toInt = _
  have hzero : (0 : Int64).toInt = 0 := rfl
  split
  next h =>
    rw [Int64.le_iff_toInt_le, hzero] at h
    rw [hzero]
    omega
  next h =>
    rw [Int64.le_iff_toInt_le, hzero] at h
    omega

/-- What a row adds to the time of an edition. -/
def weight (e : DbId) (r : Row F) : Int :=
  if r.editionId = e then r.totalReadingTimeSecs.toInt else 0

theorem totalTime_eq (e : DbId) (t : Table F) : totalTime e t = tally (weight e) t.rows := by
  rw [totalTime, tally_filter]
  refine congrArg (fun w => tally w t.rows) (funext fun r => ?_)
  rw [weight]
  by_cases h : r.editionId = e
  · rw [if_pos (decide_eq_true h), if_pos h]
  · rw [if_neg (fun htrue => h (of_decide_eq_true htrue)), if_neg h]

/-- An update that follows what was read adds the difference. -/
theorem totalTime_update {id : DbId} {progress : F} {unit : Option ProgressUnit}
    {lastLocation : Option String} {total : Int64} {r : Row F}
    (h : update setting id progress unit lastLocation total t = .ok t') (hr : r ∈ t.rows)
    (hid : r.id = id) (e : DbId) :
    totalTime e t' = totalTime e t +
      if r.editionId = e then total.toInt - r.totalReadingTimeSecs.toInt else 0 := by
  subst hid
  rw [update] at h
  split at h
  · cases h
  · split at h
    · cases h
      rw [totalTime_eq, totalTime_eq]
      have hupdate := @tally_update _ _ (weight e) _ _ _ (fun r => r.id) t.ids hr
        (Row.record progress unit lastLocation total)
      rw [hupdate]
      have hkept : (r.record progress unit lastLocation total).editionId = r.editionId := rfl
      rw [weight, weight, hkept]
      by_cases hedition : r.editionId = e
      · rw [if_pos hedition, if_pos hedition, if_pos hedition]
        show _ - _ + total.toInt = _
        omega
      · rw [if_neg hedition, if_neg hedition, if_neg hedition]
        omega
    · cases h

theorem owners_update {id : DbId} {progress : F} {unit : Option ProgressUnit}
    {lastLocation : Option String} {total : Int64}
    (h : update setting id progress unit lastLocation total t = .ok t') :
    (t'.rows.map fun r => (r.id, r.editionId)) = t.rows.map fun r => (r.id, r.editionId) := by
  rw [update] at h
  split at h
  · cases h
  · split at h
    · cases h
      exact map_updated (f := Row.record progress unit lastLocation total) (fun _ => rfl) id t.rows
    · cases h

theorem rows_insert {row : Row F} (h : insert setting row t = .ok t') :
    t'.rows = t.rows ++ [row] := by
  rw [insert] at h
  split at h
  · cases h
  · split at h
    · cases h
    · split at h
      · cases h
        rfl
      · cases h

theorem totalTime_insert {row : Row F} (h : insert setting row t = .ok t') (e : DbId) :
    totalTime e t' = totalTime e t +
      if row.editionId = e then row.totalReadingTimeSecs.toInt else 0 := by
  rw [totalTime_eq, totalTime_eq, rows_insert h, tally_concat]
  rfl

/-! ### Steps -/

theorem mem_of_foundRow {c : Call F} {pick : Nat} {prev : Row F}
    (h : foundRow t c pick = some prev) : prev ∈ t.rows ∧ prev.editionId = c.editionId := by
  rw [foundRow] at h
  obtain ⟨hmem, hedition⟩ := List.mem_filter.1 (List.mem_of_getElem? h)
  exact ⟨hmem, of_decide_eq_true hedition⟩

/-- One task is replaced, and the table changes with what it adds. -/
theorem Inv.replace (h : Inv start s) {i : Nat} {task task' : Task F}
    (htask : s.tasks[i]? = some task) (hopen : ∀ e, task.added e = 0)
    (htotal : ∀ e, totalTime e t' = totalTime e s.table + task'.added e)
    (howners : ∀ x, x ∈ (s.table.rows.map fun r => (r.id, r.editionId)) →
      x ∈ t'.rows.map fun r => (r.id, r.editionId))
    (hupdating : ∀ c prev, task' = .updating c prev →
      (prev.id, c.editionId) ∈ (t'.rows.map fun r => (r.id, r.editionId)) ∧
        0 ≤ c.additionalSeconds ∧ Fits prev.totalReadingTimeSecs c.additionalSeconds)
    (hfits : ∀ c prev answer, task' = .returned c (some prev) answer →
      Fits prev.totalReadingTimeSecs c.additionalSeconds)
    (hruns : ∀ c, task' ≠ .aborted c) : Inv start ⟨t', s.tasks.set i task'⟩ := by
  have hmem : ∀ x, x ∈ s.tasks.set i task' → x ∈ s.tasks ∨ x = task' :=
    fun x hx => List.mem_or_eq_of_mem_set hx
  refine ⟨fun e => ?_, fun c prev hx => ?_, fun c prev answer hx => ?_, fun c hx => ?_⟩
  · show totalTime e t' = _ + tally _ (s.tasks.set i task')
    rw [htotal, h.total, tally_set htask, hopen]
    omega
  · rcases hmem _ hx with hold | hnew
    · obtain ⟨howner, hrest⟩ := h.updating c prev hold
      exact ⟨howners _ howner, hrest⟩
    · exact hupdating c prev hnew.symm
  · rcases hmem _ hx with hold | hnew
    · exact h.fits c prev answer hold
    · exact hfits c prev answer hnew.symm
  · rcases hmem _ hx with hold | hnew
    · exact h.runs c hold
    · exact hruns c hnew.symm

/-- A call that has failed leaves the table and adds nothing. -/
theorem Inv.fail (h : Inv start s) {i : Nat} {task : Task F} (htask : s.tasks[i]? = some task)
    (hopen : ∀ e, task.added e = 0) (c : Call F) (e : LivtetError) :
    Inv start ⟨s.table, s.tasks.set i (.failed c e)⟩ := by
  refine h.replace htask hopen (fun e => ?_) (fun _ hx => hx) (fun c prev heq => ?_)
    (fun c prev answer heq => ?_) fun c heq => ?_
  · exact (Int.add_zero _).symm
  · cases heq
  · cases heq
  · cases heq

theorem inv_call (h : Inv start s) (c : Call F) : Inv start (step setting s (.call c)) := by
  have hmem : ∀ task, task ∈ s.tasks ++ [.finding c] → task ∈ s.tasks ∨ task = .finding c := by
    intro task htask
    exact (List.mem_append.1 htask).imp id List.mem_singleton.1
  refine ⟨fun e => ?_, fun c prev hx => ?_, fun c prev answer hx => ?_, fun c hx => ?_⟩
  · show _ = _ + tally _ (s.tasks ++ [.finding c])
    rw [tally_concat]
    exact (h.total e).trans (Int.add_zero _ ▸ rfl)
  · rcases hmem _ hx with hold | hnew
    · exact h.updating _ _ hold
    · cases hnew
  · rcases hmem _ hx with hold | hnew
    · exact h.fits _ _ _ hold
    · cases hnew
  · rcases hmem _ hx with hold | hnew
    · exact h.runs _ hold
    · cases hnew

theorem inv_find (h : Inv start s) {i pick : Nat} (halone : Alone s (.find i pick)) :
    Inv start (step setting s (.find i pick)) := by
  rw [step]
  split
  next c htask =>
    -- the sum fits, so a row that is found is updated and the call does not abort
    have hcases : find setting s.table c pick = .inserting c ∨
        ∃ prev, foundRow s.table c pick = some prev ∧
          find setting s.table c pick = .updating c prev := by
      rw [find]
      split
      next => exact Or.inl rfl
      next prev hfound =>
        have hfits := (halone c prev htask hfound).2
        rw [if_neg fun hboth => hboth.2 hfits]
        exact Or.inr ⟨prev, hfound, rfl⟩
    rcases hcases with hinserting | ⟨prev, hfound, hupdating⟩
    · rw [hinserting]
      refine h.replace htask (fun _ => rfl) (fun e => ?_) (fun _ hx => hx) (fun c prev heq => ?_)
        (fun c prev answer heq => ?_) fun c heq => ?_
      · exact (Int.add_zero _).symm
      · cases heq
      · cases heq
      · cases heq
    · rw [hupdating]
      refine h.replace htask (fun _ => rfl) (fun e => ?_) (fun _ hx => hx) (fun c' prev' heq => ?_)
        (fun c prev answer heq => ?_) fun c heq => ?_
      · exact (Int.add_zero _).symm
      · cases heq
        obtain ⟨hmem, hedition⟩ := mem_of_foundRow hfound
        exact ⟨List.mem_map.2 ⟨prev, hmem, by rw [hedition]⟩, halone c prev htask hfound⟩
      · cases heq
      · cases heq
  next => exact h

/-- The update adds its amount to the edition's time, if the row is as it was read. -/
theorem inv_update (h : Inv start s) {i : Nat} {c : Call F} {prev : Row F} {newId : DbId}
    {now : PrimitiveDateTime} (halone : Alone s (.write i newId now))
    (htask : s.tasks[i]? = some (.updating c prev)) :
    Inv start ⟨(write setting s.table newId now (.updating c prev)).1,
      s.tasks.set i (write setting s.table newId now (.updating c prev)).2⟩ := by
  rw [write]
  split
  next e _ => exact h.fail htask (fun _ => rfl) c e
  next t' hok =>
    obtain ⟨howner, hnonneg, hfits⟩ := h.updating c prev (List.mem_of_getElem? htask)
    obtain ⟨r, hr, hpair⟩ := List.mem_map.1 howner
    obtain ⟨hid, hedition⟩ := Prod.mk.inj hpair
    have hread := halone c prev htask r hr hid
    refine h.replace htask (fun _ => rfl) (fun e => ?_) (fun x hx => ?_) (fun c prev heq => ?_)
      (fun c' prev' answer heq => ?_) fun c heq => ?_
    · rw [totalTime_update hok hr hid, hread, toInt_add_of_fits hfits, hedition]
      show _ + (if c.editionId = e then _ else 0) = _ + if c.editionId = e then _ else 0
      have hzero : (0 : Int64).toInt = 0 := rfl
      rw [Int64.le_iff_toInt_le, hzero] at hnonneg
      split <;> omega
    · rw [owners_update hok]
      exact hx
    · cases heq
    · cases heq
      exact hfits
    · cases heq

/-- The insert adds its amount, if that is not negative. -/
theorem inv_insert (h : Inv start s) {i : Nat} {c : Call F} {newId : DbId} {now : PrimitiveDateTime}
    (htask : s.tasks[i]? = some (.inserting c)) :
    Inv start ⟨(write setting s.table newId now (.inserting c)).1,
      s.tasks.set i (write setting s.table newId now (.inserting c)).2⟩ := by
  rw [write]
  split
  next e _ => exact h.fail htask (fun _ => rfl) c e
  next t' hok =>
    refine h.replace htask (fun _ => rfl) (fun e => ?_) (fun x hx => ?_) (fun c prev heq => ?_)
      (fun c' prev' answer heq => ?_) fun c heq => ?_
    · rw [totalTime_insert hok]
      show _ + (if c.editionId = e then (max c.additionalSeconds 0).toInt else 0) = _
      rw [toInt_max_zero]
      rfl
    · rw [rows_insert hok, List.map_append]
      exact List.mem_append_left _ hx
    · cases heq
    · cases heq
    · cases heq

theorem inv_write (h : Inv start s) {i : Nat} {newId : DbId} {now : PrimitiveDateTime}
    (halone : Alone s (.write i newId now)) : Inv start (step setting s (.write i newId now)) := by
  rw [step]
  split
  next => exact h
  next task htask =>
    have hsame : s.tasks.set i task = s.tasks := by
      obtain ⟨hlt, hget⟩ := List.getElem?_eq_some_iff.1 htask
      rw [← hget]
      exact List.set_getElem_self hlt
    have hidle : Inv start ⟨s.table, s.tasks.set i task⟩ := by
      rw [hsame]
      exact h
    cases task with
    | finding c => exact hidle
    | updating c prev => exact inv_update h halone htask
    | inserting c => exact inv_insert h htask
    | returned c prev answer => exact hidle
    | failed c e => exact hidle
    | aborted c => exact hidle

theorem inv_step (a : Action F) (h : Inv start s) (halone : Alone s a) :
    Inv start (step setting s a) := by
  cases a with
  | call c => exact inv_call h c
  | find i pick => exact inv_find h halone
  | write i newId now => exact inv_write h halone

/-- **TIME IS KEPT** in every run in which each row that is found is written before another
    call writes it, for an amount that is not negative and fits. -/
theorem total_of_admitted (setting : Setting F) (start : Table F) (run : List (Action F))
    (hrun : Runs.Admitted (step setting) Alone ⟨start, []⟩ run) :
    Kept start (Runs.exec (step setting) ⟨start, []⟩ run) :=
  (Runs.invariant (fun _ a h halone => inv_step a h halone) run (inv_start start) hrun).kept

end Time

/-! ## Two readers of one book -/

/-- One edition and one format, and numbers that are all there. -/
def bookSetting (overflowChecks : Bool) : Setting Int :=
  { editionIds := [Library.sampleId 1], formatIds := [Library.sampleId 2], isNaN := fun _ => false
    overflowChecks }

def readFor (seconds : Int64) : Call Int :=
  { editionId := Library.sampleId 1, formatId := Library.sampleId 2, progress := 0, unit := none
    lastLocation := none, additionalSeconds := seconds }

/-- The table after the edition has been read for a while. -/
def tableOf (seconds : Int64) : Table Int :=
  ⟨[newRow (readFor seconds) (Library.sampleId 3) noon], List.nodup_singleton _, List.nodup_singleton _⟩

/-- A call from beginning to end. -/
def oneCall (i : Nat) (seconds : Int64) : List (Action Int) :=
  [.call (readFor seconds), .find i 0, .write i (Library.sampleId 3) noon]

/-- One of two calls that read the row before either writes it is lost; an amount below
    nought is taken off; and a sum that does not fit wraps, or stops the program. -/
theorem not_total_interleaved :
    ¬ Kept (tableOf 100) (Runs.exec (step (bookSetting false)) ⟨tableOf 100, []⟩
      [.call (readFor 10), .call (readFor 20), .find 0 0, .find 1 0,
        .write 0 (Library.sampleId 4) noon, .write 1 (Library.sampleId 5) noon]) ∧
    ¬ Kept (tableOf 100) (Runs.exec (step (bookSetting false)) ⟨tableOf 100, []⟩
      (oneCall 0 (-5))) ∧
    ¬ Kept (tableOf Int64.maxValue) (Runs.exec (step (bookSetting false))
      ⟨tableOf Int64.maxValue, []⟩ (oneCall 0 1)) ∧
    ¬ Kept (tableOf Int64.maxValue) (Runs.exec (step (bookSetting true))
      ⟨tableOf Int64.maxValue, []⟩ (oneCall 0 1)) := by
  refine ⟨fun h => ?_, fun h => ?_, fun h => ?_, fun h => ?_⟩
  · exact absurd (h.total (by decide) (Library.sampleId 1) (by decide)) (by decide)
  · exact absurd (h.total (by decide) (Library.sampleId 1) (by decide)) (by decide)
  · exact absurd (h.fits (readFor 1) (newRow (readFor Int64.maxValue) (Library.sampleId 3) noon) _
      (List.mem_singleton.2 rfl)) (by decide)
  · exact h.runs (readFor 1) (List.mem_singleton.2 rfl)

/-- Two calls one after the other: the first inserts the row, the second adds to it. -/
theorem total_one_by_one :
    Kept ⟨[], List.nodup_nil, List.nodup_nil⟩ (Runs.exec (step (bookSetting false))
      ⟨⟨[], List.nodup_nil, List.nodup_nil⟩, []⟩ (oneCall 0 10 ++ oneCall 1 20)) := by
  refine total_of_admitted (bookSetting false) _ _ ⟨trivial, ?_, ?_, trivial, ?_, ?_, trivial⟩
  · intro c prev htask hfound
    cases htask
    cases hfound
  · intro c prev htask
    cases htask
  · intro c prev htask hfound
    cases htask
    cases hfound
    exact ⟨by decide, by decide⟩
  · intro c prev htask r hr hid
    cases htask
    cases List.mem_singleton.1 hr
    rfl

end ReadingTime

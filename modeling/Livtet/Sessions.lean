import Livtet.ReadingTime

/-! # Reading sessions

    A session is recorded with its start and its length. The start is given as text, on
    any clock, or it lies the length before now. What is stored has no clock: the start is
    stored as it was read, and is shown as if it had been read in Greenwich. The end is the
    start plus the length as given, though the length is stored as nought if it is below
    it; and the start that is sent back must have a year that can be written.

    The session is the interval that was reported if the clock of the given start is not
    ahead, the length is not negative, and all that is computed is in range; without a
    given start, the clock must not pass midnight while it is read (`right_iff_plain`). -/

namespace Sessions

open SyncPairing (DbId)
open Library (LivtetError)
open ReadingTime (Setting)
open Civil Timestamps

/-! ## Recording a session -/

structure ReadingSessionInput (F : Type) where
  editionId : DbId
  formatId : DbId
  durationSeconds : Int64
  progressDelta : F
  lastLocation : Option String
  notes : Option String
  startedAt : Option String

structure ReadingSession (F : Type) where
  id : DbId
  editionId : DbId
  startedAt : String
  durationSeconds : Int64
  progressDelta : F
  lastLocation : Option String
  notes : Option String

/-- A row of `reading_sessions`. -/
structure SessionRow (F : Type) where
  id : DbId
  editionId : DbId
  formatId : DbId
  sourceId : Option DbId
  startedAt : PrimitiveDateTime
  endedAt : Option PrimitiveDateTime
  durationSeconds : Option Int64
  rawProgression : Option String
  progressDelta : F
  lastLocation : Option String
  notes : Option String
  createdAt : PrimitiveDateTime
  updatedAt : Option PrimitiveDateTime

structure SessionTable (F : Type) where
  rows : List (SessionRow F)
  ids : (rows.map fun r => r.id).Nodup

/-- A call returns, or panics. -/
inductive Outcome (α : Type)
  | returned (result : Except LivtetError α)
  | panicked

section Recording

variable {F : Type} (lib : Rfc3339) (setting : Setting F)

/-- `INSERT INTO reading_sessions`. -/
def insert (row : SessionRow F) (t : SessionTable F) : Except LivtetError (SessionTable F) :=
  if setting.isNaN row.progressDelta then
    .error (.database "NOT NULL constraint failed: reading_sessions.progress_delta")
  else if row.editionId ∉ setting.editionIds ∨ row.formatId ∉ setting.formatIds then
    .error (.database "FOREIGN KEY constraint failed")
  else if h : row.id ∉ t.rows.map fun r => r.id then
    .ok {
      rows := t.rows ++ [row]
      ids := by
        rw [List.map_append]
        exact List.nodup_append_comm.1 (List.nodup_cons.2 ⟨h, t.ids⟩) }
  else .error (.database "UNIQUE constraint failed: reading_sessions.id")

/-- The given start, or the one that lies the length before now; where that is out of range,
    the clock is read again. -/
def startOf (first second : Tick) (input : ReadingSessionInput F) :
    Except LivtetError PrimitiveDateTime :=
  match input.startedAt with
  | some s => tsParse lib s
  | none => .ok (((nowPrimitive first).checkedSub input.durationSeconds.toInt).getD
      (nowPrimitive second))

def newRow (newId : DbId) (last : Tick) (input : ReadingSessionInput F)
    (started : PrimitiveDateTime) : SessionRow F :=
  { id := newId, editionId := input.editionId, formatId := input.formatId, sourceId := none
    startedAt := started, endedAt := started.checkedAdd input.durationSeconds.toInt
    durationSeconds := some (max input.durationSeconds 0), rawProgression := none
    progressDelta := input.progressDelta, lastLocation := input.lastLocation
    notes := input.notes, createdAt := nowPrimitive last, updatedAt := none }

def sessionOf (model : SessionRow F) (startedAt : String) : ReadingSession F :=
  { id := model.id, editionId := model.editionId, startedAt
    durationSeconds := model.durationSeconds.getD 0, progressDelta := model.progressDelta
    lastLocation := model.lastLocation, notes := model.notes }

/-- The outcome, and the table afterwards: a panic comes after the insert. -/
def recordReadingSession (newId : DbId) (first second last : Tick)
    (input : ReadingSessionInput F) (t : SessionTable F) :
    Outcome (ReadingSession F) × SessionTable F :=
  match startOf lib first second input with
  | .error e => (.returned (.error e), t)
  | .ok started =>
      let model := newRow newId last input started
      match insert setting model t with
      | .error e => (.returned (.error e), t)
      | .ok t' =>
          match ts lib model.startedAt with
          | none => (.panicked, t')
          | some startedAt => (.returned (.ok (sessionOf model startedAt)), t')

/-! ## The interval that was reported -/

/-- The row and the session are the interval of the input; the clock was first read at a
    tick. -/
structure Reported (input : ReadingSessionInput F) (first : Tick) (row : SessionRow F)
    (session : ReadingSession F) : Prop where
  duration : row.durationSeconds = some (max input.durationSeconds 0) ∧
    session.durationSeconds = max input.durationSeconds 0
  ended : row.endedAt.map PrimitiveDateTime.nanos =
    some (row.startedAt.nanos + (max input.durationSeconds 0).toInt * 1000000000)
  given : ∀ s, input.startedAt = some s → ∃ r r', lib.parse s = .ok r ∧
    lib.parse session.startedAt = .ok r' ∧ r'.instant = r.instant
  unset : input.startedAt = none → ∃ t, row.endedAt = some t ∧
    first.date.nanos ≤ t.nanos ∧ t.nanos ≤ first.time.nanos

/-- The call does not panic, and a session that it returns is the interval reported. -/
def Right (newId : DbId) (first second last : Tick) (input : ReadingSessionInput F)
    (t : SessionTable F) : Prop :=
  let (outcome, t') := recordReadingSession lib setting newId first second last input t
  outcome ≠ .panicked ∧ ∀ session, outcome = .returned (.ok session) →
    ∃ row, t'.rows = t.rows ++ [row] ∧ Reported lib input first row session

/-- The row breaks no constraint, whatever its times. -/
def Insertable (newId : DbId) (input : ReadingSessionInput F) (t : SessionTable F) : Prop :=
  setting.isNaN input.progressDelta = false ∧ input.editionId ∈ setting.editionIds ∧
    input.formatId ∈ setting.formatIds ∧ newId ∉ t.rows.map fun r => r.id

/-- The given start is on a clock that is not ahead, or the clock does not pass midnight
    while it is read; the length is not negative; and what is computed is in range, from
    the year 0 on for the start. If the length before now is out of range, it must lie
    before the first reading of the clock that the second one is the length before. -/
structure Plain (first second : Tick) (input : ReadingSessionInput F) : Prop where
  given : ∀ s r, input.startedAt = some s → lib.parse s = .ok r → r.offset = 0 ∧
    0 ≤ input.durationSeconds.toInt ∧
    InRange (r.toInt + input.durationSeconds.toInt * 1000000000)
  unset : input.startedAt = none → 0 ≤ input.durationSeconds.toInt ∧
    ((∃ start, (nowPrimitive first).checkedSub input.durationSeconds.toInt = some start ∧
        0 ≤ start.year ∧ first.date.nanos ≤ (nowPrimitive first).nanos ∧
        (nowPrimitive first).nanos ≤ first.time.nanos) ∨
      (nowPrimitive first).checkedSub input.durationSeconds.toInt = none ∧
        0 ≤ (nowPrimitive second).year ∧
        ∃ t, (nowPrimitive second).checkedAdd input.durationSeconds.toInt = some t ∧
          first.date.nanos ≤ t.nanos ∧ t.nanos ≤ first.time.nanos)

variable {lib : Rfc3339} {setting : Setting F} {newId : DbId} {first second last : Tick}
  {input : ReadingSessionInput F} {t : SessionTable F} {started : PrimitiveDateTime}

theorem insert_of_keys {row : SessionRow F} (hnumber : setting.isNaN row.progressDelta = false)
    (hedition : row.editionId ∈ setting.editionIds) (hformat : row.formatId ∈ setting.formatIds)
    (hid : row.id ∉ t.rows.map fun r => r.id) :
    ∃ t', insert setting row t = .ok t' ∧ t'.rows = t.rows ++ [row] := by
  rw [insert, if_neg (fun hnan => Bool.false_ne_true (hnumber.symm.trans hnan)),
    if_neg (fun hkey => hkey.elim (fun hout => hout hedition) fun hout => hout hformat),
    dif_pos hid]
  exact ⟨_, rfl, rfl⟩

theorem insert_of_insertable (h : Insertable setting newId input t) :
    ∃ t', insert setting (newRow newId last input started) t = .ok t' ∧
      t'.rows = t.rows ++ [newRow newId last input started] :=
  insert_of_keys h.1 h.2.1 h.2.2.1 h.2.2.2

theorem insert_of_not_insertable (h : ¬ Insertable setting newId input t) :
    ∃ e, insert setting (newRow newId last input started) t = .error e := by
  rw [insert]
  split
  · exact ⟨_, rfl⟩
  next hnumber =>
    split
    · exact ⟨_, rfl⟩
    next hkeys =>
      split
      next hid =>
        rw [not_or, not_not, not_not] at hkeys
        exact absurd ⟨Bool.eq_false_iff.2 hnumber, hkeys.1, hkeys.2, hid⟩ h
      next => exact ⟨_, rfl⟩

/-- A call that returns an error is right. -/
theorem right_of_error {e : LivtetError}
    (h : recordReadingSession lib setting newId first second last input t =
      (.returned (.error e), t)) : Right lib setting newId first second last input t := by
  rw [Right, h]
  refine ⟨fun hpanic => ?_, fun session hok => ?_⟩
  · cases hpanic
  · cases hok

/-- Past the start and the insert, all depends on the start. -/
theorem right_iff_reported (hstart : startOf lib first second input = .ok started)
    (hinsert : Insertable setting newId input t) :
    Right lib setting newId first second last input t ↔ ∃ text, lib.format started = some text ∧
      Reported lib input first (newRow newId last input started)
        (sessionOf (newRow newId last input started) text) := by
  obtain ⟨t', hok, hrows⟩ := @insert_of_insertable _ _ _ last _ _ started hinsert
  rw [Right, recordReadingSession, hstart]
  dsimp only
  rw [hok]
  dsimp only
  show (_ ≠ _ ∧ _) ↔ _
  rw [ts]
  have hstarted : (newRow newId last input started).startedAt = started := rfl
  rw [hstarted]
  -- a start whose year has no four digits is stored, and the call panics on its text
  cases lib.format started with
  | none =>
      refine iff_of_false (fun h => h.1 rfl) ?_
      rintro ⟨text, htext, _⟩
      cases htext
  | some text =>
      dsimp only
      constructor
      · intro h
        obtain ⟨row, hrow, hreported⟩ := h.2 _ rfl
        rw [hrows] at hrow
        cases List.singleton_inj.1 (List.append_cancel_left hrow)
        exact ⟨text, rfl, hreported⟩
      · rintro ⟨text', htext, hreported⟩
        cases htext
        refine ⟨fun hpanic => ?_, fun session hsession => ?_⟩
        · cases hpanic
        · cases hsession
          exact ⟨_, hrows, hreported⟩

/-- The end is the start plus the stored length if the length is not negative. -/
theorem ended_iff (d : Int64) (started : PrimitiveDateTime) :
    (started.checkedAdd d.toInt).map PrimitiveDateTime.nanos =
        some (started.nanos + (max d 0).toInt * 1000000000) ↔
      0 ≤ d.toInt ∧ InRange (started.nanos + d.toInt * 1000000000) := by
  rw [PrimitiveDateTime.checkedAdd, map_nanos_checked, ReadingTime.toInt_max_zero]
  split
  next hin =>
    rw [Option.some.injEq]
    constructor
    · intro h
      exact ⟨by omega, hin⟩
    · intro h
      rw [Int.max_eq_right h.1]
  next hout =>
    refine iff_of_false (fun h => ?_) fun h => hout h.2
    cases h

/-- A given start denotes what is sent back if its clock is not ahead. -/
theorem given_iff {s text : String} {r : Reading} (hparse : lib.parse s = .ok r)
    (htext : lib.format started = some text) (hstarted : started.nanos = r.toInt) :
    (∃ r₁ r', lib.parse s = .ok r₁ ∧ lib.parse text = .ok r' ∧ r'.instant = r₁.instant) ↔
      r.offset = 0 := by
  have hback := lib.parse_format started text htext
  have hinstant : started.assumeUtc.instant = r.toInt :=
    (instant_assumeUtc started).trans hstarted
  constructor
  · rintro ⟨r₁, r', h₁, h', heq⟩
    cases hparse.symm.trans h₁
    cases hback.symm.trans h'
    rw [hinstant, Reading.instant] at heq
    omega
  · intro hoffset
    refine ⟨r, _, hparse, hback, ?_⟩
    rw [hinstant, Reading.instant, hoffset, Int.sub_zero]

theorem right_given {s : String} {r : Reading} (hgiven : input.startedAt = some s)
    (hparse : lib.parse s = .ok r) (hinsert : Insertable setting newId input t) :
    Right lib setting newId first second last input t ↔ r.offset = 0 ∧
      0 ≤ input.durationSeconds.toInt ∧
        InRange (r.toInt + input.durationSeconds.toInt * 1000000000) := by
  obtain ⟨started, hread, hnanos⟩ := tsParse_of_ok hparse
  have hstart : startOf lib first second input = .ok started := by
    rw [startOf, hgiven]
    exact hread
  have hyear : 0 ≤ started.year := by
    rw [year_of_nanos hnanos]
    exact (lib.year_parse s r hparse).1
  obtain ⟨text, htext⟩ := @format_of_year lib _ hyear
  rw [right_iff_reported hstart hinsert, ← given_iff hparse htext hnanos, ← hnanos, ← ended_iff]
  constructor
  · rintro ⟨text', htext', hreported⟩
    cases htext.symm.trans htext'
    exact ⟨hreported.given s hgiven, hreported.ended⟩
  · rintro ⟨hsame, hended⟩
    refine ⟨text, htext, ⟨rfl, rfl⟩, hended, fun s' hs' => ?_, fun hnone => ?_⟩
    · cases hgiven.symm.trans hs'
      exact hsame
    · cases hgiven.symm.trans hnone

theorem right_unset (hunset : input.startedAt = none)
    (hstart : startOf lib first second input = .ok started)
    (hinsert : Insertable setting newId input t) :
    Right lib setting newId first second last input t ↔ 0 ≤ started.year ∧
      0 ≤ input.durationSeconds.toInt ∧
        ∃ t, started.checkedAdd input.durationSeconds.toInt = some t ∧
          first.date.nanos ≤ t.nanos ∧ t.nanos ≤ first.time.nanos := by
  rw [right_iff_reported hstart hinsert]
  constructor
  · rintro ⟨text, htext, hreported⟩
    exact ⟨year_of_format htext, ((ended_iff _ _).1 hreported.ended).1, hreported.unset hunset⟩
  · rintro ⟨hyear, hnonneg, end', hend, htick⟩
    obtain ⟨text, htext⟩ := @format_of_year lib _ hyear
    have hrange : InRange (started.nanos + input.durationSeconds.toInt * 1000000000) := by
      rw [← checked_eq_some.1 hend]
      exact end'.range
    refine ⟨text, htext, ⟨rfl, rfl⟩, (ended_iff _ _).2 ⟨hnonneg, hrange⟩, fun s hs => ?_,
      fun _ => ⟨end', hend, htick⟩⟩
    cases hunset.symm.trans hs

/-- The second reading of a clock that does not go back is not the length before the first
    one, where the length before the first is out of range. -/
theorem inRange_of_ordered {d : Int} {t : PrimitiveDateTime} (hd : 0 ≤ d)
    (hfirst : first.time.nanos ≤ second.date.nanos)
    (hend : (nowPrimitive second).checkedAdd d = some t) (htick : t.nanos ≤ first.time.nanos) :
    InRange ((nowPrimitive first).nanos - d * 1000000000) := by
  have hnow : (nowPrimitive first).nanos =
      first.date.nanos / nanosPerDay * nanosPerDay + first.time.nanos % nanosPerDay := rfl
  have hlater : (nowPrimitive second).nanos =
      second.date.nanos / nanosPerDay * nanosPerDay + second.time.nanos % nanosPerDay := rfl
  have hrange := first.date.range
  have hnowRange := (nowPrimitive first).range
  rw [checked_eq_some.1 hend, hlater] at htick
  rw [hnow] at hnowRange ⊢
  unfold InRange firstNano endNano nanosPerDay at *
  omega

/-- **A SESSION IS THE INTERVAL REPORTED**, and the call does not panic, exactly if the
    input is plain or the row is refused. -/
theorem right_iff_plain (lib : Rfc3339) (setting : Setting F) (newId : DbId)
    (first second last : Tick) (input : ReadingSessionInput F) (t : SessionTable F) :
    Right lib setting newId first second last input t ↔
      (Insertable setting newId input t → Plain lib first second input) := by
  by_cases hinsert : Insertable setting newId input t
  · rw [imp_iff_right hinsert]
    cases hgiven : input.startedAt with
    | some s =>
        -- a start is given: it has to parse, and the rest is the interval from it
        cases hparse : lib.parse s with
        | error e =>
            refine iff_of_true
              (right_of_error (e := .invalidInput ("invalid RFC 3339 timestamp: " ++ e)) ?_)
              ⟨fun s' r hs' hr => ?_, fun hnone => ?_⟩
            · rw [recordReadingSession, startOf, hgiven]
              dsimp only
              rw [tsParse_of_error hparse]
            · cases hgiven.symm.trans hs'
              cases hparse.symm.trans hr
            · cases hgiven.symm.trans hnone
        | ok r =>
            rw [right_given hgiven hparse hinsert]
            constructor
            · intro h
              refine ⟨fun s' r' hs' hr' => ?_, fun hnone => ?_⟩
              · cases hgiven.symm.trans hs'
                cases hparse.symm.trans hr'
                exact h
              · cases hgiven.symm.trans hnone
            · intro h
              exact h.given s r hgiven hparse
    | none =>
        -- no start is given: it is the clock less the duration, or the clock read again
        cases hsub : (nowPrimitive first).checkedSub input.durationSeconds.toInt with
        | some start =>
            have hstart : startOf lib first second input = .ok start := by
              rw [startOf, hgiven, hsub]
              rfl
            rw [right_unset hgiven hstart hinsert, checkedAdd_checkedSub hsub]
            constructor
            · rintro ⟨hyear, hnonneg, t', ht', htick⟩
              cases ht'
              refine ⟨fun s' r' hs' _ => ?_, fun _ => ⟨hnonneg, Or.inl ⟨start, hsub, hyear, htick⟩⟩⟩
              cases hgiven.symm.trans hs'
            · intro h
              obtain ⟨hnonneg, ⟨start', hsub', hyear, htick⟩ | ⟨hnone, _⟩⟩ := h.unset hgiven
              · cases hsub.symm.trans hsub'
                exact ⟨hyear, hnonneg, _, rfl, htick⟩
              · cases hsub.symm.trans hnone
        | none =>
            have hstart : startOf lib first second input = .ok (nowPrimitive second) := by
              rw [startOf, hgiven, hsub]
              rfl
            rw [right_unset hgiven hstart hinsert]
            constructor
            · rintro ⟨hyear, hnonneg, hend⟩
              refine ⟨fun s' r' hs' _ => ?_, fun _ => ⟨hnonneg, Or.inr ⟨hsub, hyear, hend⟩⟩⟩
              cases hgiven.symm.trans hs'
            · intro h
              obtain ⟨hnonneg, ⟨start', hsub', _⟩ | ⟨_, hyear, hend⟩⟩ := h.unset hgiven
              · cases hsub.symm.trans hsub'
              · exact ⟨hyear, hnonneg, hend⟩
  · -- the row is refused, whatever the start, so an error is right
    refine iff_of_true ?_ fun h => absurd h hinsert
    cases hstart : startOf lib first second input with
    | error e =>
        refine right_of_error (e := e) ?_
        rw [recordReadingSession, hstart]
    | ok started =>
        obtain ⟨e, herror⟩ := @insert_of_not_insertable _ _ _ last _ _ started hinsert
        refine right_of_error (e := e) ?_
        rw [recordReadingSession, hstart]
        dsimp only
        rw [herror]

end Recording

/-! ## Sessions that are not what was reported -/

def sessionInput (durationSeconds : Int64) (startedAt : Option String) : ReadingSessionInput Int :=
  { editionId := Library.sampleId 1, formatId := Library.sampleId 2, durationSeconds
    progressDelta := 0, lastLocation := none, notes := none, startedAt }

/-- No sessions yet. -/
def noSessions : SessionTable Int := ⟨[], List.nodup_nil⟩

theorem insertable_sample (durationSeconds : Int64) (startedAt : Option String) :
    Insertable (ReadingTime.bookSetting false) (Library.sampleId 3)
      (sessionInput durationSeconds startedAt) noSessions :=
  ⟨rfl, List.mem_singleton_self _, List.mem_singleton_self _, List.not_mem_nil⟩

/-- Noon in Cairo is taken for noon in Greenwich; a length below nought has an end before
    its start; and the call panics for a length of four thousand years. -/
theorem not_right_sample :
    ¬ Right .reference (ReadingTime.bookSetting false) (Library.sampleId 3) noonTick noonTick
      noonTick (sessionInput 600 (some "2024-05-01T12:00:00+02:00")) noSessions ∧
    ¬ Right .reference (ReadingTime.bookSetting false) (Library.sampleId 3) noonTick noonTick
      noonTick (sessionInput (-600) none) noSessions ∧
    ¬ Right .reference (ReadingTime.bookSetting false) (Library.sampleId 3) noonTick noonTick
      noonTick (sessionInput 126230400000 none) noSessions := by
  refine ⟨fun h => ?_, fun h => ?_, fun h => ?_⟩
  · have hread : ∃ r, Rfc3339.reference.parse "2024-05-01T12:00:00+02:00" = .ok r ∧
        r.offset = 7200000000000 := ⟨_, rfl, rfl⟩
    obtain ⟨r, hparse, hoffset⟩ := hread
    have hzero := ((right_given rfl hparse (insertable_sample _ _)).1 h).1
    rw [hoffset] at hzero
    cases hzero
  · have hnonneg := ((right_unset rfl rfl (insertable_sample _ _)).1 h).2.1
    exact absurd hnonneg (by decide)
  · have hyear := ((right_unset rfl rfl (insertable_sample _ _)).1 h).1
    exact absurd hyear (by decide)

end Sessions

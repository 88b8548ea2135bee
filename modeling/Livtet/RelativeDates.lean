import Livtet.Anchors

/-! # Relative dates

    What the placeholders are named after, against what they stand for. The anchors of
    the weeks and the start of the month are what their names say; the end of the month is
    unless the next month is too short to have the day; what is named after the start of
    the last month or year is its last day. An offset goes back whatever its sign.

    A placeholder that parses stops the program exactly if the way to its instant leaves
    the range of the calendar (`rendersAll_iff`). -/

namespace Placeholder

open Civil SavedSearch

variable (time : TimeCrate) (now : time.OffsetDateTime)

/-- The anchor has a value, and it shows this. -/
def Shows (p : ReservedPlaceholder) (P : Reading → Prop) : Prop :=
  ∃ t, render time now (.reserved p) = some t ∧ P (time.reading t)

/-- Midnight of a Monday. -/
def IsMondayMidnight (r : Reading) : Prop := r.nanos = 0 ∧ IsMonday r.date.dayNumber

/-- Each anchor is what its name says. -/
structure AnchorsRight : Prop where
  thisMonth : Shows time now .thisMonthStart (fun r => r.instant ≤ (time.reading now).instant) ∧
    Shows time now .thisMonthEnd fun r => (time.reading now).instant ≤ r.instant
  thisMonthEnd : Shows time now .thisMonthEnd fun r =>
    r.add 1 = (time.reading now).onDay (time.reading now).date.firstOfNextMonth.dayNumber
  lastMonthStart : Shows time now .lastMonthStart fun r =>
    r = (time.reading now).onDay (time.reading now).date.firstOfPreviousMonth.dayNumber
  lastMonthEnd : Shows time now .thisMonthStart fun start =>
    Shows time now .lastMonthEnd fun r => r = start.add (-1)
  lastYearStart : Shows time now .lastYearStart fun r =>
    r = (time.reading now).onDay (time.reading now).date.firstOfPreviousYear.dayNumber
  thisWeekStart : Shows time now .thisWeekStart fun start =>
    IsMondayMidnight start ∧ start.instant ≤ (time.reading now).instant ∧
      ∀ r, IsMondayMidnight r → r.offset = (time.reading now).offset →
        r.instant ≤ (time.reading now).instant → r.instant ≤ start.instant
  thisWeekEnd : Shows time now .thisWeekStart fun start =>
    Shows time now .thisWeekEnd fun r => r = start.add (7 * nanosPerDay - 1)

variable {time now}

theorem shows_iff {p : ReservedPlaceholder} {P : Reading → Prop} :
    Shows time now p P ↔ Reaches (time.reading now) p ∧ P (anchor (time.reading now) p) := by
  have hmap := map_reading_renderReserved time now p
  constructor
  · rintro ⟨t, ht, hP⟩
    rw [show renderReserved time now p = some t from ht, Option.map_some] at hmap
    split at hmap
    next hreaches =>
      rw [Option.some.injEq] at hmap
      exact ⟨hreaches, hmap ▸ hP⟩
    next => cases hmap
  · rintro ⟨hreaches, hP⟩
    rw [if_pos hreaches] at hmap
    obtain ⟨t, ht, hreading⟩ := Option.map_eq_some_iff.1 hmap
    exact ⟨t, ht, hreading ▸ hP⟩

theorem onDay_injective {r : Reading} {n m : Int} (h : r.onDay n = r.onDay m) : n = m := by
  have hint := congrArg Reading.toInt h
  rw [Reading.toInt_onDay, Reading.toInt_onDay] at hint
  exact Int.eq_of_mul_eq_mul_right (by decide) hint

theorem before_add_one (r : Reading) (n : Int) : (r.before n).add 1 = r.onDay n := by
  rw [Reading.before_add, Int.sub_add_cancel]
  rfl

/-! ## The anchors that are right -/

/-- The week is from its Monday to the last instant before the next. -/
theorem week_right (h : Reaches (time.reading now) .thisWeekEnd) :
    (Shows time now .thisWeekStart fun start =>
      IsMondayMidnight start ∧ start.instant ≤ (time.reading now).instant ∧
        ∀ r, IsMondayMidnight r → r.offset = (time.reading now).offset →
          r.instant ≤ (time.reading now).instant → r.instant ≤ start.instant) ∧
    Shows time now .thisWeekStart fun start =>
      Shows time now .thisWeekEnd fun r => r = start.add (7 * nanosPerDay - 1) := by
  generalize hr : time.reading now = r at h
  have hmonday := monday_mem r.date.dayNumber
  have hmem := r.toInt_mem
  rw [Reading.toInt_midnight] at hmem
  refine ⟨shows_iff.2 ⟨hr ▸ h.1, ?_⟩, shows_iff.2 ⟨hr ▸ h.1, shows_iff.2 ⟨hr ▸ h, ?_⟩⟩⟩
  · rw [hr]
    refine ⟨⟨?_, ?_⟩, ?_, ?_⟩
    · change monday r.date.dayNumber * nanosPerDay % nanosPerDay = 0
      exact Int.mul_emod_left _ _
    · change IsMonday (Date.ofDayNumber _).dayNumber
      rw [Date.dayNumber_ofDayNumber, Int.mul_ediv_cancel _ (by decide)]
      exact isMonday_monday _
    · change (r.onDay _).toInt - (r.onDay _).offset ≤ r.toInt - r.offset
      rw [Reading.toInt_onDay, Reading.offset_onDay]
      have := Int.mul_le_mul_of_nonneg_right hmonday.1 (show 0 ≤ nanosPerDay by decide)
      omega
    · rintro m ⟨hnanos, hday⟩ hoffset hle
      change m.toInt - m.offset ≤ (r.onDay _).toInt - (r.onDay _).offset
      change m.toInt - m.offset ≤ r.toInt - r.offset at hle
      rw [Reading.toInt_onDay, Reading.offset_onDay, hoffset]
      rw [hoffset] at hle
      have hm : m.toInt = m.date.dayNumber * nanosPerDay := by
        rw [Reading.toInt, hnanos, Int.add_zero]
      -- at one offset the instants are in the order of the days
      have hdays : m.date.dayNumber ≤ r.date.dayNumber := by
        rw [← m.toInt_ediv, ← r.toInt_ediv]
        exact Int.ediv_le_ediv (by decide) (by omega)
      have := Int.mul_le_mul_of_nonneg_right (le_monday hday hdays)
        (show 0 ≤ nanosPerDay by decide)
      omega
  · rw [hr]
    change r.before (monday r.date.dayNumber + 7) =
      (r.onDay (monday r.date.dayNumber)).add (7 * nanosPerDay - 1)
    rw [Reading.onDay_add, ← Int.add_sub_assoc, ← Int.add_mul]
    rfl

/-- The month starts on its first. -/
theorem thisMonthStart_right : Shows time now .thisMonthStart fun r =>
    r = (time.reading now).onDay (time.reading now).date.firstOfMonth.dayNumber :=
  shows_iff.2 ⟨trivial, rfl⟩

/-- The end of the month is right exactly if the next month is found. -/
theorem thisMonthEnd_right_iff : (Shows time now .thisMonthEnd fun r =>
    r.add 1 = (time.reading now).onDay (time.reading now).date.firstOfNextMonth.dayNumber) ↔
      foundMonth (time.reading now).date = (time.reading now).date.firstOfNextMonth := by
  rw [shows_iff]
  constructor
  · rintro ⟨_, h⟩
    have hdays : (time.reading now).onDay (foundMonth (time.reading now).date).dayNumber =
        (time.reading now).onDay (time.reading now).date.firstOfNextMonth.dayNumber :=
      (before_add_one _ _).symm.trans h
    exact Date.dayNumber_injective (onDay_injective hdays)
  · intro h
    rw [← h]
    exact ⟨trivial, before_add_one _ _⟩

/-! ## The anchors that are wrong -/

/-- The last day of the month before is not its first. -/
theorem lastMonthStart_wrong : ¬ Shows time now .lastMonthStart fun r =>
    r = (time.reading now).onDay (time.reading now).date.firstOfPreviousMonth.dayNumber := by
  rw [shows_iff]
  rintro ⟨_, h⟩
  have hdays := onDay_injective h
  have hmonth := (time.reading now).date.dayNumber_firstOfPreviousMonth_add_le
  omega

theorem lastYearStart_wrong : ¬ Shows time now .lastYearStart fun r =>
    r = (time.reading now).onDay (time.reading now).date.firstOfPreviousYear.dayNumber := by
  rw [shows_iff]
  rintro ⟨_, h⟩
  have hdays := onDay_injective h
  have hyear := (time.reading now).date.dayNumber_firstOfPreviousYear
  omega

/-- **THE ANCHORS ARE NEVER ALL RIGHT**. -/
theorem not_anchorsRight (time : TimeCrate) (now : time.OffsetDateTime) :
    ¬ AnchorsRight time now := fun h => lastMonthStart_wrong h.lastMonthStart

/-- The 31st of January 2024, in the afternoon. -/
def january31 : TimeCrate.reference.OffsetDateTime :=
  ⟨⟨⟨2024, 1, 31, january_mem, by decide⟩, 54000000000000, 0, by decide⟩, by decide⟩

/-- February has no 31st: the month ends before now. -/
theorem not_anchorsRight_january31 : ¬ AnchorsRight .reference january31 := by
  intro h
  obtain ⟨_, hle⟩ := shows_iff.1 h.thisMonth.2
  exact absurd hle (by decide)

/-! ## Offsets -/

/-- The offset goes where its sign says, and further the larger its amount. -/
structure Directed (time : TimeCrate) (now : time.OffsetDateTime) (unit : DateUnit) (n : Nat)
    (plus minus : time.OffsetDateTime) : Prop where
  plus_eq : render time now (.dateOffset unit .plus n) = some plus
  minus_eq : render time now (.dateOffset unit .minus n) = some minus
  after : (time.reading (startOfDay time now)).instant < (time.reading plus).instant
  before : (time.reading minus).instant < (time.reading (startOfDay time now)).instant
  equidistant : (time.reading plus).instant - (time.reading (startOfDay time now)).instant =
    (time.reading (startOfDay time now)).instant - (time.reading minus).instant
  increasing : ∀ n' plus' minus', n < n' →
    render time now (.dateOffset unit .plus n') = some plus' →
    render time now (.dateOffset unit .minus n') = some minus' →
    (time.reading plus).instant < (time.reading plus').instant ∧
      (time.reading minus').instant < (time.reading minus).instant

theorem delta_lt (unit : DateUnit) {n m : Nat} (h : n < m) : delta n unit < delta m unit := by
  cases unit <;> simp only [delta, TimeCrate.minutes, TimeCrate.hours, TimeCrate.days,
    TimeCrate.weeks, nanosPerDay] <;> omega

/-- Nothing but the amount is looked at. -/
theorem render_dateOffset (unit : DateUnit) (sign : DateOffsetSign) (n : Nat) :
    render time now (.dateOffset unit sign n) = renderOffsetStep time now unit n := by
  cases sign with
  | plus => rfl
  | minus => rfl

/-- An offset comes before the start of the day, by its amount. -/
theorem instant_dateOffset {unit : DateUnit} {sign : DateOffsetSign} {n : Nat}
    {t : time.OffsetDateTime} (h : render time now (.dateOffset unit sign n) = some t) :
    (time.reading t).instant =
      (time.reading (startOfDay time now)).instant - delta n unit := by
  have hsub := time.reading_checkedSub (startOfDay time now) (delta n unit)
  rw [render_dateOffset, renderOffsetStep] at h
  rw [h, Option.map_some, representable?] at hsub
  split at hsub
  next =>
    rw [Option.some.inj hsub, Reading.instant, Reading.toInt_add, Reading.offset_add,
      Reading.instant]
    omega
  next => cases hsub

/-- Of two offsets, the one with the larger amount is the earlier, whatever their signs. -/
theorem instant_dateOffset_lt {unit : DateUnit} {sign sign' : DateOffsetSign} {n m : Nat}
    {t t' : time.OffsetDateTime} (hlt : n < m)
    (h : render time now (.dateOffset unit sign n) = some t)
    (h' : render time now (.dateOffset unit sign' m) = some t') :
    (time.reading t').instant < (time.reading t).instant := by
  have := delta_lt unit hlt
  rw [instant_dateOffset h, instant_dateOffset h']
  omega

/-- Both signs come to the same instant. -/
theorem not_after_and_before {unit : DateUnit} {n : Nat} {plus minus : time.OffsetDateTime}
    (hplus : render time now (.dateOffset unit .plus n) = some plus)
    (hminus : render time now (.dateOffset unit .minus n) = some minus)
    (hafter : (time.reading (startOfDay time now)).instant < (time.reading plus).instant) :
    ¬ (time.reading minus).instant < (time.reading (startOfDay time now)).instant := by
  have hsame : plus = minus := Option.some.inj (hplus.symm.trans hminus)
  rw [← hsame]
  omega

/-- **AN OFFSET NEVER MOVES AS ITS SIGN SAYS**. -/
theorem not_directed (time : TimeCrate) (now : time.OffsetDateTime) (unit : DateUnit) (n : Nat)
    (plus minus : time.OffsetDateTime) : ¬ Directed time now unit n plus minus :=
  fun h => not_after_and_before h.plus_eq h.minus_eq h.after h.before

/-- Three days from now are three days ago. -/
theorem not_directed_day : ¬ ∃ plus minus, Directed .reference january31 .day 3 plus minus := by
  rintro ⟨plus, minus, h⟩
  have hinstant := instant_dateOffset h.plus_eq
  have hafter := h.after
  have hdelta : delta 3 .day = 259200000000000 := by decide
  omega

/-! ## The range of the calendar -/

/-- The way to the instant does not leave the range. -/
def Fits (r : Reading) : PlaceholderName → Prop
  | .reserved p => Reaches r p
  | .dateOffset unit _ amount => delta amount unit ≤ (r.date.dayNumber - firstNumber) * nanosPerDay
  | .user _ => True

instance (r : Reading) (name : PlaceholderName) : Decidable (Fits r name) := by
  cases name <;> unfold Fits <;> infer_instance

theorem delta_nonneg (unit : DateUnit) (n : Nat) : 0 ≤ delta n unit := by
  cases unit <;> simp only [delta, TimeCrate.minutes, TimeCrate.hours, TimeCrate.days,
    TimeCrate.weeks, nanosPerDay] <;> omega

theorem isSome_render_iff (name : PlaceholderName) :
    (render time now name).isSome = true ↔ Fits (time.reading now) name := by
  rw [← Option.isSome_map (f := time.reading)]
  cases name with
  | user name => exact iff_of_true rfl trivial
  | reserved p =>
      rw [render, map_reading_renderReserved]
      split
      next h => exact iff_of_true rfl h
      next h => exact iff_of_false Bool.false_ne_true h
  | dateOffset unit sign n =>
      have hmem := dayNumber_mem now
      have hdelta := delta_nonneg unit n
      have hfits : InRange ((time.reading now).date.dayNumber * nanosPerDay + -delta n unit) ↔
          Fits (time.reading now) (.dateOffset unit sign n) := by
        unfold Fits InRange nanosPerDay
        omega
      rw [render_dateOffset, renderOffsetStep, time.reading_checkedSub, reading_startOfDay,
        Reading.onDay_add, representable?_ofInt, ← hfits]
      split
      next h => exact iff_of_true rfl h
      next h => exact iff_of_false Bool.false_ne_true h

/-- **A PLACEHOLDER RENDERS** exactly if the way to its instant does not leave the range. -/
theorem render_parsed_iff (time : TimeCrate) (now : time.OffsetDateTime) (s : String) :
    (∀ name, PlaceholderName.fromStr s = .ok name → (render time now name).isSome = true) ↔
      ∀ name, PlaceholderName.fromStr s = .ok name → Fits (time.reading now) name :=
  forall₂_congr fun name _ => isSome_render_iff name

/-- The largest amount of years is more than there are. -/
theorem render_year_stops : ∃ name, PlaceholderName.fromStr "year:-4294967295" = .ok name ∧
    render .reference january31 name = none :=
  ⟨.dateOffset .year .minus 4294967295, by decide, by decide⟩

/-! ## In a search -/

/-- The clock that a search is rendered with. -/
def clockAt (time : TimeCrate) (now : time.OffsetDateTime) (format : time.OffsetDateTime → String) :
    Clock :=
  fun name => (render time now name).map format

/-- A token stops the rendering of a search exactly if it is an anchor or an offset that does
    not fit. -/
theorem resolveToken_eq_none_iff {DbErr : Type} (bindings : CompositionBindings)
    (format : time.OffsetDateTime → String) (token : String) :
    (resolveToken bindings (clockAt time now format) token :
      Option (Except (CompositionError DbErr) String)) = none ↔
      ∃ name, parsePlaceholder ("$$" ++ token ++ "$$") = .ok name ∧
        ¬ Fits (time.reading now) name := by
  rw [resolveToken]
  cases parsePlaceholder ("$$" ++ token ++ "$$") with
  | error e => simp
  | ok name =>
      have hclock : (clockAt time now format name).map
          (Except.ok : String → Except (CompositionError DbErr) String) = none ↔
          ¬ Fits (time.reading now) name := by
        rw [Option.map_eq_none_iff, clockAt, Option.map_eq_none_iff, ← isSome_render_iff,
          Bool.not_eq_true, Option.isSome_eq_false_iff, Option.isNone_iff_eq_none]
      cases name with
      | user name =>
          cases h : bindings.lookup name with
          | none => simp [Fits, h]
          | some value => simp [Fits, h]
      | reserved p => simp [hclock]
      | dateOffset unit sign n => simp [hclock]

end Placeholder

import Livtet.Composition
import Livtet.Lib.Civil

/-! # The dates of placeholders

    A placeholder stands for an instant that is computed from now: an anchor of the
    calendar, or an offset from the start of the day. Dates belong to another library; its
    operators stop the program where a result leaves the years -9999 to 9999.

    The anchors of this month, this year and the weeks are right. The month that is sought
    by its number is not found from the 31st if it is shorter, and what is said to be the
    start of the last month or year is its last day (`not_anchorsRight`). The sign of an
    offset is not looked at (`not_directed`). -/

namespace Placeholder

open Civil SavedSearch

/-! ## The library of dates -/

/-- In the range of the library. -/
def Representable (r : Reading) : Prop := -9999 ≤ r.date.year ∧ r.date.year ≤ 9999

instance (r : Reading) : Decidable (Representable r) := by unfold Representable; infer_instance

def representable? (r : Reading) : Option Reading := if Representable r then some r else none

/-- What is used of the `time` crate: the operations on a date with an offset, and what the
    clock shows after each. Durations are in nanoseconds. -/
structure TimeCrate where
  OffsetDateTime : Type
  reading : OffsetDateTime → Reading
  unixEpoch : OffsetDateTime
  /-- Counted from Monday. -/
  weekday : OffsetDateTime → Int
  replaceTimeMidnight : OffsetDateTime → OffsetDateTime
  replaceYear : OffsetDateTime → Int → Option OffsetDateTime
  replaceMonth : OffsetDateTime → Nat → Option OffsetDateTime
  replaceDay : OffsetDateTime → Nat → Option OffsetDateTime
  checkedAdd : OffsetDateTime → Int → Option OffsetDateTime
  checkedSub : OffsetDateTime → Int → Option OffsetDateTime
  representable : ∀ t, Representable (reading t)
  reading_epoch : reading unixEpoch = .ofInt (719163 * nanosPerDay) 0
  weekday_eq : ∀ t, weekday t = ((reading t).date.dayNumber - 1) % 7
  reading_midnight : ∀ t, reading (replaceTimeMidnight t) = (reading t).midnight
  reading_replaceYear : ∀ t year, (replaceYear t year).map reading =
    ((reading t).replaceYear year).bind representable?
  reading_replaceMonth : ∀ t month, (replaceMonth t month).map reading =
    (reading t).replaceMonth month
  reading_replaceDay : ∀ t day, (replaceDay t day).map reading = (reading t).replaceDay day
  reading_checkedAdd : ∀ t nanos, (checkedAdd t nanos).map reading =
    representable? ((reading t).add nanos)
  reading_checkedSub : ∀ t nanos, (checkedSub t nanos).map reading =
    representable? ((reading t).add (-nanos))

namespace TimeCrate

def ofReading? (r : Reading) : Option { r : Reading // Representable r } :=
  if h : Representable r then some ⟨r, h⟩ else none

theorem map_val_ofReading? (r : Reading) : (ofReading? r).map Subtype.val = representable? r := by
  unfold ofReading? representable?
  split
  next => rfl
  next => rfl

theorem map_val_bind_ofReading? {o : Option Reading} (h : ∀ r ∈ o, Representable r) :
    (o.bind ofReading?).map Subtype.val = o := by
  cases o with
  | none => rfl
  | some r => exact (map_val_ofReading? r).trans (if_pos (h r rfl))

/-- Dates that are what the clock shows. -/
def reference : TimeCrate where
  OffsetDateTime := { r : Reading // Representable r }
  reading := Subtype.val
  unixEpoch := ⟨.ofInt (719163 * nanosPerDay) 0, by decide⟩
  weekday t := (t.1.date.dayNumber - 1) % 7
  replaceTimeMidnight t := ⟨t.1.midnight, t.2⟩
  replaceYear t year := (t.1.replaceYear year).bind ofReading?
  replaceMonth t month := (t.1.replaceMonth month).bind ofReading?
  replaceDay t day := (t.1.replaceDay day).bind ofReading?
  checkedAdd t nanos := ofReading? (t.1.add nanos)
  checkedSub t nanos := ofReading? (t.1.add (-nanos))
  representable := Subtype.property
  reading_epoch := rfl
  weekday_eq _ := rfl
  reading_midnight _ := rfl
  reading_replaceYear t year := by
    cases t.1.replaceYear year with
    | none => rfl
    | some r => exact map_val_ofReading? r
  reading_replaceMonth t month := by
    refine map_val_bind_ofReading? fun r hr => ?_
    rw [Reading.replaceMonth] at hr
    split at hr
    next =>
      cases Option.some.inj hr
      exact t.2
    next => cases hr
  reading_replaceDay t day := by
    refine map_val_bind_ofReading? fun r hr => ?_
    rw [Reading.replaceDay] at hr
    split at hr
    next =>
      cases Option.some.inj hr
      exact t.2
    next => cases hr
  reading_checkedAdd _ _ := map_val_ofReading? _
  reading_checkedSub _ _ := map_val_ofReading? _

/-- The durations of the crate. -/
def minutes (n : Int) : Int := n * 60000000000
def hours (n : Int) : Int := n * 3600000000000
def days (n : Int) : Int := n * nanosPerDay
def weeks (n : Int) : Int := n * 7 * nanosPerDay

end TimeCrate

/-! ## Rendering a placeholder -/

section Render

open TimeCrate

variable (time : TimeCrate) (now : time.OffsetDateTime)

def startOfDay : time.OffsetDateTime := time.replaceTimeMidnight now

def endOfDay : Option time.OffsetDateTime := do
  let next ← time.checkedAdd (startOfDay time now) (days 1)
  time.checkedSub next 1

/-- The loop of `start_of_week`, with the steps that are left. -/
def walkBack : Nat → time.OffsetDateTime → Option time.OffsetDateTime
  | 0, cursor => some cursor
  | n + 1, cursor =>
      if time.weekday cursor = 0 then some cursor
      else (time.checkedSub cursor (days 1)).bind (walkBack n)

def startOfWeek : Option time.OffsetDateTime := walkBack time 7 (startOfDay time now)

def endOfWeek : Option time.OffsetDateTime := do
  let start ← startOfWeek time now
  let next ← time.checkedAdd start (days 7)
  time.checkedSub next 1

def startOfMonth : time.OffsetDateTime :=
  time.replaceTimeMidnight ((time.replaceDay now 1).getD now)

/-- The fall-back to now is where the month has no such day. -/
def advanceMonth : time.OffsetDateTime :=
  let date := (time.reading now).date
  let (year, month) := if date.month = 12 then (date.year + 1, 1) else (date.year, date.month + 1)
  time.replaceTimeMidnight <|
    (((time.replaceYear now year).bind fun d => time.replaceMonth d month).bind fun d =>
      time.replaceDay d 1).getD now

def endOfMonth : Option time.OffsetDateTime := time.checkedSub (advanceMonth time now) 1

def startOfYear : time.OffsetDateTime :=
  time.replaceTimeMidnight <|
    (time.replaceDay ((time.replaceMonth now 1).getD now) 1).getD now

def renderReserved : ReservedPlaceholder → Option time.OffsetDateTime
  | .now => some now
  | .today => some (startOfDay time now)
  | .yesterday => time.checkedSub (startOfDay time now) (days 1)
  | .tomorrow => time.checkedAdd (startOfDay time now) (days 1)
  | .thisWeekStart => startOfWeek time now
  | .thisWeekEnd => endOfWeek time now
  | .lastWeekStart => do time.checkedSub (← startOfWeek time now) (weeks 1)
  | .thisMonthStart => some (startOfMonth time now)
  | .thisMonthEnd => endOfMonth time now
  | .lastMonthStart => time.checkedSub (startOfMonth time now) (days 1)
  | .lastMonthEnd => do time.checkedSub (← endOfMonth time now) (days 1)
  | .thisYearStart => some (startOfYear time now)
  | .lastYearStart => time.checkedSub (startOfYear time now) (days 1)
  | .firstDay => some (startOfDay time now)
  | .lastDay => endOfDay time now
  | .begin => some time.unixEpoch

def delta (amount : Nat) : DateUnit → Int
  | .minute => minutes amount
  | .hour => hours amount
  | .day => days amount
  | .week => weeks amount
  | .month => days (amount * 30)
  | .year => days (amount * 365)

def renderOffsetStep (unit : DateUnit) (amount : Nat) : Option time.OffsetDateTime :=
  time.checkedSub (startOfDay time now) (delta amount unit)

/-- `none` where the program stops. -/
def render : PlaceholderName → Option time.OffsetDateTime
  | .reserved r => renderReserved time now r
  | .dateOffset unit sign amount =>
      let step := renderOffsetStep time now unit amount
      match sign with
      | .plus => step
      | .minus => step
  | .user _ => some now

/-! ## What the clock shows then -/

variable {time now}

theorem map_bind_checkedAdd (o : Option time.OffsetDateTime) (nanos : Int) :
    (o.bind fun t => time.checkedAdd t nanos).map time.reading =
      (o.map time.reading).bind fun r => representable? (r.add nanos) := by
  cases o with
  | none => rfl
  | some t => exact time.reading_checkedAdd t nanos

theorem map_bind_checkedSub (o : Option time.OffsetDateTime) (nanos : Int) :
    (o.bind fun t => time.checkedSub t nanos).map time.reading =
      (o.map time.reading).bind fun r => representable? (r.add (-nanos)) := by
  cases o with
  | none => rfl
  | some t => exact time.reading_checkedSub t nanos

theorem reading_startOfDay : time.reading (startOfDay time now) =
    (time.reading now).onDay (time.reading now).date.dayNumber := by
  rw [startOfDay, time.reading_midnight, Reading.midnight_eq]

end Render

/-- The numbers of the first and the last day of the range. -/
def firstNumber : Int := daysBeforeYear (-9999) + 1
def lastNumber : Int := daysBeforeYear 10000

def InRange (n : Int) : Prop := firstNumber * nanosPerDay ≤ n ∧ n < (lastNumber + 1) * nanosPerDay

instance (n : Int) : Decidable (InRange n) := by unfold InRange; infer_instance

theorem representable_iff (r : Reading) : Representable r ↔ InRange r.toInt := by
  rw [Representable, Date.le_year_iff, Date.year_le_iff, ← Reading.toInt_ediv, InRange,
    ← Int.le_ediv_iff_mul_le (by decide), ← Int.ediv_lt_iff_lt_mul (by decide)]
  exact and_congr Iff.rfl Int.lt_add_one_iff.symm

theorem inRange_mul (n : Int) :
    InRange (n * nanosPerDay) ↔ firstNumber ≤ n ∧ n ≤ lastNumber := by
  unfold InRange nanosPerDay
  omega

theorem inRange_mul_sub_one (n : Int) :
    InRange (n * nanosPerDay - 1) ↔ firstNumber < n ∧ n ≤ lastNumber + 1 := by
  unfold InRange nanosPerDay
  omega

theorem representable?_ofInt (n offset : Int) : representable? (.ofInt n offset) =
    if InRange n then some (.ofInt n offset) else none := by
  unfold representable?
  refine if_congr ?_ rfl rfl
  rw [representable_iff, Reading.toInt_ofInt]

/-- Some days from a midnight. -/
theorem representable?_onDay_add (r : Reading) (n k : Int) :
    representable? ((r.onDay n).add (k * nanosPerDay)) =
      if firstNumber ≤ n + k ∧ n + k ≤ lastNumber then some (r.onDay (n + k)) else none := by
  rw [Reading.onDay_add, ← Int.add_mul, representable?_ofInt]
  exact if_congr (inRange_mul (n + k)) rfl rfl

theorem representable?_onDay_sub (r : Reading) (n k : Int) :
    representable? ((r.onDay n).add (-(k * nanosPerDay))) =
      if firstNumber ≤ n - k ∧ n - k ≤ lastNumber then some (r.onDay (n - k)) else none := by
  rw [← Int.neg_mul, representable?_onDay_add, ← Int.sub_eq_add_neg]

theorem representable?_onDay_sub_one (r : Reading) (n : Int) :
    representable? ((r.onDay n).add (-1)) =
      if firstNumber < n ∧ n ≤ lastNumber + 1 then some (r.before n) else none := by
  rw [Reading.onDay_add, ← Int.sub_eq_add_neg, representable?_ofInt]
  exact if_congr (inRange_mul_sub_one n) rfl rfl

theorem representable?_before_sub (r : Reading) (n k : Int) :
    representable? ((r.before n).add (-(k * nanosPerDay))) =
      if firstNumber < n - k ∧ n - k ≤ lastNumber + 1 then some (r.before (n - k)) else none := by
  have hnanos : n * nanosPerDay - 1 + -(k * nanosPerDay) = (n - k) * nanosPerDay - 1 := by
    rw [Int.sub_mul]
    omega
  rw [Reading.before_add, hnanos, representable?_ofInt]
  exact if_congr (inRange_mul_sub_one (n - k)) rfl rfl

/-- The month that is sought is found if it has the day and is in the range. -/
def foundMonth (d : Date) : Date :=
  if d.day ≤ daysInMonth d.firstOfNextMonth.year d.firstOfNextMonth.month ∧
      d.firstOfNextMonth.year ≤ 9999 then d.firstOfNextMonth
  else d

section Readings

open TimeCrate

variable {time : TimeCrate} {now : time.OffsetDateTime}

/-- The day is in the range. -/
theorem dayNumber_mem (now : time.OffsetDateTime) :
    firstNumber ≤ (time.reading now).date.dayNumber ∧
      (time.reading now).date.dayNumber ≤ lastNumber := by
  obtain ⟨hfirst, hlast⟩ := time.representable now
  exact ⟨Int.add_one_le_of_lt ((Date.le_year_iff _ _).1 hfirst), (Date.year_le_iff _ _).1 hlast⟩

theorem map_reading_endOfDay : (endOfDay time now).map time.reading =
    if (time.reading now).date.dayNumber < lastNumber then
      some ((time.reading now).before ((time.reading now).date.dayNumber + 1)) else none := by
  have hday := dayNumber_mem now
  have hnext : (time.checkedAdd (startOfDay time now) (days 1)).map time.reading =
      if firstNumber ≤ (time.reading now).date.dayNumber + 1 ∧
        (time.reading now).date.dayNumber + 1 ≤ lastNumber then
        some ((time.reading now).onDay ((time.reading now).date.dayNumber + 1)) else none := by
    rw [time.reading_checkedAdd, reading_startOfDay]
    exact representable?_onDay_add _ _ 1
  rw [endOfDay, Option.bind_eq_bind, map_bind_checkedSub, hnext]
  by_cases hlast : (time.reading now).date.dayNumber < lastNumber
  · rw [if_pos hlast, if_pos ⟨by omega, by omega⟩, Option.bind_some, representable?_onDay_sub_one,
      if_pos ⟨by omega, by omega⟩]
  · rw [if_neg hlast, if_neg (by omega)]
    rfl

/-- The loop ends on the last Monday, or at the end of the range. -/
theorem map_reading_walkBack {r : Reading} : ∀ (steps : Nat) (cursor : time.OffsetDateTime) (n : Int),
    time.reading cursor = r.onDay n → firstNumber ≤ n → n ≤ lastNumber → (n - 1) % 7 ≤ steps →
    (walkBack time steps cursor).map time.reading =
      if firstNumber ≤ monday n then some (r.onDay (monday n)) else none := by
  intro steps
  induction steps with
  | zero =>
      intro cursor n hcursor hfirst _ hsteps
      have hmonday : monday n = n := by
        rw [monday]
        omega
      rw [hmonday, if_pos hfirst, walkBack, Option.map_some, hcursor]
  | succ steps ih =>
      intro cursor n hcursor hfirst hlast hsteps
      have hweekday : time.weekday cursor = (n - 1) % 7 := by
        have hn : (r.onDay n).date.dayNumber = n := by
          rw [← Reading.toInt_ediv, Reading.toInt_onDay, Int.mul_ediv_cancel _ (by decide)]
        rw [time.weekday_eq, hcursor, hn]
      have hback : (time.checkedSub cursor (days 1)).map time.reading =
          if firstNumber ≤ n - 1 ∧ n - 1 ≤ lastNumber then some (r.onDay (n - 1)) else none := by
        rw [time.reading_checkedSub, hcursor]
        exact representable?_onDay_sub r n 1
      rw [walkBack, hweekday]
      by_cases hmon : (n - 1) % 7 = 0
      · have hmonday : monday n = n := by
          rw [monday]
          omega
        rw [if_pos hmon, hmonday, if_pos hfirst, Option.map_some, hcursor]
      · have hmonday : monday n = monday (n - 1) ∧ monday n < n := by
          unfold monday
          omega
        rw [if_neg hmon]
        by_cases hmore : firstNumber ≤ n - 1
        · rw [if_pos ⟨hmore, by omega⟩] at hback
          obtain ⟨back, hsub, hreading⟩ := Option.map_eq_some_iff.1 hback
          rw [hsub, Option.bind_some, ih back (n - 1) hreading hmore (by omega) (by omega),
            hmonday.1]
        · rw [if_neg (by omega), Option.map_eq_none_iff] at hback
          rw [hback, if_neg (by omega)]
          rfl

theorem map_reading_startOfWeek : (startOfWeek time now).map time.reading =
    if firstNumber ≤ monday (time.reading now).date.dayNumber then
      some ((time.reading now).onDay (monday (time.reading now).date.dayNumber)) else none := by
  obtain ⟨hfirst, hlast⟩ := dayNumber_mem now
  exact map_reading_walkBack 7 _ _ reading_startOfDay hfirst hlast (by omega)

theorem map_reading_endOfWeek : (endOfWeek time now).map time.reading =
    if firstNumber ≤ monday (time.reading now).date.dayNumber ∧
        monday (time.reading now).date.dayNumber + 7 ≤ lastNumber then
      some ((time.reading now).before (monday (time.reading now).date.dayNumber + 7))
    else none := by
  have hnext : ((startOfWeek time now).bind fun start => time.checkedAdd start (days 7)).map
      time.reading = if firstNumber ≤ monday (time.reading now).date.dayNumber ∧
        monday (time.reading now).date.dayNumber + 7 ≤ lastNumber then
      some ((time.reading now).onDay (monday (time.reading now).date.dayNumber + 7))
    else none := by
    rw [map_bind_checkedAdd, map_reading_startOfWeek]
    by_cases hfirst : firstNumber ≤ monday (time.reading now).date.dayNumber
    · rw [if_pos hfirst, Option.bind_some]
      refine (representable?_onDay_add _ _ 7).trans (if_congr ?_ rfl rfl)
      omega
    · rw [if_neg hfirst, if_neg (fun h => hfirst h.1)]
      rfl
  rw [endOfWeek]
  simp only [Option.bind_eq_bind]
  rw [← Option.bind_assoc, map_bind_checkedSub, hnext]
  split
  next h => rw [Option.bind_some, representable?_onDay_sub_one, if_pos ⟨by omega, by omega⟩]
  next => rfl

theorem reading_startOfMonth : time.reading (startOfMonth time now) =
    (time.reading now).onDay (time.reading now).date.firstOfMonth.dayNumber := by
  have hreplaced : (time.replaceDay now 1).map time.reading =
      some { time.reading now with date := (time.reading now).date.firstOfMonth } := by
    rw [time.reading_replaceDay]
    exact dif_pos (time.reading now).date.firstOfMonth.day_mem
  obtain ⟨t, ht, hreading⟩ := Option.map_eq_some_iff.1 hreplaced
  rw [startOfMonth, ht, Option.getD_some, time.reading_midnight, Reading.midnight_eq, hreading]
  rfl

theorem reading_startOfYear : time.reading (startOfYear time now) =
    (time.reading now).onDay (time.reading now).date.firstOfYear.dayNumber := by
  have hday : (time.reading now).date.day ≤ 31 :=
    Nat.le_trans (time.reading now).date.day_mem.2 (daysInMonth_mem _ _).2
  -- January has every day that a month may have
  have hmonth : (time.replaceMonth now 1).map time.reading =
      some { time.reading now with
        date := ⟨(time.reading now).date.year, 1, (time.reading now).date.day, by decide,
          (time.reading now).date.day_mem.1, hday⟩ } := by
    rw [time.reading_replaceMonth]
    exact dif_pos ⟨by decide, hday⟩
  obtain ⟨t, ht, hreading⟩ := Option.map_eq_some_iff.1 hmonth
  have hreplaced : (time.replaceDay t 1).map time.reading =
      some { time.reading now with date := (time.reading now).date.firstOfYear } := by
    rw [time.reading_replaceDay, hreading]
    exact dif_pos (time.reading now).date.firstOfYear.day_mem
  obtain ⟨t', ht', hreading'⟩ := Option.map_eq_some_iff.1 hreplaced
  rw [startOfYear, ht, Option.getD_some, ht', Option.getD_some, time.reading_midnight,
    Reading.midnight_eq, hreading']
  rfl

/-- The year of the next month has the day that now is. -/
theorem day_le_next (d : Date) : d.day ≤ daysInMonth d.firstOfNextMonth.year d.month := by
  have hday := d.day_mem.2
  rw [Date.firstOfNextMonth]
  split
  next h => exact Nat.le_trans hday (Nat.le_trans (daysInMonth_mem _ _).2 (by rw [h]; exact Nat.le_refl 31))
  next => exact hday

theorem le_year_next (d : Date) : d.year ≤ d.firstOfNextMonth.year := by
  rw [Date.firstOfNextMonth]
  split
  next => exact Int.le_add_one (Int.le_refl _)
  next => exact Int.le_refl _

/-- The sequence of replacements finds the next month, or stops on the way. -/
theorem map_replace_next (now : time.OffsetDateTime) : (((time.replaceYear now
      (time.reading now).date.firstOfNextMonth.year).bind fun d =>
        time.replaceMonth d (time.reading now).date.firstOfNextMonth.month).bind fun d =>
          time.replaceDay d 1).map time.reading =
    if (time.reading now).date.day ≤ daysInMonth (time.reading now).date.firstOfNextMonth.year
          (time.reading now).date.firstOfNextMonth.month ∧
        (time.reading now).date.firstOfNextMonth.year ≤ 9999 then
      some { time.reading now with date := (time.reading now).date.firstOfNextMonth }
    else none := by
  have hday := (time.reading now).date.day_mem.1
  have hyear := day_le_next (time.reading now).date
  have hfirst : -9999 ≤ (time.reading now).date.firstOfNextMonth.year :=
    Int.le_trans (time.representable now).1 (le_year_next _)
  generalize hnext : (time.reading now).date.firstOfNextMonth = next at hyear hfirst ⊢
  have hreplaceYear : (time.replaceYear now next.year).map time.reading =
      if next.year ≤ 9999 then
        some { time.reading now with
          date := ⟨next.year, (time.reading now).date.month, (time.reading now).date.day,
            (time.reading now).date.month_mem, hday, hyear⟩ }
      else none := by
    rw [time.reading_replaceYear, Reading.replaceYear, dif_pos hyear, Option.bind_some]
    exact if_congr (and_iff_right hfirst) rfl rfl
  -- the year has to be in range, and then the month has to have the day of today
  by_cases hlast : next.year ≤ 9999
  · rw [if_pos hlast] at hreplaceYear
    obtain ⟨t, ht, hreading⟩ := Option.map_eq_some_iff.1 hreplaceYear
    have hreplaceMonth : (time.replaceMonth t next.month).map time.reading =
        (time.reading t).replaceMonth next.month := time.reading_replaceMonth t next.month
    rw [hreading] at hreplaceMonth
    rw [ht, Option.bind_some]
    by_cases hhas : (time.reading now).date.day ≤ daysInMonth next.year next.month
    · rw [if_pos ⟨hhas, hlast⟩]
      rw [Reading.replaceMonth, dif_pos ⟨next.month_mem, hhas⟩] at hreplaceMonth
      obtain ⟨t', ht', hreading'⟩ := Option.map_eq_some_iff.1 hreplaceMonth
      rw [ht', Option.bind_some, time.reading_replaceDay, hreading']
      refine (dif_pos ⟨Nat.le_refl 1, Nat.le_trans (by decide) (daysInMonth_mem _ _).1⟩).trans ?_
      have hfirstDay : next.day = 1 := by
        rw [← hnext, Date.firstOfNextMonth]
        split
        next => rfl
        next => rfl
      refine congrArg some (Reading.ext (Date.ext rfl rfl hfirstDay.symm) rfl rfl)
    · rw [if_neg (fun h => hhas h.1)]
      rw [Reading.replaceMonth, dif_neg (fun h => hhas h.2), Option.map_eq_none_iff]
        at hreplaceMonth
      rw [hreplaceMonth]
      rfl
  · rw [if_neg hlast, Option.map_eq_none_iff] at hreplaceYear
    rw [if_neg (fun h => hlast h.2), hreplaceYear]
    rfl

theorem reading_advanceMonth : time.reading (advanceMonth time now) =
    (time.reading now).onDay (foundMonth (time.reading now).date).dayNumber := by
  have hnumbers : (if (time.reading now).date.month = 12 then
      ((time.reading now).date.year + 1, 1)
      else ((time.reading now).date.year, (time.reading now).date.month + 1)) =
      ((time.reading now).date.firstOfNextMonth.year,
        (time.reading now).date.firstOfNextMonth.month) := by
    rw [Date.firstOfNextMonth]
    split
    next => rfl
    next => rfl
  have hnext := map_replace_next now
  simp only [advanceMonth, hnumbers]
  rw [time.reading_midnight, Reading.midnight_eq, foundMonth]
  split at hnext
  next hfound =>
    obtain ⟨t, ht, hreading⟩ := Option.map_eq_some_iff.1 hnext
    rw [ht, Option.getD_some, hreading, if_pos hfound]
    rfl
  next hfound =>
    rw [Option.map_eq_none_iff] at hnext
    rw [hnext, Option.getD_none, if_neg hfound]

/-- It is neither the first day of the range nor behind its end. -/
theorem foundMonth_mem (now : time.OffsetDateTime) :
    firstNumber + 1 < (foundMonth (time.reading now).date).dayNumber ∧
      (foundMonth (time.reading now).date).dayNumber ≤ lastNumber := by
  obtain ⟨hfirst, hlast⟩ := time.representable now
  have hmem := dayNumber_mem now
  generalize (time.reading now).date = d at hfirst hlast hmem ⊢
  have hmonth := d.dayNumber_firstOfMonth
  have hnext := d.dayNumber_firstOfNextMonth
  have hdays := daysInMonth_mem d.year d.month
  have hday := d.day_mem
  have hstart : firstNumber ≤ d.firstOfMonth.dayNumber :=
    Int.add_one_le_of_lt ((Date.le_year_iff _ _).1 hfirst)
  rw [foundMonth]
  split
  next h => exact ⟨by omega, (Date.year_le_iff _ _).1 h.2⟩
  next h =>
    refine ⟨?_, hmem.2⟩
    by_cases hlate : d.firstOfNextMonth.year ≤ 9999
    · -- a month without the day: the day is one of the last of a long month
      have hlong : ¬ d.day ≤ daysInMonth d.firstOfNextMonth.year d.firstOfNextMonth.month :=
        fun hle => h ⟨hle, hlate⟩
      have := (daysInMonth_mem d.firstOfNextMonth.year d.firstOfNextMonth.month).1
      omega
    · have hlater : daysBeforeYear 9999 < d.dayNumber := by
        refine (Date.le_year_iff _ _).1 ?_
        rw [Date.firstOfNextMonth] at hlate
        split at hlate
        next => exact Int.le_of_lt_add_one (Int.not_le.1 hlate)
        next => exact absurd hlast hlate
      have hrange : firstNumber + 1 < daysBeforeYear 9999 := by decide
      omega

theorem map_reading_endOfMonth : (endOfMonth time now).map time.reading =
    some ((time.reading now).before (foundMonth (time.reading now).date).dayNumber) := by
  have hmem := foundMonth_mem now
  rw [endOfMonth, time.reading_checkedSub, reading_advanceMonth, representable?_onDay_sub_one,
    if_pos ⟨by omega, by omega⟩]

end Readings

/-! ## The anchors -/

/-- The reading of each anchor, as the program computes it. -/
def anchor (r : Reading) : ReservedPlaceholder → Reading
  | .now => r
  | .today | .firstDay => r.onDay r.date.dayNumber
  | .yesterday => r.onDay (r.date.dayNumber - 1)
  | .tomorrow => r.onDay (r.date.dayNumber + 1)
  | .thisWeekStart => r.onDay (monday r.date.dayNumber)
  | .thisWeekEnd => r.before (monday r.date.dayNumber + 7)
  | .lastWeekStart => r.onDay (monday r.date.dayNumber - 7)
  | .thisMonthStart => r.onDay r.date.firstOfMonth.dayNumber
  | .thisMonthEnd => r.before (foundMonth r.date).dayNumber
  | .lastMonthStart => r.onDay (r.date.firstOfMonth.dayNumber - 1)
  | .lastMonthEnd => r.before ((foundMonth r.date).dayNumber - 1)
  | .thisYearStart => r.onDay r.date.firstOfYear.dayNumber
  | .lastYearStart => r.onDay (r.date.firstOfYear.dayNumber - 1)
  | .lastDay => r.before (r.date.dayNumber + 1)
  | .begin => .ofInt (719163 * nanosPerDay) 0

/-- The days on the way to the anchor are in the range. -/
def Reaches (r : Reading) : ReservedPlaceholder → Prop
  | .yesterday => firstNumber < r.date.dayNumber
  | .tomorrow | .lastDay => r.date.dayNumber < lastNumber
  | .thisWeekStart => firstNumber ≤ monday r.date.dayNumber
  | .thisWeekEnd => firstNumber ≤ monday r.date.dayNumber ∧
      monday r.date.dayNumber + 7 ≤ lastNumber
  | .lastWeekStart => firstNumber ≤ monday r.date.dayNumber - 7
  | .lastMonthStart => firstNumber < r.date.firstOfMonth.dayNumber
  | .lastYearStart => firstNumber < r.date.firstOfYear.dayNumber
  | _ => True

instance (r : Reading) (p : ReservedPlaceholder) : Decidable (Reaches r p) := by
  cases p <;> unfold Reaches <;> infer_instance

/-- **EACH ANCHOR** is reached unless its days leave the range. -/
theorem map_reading_renderReserved (time : TimeCrate) (now : time.OffsetDateTime)
    (p : ReservedPlaceholder) : (renderReserved time now p).map time.reading =
      if Reaches (time.reading now) p then some (anchor (time.reading now) p) else none := by
  have hmem := dayNumber_mem now
  have hfound := foundMonth_mem now
  have hmonday := monday_mem (time.reading now).date.dayNumber
  have hmonth := (time.reading now).date.dayNumber_firstOfMonth
  have hday := (time.reading now).date.day_mem.1
  have hyear := (time.reading now).date.dayNumber_firstOfYear
  have hyear' := (time.reading now).date.dayNumber_mem.1
  cases p with
  | now => exact (if_pos trivial).symm
  | today => exact (congrArg some reading_startOfDay).trans (if_pos trivial).symm
  | firstDay => exact (congrArg some reading_startOfDay).trans (if_pos trivial).symm
  | thisMonthStart => exact (congrArg some reading_startOfMonth).trans (if_pos trivial).symm
  | thisYearStart => exact (congrArg some reading_startOfYear).trans (if_pos trivial).symm
  | begin => exact (congrArg some time.reading_epoch).trans (if_pos trivial).symm
  | thisMonthEnd => exact map_reading_endOfMonth.trans (if_pos trivial).symm
  | thisWeekStart => exact map_reading_startOfWeek
  | thisWeekEnd => exact map_reading_endOfWeek
  | lastDay => exact map_reading_endOfDay
  | yesterday =>
      -- from here on a day, a week or a month is added, which can leave the range
      rw [renderReserved, time.reading_checkedSub, reading_startOfDay]
      refine (representable?_onDay_sub _ _ 1).trans (if_congr ?_ rfl rfl)
      change _ ↔ firstNumber < _
      omega
  | tomorrow =>
      rw [renderReserved, time.reading_checkedAdd, reading_startOfDay]
      refine (representable?_onDay_add _ _ 1).trans (if_congr ?_ rfl rfl)
      change _ ↔ _ < lastNumber
      omega
  | lastMonthStart =>
      rw [renderReserved, time.reading_checkedSub, reading_startOfMonth]
      refine (representable?_onDay_sub _ _ 1).trans (if_congr ?_ rfl rfl)
      change _ ↔ firstNumber < _
      omega
  | lastYearStart =>
      rw [renderReserved, time.reading_checkedSub, reading_startOfYear]
      refine (representable?_onDay_sub _ _ 1).trans (if_congr ?_ rfl rfl)
      change _ ↔ firstNumber < _
      omega
  | lastMonthEnd =>
      have hsub := map_bind_checkedSub (endOfMonth time now) (TimeCrate.days 1)
      rw [map_reading_endOfMonth, Option.bind_some] at hsub
      refine hsub.trans ((representable?_before_sub _ _ 1).trans (if_congr ?_ rfl rfl))
      exact iff_true_intro ⟨by omega, by omega⟩
  | lastWeekStart =>
      have hsub := map_bind_checkedSub (startOfWeek time now) (TimeCrate.weeks 1)
      rw [map_reading_startOfWeek] at hsub
      refine hsub.trans ?_
      -- both steps are checked, and the second fails wherever the first does
      by_cases hweek : firstNumber ≤ monday (time.reading now).date.dayNumber
      · rw [if_pos hweek, Option.bind_some]
        refine (representable?_onDay_sub _ _ 7).trans (if_congr ?_ rfl rfl)
        change _ ↔ firstNumber ≤ _
        omega
      · have hnot : ¬ firstNumber ≤ monday (time.reading now).date.dayNumber - 7 := by omega
        rw [if_neg hweek]
        exact (if_neg hnot).symm

end Placeholder

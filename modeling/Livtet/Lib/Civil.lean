import Mathlib.Data.Int.Order.Basic
import Mathlib.Order.Monotone.Basic

/-! # The civil calendar

    Dates of the Gregorian calendar, in every year, past and future; days are numbered
    from the first of January of the year 1, which is a Monday. Each number is the number
    of one date and of no other.

    A clock on a wall shows a date and the time since midnight. What it shows is counted
    in nanoseconds, so that adding a time is adding a number. -/

namespace Civil

def isLeapYear (year : Int) : Bool :=
  decide (year % 4 = 0) && (decide (year % 100 ≠ 0) || decide (year % 400 = 0))

def daysInMonth (year : Int) : Nat → Nat
  | 2 => if isLeapYear year then 29 else 28
  | 4 | 6 | 9 | 11 => 30
  | _ => 31

theorem daysInMonth_mem (year : Int) (month : Nat) :
    28 ≤ daysInMonth year month ∧ daysInMonth year month ≤ 31 := by
  unfold daysInMonth
  split
  · split <;> decide
  all_goals decide

@[ext] structure Date where
  year : Int
  month : Nat
  day : Nat
  month_mem : 1 ≤ month ∧ month ≤ 12
  day_mem : 1 ≤ day ∧ day ≤ daysInMonth year month
deriving DecidableEq, Repr

/-! ## Numbering the days -/

/-- The days before the first of January. -/
def daysBeforeYear (year : Int) : Int :=
  365 * (year - 1) + (year - 1) / 4 - (year - 1) / 100 + (year - 1) / 400

/-- The days of the year before the first of the month. -/
def daysBeforeMonth (year : Int) : Nat → Nat
  | 0 => 0
  | 1 => 0
  | month + 2 => daysBeforeMonth year (month + 1) + daysInMonth year (month + 1)

def Date.dayNumber (d : Date) : Int :=
  daysBeforeYear d.year + daysBeforeMonth d.year d.month + d.day

theorem daysBeforeYear_succ (year : Int) :
    daysBeforeYear (year + 1) = daysBeforeYear year + if isLeapYear year then 366 else 365 := by
  simp only [daysBeforeYear, isLeapYear, Bool.and_eq_true, Bool.or_eq_true, decide_eq_true_eq]
  split
  · omega
  · omega

theorem daysBeforeYear_mono {a b : Int} (h : a ≤ b) : daysBeforeYear a ≤ daysBeforeYear b := by
  unfold daysBeforeYear
  omega

theorem daysBeforeMonth_succ (year : Int) {month : Nat} (h : 1 ≤ month) :
    daysBeforeMonth year (month + 1) = daysBeforeMonth year month + daysInMonth year month := by
  obtain ⟨m, rfl⟩ := Nat.exists_eq_succ_of_ne_zero (Nat.one_le_iff_ne_zero.1 h)
  rfl

theorem daysBeforeMonth_mono (year : Int) : Monotone (daysBeforeMonth year) := by
  refine monotone_nat_of_le_succ fun month => ?_
  cases month with
  | zero => exact Nat.le_refl 0
  | succ month => exact Nat.le_add_right _ _

/-- The months of a year are the whole year. -/
theorem daysBeforeMonth_end (year : Int) :
    (daysBeforeMonth year 13 : Int) = daysBeforeYear (year + 1) - daysBeforeYear year := by
  rw [daysBeforeYear_succ]
  simp only [daysBeforeMonth, daysInMonth]
  split
  · omega
  · omega

/-- The day of the year lies in its month. -/
theorem Date.day_le (d : Date) : daysBeforeMonth d.year d.month + d.day ≤
    daysBeforeMonth d.year (d.month + 1) := by
  rw [daysBeforeMonth_succ d.year d.month_mem.1]
  exact Nat.add_le_add_left d.day_mem.2 _

/-- The day lies in its year. -/
theorem Date.dayNumber_mem (d : Date) :
    daysBeforeYear d.year < d.dayNumber ∧ d.dayNumber ≤ daysBeforeYear (d.year + 1) := by
  have hend := daysBeforeMonth_end d.year
  have hmonth := d.day_le
  have hyear : daysBeforeMonth d.year (d.month + 1) ≤ daysBeforeMonth d.year 13 :=
    daysBeforeMonth_mono d.year (Nat.succ_le_succ d.month_mem.2)
  have hday := d.day_mem.1
  rw [Date.dayNumber]
  omega

/-- The days of a range of years. -/
theorem Date.le_year_iff (d : Date) (year : Int) :
    year ≤ d.year ↔ daysBeforeYear year < d.dayNumber := by
  have hd := d.dayNumber_mem
  constructor
  · intro h
    exact Int.lt_of_le_of_lt (daysBeforeYear_mono h) hd.1
  · intro h
    refine Int.not_lt.1 fun hlt => ?_
    have := daysBeforeYear_mono (Int.add_one_le_of_lt hlt)
    omega

theorem Date.year_le_iff (d : Date) (year : Int) :
    d.year ≤ year ↔ d.dayNumber ≤ daysBeforeYear (year + 1) := by
  rw [← Int.not_lt, ← Int.add_one_le_iff, d.le_year_iff, Int.not_lt]

/-- Two dates with one number are the same date. -/
theorem Date.dayNumber_injective : Function.Injective Date.dayNumber := by
  intro d d' h
  have hyear : d.year = d'.year := by
    have hd := d.dayNumber_mem
    have hd' := d'.dayNumber_mem
    rcases lt_trichotomy d.year d'.year with hlt | heq | hgt
    · have := daysBeforeYear_mono (Int.add_one_le_of_lt hlt)
      omega
    · exact heq
    · have := daysBeforeYear_mono (Int.add_one_le_of_lt hgt)
      omega
  have hnumber : daysBeforeMonth d.year d.month + d.day =
      daysBeforeMonth d.year d'.month + d'.day := by
    unfold Date.dayNumber at h
    rw [← hyear] at h
    omega
  have hmonth : d.month = d'.month := by
    have hd := d.day_le
    have hd' := d'.day_le
    rw [← hyear] at hd'
    have hday := d.day_mem.1
    have hday' := d'.day_mem.1
    rcases lt_trichotomy d.month d'.month with hlt | heq | hgt
    · have : daysBeforeMonth d.year (d.month + 1) ≤ daysBeforeMonth d.year d'.month :=
        daysBeforeMonth_mono d.year (Nat.succ_le_of_lt hlt)
      omega
    · exact heq
    · have : daysBeforeMonth d.year (d'.month + 1) ≤ daysBeforeMonth d.year d.month :=
        daysBeforeMonth_mono d.year (Nat.succ_le_of_lt hgt)
      omega
  rw [hmonth] at hnumber
  exact Date.ext hyear hmonth (Nat.add_left_cancel hnumber)

/-! ## The date of a day -/

/-- By the mean length of a year. -/
def roughYear (n : Int) : Int := (n - 1) * 400 / 146097 + 1

/-- The rough year, or one next to it. -/
def yearOf (n : Int) : Int :=
  if n ≤ daysBeforeYear (roughYear n) then roughYear n - 1
  else if daysBeforeYear (roughYear n + 1) < n then roughYear n + 1
  else roughYear n

theorem yearOf_spec (n : Int) :
    daysBeforeYear (yearOf n) < n ∧ n ≤ daysBeforeYear (yearOf n + 1) := by
  have hbefore : daysBeforeYear (roughYear n - 1) < n := by
    unfold daysBeforeYear roughYear
    omega
  have hafter : n ≤ daysBeforeYear (roughYear n + 1 + 1) := by
    unfold daysBeforeYear roughYear
    omega
  rw [yearOf]
  split
  next hle => exact ⟨hbefore, by rwa [Int.sub_add_cancel]⟩
  next hlt =>
    split
    next h => exact ⟨h, hafter⟩
    next h => exact ⟨Int.not_le.1 hlt, Int.not_lt.1 h⟩

/-- The last of the first `m` months that starts before the day. -/
def lastMonthBefore (year : Int) (day : Nat) : Nat → Nat
  | 0 => 0
  | m + 1 => if daysBeforeMonth year (m + 1) < day then m + 1 else lastMonthBefore year day m

theorem lastMonthBefore_spec (year : Int) {day : Nat} (hday : 1 ≤ day) :
    ∀ m, 1 ≤ m → day ≤ daysBeforeMonth year (m + 1) →
      1 ≤ lastMonthBefore year day m ∧ lastMonthBefore year day m ≤ m ∧
        daysBeforeMonth year (lastMonthBefore year day m) < day ∧
        day ≤ daysBeforeMonth year (lastMonthBefore year day m + 1) := by
  intro m
  induction m with
  | zero => intro h; exact absurd h (by decide)
  | succ m ih =>
      intro _ hle
      rw [lastMonthBefore]
      by_cases h : daysBeforeMonth year (m + 1) < day
      · rw [if_pos h]
        exact ⟨Nat.succ_pos m, Nat.le_refl _, h, hle⟩
      · rw [if_neg h]
        cases m with
        | zero => exact absurd hday h
        | succ m =>
            obtain ⟨hone, hm, hbefore, hafter⟩ := ih (Nat.succ_pos m) (Nat.le_of_not_lt h)
            exact ⟨hone, Nat.le_succ_of_le hm, hbefore, hafter⟩

def dayOfYear (n : Int) : Nat := (n - daysBeforeYear (yearOf n)).toNat

def monthOf (n : Int) : Nat := lastMonthBefore (yearOf n) (dayOfYear n) 12

theorem monthOf_spec (n : Int) :
    1 ≤ monthOf n ∧ monthOf n ≤ 12 ∧ daysBeforeMonth (yearOf n) (monthOf n) < dayOfYear n ∧
      dayOfYear n ≤ daysBeforeMonth (yearOf n) (monthOf n + 1) := by
  have hyear := yearOf_spec n
  have hend := daysBeforeMonth_end (yearOf n)
  have hone : 1 ≤ dayOfYear n := by
    rw [dayOfYear]
    omega
  have hle : dayOfYear n ≤ daysBeforeMonth (yearOf n) 13 := by
    rw [dayOfYear]
    omega
  exact lastMonthBefore_spec _ hone 12 (by decide) hle

def Date.ofDayNumber (n : Int) : Date where
  year := yearOf n
  month := monthOf n
  day := dayOfYear n - daysBeforeMonth (yearOf n) (monthOf n)
  month_mem := ⟨(monthOf_spec n).1, (monthOf_spec n).2.1⟩
  day_mem := by
    obtain ⟨hone, _, hbefore, hafter⟩ := monthOf_spec n
    rw [daysBeforeMonth_succ _ hone] at hafter
    omega

@[simp] theorem Date.dayNumber_ofDayNumber (n : Int) : (Date.ofDayNumber n).dayNumber = n := by
  obtain ⟨_, _, hbefore, _⟩ := monthOf_spec n
  have hyear := yearOf_spec n
  have hday : ((dayOfYear n : Nat) : Int) = n - daysBeforeYear (yearOf n) :=
    Int.toNat_of_nonneg (by omega)
  change daysBeforeYear (yearOf n) + (daysBeforeMonth (yearOf n) (monthOf n) : Int) +
    ((dayOfYear n - daysBeforeMonth (yearOf n) (monthOf n) : Nat) : Int) = n
  omega

@[simp] theorem Date.ofDayNumber_dayNumber (d : Date) : Date.ofDayNumber d.dayNumber = d :=
  Date.dayNumber_injective (Date.dayNumber_ofDayNumber _)

/-! ## Months, years and weeks -/

/-- The first of a month. -/
def Date.first (year : Int) (month : Nat) (h : 1 ≤ month ∧ month ≤ 12) : Date :=
  ⟨year, month, 1, h, Nat.le_refl 1, Nat.le_trans (by decide) (daysInMonth_mem year month).1⟩

def Date.firstOfMonth (d : Date) : Date := .first d.year d.month d.month_mem

theorem january_mem : 1 ≤ 1 ∧ 1 ≤ 12 := by decide

def Date.firstOfYear (d : Date) : Date := .first d.year 1 january_mem

def Date.firstOfNextMonth (d : Date) : Date :=
  if h : d.month = 12 then .first (d.year + 1) 1 january_mem
  else .first d.year (d.month + 1) (by have := d.month_mem; omega)

def Date.firstOfPreviousMonth (d : Date) : Date :=
  if h : d.month = 1 then .first (d.year - 1) 12 (by decide)
  else .first d.year (d.month - 1) (by have := d.month_mem; omega)

def Date.firstOfPreviousYear (d : Date) : Date := .first (d.year - 1) 1 january_mem

theorem Date.dayNumber_firstOfMonth (d : Date) :
    d.firstOfMonth.dayNumber = d.dayNumber - d.day + 1 := by
  change daysBeforeYear d.year + (daysBeforeMonth d.year d.month : Int) + ((1 : Nat) : Int) = _
  rw [Date.dayNumber]
  omega

theorem Date.dayNumber_firstOfYear (d : Date) :
    d.firstOfYear.dayNumber = daysBeforeYear d.year + 1 := by
  change daysBeforeYear d.year + ((0 : Nat) : Int) + ((1 : Nat) : Int) = _
  omega

theorem Date.dayNumber_firstOfNextMonth (d : Date) :
    d.firstOfNextMonth.dayNumber = d.firstOfMonth.dayNumber + daysInMonth d.year d.month := by
  have hfirst : d.firstOfMonth.dayNumber =
      daysBeforeYear d.year + (daysBeforeMonth d.year d.month : Int) + ((1 : Nat) : Int) := rfl
  rw [hfirst]
  rw [Date.firstOfNextMonth]
  split
  next h =>
    have hend := daysBeforeMonth_end d.year
    rw [daysBeforeMonth_succ d.year (by decide)] at hend
    rw [h]
    change daysBeforeYear (d.year + 1) + ((0 : Nat) : Int) + ((1 : Nat) : Int) = _
    omega
  next =>
    change daysBeforeYear d.year + (daysBeforeMonth d.year (d.month + 1) : Int) +
      ((1 : Nat) : Int) = _
    rw [daysBeforeMonth_succ d.year d.month_mem.1]
    omega

/-- The month after the month before is the month. -/
theorem Date.firstOfNextMonth_firstOfPreviousMonth (d : Date) :
    d.firstOfPreviousMonth.firstOfNextMonth = d.firstOfMonth := by
  rw [Date.firstOfPreviousMonth]
  split
  next h =>
    refine (dif_pos rfl).trans ?_
    exact Date.ext (Int.sub_add_cancel _ _) h.symm rfl
  next h =>
    have hmonth := d.month_mem
    refine (dif_neg (show ¬d.month - 1 = 12 by omega)).trans ?_
    exact Date.ext rfl (Nat.sub_add_cancel hmonth.1) rfl

/-- The month before is at least four weeks long. -/
theorem Date.dayNumber_firstOfPreviousMonth_add_le (d : Date) :
    d.firstOfPreviousMonth.dayNumber + 28 ≤ d.firstOfMonth.dayNumber := by
  have hnext := d.firstOfPreviousMonth.dayNumber_firstOfNextMonth
  have hself : d.firstOfPreviousMonth.firstOfMonth = d.firstOfPreviousMonth := by
    rw [Date.firstOfPreviousMonth]
    split
    next => rfl
    next => rfl
  rw [d.firstOfNextMonth_firstOfPreviousMonth, hself] at hnext
  have := (daysInMonth_mem d.firstOfPreviousMonth.year d.firstOfPreviousMonth.month).1
  omega

theorem Date.dayNumber_firstOfPreviousYear (d : Date) :
    d.firstOfPreviousYear.dayNumber + 365 ≤ d.firstOfYear.dayNumber := by
  have hyear := daysBeforeYear_succ (d.year - 1)
  rw [Int.sub_add_cancel] at hyear
  have hfirst : d.firstOfPreviousYear.dayNumber =
      daysBeforeYear (d.year - 1) + ((0 : Nat) : Int) + ((1 : Nat) : Int) := rfl
  rw [hfirst, Date.dayNumber_firstOfYear, hyear]
  split
  · omega
  · omega

/-- The last Monday, the day itself if it is one. -/
def monday (n : Int) : Int := n - (n - 1) % 7

def IsMonday (n : Int) : Prop := (n - 1) % 7 = 0

theorem isMonday_monday (n : Int) : IsMonday (monday n) := by
  unfold IsMonday monday
  omega

theorem monday_mem (n : Int) : monday n ≤ n ∧ n < monday n + 7 := by
  rw [monday]
  omega

theorem le_monday {n m : Int} (hm : IsMonday m) (hle : m ≤ n) : m ≤ monday n := by
  rw [IsMonday] at hm
  rw [monday]
  omega

/-! ## The clock on the wall -/

def nanosPerDay : Int := 86400000000000

/-- A date, the nanoseconds since midnight, and how far the clock is ahead of the one that
    all compare with, in nanoseconds. -/
@[ext] structure Reading where
  date : Date
  nanos : Int
  offset : Int
  nanos_mem : 0 ≤ nanos ∧ nanos < nanosPerDay
deriving DecidableEq, Repr

namespace Reading

def toInt (r : Reading) : Int := r.date.dayNumber * nanosPerDay + r.nanos

/-- The instant; clocks that are set differently show it differently. -/
def instant (r : Reading) : Int := r.toInt - r.offset

/-- What a clock shows. -/
def ofInt (n offset : Int) : Reading where
  date := Date.ofDayNumber (n / nanosPerDay)
  nanos := n % nanosPerDay
  offset := offset
  nanos_mem := ⟨Int.emod_nonneg _ (by decide), Int.emod_lt_of_pos _ (by decide)⟩

/-- Midnight of a day, on the same clock. -/
def onDay (r : Reading) (n : Int) : Reading := ofInt (n * nanosPerDay) r.offset

/-- The last instant before midnight of a day. -/
def before (r : Reading) (n : Int) : Reading := ofInt (n * nanosPerDay - 1) r.offset

def add (r : Reading) (nanos : Int) : Reading := ofInt (r.toInt + nanos) r.offset

/-- The start of the date. -/
def midnight (r : Reading) : Reading := ⟨r.date, 0, r.offset, by decide⟩

def replaceYear (r : Reading) (year : Int) : Option Reading :=
  if h : r.date.day ≤ daysInMonth year r.date.month then
    some { r with date := ⟨year, r.date.month, r.date.day, r.date.month_mem, r.date.day_mem.1, h⟩ }
  else none

def replaceMonth (r : Reading) (month : Nat) : Option Reading :=
  if h : (1 ≤ month ∧ month ≤ 12) ∧ r.date.day ≤ daysInMonth r.date.year month then
    some { r with date := ⟨r.date.year, month, r.date.day, h.1, r.date.day_mem.1, h.2⟩ }
  else none

def replaceDay (r : Reading) (day : Nat) : Option Reading :=
  if h : 1 ≤ day ∧ day ≤ daysInMonth r.date.year r.date.month then
    some { r with date := ⟨r.date.year, r.date.month, day, r.date.month_mem, h⟩ }
  else none

@[simp] theorem toInt_ofInt (n offset : Int) : (ofInt n offset).toInt = n := by
  change (Date.ofDayNumber (n / nanosPerDay)).dayNumber * nanosPerDay + n % nanosPerDay = n
  rw [Date.dayNumber_ofDayNumber, Int.mul_comm]
  exact Int.mul_ediv_add_emod n nanosPerDay

@[simp] theorem toInt_add (r : Reading) (nanos : Int) : (r.add nanos).toInt = r.toInt + nanos :=
  toInt_ofInt _ _

@[simp] theorem offset_add (r : Reading) (nanos : Int) : (r.add nanos).offset = r.offset := by
  rw [add, ofInt]

@[simp] theorem date_midnight (r : Reading) : r.midnight.date = r.date := rfl

@[simp] theorem offset_midnight (r : Reading) : r.midnight.offset = r.offset := rfl

@[simp] theorem toInt_midnight (r : Reading) :
    r.midnight.toInt = r.date.dayNumber * nanosPerDay := Int.add_zero _

/-- The reading lies in its date. -/
theorem toInt_mem (r : Reading) : r.midnight.toInt ≤ r.toInt ∧
    r.toInt < r.midnight.toInt + nanosPerDay := by
  rw [toInt_midnight]
  exact ⟨Int.le_add_of_nonneg_right r.nanos_mem.1, Int.add_lt_add_left r.nanos_mem.2 _⟩

theorem toInt_ediv (r : Reading) : r.toInt / nanosPerDay = r.date.dayNumber := by
  rw [toInt, Int.add_comm, Int.add_mul_ediv_right _ _ (by decide),
    Int.ediv_eq_zero_of_lt r.nanos_mem.1 r.nanos_mem.2, Int.zero_add]

/-- Two readings of one number show the same. -/
theorem eq_of_toInt_eq {r r' : Reading} (h : r.toInt = r'.toInt)
    (hoffset : r.offset = r'.offset) : r = r' := by
  have hday : r.date.dayNumber = r'.date.dayNumber := by
    rw [← toInt_ediv, ← toInt_ediv, h]
  have hnanos : r.nanos = r'.nanos := by
    rw [toInt] at h
    rw [hday] at h
    exact Int.add_left_cancel h
  exact Reading.ext (Date.dayNumber_injective hday) hnanos hoffset

theorem offset_ofInt (n offset : Int) : (ofInt n offset).offset = offset := by
  rw [ofInt]

theorem ofInt_toInt (r : Reading) : ofInt r.toInt r.offset = r :=
  eq_of_toInt_eq (toInt_ofInt _ _) (offset_ofInt _ _)

theorem ofInt_add (n offset nanos : Int) :
    (ofInt n offset).add nanos = ofInt (n + nanos) offset := by
  rw [add, toInt_ofInt, offset_ofInt]

theorem midnight_eq (r : Reading) : r.midnight = r.onDay r.date.dayNumber :=
  eq_of_toInt_eq ((toInt_midnight r).trans (toInt_ofInt _ _).symm) (offset_ofInt _ _).symm

@[simp] theorem toInt_onDay (r : Reading) (n : Int) : (r.onDay n).toInt = n * nanosPerDay :=
  toInt_ofInt _ _

@[simp] theorem toInt_before (r : Reading) (n : Int) : (r.before n).toInt = n * nanosPerDay - 1 :=
  toInt_ofInt _ _

@[simp] theorem offset_onDay (r : Reading) (n : Int) : (r.onDay n).offset = r.offset :=
  offset_ofInt _ _

@[simp] theorem offset_before (r : Reading) (n : Int) : (r.before n).offset = r.offset :=
  offset_ofInt _ _

theorem date_onDay (r : Reading) (d : Date) : (r.onDay d.dayNumber).date = d := by
  refine Date.dayNumber_injective ?_
  rw [← toInt_ediv, toInt_onDay, Int.mul_ediv_cancel _ (by decide)]

theorem onDay_add (r : Reading) (n nanos : Int) :
    (r.onDay n).add nanos = ofInt (n * nanosPerDay + nanos) r.offset :=
  ofInt_add _ _ _

theorem before_add (r : Reading) (n nanos : Int) :
    (r.before n).add nanos = ofInt (n * nanosPerDay - 1 + nanos) r.offset :=
  ofInt_add _ _ _

end Reading

end Civil

import Livtet.Lib.Rfc3339Text
import Livtet.Library

/-! # Timestamps

    What is stored is a date and a time, of no clock in particular. It is written as if a
    clock in Greenwich had shown it, and what any clock shows is read without the clock. -/

namespace Timestamps

open Library (LivtetError)
open Civil

/-! ## Dates and times without a clock -/

def firstNano : Int := (daysBeforeYear (-9999) + 1) * nanosPerDay

def endNano : Int := (daysBeforeYear 10000 + 1) * nanosPerDay

/-- In the range of the `time` crate. -/
def InRange (nanos : Int) : Prop := firstNano ≤ nanos ∧ nanos < endNano

instance (nanos : Int) : Decidable (InRange nanos) := by
  rw [InRange]
  infer_instance

/-- A date and a time, counted in nanoseconds. -/
structure PrimitiveDateTime where
  nanos : Int
  range : InRange nanos
deriving DecidableEq

namespace PrimitiveDateTime

/-- As a clock in Greenwich shows it. -/
def assumeUtc (t : PrimitiveDateTime) : Reading := .ofInt t.nanos 0

def year (t : PrimitiveDateTime) : Int := t.assumeUtc.date.year

def checked (nanos : Int) : Option PrimitiveDateTime :=
  if h : InRange nanos then some ⟨nanos, h⟩ else none

/-- `checked_add` of a number of seconds. -/
def checkedAdd (t : PrimitiveDateTime) (seconds : Int) : Option PrimitiveDateTime :=
  checked (t.nanos + seconds * 1000000000)

def checkedSub (t : PrimitiveDateTime) (seconds : Int) : Option PrimitiveDateTime :=
  checked (t.nanos - seconds * 1000000000)

end PrimitiveDateTime

theorem dayNumber_range {d : Date} (h : -9999 ≤ d.year ∧ d.year ≤ 9999) :
    daysBeforeYear (-9999) + 1 ≤ d.dayNumber ∧ d.dayNumber ≤ daysBeforeYear 10000 := by
  have hlast := (d.year_le_iff 9999).1 h.2
  exact ⟨Int.add_one_le_of_lt ((d.le_year_iff (-9999)).1 h.1), hlast⟩

/-- What shows a date in range is in range. -/
theorem inRange_toInt {r : Reading} (h : -9999 ≤ r.date.year ∧ r.date.year ≤ 9999) :
    InRange r.toInt := by
  obtain ⟨hfirst, hlast⟩ := dayNumber_range h
  have hnanos := r.nanos_mem
  have hlow := Int.mul_le_mul_of_nonneg_right hfirst (show 0 ≤ nanosPerDay by decide)
  have hhigh := Int.mul_le_mul_of_nonneg_right (Int.add_le_add_right hlast 1)
    (show 0 ≤ nanosPerDay by decide)
  rw [Int.add_mul, Int.one_mul] at hhigh
  unfold InRange firstNano endNano Reading.toInt
  omega

theorem year_range (t : PrimitiveDateTime) : -9999 ≤ t.year ∧ t.year ≤ 9999 := by
  have hday : t.assumeUtc.date.dayNumber = t.nanos / nanosPerDay := Date.dayNumber_ofDayNumber _
  obtain ⟨hfirst, hend⟩ := t.range
  refine ⟨(Date.le_year_iff _ _).2 ?_, (Date.year_le_iff _ _).2 ?_⟩
  · rw [hday]
    exact Int.lt_of_add_one_le ((Int.le_ediv_iff_mul_le (by decide)).2 hfirst)
  · rw [hday]
    exact Int.le_of_lt_add_one ((Int.ediv_lt_iff_lt_mul (by decide)).2 hend)

/-- The `time` crate's RFC 3339: it reads any offset, and writes the years from 0 on. -/
structure Rfc3339 where
  parse : String → Except String Reading
  format : PrimitiveDateTime → Option String
  format_isSome : ∀ t, (format t).isSome = true ↔ 0 ≤ t.year
  parse_format : ∀ t s, format t = some s → parse s = .ok t.assumeUtc
  year_parse : ∀ s r, parse s = .ok r → 0 ≤ r.date.year ∧ r.date.year ≤ 9999

/-- The format of the text library. -/
def Rfc3339.reference : Rfc3339 where
  parse s :=
    match Rfc3339Text.parse s with
    | some r => .ok r
    | none => .error "a character literal was not valid"
  format t := if 0 ≤ t.year then some (Rfc3339Text.format t.assumeUtc) else none
  format_isSome t := by
    split
    next h => exact iff_of_true rfl h
    next h => exact iff_of_false Bool.false_ne_true h
  parse_format t s h := by
    split at h
    next hyear =>
      cases h
      rw [Rfc3339Text.parse_format ⟨hyear, (year_range t).2⟩ rfl]
    next => cases h
  year_parse s r h := by
    split at h
    next hparse =>
      cases h
      exact Rfc3339Text.year_parse hparse
    next => cases h

/-! ## Timestamps across the boundary -/

/-- `ts`; `none` is a panic. -/
def ts (lib : Rfc3339) (t : PrimitiveDateTime) : Option String := lib.format t

/-- What the clock shows, without the clock. -/
def tsParse (lib : Rfc3339) (s : String) : Except LivtetError PrimitiveDateTime :=
  match h : lib.parse s with
  | .error e => .error (.invalidInput ("invalid RFC 3339 timestamp: " ++ e))
  | .ok r => .ok ⟨r.toInt, inRange_toInt ⟨Int.le_trans (by decide) (lib.year_parse s r h).1,
      (lib.year_parse s r h).2⟩⟩

/-- The clock is read twice: once for the date, once for the time. -/
structure Tick where
  date : PrimitiveDateTime
  time : PrimitiveDateTime

def nowPrimitive (tick : Tick) : PrimitiveDateTime where
  nanos := tick.date.nanos / nanosPerDay * nanosPerDay + tick.time.nanos % nanosPerDay
  range := by
    have hdate := tick.date.range
    unfold InRange firstNano endNano nanosPerDay at *
    omega

variable {lib : Rfc3339} {t : PrimitiveDateTime}

theorem checked_eq_some {n : Int} : PrimitiveDateTime.checked n = some t ↔ t.nanos = n := by
  rw [PrimitiveDateTime.checked]
  constructor
  · intro h
    split at h
    · cases h
      rfl
    · cases h
  · rintro rfl
    exact dif_pos t.range

theorem map_nanos_checked (n : Int) :
    (PrimitiveDateTime.checked n).map PrimitiveDateTime.nanos = if InRange n then some n else none := by
  rw [PrimitiveDateTime.checked]
  split <;> rfl

/-- What lies before now ends now. -/
theorem checkedAdd_checkedSub {now start : PrimitiveDateTime} {d : Int}
    (h : now.checkedSub d = some start) : start.checkedAdd d = some now := by
  rw [PrimitiveDateTime.checkedAdd, checked_eq_some, checked_eq_some.1 h]
  omega

theorem toInt_assumeUtc (t : PrimitiveDateTime) : t.assumeUtc.toInt = t.nanos :=
  Reading.toInt_ofInt _ _

theorem instant_assumeUtc (t : PrimitiveDateTime) : t.assumeUtc.instant = t.nanos := by
  rw [Reading.instant, toInt_assumeUtc]
  exact Int.sub_zero _

theorem format_of_year (h : 0 ≤ t.year) : ∃ text, lib.format t = some text :=
  Option.isSome_iff_exists.1 ((lib.format_isSome t).2 h)

theorem year_of_format {text : String} (h : lib.format t = some text) : 0 ≤ t.year :=
  (lib.format_isSome t).1 (by rw [h]; rfl)

theorem tsParse_of_error {s e : String} (h : lib.parse s = .error e) :
    tsParse lib s = .error (.invalidInput ("invalid RFC 3339 timestamp: " ++ e)) := by
  rw [tsParse]
  split
  next e' herror =>
    cases h.symm.trans herror
    rfl
  next r hok => cases h.symm.trans hok

theorem tsParse_of_ok {s : String} {r : Reading} (h : lib.parse s = .ok r) :
    ∃ t, tsParse lib s = .ok t ∧ t.nanos = r.toInt := by
  rw [tsParse]
  split
  next e herror => cases h.symm.trans herror
  next r' hok =>
    cases h.symm.trans hok
    exact ⟨_, rfl, rfl⟩

/-- What is stored of a reading has its year. -/
theorem year_of_nanos {r : Reading} (h : t.nanos = r.toInt) : t.year = r.date.year := by
  have hdate : (Reading.ofInt r.toInt 0).date = (Reading.ofInt r.toInt r.offset).date := rfl
  rw [PrimitiveDateTime.year, PrimitiveDateTime.assumeUtc, h, hdate, Reading.ofInt_toInt]

/-- Noon on the first of May, 2024. -/
def noon : PrimitiveDateTime := ⟨63850248000000000000, by decide⟩

def noonTick : Tick := ⟨noon, noon⟩

end Timestamps

import Livtet.Lib.Civil
import Mathlib.Tactic.IntervalCases

/-! # Dates and times as text

    A reading of a clock as text: the date, the time with a fraction of a second if there
    is one, and how far the clock is ahead. Every field but the fraction has a fixed number
    of digits. A reading of a clock that is not ahead is read back from its text
    (`parse_format`). -/

namespace Rfc3339Text

open Civil

/-! ## Digits -/

def valueOf (c : Char) : Option Nat :=
  if '0' ≤ c ∧ c ≤ '9' then some (c.toNat - '0'.toNat) else none

theorem valueOf_digitChar {d : Nat} (h : d < 10) : valueOf (Nat.digitChar d) = some d := by
  interval_cases d <;> rfl

/-- The last `w` digits of a number. -/
def digits : Nat → Nat → List Char
  | 0, _ => []
  | w + 1, n => Nat.digitChar (n / 10 ^ w % 10) :: digits w n

/-- A number of `w` digits, after those that are read already. -/
def readDigits : Nat → Nat → List Char → Option (Nat × List Char)
  | 0, acc, cs => some (acc, cs)
  | _ + 1, _, [] => none
  | w + 1, acc, c :: cs => (valueOf c).bind fun d => readDigits w (acc * 10 + d) cs

theorem readDigits_append (w n : Nat) (rest : List Char) : ∀ acc,
    readDigits w acc (digits w n ++ rest) = some (acc * 10 ^ w + n % 10 ^ w, rest) := by
  induction w with
  | zero =>
      intro acc
      rw [digits, List.nil_append, readDigits, Nat.pow_zero, Nat.mul_one, Nat.mod_one]
      rfl
  | succ w ih =>
      intro acc
      rw [digits, List.cons_append, readDigits, valueOf_digitChar (Nat.mod_lt _ (by decide))]
      have hvalue : (acc * 10 + n / 10 ^ w % 10) * 10 ^ w + n % 10 ^ w =
          acc * 10 ^ (w + 1) + n % 10 ^ (w + 1) := by
        rw [Nat.pow_succ, Nat.mod_mul, Nat.add_mul, Nat.mul_assoc, Nat.mul_comm 10,
          Nat.mul_comm (n / 10 ^ w % 10)]
        omega
      exact (ih _).trans (by rw [hvalue])

theorem readDigits_digits {w n : Nat} (h : n < 10 ^ w) (rest : List Char) :
    readDigits w 0 (digits w n ++ rest) = some (n, rest) := by
  rw [readDigits_append, Nat.zero_mul, Nat.zero_add, Nat.mod_eq_of_lt h]

def isDigit (c : Char) : Bool := (valueOf c).isSome

theorem takeWhile_digits (w n : Nat) {c : Char} (hc : isDigit c = false) (rest : List Char) :
    (digits w n ++ c :: rest).takeWhile isDigit = digits w n := by
  induction w with
  | zero => exact List.takeWhile_cons_of_neg (by rw [hc]; exact Bool.false_ne_true)
  | succ w ih =>
      have hdigit : isDigit (Nat.digitChar (n / 10 ^ w % 10)) = true := by
        rw [isDigit, valueOf_digitChar (Nat.mod_lt _ (by decide))]
        rfl
      rw [digits, List.cons_append, List.takeWhile_cons_of_pos hdigit, ih]

theorem length_digits (w n : Nat) : (digits w n).length = w := by
  induction w with
  | zero => rfl
  | succ w ih => rw [digits, List.length_cons, ih]

/-! ## Readings -/

def nanosPerSecond : Nat := 1000000000

def expect (c : Char) : List Char → Option (List Char)
  | [] => none
  | d :: cs => if d = c then some cs else none

/-- The nanoseconds of a fraction of one to nine digits, or none. -/
def readFraction : List Char → Option (Nat × List Char)
  | '.' :: cs =>
      let w := (cs.takeWhile isDigit).length
      if 1 ≤ w ∧ w ≤ 9 then
        (readDigits w 0 cs).map fun found => (found.1 * 10 ^ (9 - w), found.2)
      else none
  | cs => some (0, cs)

/-- The nanoseconds that a clock is ahead. -/
def readOffset : List Char → Option (Int × List Char)
  | 'Z' :: cs => some (0, cs)
  | sign :: cs => do
      let (hours, cs) ← readDigits 2 0 cs
      let cs ← expect ':' cs
      let (minutes, cs) ← readDigits 2 0 cs
      let ahead : Int := (hours * 60 + minutes) * 60 * nanosPerSecond
      if 23 < hours ∨ 59 < minutes then none
      else if sign = '+' then some (ahead, cs)
      else if sign = '-' then some (-ahead, cs)
      else none
  | [] => none

/-- The reading with these fields, if they are those of a date and a time. -/
def ofFields (year month day hour minute second fraction : Nat) (offset : Int) : Option Reading :=
  if h : ((1 ≤ month ∧ month ≤ 12) ∧ 1 ≤ day ∧ day ≤ daysInMonth year month) ∧
      hour < 24 ∧ minute < 60 ∧ second < 60 ∧ fraction < nanosPerSecond then
    some {
      date := ⟨year, month, day, h.1.1, h.1.2⟩
      nanos := ((hour * 60 + minute) * 60 + second : Nat) * nanosPerSecond + fraction
      offset
      nanos_mem := by
        unfold nanosPerDay nanosPerSecond
        rw [nanosPerSecond] at h
        omega }
  else none

def parseChars (cs : List Char) : Option Reading := do
  let (year, cs) ← readDigits 4 0 cs
  let cs ← expect '-' cs
  let (month, cs) ← readDigits 2 0 cs
  let cs ← expect '-' cs
  let (day, cs) ← readDigits 2 0 cs
  let cs ← expect 'T' cs
  let (hour, cs) ← readDigits 2 0 cs
  let cs ← expect ':' cs
  let (minute, cs) ← readDigits 2 0 cs
  let cs ← expect ':' cs
  let (second, cs) ← readDigits 2 0 cs
  let (fraction, cs) ← readFraction cs
  let (offset, cs) ← readOffset cs
  if cs = [] then ofFields year month day hour minute second fraction offset else none

def parse (s : String) : Option Reading := parseChars s.toList

def fractionText (fraction : Nat) : List Char :=
  if fraction = 0 then [] else '.' :: digits 9 fraction

/-- The text of what a clock shows that is not ahead. -/
def formatChars (r : Reading) : List Char :=
  let nanos := r.nanos.toNat
  let seconds := nanos / nanosPerSecond
  digits 4 r.date.year.toNat ++ '-' :: (digits 2 r.date.month ++ '-' :: (digits 2 r.date.day ++
    'T' :: (digits 2 (seconds / 3600) ++ ':' :: (digits 2 (seconds / 60 % 60) ++
      ':' :: (digits 2 (seconds % 60) ++ (fractionText (nanos % nanosPerSecond) ++ ['Z']))))))

def format (r : Reading) : String := String.ofList (formatChars r)

theorem readFraction_text {fraction : Nat} (h : fraction < nanosPerSecond) :
    readFraction (fractionText fraction ++ ['Z']) = some (fraction, ['Z']) := by
  rw [fractionText]
  split
  next hzero =>
    rw [hzero]
    rfl
  next =>
    have hwhile := takeWhile_digits 9 fraction (c := 'Z') rfl []
    rw [List.cons_append, readFraction, hwhile, length_digits]
    rw [if_pos (by decide), readDigits_digits h]
    show some (fraction * 10 ^ 0, ['Z']) = _
    rw [Nat.pow_zero, Nat.mul_one]

theorem expect_cons (c : Char) (cs : List Char) : expect c (c :: cs) = some cs := if_pos rfl

/-- The fields of a reading make up the reading. -/
theorem ofFields_reading {r : Reading} (hyear : 0 ≤ r.date.year) (hoffset : r.offset = 0) :
    let seconds := r.nanos.toNat / nanosPerSecond
    ofFields r.date.year.toNat r.date.month r.date.day (seconds / 3600) (seconds / 60 % 60)
      (seconds % 60) (r.nanos.toNat % nanosPerSecond) 0 = some r := by
  have hnanos := r.nanos_mem
  have htoNat : ((r.date.year.toNat : Nat) : Int) = r.date.year := Int.toNat_of_nonneg hyear
  intro seconds
  have hseconds : seconds = r.nanos.toNat / 1000000000 := rfl
  rw [nanosPerDay] at hnanos
  unfold ofFields nanosPerSecond
  rw [dif_pos]
  · refine congrArg some (Reading.ext (Date.ext htoNat rfl rfl) ?_ hoffset.symm)
    show (((seconds / 3600 * 60 + seconds / 60 % 60) * 60 + seconds % 60 : Nat) : Int) *
      (1000000000 : Nat) + (r.nanos.toNat % 1000000000 : Nat) = r.nanos
    omega
  · refine ⟨⟨r.date.month_mem, ?_⟩, ?_⟩
    · rw [htoNat]
      exact r.date.day_mem
    · omega

/-- The year has four digits. -/
theorem parse_format {r : Reading} (hyear : 0 ≤ r.date.year ∧ r.date.year ≤ 9999)
    (hoffset : r.offset = 0) : parse (format r) = some r := by
  have hmonth : r.date.month < 10 ^ 2 := Nat.lt_of_le_of_lt r.date.month_mem.2 (by decide)
  have hday : r.date.day < 10 ^ 2 :=
    Nat.lt_of_le_of_lt (r.date.day_mem.2.trans (daysInMonth_mem _ _).2) (by decide)
  have hyear4 : r.date.year.toNat < 10 ^ 4 := by omega
  have hseconds : r.nanos.toNat / nanosPerSecond < 86400 := by
    have hnanos := r.nanos_mem
    rw [nanosPerDay] at hnanos
    rw [nanosPerSecond]
    omega
  have hhour : r.nanos.toNat / nanosPerSecond / 3600 < 10 ^ 2 := by omega
  have hminute : r.nanos.toNat / nanosPerSecond / 60 % 60 < 10 ^ 2 := by omega
  have hsecond : r.nanos.toNat / nanosPerSecond % 60 < 10 ^ 2 := by omega
  have hfraction : r.nanos.toNat % nanosPerSecond < nanosPerSecond := Nat.mod_lt _ (by decide)
  have hutc : readOffset ['Z'] = some (0, []) := rfl
  rw [parse, format, String.toList_ofList, parseChars, formatChars]
  refine Option.bind_eq_some_iff.2 ⟨_, readDigits_digits hyear4 _, ?_⟩
  refine Option.bind_eq_some_iff.2 ⟨_, expect_cons _ _, ?_⟩
  refine Option.bind_eq_some_iff.2 ⟨_, readDigits_digits hmonth _, ?_⟩
  refine Option.bind_eq_some_iff.2 ⟨_, expect_cons _ _, ?_⟩
  refine Option.bind_eq_some_iff.2 ⟨_, readDigits_digits hday _, ?_⟩
  refine Option.bind_eq_some_iff.2 ⟨_, expect_cons _ _, ?_⟩
  refine Option.bind_eq_some_iff.2 ⟨_, readDigits_digits hhour _, ?_⟩
  refine Option.bind_eq_some_iff.2 ⟨_, expect_cons _ _, ?_⟩
  refine Option.bind_eq_some_iff.2 ⟨_, readDigits_digits hminute _, ?_⟩
  refine Option.bind_eq_some_iff.2 ⟨_, expect_cons _ _, ?_⟩
  refine Option.bind_eq_some_iff.2 ⟨_, readDigits_digits hsecond _, ?_⟩
  refine Option.bind_eq_some_iff.2 ⟨_, readFraction_text hfraction, ?_⟩
  refine Option.bind_eq_some_iff.2 ⟨_, hutc, ?_⟩
  exact ofFields_reading hyear.1 hoffset

/-! ## What is read -/

theorem valueOf_lt {c : Char} {d : Nat} (h : valueOf c = some d) : d < 10 := by
  rw [valueOf] at h
  split at h
  next hc =>
    cases h
    have hle : c.toNat ≤ '9'.toNat := UInt32.le_iff_toNat_le.1 hc.2
    have hzero : '0'.toNat = 48 := rfl
    have hnine : '9'.toNat = 57 := rfl
    omega
  next => cases h

theorem readDigits_lt {w acc n : Nat} {cs rest : List Char}
    (h : readDigits w acc cs = some (n, rest)) : n < (acc + 1) * 10 ^ w := by
  induction w generalizing acc cs with
  | zero =>
      cases h
      omega
  | succ w ih =>
      cases cs with
      | nil => cases h
      | cons c cs =>
          obtain ⟨d, hd, hrest⟩ := Option.bind_eq_some_iff.1 h
          have hlt := valueOf_lt hd
          refine Nat.lt_of_lt_of_le (ih hrest) ?_
          rw [Nat.pow_succ, Nat.mul_comm (10 ^ w), ← Nat.mul_assoc]
          exact Nat.mul_le_mul_right _ (by omega)

theorem year_ofFields {year month day hour minute second fraction : Nat} {offset : Int}
    {r : Reading} (h : ofFields year month day hour minute second fraction offset = some r) :
    r.date.year = year := by
  rw [ofFields] at h
  split at h
  · cases h
    rfl
  · cases h

/-- What is read has a year of four digits. -/
theorem year_parse {s : String} {r : Reading} (h : parse s = some r) :
    0 ≤ r.date.year ∧ r.date.year ≤ 9999 := by
  rw [parse, parseChars] at h
  obtain ⟨⟨year, cs⟩, hyear, h⟩ := Option.bind_eq_some_iff.1 h
  obtain ⟨cs, _, h⟩ := Option.bind_eq_some_iff.1 h
  obtain ⟨⟨month, cs⟩, _, h⟩ := Option.bind_eq_some_iff.1 h
  obtain ⟨cs, _, h⟩ := Option.bind_eq_some_iff.1 h
  obtain ⟨⟨day, cs⟩, _, h⟩ := Option.bind_eq_some_iff.1 h
  obtain ⟨cs, _, h⟩ := Option.bind_eq_some_iff.1 h
  obtain ⟨⟨hour, cs⟩, _, h⟩ := Option.bind_eq_some_iff.1 h
  obtain ⟨cs, _, h⟩ := Option.bind_eq_some_iff.1 h
  obtain ⟨⟨minute, cs⟩, _, h⟩ := Option.bind_eq_some_iff.1 h
  obtain ⟨cs, _, h⟩ := Option.bind_eq_some_iff.1 h
  obtain ⟨⟨second, cs⟩, _, h⟩ := Option.bind_eq_some_iff.1 h
  obtain ⟨⟨fraction, cs⟩, _, h⟩ := Option.bind_eq_some_iff.1 h
  obtain ⟨⟨offset, cs⟩, _, h⟩ := Option.bind_eq_some_iff.1 h
  dsimp only at h
  split at h
  · rw [year_ofFields h]
    have hlt := readDigits_lt hyear
    omega
  · cases h

end Rfc3339Text

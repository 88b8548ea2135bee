import Livtet.Library
import Livtet.Lib.Blanks
import Livtet.Lib.Civil
import Livtet.Lib.JsonText
import Livtet.Lib.Pieces

/-! # Publication dates as text

    A publication date is a year, a year and a month, or a full date. What is read is
    written back in full, and read again as the same date; a full date is one of the
    calendar. The year must have four digits. But a month or a day may have any number of
    zeros before it, which is more than what is documented: two digits at most. -/

namespace Library

open Outcomes
open SyncPairing (trim isWhitespace isWhitespace_of_isAlphanum)
open JsonText.Flat (padded isDigit_padded ofDigitChars_padded)
open Pieces (splitOnce splitOnce_append splitOnce_of_notMem splitOnce_eq_some splitOnce_eq_none)

deriving instance DecidableEq for PublishedDate

inductive PublishedDateError
  | badYear (s : String)
  | badMonth (s : String)
  | badDay (s : String)
  | invalidMonth (month : Nat)
  | invalidDate (year : Int) (month day : Nat)
deriving DecidableEq, Repr

/-- The number that digits write. -/
def number (s : List Char) : Nat := Nat.ofDigitChars 10 s 0

/-- Four bytes that are digits are four characters. -/
def parseYear (s : List Char) : Except String Int :=
  if s.length ≠ 4 ∨ s.all Char.isDigit = false then .error (String.ofList s)
  else .ok (number s)

/-- A number that does not fit in a `u8`, or is not in `1..=max`, is refused. -/
def parseComponent (max : Nat) (s : List Char) : Except String Nat :=
  if s.isEmpty ∨ s.all Char.isDigit = false then .error (String.ofList s)
  else if 255 < number s then .error (String.ofList s)
  else if ¬ (1 ≤ number s ∧ number s ≤ max) then .error (String.ofList s)
  else .ok (number s)

def parseMonth (s : List Char) : Except String Nat := parseComponent 12 s

def parseDay (s : List Char) : Except String Nat := parseComponent 31 s

/-- `Month::try_from`, and `Date::from_calendar_date` for the month. -/
def fromCalendarDate (year : Int) (month day : Nat) : Option Civil.Date :=
  if h : (1 ≤ month ∧ month ≤ 12) ∧ 1 ≤ day ∧ day ≤ Civil.daysInMonth year month then
    if -9999 ≤ year ∧ year ≤ 9999 then some ⟨year, month, day, h.1, h.2⟩ else none
  else none

def isValidYmd (year : Int) (month day : Nat) : Bool := (fromCalendarDate year month day).isSome

def PublishedDate.parseTrimmed (s : List Char) : Except PublishedDateError PublishedDate :=
  match splitOnce '-' s with
  | some (y, rest) => do
      let year ← (parseYear y).mapError .badYear
      match splitOnce '-' rest with
      | some (m, d) =>
          let month ← (parseMonth m).mapError .badMonth
          let day ← (parseDay d).mapError .badDay
          if isValidYmd year month day then .ok (.yearMonthDay year month day)
          else .error (.invalidDate year month day)
      | none =>
          let month ← (parseMonth rest).mapError .badMonth
          if 1 ≤ month ∧ month ≤ 12 then .ok (.yearMonth year month)
          else .error (.invalidMonth month)
  | none => do
      let year ← (parseYear s).mapError .badYear
      .ok (.year year)

def PublishedDate.parse (s : String) : Except PublishedDateError PublishedDate :=
  parseTrimmed (trim s).toList

/-- Zeros are put in after the sign. -/
def showYear (year : Int) : List Char :=
  if year < 0 then '-' :: padded year.natAbs 3 else padded year.natAbs 4

def PublishedDate.chars : PublishedDate → List Char
  | .year y => showYear y
  | .yearMonth y m => showYear y ++ '-' :: padded m 2
  | .yearMonthDay y m d => showYear y ++ '-' :: (padded m 2 ++ '-' :: padded d 2)

def PublishedDate.display (d : PublishedDate) : String := String.ofList d.chars

def PublishedDate.toTimeDate : PublishedDate → Option Civil.Date
  | .yearMonthDay y m d => fromCalendarDate y m d
  | .yearMonth _ _ => none
  | .year _ => none

/-! ## Texts of dates -/

structure IsYear (s : List Char) : Prop where
  length : s.length = 4
  digits : ∀ c ∈ s, c.isDigit = true

/-- The digits of a number from one to the largest. -/
structure IsComponent (max : Nat) (s : List Char) : Prop where
  digits : ∀ c ∈ s, c.isDigit = true
  low : 1 ≤ number s
  high : number s ≤ max

/-- The text of a date. -/
inductive Written : List Char → PublishedDate → Prop
  | year {y : List Char} : IsYear y → Written y (.year (number y))
  | month {y m : List Char} : IsYear y → IsComponent 12 m →
      Written (y ++ '-' :: m) (.yearMonth (number y) (number m))
  | day {y m d : List Char} : IsYear y → IsComponent 12 m →
      IsComponent (Civil.daysInMonth (number y) (number m)) d →
      Written (y ++ '-' :: (m ++ '-' :: d)) (.yearMonthDay (number y) (number m) (number d))

/-- What stands after the year, between the hyphens. -/
def components (s : List Char) : List (List Char) := (s.splitOn '-').tail

/-- A date with a month and a day of one or two digits. -/
def Documented (s : String) : Prop :=
  ∃ d, Written (trim s).toList d ∧ ∀ p ∈ components (trim s).toList, p.length ≤ 2

/-- A date, but with a month or a day of more than two digits. -/
def Overlong (s : String) : Prop :=
  ∃ d, Written (trim s).toList d ∧ ∃ p ∈ components (trim s).toList, 2 < p.length

/-! ## Numbers -/

theorem number_lt {s : List Char} (h : ∀ c ∈ s, c.isDigit = true) : number s < 10 ^ s.length := by
  -- the digits before come as a number
  have hfrom : ∀ init, Nat.ofDigitChars 10 s init < 10 ^ s.length * (init + 1) := by
    induction s with
    | nil =>
        intro init
        rw [Nat.ofDigitChars_nil, List.length_nil, Nat.pow_zero, Nat.one_mul]
        exact Nat.lt_succ_self init
    | cons c s ih =>
        intro init
        have hdigit := h c List.mem_cons_self
        rw [Char.isDigit, Bool.and_eq_true, decide_eq_true_eq, decide_eq_true_eq] at hdigit
        have hlow : 48 ≤ c.toNat := hdigit.1
        have hhigh : c.toNat ≤ 57 := hdigit.2
        have hzero : ('0').toNat = 48 := rfl
        have hrest := ih (fun d hd => h d (List.mem_cons_of_mem c hd))
          (10 * init + (c.toNat - '0'.toNat))
        rw [Nat.ofDigitChars_cons, List.length_cons, Nat.pow_succ, Nat.mul_assoc]
        refine Nat.lt_of_lt_of_le hrest (Nat.mul_le_mul_left _ ?_)
        omega
  exact (hfrom 0).trans_eq (Nat.mul_one _)

theorem hyphen_not_digit {s : List Char} (h : ∀ c ∈ s, c.isDigit = true) : '-' ∉ s := by
  intro hmem
  cases h '-' hmem

theorem parseYear_eq_ok {s : List Char} {y : Int} :
    parseYear s = .ok y ↔ IsYear s ∧ (number s : Int) = y := by
  rw [parseYear]
  split
  · rename_i hbad
    constructor
    · intro h
      cases h
    · rintro ⟨hyear, _⟩
      rcases hbad with hlength | hdigits
      · exact absurd hyear.length hlength
      · rw [List.all_eq_true.2 hyear.digits] at hdigits
        cases hdigits
  · rename_i hgood
    rw [not_or, not_not, Bool.not_eq_false, List.all_eq_true] at hgood
    rw [Except.ok.injEq]
    exact ⟨fun h => ⟨⟨hgood.1, hgood.2⟩, h⟩, fun h => h.2⟩

theorem parseComponent_eq_ok {max : Nat} (hmax : max ≤ 255) {s : List Char} {n : Nat} :
    parseComponent max s = .ok n ↔ IsComponent max s ∧ number s = n := by
  rw [parseComponent]
  split
  · rename_i hbad
    constructor
    · intro h
      cases h
    · rintro ⟨hs, _⟩
      rcases hbad with hempty | hdigits
      · have hlow := hs.low
        rw [List.isEmpty_iff.1 hempty] at hlow
        cases hlow
      · rw [List.all_eq_true.2 hs.digits] at hdigits
        cases hdigits
  · rename_i hgood
    rw [not_or, Bool.not_eq_false, List.all_eq_true] at hgood
    split
    · rename_i hbig
      constructor
      · intro h
        cases h
      · rintro ⟨hs, _⟩
        have := hs.high
        omega
    · split
      · rename_i hrange
        constructor
        · intro h
          cases h
        · rintro ⟨hs, _⟩
          exact absurd ⟨hs.low, hs.high⟩ hrange
      · rename_i hrange
        rw [not_not] at hrange
        rw [Except.ok.injEq]
        exact ⟨fun h => ⟨⟨hgood.2, hrange.1, hrange.2⟩, h⟩, fun h => h.2⟩

theorem fromCalendarDate_of_valid {year : Int} {month day : Nat}
    (hyear : -9999 ≤ year ∧ year ≤ 9999) (hmonth : 1 ≤ month ∧ month ≤ 12)
    (hday : 1 ≤ day ∧ day ≤ Civil.daysInMonth year month) :
    fromCalendarDate year month day = some ⟨year, month, day, hmonth, hday⟩ := by
  rw [fromCalendarDate, dif_pos ⟨hmonth, hday⟩, if_pos hyear]

theorem isValidYmd_imp {year : Int} {month day : Nat} (h : isValidYmd year month day = true) :
    1 ≤ day ∧ day ≤ Civil.daysInMonth year month := by
  rw [isValidYmd, fromCalendarDate] at h
  split at h
  · rename_i hvalid
    exact hvalid.2
  · cases h

theorem IsYear.range {y : List Char} (h : IsYear y) :
    -9999 ≤ (number y : Int) ∧ (number y : Int) ≤ 9999 := by
  have hlt := number_lt h.digits
  rw [h.length] at hlt
  omega

/-- What is accepted is the text of a date. -/
theorem written_of_parseTrimmed {s : List Char} {d : PublishedDate}
    (h : PublishedDate.parseTrimmed s = .ok d) : Written s d := by
  rw [PublishedDate.parseTrimmed] at h
  cases hfirst : splitOnce '-' s with
  | none =>
      rw [hfirst] at h
      obtain ⟨year, hyear, hd⟩ := bind_eq_ok.1 h
      obtain ⟨hisYear, rfl⟩ := parseYear_eq_ok.1 (mapError_eq_ok.1 hyear)
      cases hd
      exact .year hisYear
  | some p =>
      obtain ⟨y, rest⟩ := p
      obtain ⟨rfl, _⟩ := splitOnce_eq_some hfirst
      rw [hfirst] at h
      obtain ⟨year, hyear, h⟩ := bind_eq_ok.1 h
      obtain ⟨hisYear, rfl⟩ := parseYear_eq_ok.1 (mapError_eq_ok.1 hyear)
      cases hsecond : splitOnce '-' rest with
      | none =>
          rw [hsecond] at h
          obtain ⟨month, hmonth, h⟩ := bind_eq_ok.1 h
          obtain ⟨hisMonth, rfl⟩ :=
            (parseComponent_eq_ok (by decide)).1 (mapError_eq_ok.1 hmonth)
          rw [if_pos ⟨hisMonth.low, hisMonth.high⟩] at h
          cases h
          exact .month hisYear hisMonth
      | some q =>
          obtain ⟨m, d'⟩ := q
          obtain ⟨rfl, _⟩ := splitOnce_eq_some hsecond
          rw [hsecond] at h
          obtain ⟨month, hmonth, h⟩ := bind_eq_ok.1 h
          obtain ⟨day, hday, h⟩ := bind_eq_ok.1 h
          obtain ⟨hisMonth, rfl⟩ :=
            (parseComponent_eq_ok (by decide)).1 (mapError_eq_ok.1 hmonth)
          obtain ⟨hisDay, rfl⟩ :=
            (parseComponent_eq_ok (by decide)).1 (mapError_eq_ok.1 hday)
          split at h
          · rename_i hvalid
            cases h
            exact .day hisYear hisMonth ⟨hisDay.digits, hisDay.low, (isValidYmd_imp hvalid).2⟩
          · cases h

theorem parseTrimmed_of_written {s : List Char} {d : PublishedDate} (h : Written s d) :
    PublishedDate.parseTrimmed s = .ok d := by
  cases h with
  | year hyear =>
      rw [PublishedDate.parseTrimmed, splitOnce_of_notMem (hyphen_not_digit hyear.digits),
        parseYear_eq_ok.2 ⟨hyear, rfl⟩]
      rfl
  | month hyear hmonth =>
      rw [PublishedDate.parseTrimmed, splitOnce_append (hyphen_not_digit hyear.digits)]
      dsimp only
      rw [parseYear_eq_ok.2 ⟨hyear, rfl⟩, splitOnce_of_notMem (hyphen_not_digit hmonth.digits),
        parseMonth, (parseComponent_eq_ok (by decide)).2 ⟨hmonth, rfl⟩]
      exact if_pos ⟨hmonth.low, hmonth.high⟩
  | day hyear hmonth hday =>
      rename_i y m d
      -- a day of the month is a day of some month
      have hthirtyOne := (Civil.daysInMonth_mem (number y) (number m)).2
      have hday' : IsComponent 31 d := ⟨hday.digits, hday.low, hday.high.trans hthirtyOne⟩
      have hvalid := fromCalendarDate_of_valid hyear.range ⟨hmonth.low, hmonth.high⟩
        ⟨hday.low, hday.high⟩
      rw [PublishedDate.parseTrimmed, splitOnce_append (hyphen_not_digit hyear.digits)]
      dsimp only
      rw [parseYear_eq_ok.2 ⟨hyear, rfl⟩, splitOnce_append (hyphen_not_digit hmonth.digits)]
      dsimp only
      rw [parseMonth, parseDay, (parseComponent_eq_ok (by decide)).2 ⟨hmonth, rfl⟩,
        (parseComponent_eq_ok (by decide)).2 ⟨hday', rfl⟩]
      refine if_pos ?_
      rw [isValidYmd, hvalid]
      rfl

theorem parse_eq_ok {s : String} {d : PublishedDate} :
    PublishedDate.parse s = .ok d ↔ Written (trim s).toList d :=
  ⟨written_of_parseTrimmed, parseTrimmed_of_written⟩

/-! ## Dates as they are written -/

/-- Zeros before a number do not count. -/
theorem number_padded (n width : Nat) : number (padded n width) = n := ofDigitChars_padded n width

theorem length_padded {n width : Nat} (hwidth : 0 < width) (h : n < 10 ^ width) :
    (padded n width).length = width := by
  have hle := (Nat.length_toDigits_le_iff (b := 10) (by decide) hwidth).2 h
  rw [padded, List.length_append, List.length_replicate]
  omega

theorem isComponent_padded {max n : Nat} (width : Nat) (hlow : 1 ≤ n) (hhigh : n ≤ max) :
    IsComponent max (padded n width) := by
  refine ⟨isDigit_padded n width, ?_, ?_⟩
  · rw [number_padded]
    exact hlow
  · rw [number_padded]
    exact hhigh

theorem isYear_showYear {n : Nat} (h : n < 10000) :
    IsYear (showYear n) ∧ number (showYear n) = n := by
  have hshow : showYear n = padded n 4 := if_neg (by omega)
  rw [hshow]
  exact ⟨⟨length_padded (by decide) h, isDigit_padded n 4⟩, number_padded n 4⟩

theorem number_year_lt {y : List Char} (h : IsYear y) : number y < 10000 := by
  have hlt := number_lt h.digits
  rwa [h.length] at hlt

/-- What a date is written as is a text of that date. -/
theorem written_chars {s : List Char} {d : PublishedDate} (h : Written s d) :
    Written d.chars d := by
  cases h with
  | year hyear =>
      obtain ⟨hshown, hnumber⟩ := isYear_showYear (number_year_lt hyear)
      have hwritten := Written.year hshown
      rwa [hnumber] at hwritten
  | month hyear hmonth =>
      rename_i m
      obtain ⟨hshown, hnumber⟩ := isYear_showYear (number_year_lt hyear)
      have hwritten := Written.month hshown (isComponent_padded 2 hmonth.low hmonth.high)
      rwa [hnumber, number_padded] at hwritten
  | day hyear hmonth hday =>
      rename_i m d
      obtain ⟨hshown, hnumber⟩ := isYear_showYear (number_year_lt hyear)
      have hday' := isComponent_padded 2 hday.low hday.high
      -- the year and the month that are shown have as many days
      rw [← hnumber, ← number_padded (number m) 2] at hday'
      have hwritten := Written.day hshown (isComponent_padded 2 hmonth.low hmonth.high) hday'
      rwa [hnumber, number_padded, number_padded] at hwritten

/-- The characters of such a text are digits and hyphens. -/
theorem not_blank_of_written {s : List Char} {d : PublishedDate} (h : Written s d) :
    ∀ c ∈ s, isWhitespace c = false := by
  have hdigits : ∀ {cs : List Char}, (∀ c ∈ cs, c.isDigit = true) →
      ∀ c ∈ cs, isWhitespace c = false := by
    intro cs hcs c hc
    refine isWhitespace_of_isAlphanum ?_
    rw [Char.isAlphanum, hcs c hc, Bool.or_true]
  have hhyphen : isWhitespace '-' = false := by decide
  cases h with
  | year hyear => exact hdigits hyear.digits
  | month hyear hmonth =>
      intro c hc
      rcases List.mem_append.1 hc with hc | hc
      · exact hdigits hyear.digits c hc
      · rcases List.mem_cons.1 hc with rfl | hc
        · exact hhyphen
        · exact hdigits hmonth.digits c hc
  | day hyear hmonth hday =>
      intro c hc
      rcases List.mem_append.1 hc with hc | hc
      · exact hdigits hyear.digits c hc
      · rcases List.mem_cons.1 hc with rfl | hc
        · exact hhyphen
        · rcases List.mem_append.1 hc with hc | hc
          · exact hdigits hmonth.digits c hc
          · rcases List.mem_cons.1 hc with rfl | hc
            · exact hhyphen
            · exact hdigits hday.digits c hc

theorem parse_display {s : String} {d : PublishedDate} (h : PublishedDate.parse s = .ok d) :
    PublishedDate.parse d.display = .ok d := by
  have hwritten := written_chars (parse_eq_ok.1 h)
  have htrim : trim d.display = d.display := by
    refine SyncPairing.trim_eq_self fun c hc => not_blank_of_written hwritten c ?_
    rwa [PublishedDate.display, String.toList_ofList] at hc
  rw [parse_eq_ok, htrim, PublishedDate.display, String.toList_ofList]
  exact hwritten

/-- A full date that is accepted is one of the calendar. -/
theorem toTimeDate_of_parse {s : String} {y : Int} {m d : Nat}
    (h : PublishedDate.parse s = .ok (.yearMonthDay y m d)) :
    ∃ date, (PublishedDate.yearMonthDay y m d).toTimeDate = some date ∧
      date.year = y ∧ date.month = m ∧ date.day = d := by
  have hwritten := parse_eq_ok.1 h
  generalize hd : PublishedDate.yearMonthDay y m d = date at hwritten ⊢
  generalize (trim s).toList = text at hwritten
  cases hwritten with
  | year hyear => cases hd
  | month hyear hmonth => cases hd
  | day hyear hmonth hday =>
      cases hd
      exact ⟨_, fromCalendarDate_of_valid hyear.range ⟨hmonth.low, hmonth.high⟩
        ⟨hday.low, hday.high⟩, rfl, rfl, rfl⟩

/-- **DATES ARE READ AS DOCUMENTED**, exactly if no month and no day is written with more than
    two digits; and every date that is read is read back from its text, a full one as a date
    of the calendar. -/
theorem published_date_iff (s : String) :
    (((∃ d, PublishedDate.parse s = .ok d) ↔ Documented s) ↔ ¬ Overlong s) ∧
    (∀ d, PublishedDate.parse s = .ok d → PublishedDate.parse d.display = .ok d) ∧
    ∀ y m d, PublishedDate.parse s = .ok (.yearMonthDay y m d) →
      ∃ date, (PublishedDate.yearMonthDay y m d).toTimeDate = some date ∧
        date.year = y ∧ date.month = m ∧ date.day = d := by
  refine ⟨?_, fun d => parse_display, fun y m d => toTimeDate_of_parse⟩
  simp only [parse_eq_ok]
  constructor
  · rintro hiff ⟨d, hwritten, p, hp, hlong⟩
    obtain ⟨_, _, hshort⟩ := hiff.1 ⟨d, hwritten⟩
    exact Nat.not_lt.2 (hshort p hp) hlong
  · intro hnot
    constructor
    · rintro ⟨d, hwritten⟩
      exact ⟨d, hwritten, fun p hp => Nat.not_lt.1 fun hlong => hnot ⟨d, hwritten, p, hp, hlong⟩⟩
    · rintro ⟨d, hwritten, _⟩
      exact ⟨d, hwritten⟩

/-- A leap day. -/
theorem published_date_leap_day :
    PublishedDate.parse (PublishedDate.yearMonthDay 2024 2 29).display =
      .ok (.yearMonthDay 2024 2 29) :=
  (published_date_iff "2024-2-29").2.1 _ (by decide +kernel)

/-- A month of three digits is accepted. -/
theorem published_date_overlong :
    ¬ ((∃ d, PublishedDate.parse "1989-009" = .ok d) ↔ Documented "1989-009") := by
  intro hiff
  have haccepted : PublishedDate.parse "1989-009" = .ok (.yearMonth 1989 9) := by decide +kernel
  obtain ⟨_, _, hshort⟩ := hiff.1 ⟨_, haccepted⟩
  have hshown := hshort ['0', '0', '9'] (by decide +kernel)
  exact absurd hshown (by decide)

end Library

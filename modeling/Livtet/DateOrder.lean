import Livtet.Lib.Civil
import Livtet.Upserted

/-! # The order of indexed dates

    A rebuild writes a date as nanoseconds since the epoch. The count is cut down to 64
    bits, and where it does not fit, the epoch is written: a book of 1543 is indexed as
    one of 1970. The order of two dates is lost if one of them fits and the epoch lies on
    its wrong side (`i64OrZero_le_iff`). A day fits if it is within 106751 days of the
    epoch, which is from the 22nd of September 1677 to the 11th of April 2262
    (`inI64_midnightNanos_iff`).

    The year is cast to 64 bits without a sign. Only positive years are meant to be
    written, but the cast makes a negative year a positive one. -/

namespace DateOrder

open SyncStore (Env minI64 maxI64)
open SyncPairing DocIndex SearchIndex Reindex Upserted

/-! ## The calendar -/

/-- The years that the library's dates have. -/
def minYear : Int := -9999

def maxYear : Int := 9999

/-- The date is one of the calendar. -/
structure Calendar (d : Reindex.Date) : Prop where
  year_mem : minYear ≤ d.year ∧ d.year ≤ maxYear
  ordinal_mem : 1 ≤ d.ordinal ∧ d.ordinal ≤ if Civil.isLeapYear d.year then 366 else 365

/-- By year, and by day within a year. -/
instance : LE Reindex.Date :=
  ⟨fun d d' => d.year < d'.year ∨ (d.year = d'.year ∧ d.ordinal ≤ d'.ordinal)⟩

theorem date_le_def {d d' : Reindex.Date} :
    d ≤ d' ↔ d.year < d'.year ∨ (d.year = d'.year ∧ d.ordinal ≤ d'.ordinal) := Iff.rfl

theorem date_le_total (d d' : Reindex.Date) : d ≤ d' ∨ d' ≤ d := by
  rw [date_le_def, date_le_def]
  omega

theorem unixDays_eq (d : Reindex.Date) :
    d.unixDays = Civil.daysBeforeYear d.year + d.ordinal - 719163 := by
  simp only [Reindex.Date.unixDays, Civil.daysBeforeYear]
  rw [Int.fdiv_eq_ediv_of_nonneg _ (by decide), Int.fdiv_eq_ediv_of_nonneg _ (by decide),
    Int.fdiv_eq_ediv_of_nonneg _ (by decide)]

/-- The last day of a year is before the first of any later one. -/
theorem Calendar.unixDays_lt {d d' : Reindex.Date} (hd : Calendar d) (hd' : Calendar d')
    (h : d.year < d'.year) : d.unixDays < d'.unixDays := by
  have hyear := Civil.daysBeforeYear_mono (Int.add_one_le_of_lt h)
  have hlast := hd.ordinal_mem.2
  have hfirst := hd'.ordinal_mem.1
  rw [Civil.daysBeforeYear_succ] at hyear
  rw [unixDays_eq, unixDays_eq]
  split at hyear
  · next hleap =>
      rw [if_pos hleap] at hlast
      omega
  · next hleap =>
      rw [if_neg hleap] at hlast
      omega

/-- The days since the epoch are in the order of the calendar. -/
theorem Calendar.unixDays_le_iff {d d' : Reindex.Date} (hd : Calendar d) (hd' : Calendar d') :
    d.unixDays ≤ d'.unixDays ↔ d ≤ d' := by
  rw [date_le_def]
  rcases lt_trichotomy d.year d'.year with hlt | heq | hgt
  · have := hd.unixDays_lt hd' hlt
    omega
  · rw [unixDays_eq, unixDays_eq, heq]
    omega
  · have := hd'.unixDays_lt hd hgt
    omega

theorem midnightNanos_le_iff {d d' : Reindex.Date} :
    d.midnightNanos ≤ d'.midnightNanos ↔ d.unixDays ≤ d'.unixDays := by
  unfold Reindex.Date.midnightNanos
  omega

/-! ## Cutting down to 64 bits -/

/-- The first is after the epoch and fits, while the later one does not; or the second is
    before the epoch and fits, while the earlier one does not. -/
def Torn (n n' : Int) : Prop :=
  (0 < n ∧ n ≤ maxI64 ∧ maxI64 < n') ∨ (n < minI64 ∧ minI64 ≤ n' ∧ n' < 0)

theorem Torn.le {n n' : Int} (h : Torn n n') : n ≤ n' := by
  rw [Torn] at h
  omega

/-- Two times that fit are not torn apart. -/
theorem not_torn_of_inI64 {n n' : Int} (h : InI64 n) (h' : InI64 n') : ¬ Torn n n' := by
  rw [Torn]
  rw [InI64] at h h'
  omega

/-- The order is kept unless the epoch comes between. -/
theorem i64OrZero_le_iff {n n' : Int} (h : n ≤ n') :
    i64OrZero n ≤ i64OrZero n' ↔ ¬ Torn n n' := by
  have hmin : minI64 < 0 := by decide
  have hmax : 0 < maxI64 := by decide
  unfold Torn i64OrZero
  split
  · split
    · omega
    · omega
  · split
    · omega
    · omega

/-- The days whose midnight fits. -/
theorem inI64_midnightNanos_iff (d : Reindex.Date) :
    InI64 d.midnightNanos ↔ -106751 ≤ d.unixDays ∧ d.unixDays ≤ 106751 := by
  unfold InI64 Reindex.Date.midnightNanos minI64 maxI64
  omega

/-- A year that is not negative stays as it is, a negative one becomes one past all others. -/
theorem yearU64_eq_iff {d : Reindex.Date} (hd : Calendar d) :
    (d.yearU64 : Int) = d.year ↔ 0 ≤ d.year := by
  obtain ⟨hmin, hmax⟩ := hd.year_mem
  rw [minYear] at hmin
  rw [maxYear] at hmax
  rw [Reindex.Date.yearU64]
  omega

theorem yearU64_pos_of_neg {d : Reindex.Date} (hd : Calendar d) (h : d.year < 0) :
    0 < d.yearU64 := by
  obtain ⟨hmin, _⟩ := hd.year_mem
  rw [minYear] at hmin
  rw [Reindex.Date.yearU64]
  omega

/-! ## What a rebuild writes -/

section Rebuilt

variable (lib : IndexLib) (env : Env) (c : Catalog)

/-- Of any two editions with a date, the earlier has the smaller value in the index. -/
def OrderKept {α : Type} [LE α] (field : Field) (dateOf : EditionRow → Option α) : Prop :=
  ∀ e ∈ c.editions, ∀ e' ∈ c.editions, ∀ d ∈ dateOf e, ∀ d' ∈ dateOf e', d ≤ d' →
    ∃ n n', valuesOf field (rebuiltEdition lib env c e) = [.date n] ∧
      valuesOf field (rebuiltEdition lib env c e') = [.date n'] ∧ n ≤ n'

/-- Dates keep their order, and a year that is indexed is that of the date. -/
structure DatesKept : Prop where
  pubDate : OrderKept lib env c .pubDate fun e => e.publishedDate
  createdAt : OrderKept lib env c .createdAt fun e => some e.createdAt
  updatedAt : OrderKept lib env c .updatedAt fun e => e.updatedAt
  publishedYear : ∀ e ∈ c.editions, ∀ year : Nat,
    .u64 year ∈ valuesOf .publishedYear (rebuiltEdition lib env c e) →
      ∃ d ∈ e.publishedDate, (year : Int) = d.year

/-- No two times of the editions are torn apart. -/
def Untorn (nanosOf : EditionRow → Option Int) : Prop :=
  ∀ e ∈ c.editions, ∀ e' ∈ c.editions, ∀ n ∈ nanosOf e, ∀ n' ∈ nanosOf e', ¬ Torn n n'

/-- No two times are torn apart, and no year is negative. -/
structure Countable : Prop where
  published : Untorn c fun e => e.publishedDate.map Reindex.Date.midnightNanos
  created : Untorn c fun e => some e.createdAt
  updated : Untorn c fun e => e.updatedAt
  years : ∀ e ∈ c.editions, ∀ d ∈ e.publishedDate, 0 ≤ d.year

end Rebuilt

section Kept

variable {lib : IndexLib} {env : Env} {c : Catalog}

theorem pubDate_rebuilt (e : EditionRow) : valuesOf .pubDate (rebuiltEdition lib env c e) =
    (e.publishedDate.map fun d => i64OrZero d.midnightNanos).toList.map .date := by
  rw [rebuiltEdition, valuesOf_flatten]
  simp

theorem createdAt_rebuilt (e : EditionRow) :
    valuesOf .createdAt (rebuiltEdition lib env c e) = [.date (i64OrZero e.createdAt)] := by
  rw [rebuiltEdition, valuesOf_flatten]
  simp

theorem updatedAt_rebuilt (e : EditionRow) : valuesOf .updatedAt (rebuiltEdition lib env c e) =
    (e.updatedAt.map i64OrZero).toList.map .date := by
  rw [rebuiltEdition, valuesOf_flatten]
  simp

theorem publishedYear_rebuilt (e : EditionRow) (year : Nat) :
    .u64 year ∈ valuesOf .publishedYear (rebuiltEdition lib env c e) ↔
      0 < year ∧ ∃ d ∈ e.publishedDate, year = d.yearU64 := by
  rw [rebuiltEdition, valuesOf_flatten]
  cases e.publishedDate with
  | none => simp
  | some d =>
      simp only [Option.map_some, Option.getD_some]
      by_cases hyear : 0 < d.yearU64
      · simp [hyear]
        omega
      · simp [hyear]
        omega

/-- A field that is written from a time keeps the order of the times it is written from. -/
theorem orderKept_iff {α : Type} [LE α] {field : Field} {dateOf : EditionRow → Option α}
    {nanos : α → Int}
    (hvalue : ∀ e, valuesOf field (rebuiltEdition lib env c e) =
      ((dateOf e).map fun d => i64OrZero (nanos d)).toList.map .date)
    (horder : ∀ e ∈ c.editions, ∀ e' ∈ c.editions, ∀ d ∈ dateOf e, ∀ d' ∈ dateOf e',
      nanos d ≤ nanos d' ↔ d ≤ d') :
    OrderKept lib env c field dateOf ↔ Untorn c fun e => (dateOf e).map nanos := by
  have hone : ∀ e, ∀ d ∈ dateOf e, valuesOf field (rebuiltEdition lib env c e) =
      [.date (i64OrZero (nanos d))] := by
    intro e d hd
    rw [hvalue e, Option.mem_def.1 hd]
    rfl
  constructor
  · intro h e he e' he' n hn n' hn' htorn
    obtain ⟨d, hd, rfl⟩ := Option.mem_map.1 hn
    obtain ⟨d', hd', rfl⟩ := Option.mem_map.1 hn'
    have hle := htorn.le
    obtain ⟨m, m', hm, hm', hmm'⟩ := h e he e' he' d hd d' hd'
      ((horder e he e' he' d hd d' hd').1 hle)
    rw [hone e d hd] at hm
    rw [hone e' d' hd'] at hm'
    cases hm
    cases hm'
    exact (i64OrZero_le_iff hle).1 hmm' htorn
  · intro h e he e' he' d hd d' hd' hdd'
    refine ⟨_, _, hone e d hd, hone e' d' hd', ?_⟩
    exact (i64OrZero_le_iff ((horder e he e' he' d hd d' hd').2 hdd')).2
      (h e he e' he' _ (Option.mem_map_of_mem nanos hd) _ (Option.mem_map_of_mem nanos hd'))

/-- **DATES KEEP THEIR ORDER** exactly if no two times are torn apart by the epoch, and no
    publication year is negative. -/
theorem datesKept_iff (lib : IndexLib) (env : Env) (c : Catalog)
    (hcalendar : ∀ e ∈ c.editions, ∀ d ∈ e.publishedDate, Calendar d) :
    DatesKept lib env c ↔ Countable c := by
  have hpublished := @orderKept_iff lib env c _ _ .pubDate (fun e => e.publishedDate)
    Reindex.Date.midnightNanos pubDate_rebuilt
    (fun e he e' he' d hd d' hd' => midnightNanos_le_iff.trans
      ((hcalendar e he d hd).unixDays_le_iff (hcalendar e' he' d' hd')))
  have hcreated := @orderKept_iff lib env c _ _ .createdAt (fun e => some e.createdAt) id
    createdAt_rebuilt (fun _ _ _ _ _ _ _ _ => Iff.rfl)
  have hupdated := @orderKept_iff lib env c _ _ .updatedAt (fun e => e.updatedAt) id
    updatedAt_rebuilt (fun _ _ _ _ _ _ _ _ => Iff.rfl)
  simp only [Option.map_id, id_eq, Option.map_some] at hcreated hupdated
  constructor
  · intro h
    refine ⟨hpublished.1 h.pubDate, hcreated.1 h.createdAt, hupdated.1 h.updatedAt, ?_⟩
    intro e he d hd
    refine Int.not_lt.1 fun hneg => ?_
    have hcal := hcalendar e he d hd
    obtain ⟨d', hd', hyear⟩ := h.publishedYear e he d.yearU64
      ((publishedYear_rebuilt e _).2 ⟨yearU64_pos_of_neg hcal hneg, d, hd, rfl⟩)
    cases Option.mem_unique hd hd'
    exact absurd ((yearU64_eq_iff hcal).1 hyear) (Int.not_le.2 hneg)
  · intro h
    refine ⟨hpublished.2 h.published, hcreated.2 h.created, hupdated.2 h.updated, ?_⟩
    intro e he year hyear
    obtain ⟨_, d, hd, rfl⟩ := (publishedYear_rebuilt e year).1 hyear
    exact ⟨d, hd, (yearU64_eq_iff (hcalendar e he d hd)).2 (h.years e he d hd)⟩

end Kept

/-! ## Old books -/

/-- A book of the first of January of a year. -/
def bookOf (n : UInt8) (year : Int) : EditionRow :=
  { bookRow with
    id := Library.sampleId n
    publishedDate := some ⟨year, 1⟩ }

theorem keys_bookOf (year year' : Int) :
    ([bookOf 1 year, bookOf 2 year'].map fun e => e.id).Nodup := by
  show [Library.sampleId 1, Library.sampleId 2].Nodup
  decide

def twoBooks (year year' : Int) : Catalog :=
  { Catalog.empty with
    editions := [bookOf 1 year, bookOf 2 year']
    editionKeys := keys_bookOf year year' }

theorem calendar_twoBooks {year year' : Int} (hyear : minYear ≤ year ∧ year ≤ maxYear)
    (hyear' : minYear ≤ year' ∧ year' ≤ maxYear) :
    ∀ e ∈ (twoBooks year year').editions, ∀ d ∈ e.publishedDate, Calendar d := by
  have hfirst : ∀ y, (1 : Nat) ≤ if Civil.isLeapYear y then 366 else 365 := by
    intro y
    split
    · decide
    · decide
  intro e he d hd
  simp only [twoBooks, List.mem_cons, List.not_mem_nil, or_false] at he
  rcases he with rfl | rfl
  · cases hd
    exact ⟨hyear, Nat.le_refl 1, hfirst _⟩
  · cases hd
    exact ⟨hyear', Nat.le_refl 1, hfirst _⟩

theorem datesKept_nineteenth : DatesKept plainLib Env.reference (twoBooks 1813 1851) := by
  have hbooks : ∀ e ∈ (twoBooks 1813 1851).editions,
      InI64 e.createdAt ∧ e.updatedAt = none ∧
        ∀ d ∈ e.publishedDate, 0 ≤ d.year ∧ InI64 d.midnightNanos := by
    intro e he
    simp only [twoBooks, List.mem_cons, List.not_mem_nil, or_false] at he
    rcases he with rfl | rfl
    all_goals
      refine ⟨⟨by decide, by decide⟩, rfl, fun d hd => ?_⟩
      cases hd
      exact ⟨by decide, (inI64_midnightNanos_iff _).2 (by decide)⟩
  refine (datesKept_iff plainLib Env.reference (twoBooks 1813 1851)
    (calendar_twoBooks (by decide) (by decide))).2 ⟨?_, ?_, ?_, ?_⟩
  · intro e he e' he' n hn n' hn'
    obtain ⟨d, hd, rfl⟩ := Option.mem_map.1 hn
    obtain ⟨d', hd', rfl⟩ := Option.mem_map.1 hn'
    exact not_torn_of_inI64 ((hbooks e he).2.2 d hd).2 ((hbooks e' he').2.2 d' hd').2
  · intro e he e' he' n hn n' hn'
    cases hn
    cases hn'
    exact not_torn_of_inI64 (hbooks e he).1 (hbooks e' he').1
  · intro e he e' he' n hn
    cases ((hbooks e he).2.1).symm.trans hn
  · intro e he d hd
    exact ((hbooks e he).2.2 d hd).1

/-- A book of 1543 is indexed after one of 1813. -/
theorem not_datesKept_antiquarian :
    ¬ DatesKept plainLib Env.reference (twoBooks 1543 1813) := by
  intro h
  obtain ⟨n, n', hn, hn', hle⟩ := h.pubDate (bookOf 1 1543) (by simp [twoBooks])
    (bookOf 2 1813) (by simp [twoBooks]) ⟨1543, 1⟩ rfl ⟨1813, 1⟩ rfl (Or.inl (by decide))
  rw [pubDate_rebuilt] at hn hn'
  cases hn
  cases hn'
  revert hle
  decide

end DateOrder

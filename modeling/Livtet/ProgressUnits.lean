import Livtet.Lib.UlidText
import Livtet.ReadingTime
import Mathlib.Algebra.Field.Rat
import Mathlib.Algebra.Order.Ring.Unbundled.Rat
import Mathlib.Tactic.Linarith

/-! # One vocabulary of progress units

    The rows of `reading_progress` and `reading_bookmarks` were written in three dialects. A
    migration gives every row a unit of `ProgressUnit`: fractions become percentages, and are
    multiplied by a hundred for it.

    A percentage is read as a fraction all the same: it is clamped, not divided. So the value
    of a fraction is kept exactly if it is one of the ends (`meaning_kept_iff`). Numbers are
    exact here. -/

namespace ProgressUnits

open SyncPairing (DbId)
open ReadingTime (ProgressUnit unitFromStr)

/-! ## Formats -/

inductive KnownFormats
  | hardcover
  | tradePaperback
  | massMarketPaperback
  | ebook
  | audiobook
  | pdf
  | epub
  | mobi
  | azw3
deriving DecidableEq, Repr

namespace KnownFormats

def all : List KnownFormats :=
  [hardcover, tradePaperback, massMarketPaperback, ebook, audiobook, pdf, epub, mobi, azw3]

def discriminant : KnownFormats → Nat
  | hardcover => 1
  | tradePaperback => 2
  | massMarketPaperback => 3
  | ebook => 4
  | audiobook => 5
  | pdf => 6
  | epub => 7
  | mobi => 8
  | azw3 => 9

/-- `KNOWN_FORMAT_TIME_MS`. -/
def timeMs : Nat := 1778544000000

/-- The bytes of the time, and of the discriminant where random ones would be. -/
def ulid (format : KnownFormats) : DbId :=
  ⟨((UlidText.fixedDigits 256 6 timeMs) ++ (UlidText.fixedDigits 256 10 format.discriminant)).map
      UInt8.ofNat, by
    rw [List.length_map, List.length_append, UlidText.length_fixedDigits,
      UlidText.length_fixedDigits]⟩

def defaultProgressUnit : KnownFormats → String
  | hardcover | tradePaperback | massMarketPaperback | pdf => "page"
  | ebook | epub | mobi | azw3 => "virtual_page"
  | audiobook => "timestamp"

end KnownFormats

/-- The default of a format is a unit of the vocabulary. -/
theorem defaultProgressUnit_unit (format : KnownFormats) :
    ∃ unit, unitFromStr format.defaultProgressUnit = some unit ∧
      (unit = .page ∨ unit = .virtualPage ∨ unit = .timestamp) := by
  cases format with
  | hardcover | tradePaperback | massMarketPaperback | pdf => exact ⟨.page, rfl, .inl rfl⟩
  | ebook | epub | mobi | azw3 => exact ⟨.virtualPage, rfl, .inr (.inl rfl)⟩
  | audiobook => exact ⟨.timestamp, rfl, .inr (.inr rfl)⟩

/-! ## Tables -/

/-- A row of `formats`; `φ` are the columns that the migration does not name. -/
structure FormatRow (φ : Type) where
  id : DbId
  progressUnit : Option String
  columns : φ

/-- A row of `reading_progress` or `reading_bookmarks`; `κ` are the other columns. -/
structure Row (κ : Type) where
  progress : ℚ
  progressUnit : Option String
  columns : κ

structure Database (φ κ β : Type) where
  formats : List (FormatRow φ)
  readingProgress : List (Row κ)
  readingBookmarks : List (Row β)

/-! ## The migration -/

/-- `UPDATE formats SET progress_unit = .. WHERE id = .. AND progress_unit IS NULL`. -/
def filled {φ : Type} (format : KnownFormats) (r : FormatRow φ) : FormatRow φ :=
  if r.id = format.ulid ∧ r.progressUnit = none then
    { r with progressUnit := some format.defaultProgressUnit }
  else r

structure Conversion where
  fromUnit : String
  toUnit : String
  rescale : Bool

def conversions : List Conversion :=
  [⟨"ratio", "percentage", true⟩, ⟨"epub", "percentage", true⟩, ⟨"pdf", "page", false⟩]

section Tables

variable {φ κ β : Type}

/-- `UPDATE .. SET progress = progress * 100 WHERE ..`. -/
def rescaled (unit : String) (r : Row κ) : Row κ :=
  if r.progressUnit = some unit ∧ 0 ≤ r.progress ∧ r.progress ≤ 1 then
    { r with progress := r.progress * 100 }
  else r

/-- `UPDATE .. SET progress_unit = .. WHERE progress_unit = ..`. -/
def retagged (unit unit' : String) (r : Row κ) : Row κ :=
  if r.progressUnit = some unit then { r with progressUnit := some unit' } else r

/-- The statements of one conversion, each over the whole table. -/
def convertUnit (rows : List (Row κ)) (c : Conversion) : List (Row κ) :=
  (if c.rescale then rows.map (rescaled c.fromUnit) else rows).map (retagged c.fromUnit c.toUnit)

def foldUnits (rows : List (Row κ)) : List (Row κ) := conversions.foldl convertUnit rows

def apply (db : Database φ κ β) : Database φ κ β where
  formats := KnownFormats.all.foldl (fun rows format => rows.map (filled format)) db.formats
  readingProgress := foldUnits db.readingProgress
  readingBookmarks := foldUnits db.readingBookmarks

end Tables

/-! ## Progress that is read back -/

inductive Progression
  | percentage (p : ℚ)
  | page (n : UInt32)
  | virtualPage (n : UInt32)
  | timestampSeconds (s : Int64)
  | chapter (ch : ℚ)
  | cfi (s : String)

inductive ReadingLength
  | percentage
  | pages (c : UInt32)
  | virtualPages (c : UInt32)
  | seconds (c : Int64)
  | chapters (c : UInt32)
  | cfi

/-- A result that is a number, or is none as `0 / 0` is. -/
inductive Normalized
  | number (q : ℚ)
  | notANumber
deriving DecidableEq, Repr

/-- `clamp(0.0, 1.0)`. -/
def clamp (q : ℚ) : ℚ := if q < 0 then 0 else if 1 < q then 1 else q

/-- A quotient that is clamped. By zero it is infinite, and the clamp takes it to an end. -/
def clampedQuotient (n c : ℚ) : Normalized :=
  if c = 0 then
    if n = 0 then .notANumber else .number (if n < 0 then 0 else 1)
  else .number (clamp (n / c))

def progressionToNormalized (progression : Progression) (length : ReadingLength) :
    Option Normalized :=
  match progression, length with
  | .percentage p, _ => some (.number (clamp p))
  | .page n, .pages c => some (clampedQuotient n.toNat c.toNat)
  | .virtualPage n, .virtualPages c => some (clampedQuotient n.toNat c.toNat)
  | .timestampSeconds s, .seconds c => some (clampedQuotient s.toInt c.toInt)
  | .chapter ch, .chapters c => some (clampedQuotient ch c.toNat)
  | .cfi _, _ => none
  | _, _ => none

/-- The progression of a unit whose number is a floating-point one, as the column's is. -/
def progressionOf (unit : ProgressUnit) (progress : ℚ) : Option Progression :=
  match unit with
  | .percentage => some (.percentage progress)
  | .chapter => some (.chapter progress)
  | _ => none

/-- What a row says, against a length. -/
def Row.normalized {κ : Type} (r : Row κ) (length : ReadingLength) : Option Normalized :=
  (r.progressUnit.bind unitFromStr).bind fun unit =>
    (progressionOf unit r.progress).bind fun p => progressionToNormalized p length

/-! ## What the migration does to a row -/

/-- Updates of a whole table are one update of each row. -/
theorem foldl_map_rows {ι ρ : Type} (f : ι → ρ → ρ) (l : List ι) (rows : List ρ) :
    l.foldl (fun rows i => rows.map (f i)) rows = rows.map fun r => l.foldl (fun r i => f i r) r := by
  induction l generalizing rows with
  | nil => exact (List.map_id' rows).symm
  | cons i l ih =>
      rw [List.foldl_cons, ih, List.map_map]
      rfl

/-- A row that every update leaves alone. -/
theorem foldl_of_fixed {ι ρ : Type} {f : ρ → ι → ρ} {l : List ι} {r : ρ}
    (h : ∀ i ∈ l, f r i = r) : l.foldl f r = r := by
  induction l with
  | nil => rfl
  | cons i l ih =>
      rw [List.foldl_cons, h i List.mem_cons_self]
      exact ih fun j hj => h j (List.mem_cons_of_mem i hj)

/-- The units that are folded onto the vocabulary. -/
def retiredUnits : List String := ["ratio", "epub", "pdf"]

section Rows

variable {κ : Type}

/-- The row is of a unit that is folded. -/
def Row.Retired (r : Row κ) : Prop := ∃ unit ∈ retiredUnits, r.progressUnit = some unit

/-- The row holds a fraction, and says so. -/
def Row.IsFraction (r : Row κ) : Prop :=
  (r.progressUnit = some "ratio" ∨ r.progressUnit = some "epub") ∧ 0 ≤ r.progress ∧ r.progress ≤ 1

def Conversion.apply (c : Conversion) (r : Row κ) : Row κ :=
  retagged c.fromUnit c.toUnit (if c.rescale then rescaled c.fromUnit r else r)

/-- All conversions, one row alone. -/
def converted (r : Row κ) : Row κ := conversions.foldl (fun r c => c.apply r) r

theorem convertUnit_eq_map (rows : List (Row κ)) (c : Conversion) :
    convertUnit rows c = rows.map c.apply := by
  rw [convertUnit]
  cases hrescale : c.rescale with
  | true =>
      show (rows.map (rescaled c.fromUnit)).map _ = _
      rw [List.map_map]
      refine List.map_congr_left fun r _ => ?_
      rw [Conversion.apply, hrescale]
      rfl
  | false =>
      refine List.map_congr_left fun r _ => ?_
      rw [Conversion.apply, hrescale]
      rfl

/-- The statements go over the tables, so each row is converted on its own. -/
theorem foldUnits_eq_map (rows : List (Row κ)) : foldUnits rows = rows.map converted := by
  rw [foldUnits, funext₂ convertUnit_eq_map]
  exact foldl_map_rows Conversion.apply conversions rows

theorem apply_of_ne {c : Conversion} {r : Row κ} (h : r.progressUnit ≠ some c.fromUnit) :
    c.apply r = r := by
  have hrescaled : rescaled c.fromUnit r = r := if_neg fun hand => h hand.1
  rw [Conversion.apply, hrescaled, ite_self, retagged, if_neg h]

theorem apply_of_eq {c : Conversion} {r : Row κ} (h : r.progressUnit = some c.fromUnit) :
    c.apply r = { r with
      progress := if c.rescale ∧ 0 ≤ r.progress ∧ r.progress ≤ 1 then r.progress * 100 else r.progress
      progressUnit := some c.toUnit } := by
  rw [Conversion.apply]
  cases c.rescale with
  | true =>
      rw [if_pos rfl, rescaled]
      by_cases hin : 0 ≤ r.progress ∧ r.progress ≤ 1
      · rw [if_pos ⟨h, hin⟩, if_pos ⟨rfl, hin⟩, retagged, if_pos h]
      · rw [if_neg fun hand => hin hand.2, if_neg fun hand => hin hand.2, retagged, if_pos h]
  | false =>
      rw [if_neg Bool.false_ne_true, retagged, if_pos h, if_neg fun hand => Bool.false_ne_true hand.1]

/-- A row of another unit is left as it is. -/
theorem converted_of_not_retired {r : Row κ} (h : ¬ r.Retired) : converted r = r :=
  foldl_of_fixed fun c hc => apply_of_ne fun hunit =>
    h ⟨c.fromUnit, List.mem_map_of_mem (f := Conversion.fromUnit) hc, hunit⟩

/-- What one conversion gives is no unit that another starts from. -/
theorem toUnit_ne_fromUnit : ∀ c ∈ conversions, ∀ c' ∈ conversions, c.toUnit ≠ c'.fromUnit := by
  decide

/-- A row of a unit that is folded has one conversion done to it. -/
theorem converted_of_mem {c : Conversion} {r : Row κ} (hc : c ∈ conversions)
    (h : r.progressUnit = some c.fromUnit) : converted r = c.apply r := by
  obtain ⟨before, after, hsplit⟩ := List.append_of_mem hc
  have hnodup : (conversions.map Conversion.fromUnit).Nodup := by decide
  have hbefore : ∀ c' ∈ before, c'.apply r = r := by
    refine fun c' hc' => apply_of_ne fun hunit => ?_
    rw [h] at hunit
    rw [hsplit, List.map_append, List.nodup_append] at hnodup
    exact hnodup.2.2 _ (List.mem_map_of_mem hc') _ List.mem_cons_self (Option.some.inj hunit).symm
  -- the unit it has then is one that no other conversion starts from
  have hafter : ∀ c' ∈ after, c'.apply (c.apply r) = c.apply r := by
    refine fun c' hc' => apply_of_ne fun hunit => ?_
    rw [apply_of_eq h] at hunit
    have hmem : c' ∈ conversions := by
      rw [hsplit]
      exact List.mem_append_right _ (List.mem_cons_of_mem c hc')
    exact toUnit_ne_fromUnit c hc c' hmem (Option.some.inj hunit)
  calc converted r
      = after.foldl (fun r c => c.apply r)
          (c.apply (before.foldl (fun r c => c.apply r) r)) := by
        rw [converted, hsplit, List.foldl_append, List.foldl_cons]
    _ = after.foldl (fun r c => c.apply r) (c.apply r) :=
        congrArg (fun r => after.foldl _ (c.apply r)) (foldl_of_fixed hbefore)
    _ = c.apply r := foldl_of_fixed hafter

theorem Row.Retired.exists_conversion {r : Row κ} (h : r.Retired) :
    ∃ c ∈ conversions, r.progressUnit = some c.fromUnit := by
  obtain ⟨unit, hmem, hunit⟩ := h
  obtain ⟨c, hc, rfl⟩ := List.mem_map.1 (show unit ∈ conversions.map Conversion.fromUnit from hmem)
  exact ⟨c, hc, hunit⟩

/-- No row is left in a unit that is folded. -/
theorem not_retired_converted (r : Row κ) : ¬ (converted r).Retired := by
  by_cases h : r.Retired
  · obtain ⟨c, hc, hunit⟩ := h.exists_conversion
    rw [converted_of_mem hc hunit, apply_of_eq hunit]
    intro hretired
    obtain ⟨c', hc', hto⟩ := hretired.exists_conversion
    exact toUnit_ne_fromUnit c hc c' hc' (Option.some.inj hto)
  · rwa [converted_of_not_retired h]

theorem converted_converted (r : Row κ) : converted (converted r) = converted r :=
  converted_of_not_retired (not_retired_converted r)

/-- A fraction is stored as a percentage. -/
theorem converted_of_isFraction {r : Row κ} (h : r.IsFraction) :
    converted r = { r with progress := r.progress * 100, progressUnit := some "percentage" } := by
  obtain ⟨hunit, hin⟩ := h
  rcases hunit with hratio | hepub
  · rw [converted_of_mem (c := ⟨"ratio", "percentage", true⟩) List.mem_cons_self hratio,
      apply_of_eq hratio, if_pos ⟨rfl, hin⟩]
  · rw [converted_of_mem (c := ⟨"epub", "percentage", true⟩)
      (List.mem_cons_of_mem _ List.mem_cons_self) hepub, apply_of_eq hepub, if_pos ⟨rfl, hin⟩]

/-- It is read as a hundred times the fraction, or as the whole. -/
theorem normalized_converted {r : Row κ} (h : r.IsFraction) (length : ReadingLength) :
    (converted r).normalized length = some (.number (clamp (r.progress * 100))) := by
  rw [converted_of_isFraction h]
  rfl

end Rows

/-- Between 0 and 1, a number is a hundred times itself, or the whole, at the ends only. -/
theorem clamp_mul_hundred {v : ℚ} (hle : 0 ≤ v) (hge : v ≤ 1) :
    clamp (v * 100) = v ↔ v = 0 ∨ v = 1 := by
  have hnonneg : ¬ v * 100 < 0 := by linarith
  rw [clamp, if_neg hnonneg]
  split
  · -- a percentage of one and more is clamped to the whole
    rename_i hbig
    constructor
    · exact fun h => .inr h.symm
    · rintro (rfl | rfl)
      · exact absurd hbig (by norm_num)
      · rfl
  · rename_i hsmall
    constructor
    · intro h
      exact .inl (by linarith)
    · rintro (rfl | rfl)
      · exact zero_mul 100
      · exact absurd (show (1 : ℚ) < 1 * 100 by norm_num) hsmall

/-! ## Formats are filled once -/

section Filled

variable {φ : Type}

/-- All the updates, one row alone. -/
def filledAll (r : FormatRow φ) : FormatRow φ :=
  KnownFormats.all.foldl (fun r format => filled format r) r

theorem filled_of_some {format : KnownFormats} {r : FormatRow φ} (h : r.progressUnit ≠ none) :
    filled format r = r :=
  if_neg fun hand => h hand.2

theorem filled_of_ne {format : KnownFormats} {r : FormatRow φ} (h : r.id ≠ format.ulid) :
    filled format r = r :=
  if_neg fun hand => h hand.1

@[simp] theorem filled_id (format : KnownFormats) (r : FormatRow φ) :
    (filled format r).id = r.id := by
  rw [filled]
  split
  · rfl
  · rfl

/-- A row that is left without a unit is of none of the formats. -/
theorem ne_ulid_of_none {formats : List KnownFormats} {r : FormatRow φ}
    (h : (formats.foldl (fun r format => filled format r) r).progressUnit = none) :
    ∀ format ∈ formats, r.id ≠ format.ulid := by
  induction formats generalizing r with
  | nil => exact List.forall_mem_nil _
  | cons format formats ih =>
      rw [List.foldl_cons] at h
      have hrest := ih h
      rw [filled_id] at hrest
      refine List.forall_mem_cons.2 ⟨fun hid => ?_, hrest⟩
      by_cases hnone : r.progressUnit = none
      · rw [filled, if_pos ⟨hid, hnone⟩,
          foldl_of_fixed fun _ _ => filled_of_some (Option.some_ne_none _)] at h
        cases h
      · rw [filled_of_some hnone, foldl_of_fixed fun _ _ => filled_of_some hnone] at h
        exact hnone h

theorem filledAll_filledAll (r : FormatRow φ) : filledAll (filledAll r) = filledAll r := by
  by_cases hnone : (filledAll r).progressUnit = none
  · have hne := ne_ulid_of_none hnone
    have hsame : filledAll r = r := foldl_of_fixed fun format hmem => filled_of_ne (hne format hmem)
    rw [hsame, hsame]
  · exact foldl_of_fixed fun _ _ => filled_of_some hnone

end Filled

/-! ## The migration keeps what rows mean, at the ends -/

section Meaning

variable {φ κ β : Type}

theorem apply_eq (db : Database φ κ β) :
    apply db = ⟨db.formats.map filledAll, db.readingProgress.map converted,
      db.readingBookmarks.map converted⟩ := by
  rw [apply, foldUnits_eq_map, foldUnits_eq_map, foldl_map_rows]
  rfl

theorem apply_apply (db : Database φ κ β) : apply (apply db) = apply db := by
  simp only [apply_eq, List.map_map, Function.comp_def, filledAll_filledAll, converted_converted]

/-- What is asked of a row and the one in its place: a row of no retired unit is the same, the
    new unit is not retired, and a fraction is read back. -/
structure Kept (r r' : Row κ) : Prop where
  same : ¬ r.Retired → r' = r
  current : ¬ r'.Retired
  read : r.IsFraction → ∀ length, r'.normalized length = some (.number r.progress)

/-- The migration is idempotent, and keeps what every row means. -/
structure KeepsMeaning (db : Database φ κ β) : Prop where
  idempotent : apply (apply db) = apply db
  progress : List.Forall₂ Kept db.readingProgress (apply db).readingProgress
  bookmarks : List.Forall₂ Kept db.readingBookmarks (apply db).readingBookmarks

/-- A fraction is nothing or the whole. -/
def AtEnds (r : Row κ) : Prop := r.IsFraction → r.progress = 0 ∨ r.progress = 1

theorem kept_converted_iff {r : Row κ} : Kept r (converted r) ↔ AtEnds r := by
  constructor
  · intro h hfraction
    have hread := h.read hfraction .percentage
    rw [normalized_converted hfraction] at hread
    exact (clamp_mul_hundred hfraction.2.1 hfraction.2.2).1
      (Normalized.number.inj (Option.some.inj hread))
  · intro h
    refine ⟨converted_of_not_retired, not_retired_converted r, fun hfraction length => ?_⟩
    rw [normalized_converted hfraction,
      (clamp_mul_hundred hfraction.2.1 hfraction.2.2).2 (h hfraction)]

theorem forall₂_converted_iff {rows : List (Row κ)} :
    List.Forall₂ Kept rows (rows.map converted) ↔ ∀ r ∈ rows, AtEnds r := by
  rw [List.forall₂_map_right_iff, List.forall₂_same]
  exact forall₂_congr fun r _ => kept_converted_iff

/-- The migration keeps what every row means exactly if no fraction lies between the ends. -/
theorem meaning_kept_iff (db : Database φ κ β) :
    KeepsMeaning db ↔
      (∀ r ∈ db.readingProgress, AtEnds r) ∧ ∀ r ∈ db.readingBookmarks, AtEnds r := by
  have hprogress : (apply db).readingProgress = db.readingProgress.map converted := by
    rw [apply_eq]
  have hbookmarks : (apply db).readingBookmarks = db.readingBookmarks.map converted := by
    rw [apply_eq]
  constructor
  · intro h
    have hp := h.progress
    have hb := h.bookmarks
    rw [hprogress, forall₂_converted_iff] at hp
    rw [hbookmarks, forall₂_converted_iff] at hb
    exact ⟨hp, hb⟩
  · rintro ⟨hp, hb⟩
    refine ⟨apply_apply db, ?_, ?_⟩
    · rwa [hprogress, forall₂_converted_iff]
    · rwa [hbookmarks, forall₂_converted_iff]

/-- A fraction of 0.42 is stored as 42 percent, and is read back as the whole. -/
theorem meaning_not_kept : ¬ KeepsMeaning
    (⟨[], [⟨42 / 100, some "ratio", ()⟩], []⟩ : Database Unit Unit Unit) := by
  intro h
  have hp := h.progress
  rw [apply_eq, forall₂_converted_iff] at hp
  rcases hp _ List.mem_cons_self ⟨.inl rfl, by norm_num, by norm_num⟩ with hzero | hone
  · exact absurd hzero (by norm_num)
  · exact absurd hone (by norm_num)

end Meaning

end ProgressUnits

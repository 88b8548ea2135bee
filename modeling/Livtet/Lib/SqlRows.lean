import Mathlib.Algebra.Group.Int.Defs
import Mathlib.Algebra.GroupWithZero.Nat
import Mathlib.Data.List.Basic
import Mathlib.Data.List.Nodup

/-! # Typed tables — rows, constraints and the statements that write them

    A small relational store in the manner of SQLite's STRICT tables: every
    column has a storage class, some columns are NOT NULL, and every table has
    a primary key and possibly further unique keys. A `Table` carries its
    constraints: its rows are typed and no two of them agree on a key, so a
    statement either returns a table that satisfies them or an error.

    What a column does with a value of another storage class (a number given to
    a TEXT column) is left to a parameter, `Affinity`. -/

namespace SqlRows

/-- A decimal fraction: `digits / 10 ^ (scale + 1)`. -/
structure Decimal where
  digits : Int
  scale : Nat
deriving DecidableEq, Repr

/-- A value with its storage class. -/
inductive Value
  | null
  | int (n : Int)
  | real (d : Decimal)
  | text (s : String)
  | blob (bytes : List UInt8)
deriving DecidableEq, Repr

/-- The column types of a STRICT table. -/
inductive ColType
  | integer
  | real
  | text
  | blob
deriving DecidableEq, Repr

/-- NULL belongs to every column, any other value to the columns of its class; an
    integer has 64 bits. -/
def Value.hasType : Value → ColType → Bool
  | .null, _ => true
  | .int n, .integer => decide (-2 ^ 63 ≤ n ∧ n ≤ 2 ^ 63 - 1)
  | .real _, .real => true
  | .text _, .text => true
  | .blob _, .blob => true
  | _, _ => false

/-- The conversions a column applies before it stores a value; `none` where the
    value is refused. -/
structure Affinity where
  convert : ColType → Value → Option Value
  convert_self : ∀ t v, v.hasType t → convert t v = some v
  convert_typed : ∀ t v w, convert t v = some w → w.hasType t

/-- The affinity that converts nothing. -/
def Affinity.rigid : Affinity where
  convert t v := if v.hasType t then some v else none
  convert_self t v h := by rw [if_pos h]
  convert_typed t v w h := by
    by_cases hv : v.hasType t
    · rw [if_pos hv] at h
      cases Option.some.inj h
      exact hv
    · rw [if_neg hv] at h
      cases h

/-- What a column holds when a statement does not name it. -/
inductive Default
  | null
  | value (v : Value)
  | currentTimestamp
deriving DecidableEq, Repr

def Default.eval (now : String) : Default → Value
  | .null => .null
  | .value v => v
  | .currentTimestamp => .text now

/-- The time of a statement decides neither the class of a default nor whether it is
    NULL. -/
theorem Default.hasType_eval (d : Default) (now now' : String) (t : ColType) :
    (d.eval now).hasType t = (d.eval now').hasType t := by
  cases d with
  | currentTimestamp => cases t <;> rfl
  | _ => rfl

theorem Default.eval_eq_null {d : Default} {now : String} (now' : String)
    (h : d.eval now = .null) : d.eval now' = .null := by
  cases d with
  | currentTimestamp => cases h
  | null => rfl
  | value v => exact h

structure Column where
  name : String
  type : ColType
  notNull : Bool := false
  default : Default := .null
deriving DecidableEq, Repr

abbrev Row := String → Value

/-- Column values named in a statement. -/
abbrev Assignments := List (String × Value)

/-- A row with the named columns replaced. -/
def overlay (row : Row) (values : Assignments) : Row :=
  fun c => (values.lookup c).getD (row c)

theorem mem_of_lookup {values : Assignments} {c : String} {v : Value}
    (h : values.lookup c = some v) : (c, v) ∈ values := by
  obtain ⟨before, after, rfl, _⟩ := List.lookup_eq_some_iff.1 h
  exact List.mem_append_right _ List.mem_cons_self

/-- A column that is only ever given its own value keeps it. -/
theorem overlay_eq_self {row : Row} {values : Assignments} {c : String}
    (h : ∀ p ∈ values, p.1 = c → p.2 = row c) : overlay row values c = row c := by
  rw [overlay]
  cases hv : values.lookup c with
  | none => rfl
  | some v => exact h (c, v) (mem_of_lookup hv) rfl

/-- A named column takes the value it is given. -/
theorem overlay_of_named {row f : Row} {values : Assignments} (hf : ∀ p ∈ values, p.2 = f p.1)
    {c : String} (hc : c ∈ values.map Prod.fst) : overlay row values c = f c := by
  rw [overlay]
  cases hv : values.lookup c with
  | none =>
      obtain ⟨p, hp, rfl⟩ := List.mem_map.1 hc
      have := List.lookup_eq_none_iff.1 hv p hp
      simp at this
  | some v => exact hf (c, v) (mem_of_lookup hv)

/-- `a` and `b` have equal, non-NULL values in the given columns. -/
def agree (columns : List String) (a b : Row) : Bool :=
  columns.all fun c => decide (a c ≠ .null) && decide (a c = b c)

theorem agree_iff {columns : List String} {a b : Row} :
    agree columns a b = true ↔ ∀ c ∈ columns, a c ≠ .null ∧ a c = b c := by
  simp [agree]

theorem agree_symm {columns : List String} {a b : Row} (h : agree columns a b = true) :
    agree columns b a = true := by
  rw [agree_iff] at h ⊢
  intro c hc
  obtain ⟨hn, he⟩ := h c hc
  exact ⟨he ▸ hn, he.symm⟩

theorem agree_trans {columns : List String} {a b d : Row} (h : agree columns a b = true)
    (h' : agree columns b d = true) : agree columns a d = true := by
  rw [agree_iff] at h h' ⊢
  intro c hc
  exact ⟨(h c hc).1, (h c hc).2.trans (h' c hc).2⟩

/-- The errors of a statement. -/
inductive SqlError
  | noColumn (table column : String)
  | datatype (table column : String)
  | notNull (table column : String)
  | unique (table : String)
  | foreignKey
  | blobInJson
deriving DecidableEq, Repr

/-- A table definition: its columns, its primary key and its unique indexes. -/
structure Layout where
  name : String
  columns : List Column
  primaryKey : List String
  uniques : List (List String) := []
deriving DecidableEq, Repr

namespace Layout

variable (L : Layout)

/-- The keys of a table, in the order their indexes are checked. -/
def keys : List (List String) := L.primaryKey :: L.uniques

def column? (name : String) : Option Column :=
  L.columns.find? fun c => c.name == name

/-- The rows a table may hold. -/
structure RowOk (r : Row) : Prop where
  typed : ∀ n c, L.column? n = some c → (r n).hasType c.type = true
  present : ∀ n c, L.column? n = some c → c.notNull = true → r n ≠ .null
  outside : ∀ n, L.column? n = none → r n = .null

/-- A row that satisfies its table's column constraints. -/
abbrev StoredRow := {r : Row // L.RowOk r}

def defaults (now : String) : Row :=
  fun n => match L.column? n with
    | some c => c.default.eval now
    | none => .null

/-- The first column constraint a row breaks. -/
def fault? (aff : Affinity) (r : Row) : Option SqlError :=
  L.columns.findSome? fun c =>
    match aff.convert c.type (r c.name) with
    | none => some (.datatype L.name c.name)
    | some .null => if c.notNull then some (.notNull L.name c.name) else none
    | some _ => none

/-- The row as its columns store it. -/
def stored (aff : Affinity) (r : Row) : Row :=
  fun n => match L.column? n with
    | some c => (aff.convert c.type (r n)).getD .null
    | none => .null

variable {L}

theorem defaults_of_column? {n : String} {c : Column} (h : L.column? n = some c) (now : String) :
    L.defaults now n = c.default.eval now := by
  rw [defaults, h]

theorem mem_of_column? {n : String} {c : Column} (h : L.column? n = some c) :
    c ∈ L.columns ∧ c.name = n := by
  refine ⟨List.mem_of_find?_eq_some h, ?_⟩
  have := List.find?_some h
  simpa using this

/-- A value of its column's class is stored as it is. -/
theorem stored_of_typed {aff : Affinity} {r : Row} {n : String} {c : Column}
    (hc : L.column? n = some c) (h : (r n).hasType c.type = true) : L.stored aff r n = r n := by
  simp only [stored, hc, aff.convert_self _ _ h, Option.getD_some]

theorem convert_of_no_fault {aff : Affinity} {r : Row} (h : L.fault? aff r = none)
    {n : String} {c : Column} (hc : L.column? n = some c) :
    ∃ v, aff.convert c.type (r n) = some v ∧ (c.notNull = true → v ≠ .null) := by
  obtain ⟨hmem, hname⟩ := mem_of_column? hc
  rw [fault?, List.findSome?_eq_none_iff] at h
  have hcol := h c hmem
  rw [hname] at hcol
  cases hconv : aff.convert c.type (r n) with
  | none =>
      rw [hconv] at hcol
      cases hcol
  | some v =>
      refine ⟨v, rfl, ?_⟩
      rintro hnn rfl
      rw [hconv] at hcol
      simp only [hnn, if_true] at hcol
      cases hcol

theorem rowOk_stored {aff : Affinity} {r : Row} (h : L.fault? aff r = none) :
    L.RowOk (L.stored aff r) where
  typed n c hc := by
    obtain ⟨v, hv, _⟩ := convert_of_no_fault h hc
    simp only [stored, hc, hv, Option.getD_some]
    exact aff.convert_typed _ _ _ hv
  present n c hc hnn := by
    obtain ⟨v, hv, hne⟩ := convert_of_no_fault h hc
    simp only [stored, hc, hv, Option.getD_some]
    exact hne hnn
  outside n hn := by
    simp only [stored, hn]

variable (L)

/-- Check a row against the column constraints and bring it into the form the
    columns store. -/
def store (aff : Affinity) (r : Row) : Except SqlError L.StoredRow :=
  match h : L.fault? aff r with
  | some e => .error e
  | none => .ok ⟨L.stored aff r, rowOk_stored h⟩

/-- The first column a statement names that the table does not have. -/
def unknown? (values : Assignments) : Option String :=
  (values.map Prod.fst).find? fun n => (L.column? n).isNone

variable {L}

theorem store_eq_ok {aff : Affinity} {r : Row} {s : L.StoredRow}
    (h : L.store aff r = .ok s) : L.fault? aff r = none ∧ s.val = L.stored aff r := by
  unfold store at h
  split at h
  · cases h
  · next hf =>
      cases Except.ok.inj h
      exact ⟨hf, rfl⟩

/-- A row that satisfies the constraints is stored as it is. -/
theorem store_of_rowOk {aff : Affinity} {r : Row} (hr : L.RowOk r)
    (hnames : (L.columns.map Column.name).Nodup) : L.store aff r = .ok ⟨r, hr⟩ := by
  -- a value that has the type of its column is stored as it is
  have hself : ∀ n c, L.column? n = some c → aff.convert c.type (r n) = some (r n) :=
    fun n c hc => aff.convert_self _ _ (hr.typed n c hc)
  have hcol : ∀ c ∈ L.columns, L.column? c.name = some c := by
    intro c hc
    obtain ⟨d, hd⟩ : ∃ d, L.column? c.name = some d := by
      rw [column?, ← Option.isSome_iff_exists, List.find?_isSome]
      exact ⟨c, hc, by simp⟩
    obtain ⟨hmem, hname⟩ := mem_of_column? hd
    rw [hd, List.inj_on_of_nodup_map hnames hmem hc hname]
  have hfault : L.fault? aff r = none := by
    rw [fault?, List.findSome?_eq_none_iff]
    intro c hc
    rw [hself c.name c (hcol c hc)]
    cases hv : r c.name with
    | null =>
        have hnn : c.notNull = false := by
          by_contra hne
          exact hr.present c.name c (hcol c hc) (by simpa using hne) hv
        simp only [hnn, Bool.false_eq_true, if_false]
    | int n => rfl
    | real d => rfl
    | text s => rfl
    | blob b => rfl
  have hstored : L.stored aff r = r := by
    funext n
    cases hn : L.column? n with
    | none => simp only [stored, hn, hr.outside n hn]
    | some c => simp only [stored, hn, hself n c hn, Option.getD_some]
  unfold store
  split
  · next e he =>
      rw [hfault] at he
      cases he
  · next h =>
      simp only [hstored]

/-- No two rows of a table agree on one of its keys. -/
def Apart (L : Layout) (a b : L.StoredRow) : Prop :=
  ∀ k ∈ L.keys, agree k a.val b.val = false

theorem apart_symm {a b : L.StoredRow} (h : L.Apart a b) : L.Apart b a := by
  intro k hk
  have hab := h k hk
  by_contra hne
  have hba := agree_symm (by simpa using hne : agree k b.val a.val = true)
  rw [hab] at hba
  cases hba

/-- The two rows have one primary key. -/
def same (L : Layout) (a b : Row) : Bool := agree L.primaryKey a b

/-- The first row that agrees with `r` on a key, the keys tried in order. -/
def clash? (L : Layout) (rows : List L.StoredRow) (r : L.StoredRow) : Option L.StoredRow :=
  L.keys.findSome? fun k => rows.find? fun x => agree k x.val r.val

theorem apart_of_clash?_eq_none {rows : List L.StoredRow} {r : L.StoredRow}
    (h : L.clash? rows r = none) : ∀ x ∈ rows, L.Apart x r := by
  intro x hx k hk
  rw [clash?, List.findSome?_eq_none_iff] at h
  have := List.find?_eq_none.1 (h k hk) x hx
  simpa using this

theorem mem_of_clash? {rows : List L.StoredRow} {r x : L.StoredRow}
    (h : L.clash? rows r = some x) : x ∈ rows := by
  rw [clash?, List.findSome?_eq_some_iff] at h
  obtain ⟨_, k, _, _, hfind, _⟩ := h
  exact List.mem_of_find?_eq_some hfind

end Layout

/-- A table: typed rows, no two of which agree on a key. -/
structure Table (L : Layout) where
  rows : List L.StoredRow
  apart : rows.Pairwise L.Apart

namespace Table

variable {L : Layout}

@[ext] theorem ext' {t t' : Table L} (h : t.rows = t'.rows) : t = t' := by
  cases t
  cases t'
  cases h
  rfl

def empty : Table L := ⟨[], List.Pairwise.nil⟩

/-- Rows without a key in common with `r`, with `r` added. -/
def append (t : Table L) (r : L.StoredRow) (h : L.clash? t.rows r = none) : Table L where
  rows := t.rows ++ [r]
  apart := by
    rw [List.pairwise_append]
    refine ⟨t.apart, List.pairwise_singleton _ _, ?_⟩
    intro x hx y hy
    cases List.mem_singleton.1 hy
    exact L.apart_of_clash?_eq_none h x hx

/-- The rows that satisfy a condition. -/
def filter (t : Table L) (p : L.StoredRow → Bool) : Table L where
  rows := t.rows.filter p
  apart := t.apart.filter p

/-- The table without the rows of `old`'s primary key. -/
def erase (t : Table L) (old : L.StoredRow) : Table L :=
  t.filter fun x => !L.same x.val old.val

theorem apart_map_replace {rows : List L.StoredRow} {old r : L.StoredRow}
    (h : rows.Pairwise L.Apart)
    (hr : ∀ x ∈ rows, L.same x.val old.val = false → L.Apart x r) :
    (rows.map fun x => if L.same x.val old.val then r else x).Pairwise L.Apart := by
  induction rows with
  | nil => exact List.Pairwise.nil
  | cons a rest ih =>
      obtain ⟨ha, hrest⟩ := List.pairwise_cons.1 h
      have ih := ih hrest fun x hx => hr x (List.mem_cons_of_mem _ hx)
      rw [List.map_cons, List.pairwise_cons]
      refine ⟨?_, ih⟩
      intro y hy
      obtain ⟨x, hx, rfl⟩ := List.mem_map.1 hy
      have hax := ha x hx
      by_cases hsa : L.same a.val old.val = true <;> by_cases hsx : L.same x.val old.val = true
      · -- both would be the one row of this primary key
        have hsame := agree_trans hsa (agree_symm hsx)
        have hno := hax L.primaryKey List.mem_cons_self
        rw [hsame] at hno
        cases hno
      · rw [if_pos hsa, if_neg hsx]
        exact L.apart_symm (hr x (List.mem_cons_of_mem _ hx) (by simpa using hsx))
      · rw [if_neg hsa, if_pos hsx]
        exact hr a List.mem_cons_self (by simpa using hsa)
      · rw [if_neg hsa, if_neg hsx]
        exact hax

/-- The row of `old`'s primary key replaced by `r`. -/
def replace (t : Table L) (old r : L.StoredRow) (h : L.clash? (t.erase old).rows r = none) :
    Table L where
  rows := t.rows.map fun x => if L.same x.val old.val then r else x
  apart := by
    refine apart_map_replace t.apart ?_
    intro x hx hne
    refine L.apart_of_clash?_eq_none h x ?_
    exact List.mem_filter.2 ⟨hx, by simpa using hne⟩

/-- `INSERT`: refused when the row agrees with another one on a key. -/
def insert (t : Table L) (r : L.StoredRow) : Except SqlError (Table L) :=
  if h : L.clash? t.rows r = none then .ok (t.append r h) else .error (.unique L.name)

/-- `UPDATE` of one row. -/
def update (aff : Affinity) (t : Table L) (old : L.StoredRow) (new : Row) :
    Except SqlError (L.StoredRow × Table L) :=
  match L.store aff new with
  | .error e => .error e
  | .ok r =>
      if h : L.clash? (t.erase old).rows r = none then .ok (r, t.replace old r h)
      else .error (.unique L.name)

theorem insert_eq_ok_iff {t t' : Table L} {r : L.StoredRow} :
    t.insert r = .ok t' ↔ ∃ h : L.clash? t.rows r = none, t' = t.append r h := by
  rw [insert]
  constructor
  · intro hinsert
    split at hinsert
    · next h => exact ⟨h, (Except.ok.inj hinsert).symm⟩
    · cases hinsert
  · rintro ⟨h, rfl⟩
    exact dif_pos h

/-- An update stores the row it brings to the columns, where no other row agrees with it
    on a key. -/
theorem update_eq_ok_iff {aff : Affinity} {t t' : Table L} {old s : L.StoredRow} {new : Row} :
    t.update aff old new = .ok (s, t') ↔
      L.store aff new = .ok s ∧
        ∃ h : L.clash? (t.erase old).rows s = none, t' = t.replace old s h := by
  rw [update]
  constructor
  · intro hupdate
    split at hupdate
    · cases hupdate
    next s' hstore =>
      split at hupdate
      · next h =>
          obtain ⟨rfl, rfl⟩ := Prod.mk.inj (Except.ok.inj hupdate)
          exact ⟨hstore, h, rfl⟩
      · cases hupdate
  · rintro ⟨hstore, h, rfl⟩
    rw [hstore]
    exact dif_pos h

/-- The row an `INSERT` that names `values` would add. -/
def candidate (aff : Affinity) (now : String) (L : Layout) (values : Assignments) :
    Except SqlError L.StoredRow :=
  match L.unknown? values with
  | some c => .error (.noColumn L.name c)
  | none => L.store aff (overlay (L.defaults now) values)

end Table

end SqlRows

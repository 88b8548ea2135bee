import Livtet.Lib.JsonTree
import Livtet.Lib.Outcomes

/-! # Records and tagged unions as documents

    A record is an object with a member for each field; a reader ignores members it
    does not know and refuses a field given twice. A union that is tagged internally
    is an object whose tag member names the variant, beside the members of the
    variant's own payload: a payload that is not an object has nowhere to stand. One
    that is tagged adjacently has the payload, whatever it is, in a member of its own.
    A union that is tagged externally is a name, or an object with one member.

    A `Codec` writes the values of a type and reads back what it wrote. -/

namespace TaggedJson

open JsonText JsonText.Json

abbrev Members := List (String × Json)

variable {α : Type}

/-! ## Reading a record -/

def field (members : Members) (name : String) (read : Json → Except String α) :
    Except String α :=
  match members.filter fun p => p.1 == name with
  | [] => .error s!"missing field `{name}`"
  | [p] => read p.2
  | _ => .error s!"duplicate field `{name}`"

/-- A field with a default for when it is absent. -/
def fieldOr (absent : α) (members : Members) (name : String) (read : Json → Except String α) :
    Except String α :=
  match members.filter fun p => p.1 == name with
  | [] => .ok absent
  | [p] => read p.2
  | _ => .error s!"duplicate field `{name}`"

def readMembers : Json → Except String Members
  | .obj members => .ok members
  | _ => .error "invalid type, expected a map"

@[simp] theorem ok_bind {β : Type} (a : α) (f : α → Except String β) : (Except.ok a >>= f) = f a :=
  (rfl)

@[simp] theorem map_ok {β : Type} (a : α) (f : α → β) :
    (f <$> (Except.ok a : Except String α)) = .ok (f a) := (rfl)

section Field

variable {members : Members} {name k : String} {x : Json} {read : Json → Except String α}
  {absent : α}

@[simp] theorem field_cons_ne (h : k ≠ name) : field ((k, x) :: members) name read =
    field members name read := by
  rw [field, field, List.filter_cons_of_neg (by simpa using h)]

@[simp] theorem fieldOr_cons_ne (h : k ≠ name) : fieldOr absent ((k, x) :: members) name read =
    fieldOr absent members name read := by
  rw [fieldOr, fieldOr, List.filter_cons_of_neg (by simpa using h)]

theorem filter_name_cons_self (h : ∀ p ∈ members, p.1 ≠ name) :
    (((name, x) :: members).filter fun p => p.1 == name) = [(name, x)] := by
  have hrest : (members.filter fun p => p.1 == name) = [] :=
    List.filter_eq_nil_iff.2 fun p hp he => h p hp (beq_iff_eq.1 he)
  rw [List.filter_cons_of_pos (by simp), hrest]

@[simp] theorem field_cons_self (h : ∀ p ∈ members, p.1 ≠ name) :
    field ((name, x) :: members) name read = read x := by
  rw [field, filter_name_cons_self h]

@[simp] theorem fieldOr_cons_self (h : ∀ p ∈ members, p.1 ≠ name) :
    fieldOr absent ((name, x) :: members) name read = read x := by
  rw [fieldOr, filter_name_cons_self h]

@[simp] theorem fieldOr_nil : fieldOr absent [] name read = .ok absent := (rfl)

end Field

/-! ## Tagged unions -/

/-- An internally tagged variant with fields of its own. -/
def tagged (tag name : String) (members : Members) : Json := .obj ((tag, .str name) :: members)

/-- What a variant with one unnamed field holds. -/
inductive Payload
  | record (members : Members)
  | sequence (items : List Json)
  | boolean (b : Bool)
  | string (s : String)

/-- An internally tagged variant around a payload. -/
def tagNewtype (enum variant tag name : String) : Payload → Except String Json
  | .record members => .ok (tagged tag name members)
  | .sequence _ =>
      .error s!"cannot serialize tagged newtype variant {enum}::{variant} containing a sequence"
  | .boolean _ =>
      .error s!"cannot serialize tagged newtype variant {enum}::{variant} containing a boolean"
  | .string _ =>
      .error s!"cannot serialize tagged newtype variant {enum}::{variant} containing a string"

/-- The variant an internally tagged object names, and the rest of its members. -/
def readTag (tag : String) (j : Json) : Except String (String × Members) := do
  let members ← readMembers j
  let name ← field members tag fun
    | .str name => .ok name
    | _ => .error "invalid type, expected a variant identifier"
  pure (name, members.filter fun p => p.1 != tag)

theorem readTag_tagged {tag name : String} {members : Members} (h : ∀ p ∈ members, p.1 ≠ tag) :
    readTag tag (tagged tag name members) = .ok (name, members) := by
  have hrest : (((tag, Json.str name) :: members).filter fun p => p.1 != tag) = members := by
    rw [List.filter_cons_of_neg (by simp)]
    exact List.filter_eq_self.2 fun p hp => by simpa using h p hp
  simp only [readTag, tagged, readMembers, ok_bind, field_cons_self h, hrest]
  rfl

/-- An adjacently tagged variant: its name in one member, what it holds in another. -/
def adjacent (tag content name : String) (payload : Json) : Json :=
  .obj [(tag, .str name), (content, payload)]

/-- The variant an adjacently tagged object names, and what it holds. -/
def readAdjacent (tag content : String) (j : Json) : Except String (String × Json) := do
  let members ← readMembers j
  let name ← field members tag fun
    | .str name => .ok name
    | _ => .error "invalid type, expected a variant identifier"
  let payload ← field members content .ok
  pure (name, payload)

theorem readAdjacent_adjacent {tag content name : String} {payload : Json} (h : tag ≠ content) :
    readAdjacent tag content (adjacent tag content name payload) = .ok (name, payload) := by
  have htag : ∀ p ∈ [(content, payload)], p.1 ≠ tag := by simpa using h.symm
  have hcontent : ∀ p ∈ ([] : Members), p.1 ≠ content := fun _ hp => by cases hp
  simp only [readAdjacent, adjacent, readMembers, ok_bind, field_cons_self htag,
    field_cons_ne h, field_cons_self hcontent]
  rfl

theorem depth_adjacent (tag content name : String) (payload : Json) :
    (adjacent tag content name payload).depth = payload.depth + 1 := by
  simp [adjacent, depth, membersDepth]

/-! ## Light documents -/

/-- At most `n` levels, integers of 64 bits, and no fraction. -/
structure Light (n : Nat) (j : Json) : Prop where
  depth_le : j.depth ≤ n
  inRange : ∀ i, .int i ∈ j.scalars → InRange i
  no_real : ∀ d, .real d ∉ j.scalars

namespace Light

variable {n : Nat}

theorem null : Light n .null := ⟨Nat.zero_le n, by simp [scalars], by simp [scalars]⟩

theorem bool (b : Bool) : Light n (.bool b) := ⟨Nat.zero_le n, by simp [scalars], by simp [scalars]⟩

theorem str (s : String) : Light n (.str s) := ⟨Nat.zero_le n, by simp [scalars], by simp [scalars]⟩

theorem int {i : Int} (h : InRange i) : Light n (.int i) :=
  ⟨Nat.zero_le n, by simpa [scalars] using h, by simp [scalars]⟩

theorem arr {items : List Json} (h : ∀ x ∈ items, Light n x) : Light (n + 1) (.arr items) where
  depth_le := depth_arr_le_iff.2 fun x hx => (h x hx).depth_le
  inRange i hi := by
    rw [scalars_arr] at hi
    obtain ⟨x, hx, hi⟩ := List.mem_flatMap.1 hi
    exact (h x hx).inRange i hi
  no_real d hd := by
    rw [scalars_arr] at hd
    obtain ⟨x, hx, hd⟩ := List.mem_flatMap.1 hd
    exact (h x hx).no_real d hd

theorem obj {members : Members} (h : ∀ p ∈ members, Light n p.2) :
    Light (n + 1) (.obj members) where
  depth_le := depth_obj_le_iff.2 fun p hp => (h p hp).depth_le
  inRange i hi := by
    rw [scalars_obj] at hi
    obtain ⟨p, hp, hi⟩ := List.mem_flatMap.1 hi
    exact (h p hp).inRange i hi
  no_real d hd := by
    rw [scalars_obj] at hd
    obtain ⟨p, hp, hd⟩ := List.mem_flatMap.1 hd
    exact (h p hp).no_real d hd

theorem adjacent {tag content name : String} {payload : Json} (h : Light n payload) :
    Light (n + 1) (adjacent tag content name payload) :=
  .obj (List.forall_mem_cons.2 ⟨.str name, List.forall_mem_singleton.2 h⟩)

theorem mono {m : Nat} {j : Json} (h : Light m j) (hle : m ≤ n) : Light n j :=
  ⟨Nat.le_trans h.depth_le hle, h.inRange, h.no_real⟩

theorem mapReal_eq {f : SqlRows.Decimal → SqlRows.Decimal} {j : Json} (h : Light n j) :
    j.mapReal f = j :=
  (mapReal_eq_self_iff j).2 fun d hd => absurd hd (h.no_real d)

end Light

/-! ## Codecs -/

structure Codec (α : Type) where
  write : α → Json
  read : Json → Except String α
  levels : Nat
  read_write : ∀ a, read (write a) = .ok a
  light : ∀ a, Light levels (write a)

namespace Codec

attribute [simp] Codec.read_write

theorem light_of_le (c : Codec α) {n : Nat} (h : c.levels ≤ n) (a : α) : Light n (c.write a) :=
  (c.light a).mono h

def str : Codec String where
  write := .str
  read
    | .str s => .ok s
    | _ => .error "invalid type, expected a string"
  levels := 0
  read_write _ := rfl
  light := .str

def bool : Codec Bool where
  write := .bool
  read
    | .bool b => .ok b
    | _ => .error "invalid type, expected a boolean"
  levels := 0
  read_write _ := rfl
  light := .bool

/-- An integer type that holds the numbers from `lo` up to `hi`. -/
def integer (lo hi : Int) (toInt : α → Int) (ofInt : Int → α) (hlo : -2 ^ 63 ≤ lo)
    (hhi : hi ≤ 2 ^ 64) (range : ∀ a, lo ≤ toInt a ∧ toInt a < hi)
    (ofInt_toInt : ∀ a, ofInt (toInt a) = a) : Codec α where
  write a := .int (toInt a)
  read
    | .int n =>
        if lo ≤ n ∧ n < hi then .ok (ofInt n) else .error "invalid value, integer out of range"
    | _ => .error "invalid type, expected an integer"
  levels := 0
  read_write a := by
    show (if lo ≤ toInt a ∧ toInt a < hi then _ else _) = _
    rw [if_pos (range a), ofInt_toInt a]
  light a := .int ⟨hlo.trans (range a).1, (range a).2.trans_le hhi⟩

def i64 : Codec Int64 :=
  integer (-2 ^ 63) (2 ^ 63) Int64.toInt Int64.ofInt (by decide) (by decide)
    (fun a => ⟨Int64.le_toInt a, Int64.toInt_lt a⟩) fun _ => Int64.ofInt_toInt _

def u64 : Codec UInt64 :=
  integer 0 (2 ^ 64) (fun a => a.toNat) (fun n => UInt64.ofNat n.toNat) (by decide) (by decide)
    (fun a => ⟨Int.natCast_nonneg _, by exact_mod_cast a.toNat_lt⟩) fun a => by simp

def u32 : Codec UInt32 :=
  integer 0 (2 ^ 32) (fun a => a.toNat) (fun n => UInt32.ofNat n.toNat) (by decide) (by decide)
    (fun a => ⟨Int.natCast_nonneg _, by exact_mod_cast a.toNat_lt⟩) fun a => by simp

def u16 : Codec UInt16 :=
  integer 0 (2 ^ 16) (fun a => a.toNat) (fun n => UInt16.ofNat n.toNat) (by decide) (by decide)
    (fun a => ⟨Int.natCast_nonneg _, by exact_mod_cast a.toNat_lt⟩) fun a => by simp

def u8 : Codec UInt8 :=
  integer 0 (2 ^ 8) (fun a => a.toNat) (fun n => UInt8.ofNat n.toNat) (by decide) (by decide)
    (fun a => ⟨Int.natCast_nonneg _, by exact_mod_cast a.toNat_lt⟩) fun a => by simp

/-- An absent value is null, which no present one may be. -/
def option (c : Codec α) (ne_null : ∀ a, c.write a ≠ .null) : Codec (Option α) where
  write
    | none => .null
    | some a => c.write a
  read
    | .null => .ok none
    | j => (c.read j).map some
  levels := c.levels
  read_write
    | none => rfl
    | some a => by
        have h : (c.read (c.write a)).map some = .ok (some a) :=
          congrArg (Except.map some) (c.read_write a)
        cases hj : c.write a with
        | null => exact absurd hj (ne_null a)
        | _ => simpa only [hj] using h
  light
    | none => .null
    | some a => c.light a

def vec (c : Codec α) : Codec (List α) where
  write as := .arr (as.map c.write)
  read
    | .arr items => items.mapM c.read
    | _ => .error "invalid type, expected a sequence"
  levels := c.levels + 1
  read_write as := by
    have h : as.mapM (c.read ∘ c.write) = .ok (as.map id) :=
      Outcomes.mapM_eq_ok fun a _ => c.read_write a
    rw [List.map_id] at h
    show (as.map c.write).mapM c.read = .ok as
    rw [List.mapM_map, h]
  light as := .arr (List.forall_mem_map.2 fun a _ => c.light a)

section Levels

@[simp] theorem levels_str : str.levels = 0 := (rfl)
@[simp] theorem levels_bool : bool.levels = 0 := (rfl)
@[simp] theorem levels_i64 : i64.levels = 0 := (rfl)
@[simp] theorem levels_u64 : u64.levels = 0 := (rfl)
@[simp] theorem levels_u32 : u32.levels = 0 := (rfl)
@[simp] theorem levels_u16 : u16.levels = 0 := (rfl)
@[simp] theorem levels_u8 : u8.levels = 0 := (rfl)
@[simp] theorem levels_vec (c : Codec α) : c.vec.levels = c.levels + 1 := (rfl)
@[simp] theorem levels_option (c : Codec α) (h : ∀ a, c.write a ≠ .null) :
    (c.option h).levels = c.levels := (rfl)

end Levels

end Codec

/-! ## Records -/

/-- A record type: its fields as members, at most `levels` deep. -/
structure Record (α : Type) where
  members : α → Members
  read : Members → Except String α
  levels : Nat
  read_members : ∀ a, read (members a) = .ok a
  light_members : ∀ a, ∀ p ∈ members a, Light levels p.2

attribute [simp] Record.read_members

/-- A record that stands inside another. -/
def Record.codec (r : Record α) : Codec α where
  write a := .obj (r.members a)
  read j := readMembers j >>= r.read
  levels := r.levels + 1
  read_write a := r.read_members a
  light a := .obj (r.light_members a)

@[simp] theorem Record.levels_codec (r : Record α) : r.codec.levels = r.levels + 1 := (rfl)

end TaggedJson

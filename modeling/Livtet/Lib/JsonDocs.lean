import Livtet.Lib.JsonTree

/-! # Documents as bytes

    `SerdeJson` is what a program relies on from a library that writes documents as
    UTF-8 text and reads them: an object whose integers fit 64 bits reads back as it
    was, except that a fraction is read with the reader's own precision, unless it is
    nested deeper than 127 levels, which the reader refuses.

    `SerdeJson.exact` is a codec with these laws, whose reader is exact. -/

namespace JsonText

open SqlRows Json

/-- The levels of arrays and objects a reader goes into. -/
def recursionLimit : Nat := 127

structure SerdeJson where
  toVec : Json → List UInt8
  fromSlice : List UInt8 → Except String Json
  /-- The fraction that the text of one is read as. -/
  reread : Decimal → Decimal
  fromSlice_toVec : ∀ members, (∀ n, .int n ∈ (Json.obj members).scalars → InRange n) →
    (Json.obj members).depth ≤ recursionLimit →
      fromSlice (toVec (.obj members)) = .ok ((Json.obj members).mapReal reread)
  fromSlice_deep : ∀ members, (∀ n, .int n ∈ (Json.obj members).scalars → InRange n) →
    recursionLimit < (Json.obj members).depth →
      ∃ e, fromSlice (toVec (.obj members)) = .error e

/-! ## A codec of whole documents -/

namespace Nested

open Flat

def readLeaf : List Char → Option (Json × List Char)
  | 't' :: 'r' :: 'u' :: 'e' :: rest => some (.bool true, rest)
  | 'f' :: 'a' :: 'l' :: 's' :: 'e' :: rest => some (.bool false, rest)
  | cs => readScalar cs

/-- What stands between two brackets, one comma between neighbours; there is something. -/
def readSeq {α : Type} (close : Char) (read : List Char → Option (α × List Char)) :
    Nat → List Char → Option (List α × List Char)
  | 0, _ => none
  | fuel + 1, cs =>
      match read cs with
      | some (x, c :: rest) =>
          if c = ',' then (readSeq close read fuel rest).map fun p => (x :: p.1, p.2)
          else if c = close then some ([x], rest)
          else none
      | _ => none

/-- A name and its value. -/
def readMember (read : List Char → Option (Json × List Char)) :
    List Char → Option ((String × Json) × List Char)
  | '"' :: cs =>
      match readString cs with
      | some (name, ':' :: rest) => (read rest).map fun p => ((String.ofList name, p.1), p.2)
      | _ => none
  | _ => none

/-- One value, at most `levels` deep. -/
def readValue : Nat → List Char → Option (Json × List Char)
  | 0, cs => readLeaf cs
  | levels + 1, cs =>
      if cs.head? = some '[' then
        if cs.tail.head? = some ']' then some (.arr [], cs.tail.tail)
        else (readSeq ']' (readValue levels) cs.length cs.tail).map fun p => (.arr p.1, p.2)
      else if cs.head? = some '\x7b' then
        if cs.tail.head? = some '\x7d' then some (.obj [], cs.tail.tail)
        else (readSeq '\x7d' (readMember (readValue levels)) cs.length cs.tail).map fun p =>
          (.obj p.1, p.2)
      else readLeaf cs

/-! ### Reading what was written -/

section Sequences

variable {α : Type}

/-- Texts with a comma between neighbours. -/
def joined (text : α → List Char) : List α → List Char
  | [] => []
  | [x] => text x
  | x :: y :: rest => text x ++ ',' :: joined text (y :: rest)

/-- `read` gives back what `text` wrote if it is at most `levels` deep, and refuses it
    otherwise. -/
def Reads (read : List Char → Option (α × List Char)) (text : α → List Char) (depth : α → Nat)
    (levels : Nat) (x : α) : Prop :=
  ∀ (c : Char) (rest : List Char), EndsNumber c →
    read (text x ++ c :: rest) = if depth x ≤ levels then some (x, c :: rest) else none

theorem endsNumber_comma : EndsNumber ',' := ⟨by decide, by decide⟩

variable {read : List Char → Option (α × List Char)} {text : α → List Char} {depth : α → Nat}
  {levels : Nat} {close : Char}

theorem readSeq_joined (hclose : EndsNumber close) (hne : close ≠ ',') :
    ∀ {xs : List α} {fuel : Nat}, xs ≠ [] → xs.length ≤ fuel →
      (∀ x ∈ xs, Reads read text depth levels x) → ∀ rest : List Char,
        readSeq close read fuel (joined text xs ++ close :: rest) =
          if ∀ x ∈ xs, depth x ≤ levels then some (xs, rest) else none
  | [], _, h, _, _, _ => absurd rfl h
  | _ :: _, 0, _, hfuel, _, _ => absurd hfuel (by simp)
  | [x], fuel + 1, _, _, h, rest => by
      rw [joined, readSeq, h x List.mem_cons_self close rest hclose]
      by_cases hd : depth x ≤ levels
      · rw [if_pos hd, if_pos (by simpa using hd)]
        simp only [if_neg hne, if_true]
      · rw [if_neg hd, if_neg (by simpa using hd)]
  | x :: y :: xs, fuel + 1, _, hfuel, h, rest => by
      obtain ⟨hx, hxs⟩ := List.forall_mem_cons.1 h
      have hall : (∀ z ∈ x :: y :: xs, depth z ≤ levels) ↔ _ := List.forall_mem_cons
      have ih := readSeq_joined hclose hne (List.cons_ne_nil y xs) (by simpa using hfuel) hxs rest
      rw [joined, List.append_assoc, List.cons_append, readSeq, hx ',' _ endsNumber_comma]
      by_cases hd : depth x ≤ levels
      · rw [if_pos hd]
        simp only [if_true, ih]
        by_cases hds : ∀ z ∈ y :: xs, depth z ≤ levels
        · rw [if_pos hds, if_pos (hall.2 ⟨hd, hds⟩), Option.map_some]
        · rw [if_neg hds, if_neg fun h => hds (hall.1 h).2, Option.map_none]
      · rw [if_neg hd, if_neg fun h => hd (hall.1 h).1]

theorem length_le_joined (h : ∀ x, 0 < (text x).length) : ∀ xs : List α,
    xs.length ≤ (joined text xs).length
  | [] => Nat.le_refl 0
  | [x] => h x
  | x :: y :: xs => by
      have ih := length_le_joined h (y :: xs)
      simp only [joined, List.length_append, List.length_cons] at ih ⊢
      omega

end Sequences

theorem renderItems_eq : ∀ items : List Json, renderItems items = joined renderValue items
  | [] => rfl
  | [x] => by rw [renderItems, joined]
  | x :: y :: rest => by
      rw [renderItems, joined, renderItems_eq (y :: rest)]
      rintro ⟨⟩

def renderMember (p : String × Json) : List Char := quote p.1 ++ ':' :: renderValue p.2

theorem renderMembers_eq : ∀ members : List (String × Json),
    renderMembers members = joined renderMember members
  | [] => rfl
  | [p] => by rw [renderMembers, joined, renderMember]
  | p :: q :: rest => by
      rw [renderMembers, joined, renderMembers_eq (q :: rest), renderMember]
      rintro ⟨⟩

/-! ### Leaves -/

/-- A text that begins as a number does. -/
def StartsNumber (cs : List Char) : Prop :=
  ∃ c rest, cs = c :: rest ∧ (c = '-' ∨ c.isDigit = true)

theorem startsNumber_digits {ds : List Char} (hne : ds ≠ []) (h : ∀ d ∈ ds, d.isDigit = true)
    (rest : List Char) : StartsNumber (ds ++ rest) := by
  cases ds with
  | nil => exact absurd rfl hne
  | cons d ds => exact ⟨d, _, rfl, .inr (h d List.mem_cons_self)⟩

theorem startsNumber_writeInt (n : Int) : StartsNumber (writeInt n) := by
  rw [writeInt]
  split
  · exact ⟨'-', _, rfl, .inl rfl⟩
  · have h := startsNumber_digits Nat.toDigits_ne_nil (isDigit_toDigits n.natAbs) []
    rwa [List.append_nil] at h

theorem startsNumber_writeReal (d : Decimal) : StartsNumber (writeReal d) := by
  simp only [writeReal]
  split
  · exact ⟨'-', _, rfl, .inl rfl⟩
  · exact startsNumber_digits (wholeDigits_ne_nil d) (isDigit_wholeDigits d) _

/-- The first character of a number is none of the others a value begins with. -/
theorem StartsNumber.ne {cs : List Char} (h : StartsNumber cs) (rest : List Char) {c : Char}
    (hc : c ≠ '-' ∧ c.isDigit = false) : (cs ++ rest).head? ≠ some c := by
  obtain ⟨d, ds, rfl, hd⟩ := h
  intro he
  cases Option.some.inj he
  rcases hd with hd | hd
  · exact hc.1 hd
  · rw [hd] at hc
    cases hc.2

theorem readLeaf_eq_readScalar {cs : List Char} (ht : cs.head? ≠ some 't')
    (hf : cs.head? ≠ some 'f') : readLeaf cs = readScalar cs := by
  rw [readLeaf]
  · rintro rest rfl
    exact ht rfl
  · rintro rest rfl
    exact hf rfl

/-- The value of a leaf is read whatever the number of levels. -/
theorem readValue_leaf {levels : Nat} {cs : List Char} (harr : cs.head? ≠ some '[')
    (hobj : cs.head? ≠ some '\x7b') : readValue levels cs = readLeaf cs := by
  cases levels with
  | zero => rfl
  | succ levels => rw [readValue, if_neg harr, if_neg hobj]

theorem readValue_number {levels : Nat} {cs : List Char} (h : StartsNumber cs)
    (rest : List Char) : readValue levels (cs ++ rest) = readScalar (cs ++ rest) := by
  rw [readValue_leaf (h.ne rest (by decide)) (h.ne rest (by decide)),
    readLeaf_eq_readScalar (h.ne rest (by decide)) (h.ne rest (by decide))]

/-- No value begins with a closing bracket. -/
theorem renderValue_head (j : Json) (rest : List Char) :
    (renderValue j ++ rest).head? ≠ some ']' := by
  cases j with
  | null => rintro ⟨⟩
  | bool b => cases b <;> rintro ⟨⟩
  | int n => exact (startsNumber_writeInt n).ne rest (by decide)
  | real d => exact (startsNumber_writeReal d).ne rest (by decide)
  | str s => rintro ⟨⟩
  | arr items => rintro ⟨⟩
  | obj members => rintro ⟨⟩

/-! ### Whole values -/

theorem readMember_render {read : List Char → Option (Json × List Char)} {levels : Nat}
    {p : String × Json} (h : Reads read renderValue depth levels p.2) :
    Reads (readMember read) renderMember (fun p => p.2.depth) levels p := by
  intro c rest hc
  simp only [renderMember, quote, List.cons_append, List.append_assoc, List.nil_append, readMember,
    readString_quote, h c rest hc, String.ofList_toList]
  split <;> rfl

theorem renderValue_pos (j : Json) : 0 < (renderValue j).length := by
  cases j with
  | int n =>
      obtain ⟨c, cs, h, _⟩ := startsNumber_writeInt n
      simp [renderValue, h]
  | real d =>
      obtain ⟨c, cs, h, _⟩ := startsNumber_writeReal d
      simp [renderValue, h]
  | bool b => cases b <;> simp [renderValue]
  | _ => simp [renderValue, quote]

theorem renderMember_pos (p : String × Json) : 0 < (renderMember p).length := by
  simp [renderMember]

theorem renderItems_head {items : List Json} (hne : items ≠ []) (rest : List Char) :
    (joined renderValue items ++ rest).head? ≠ some ']' := by
  match items with
  | [] => exact absurd rfl hne
  | [x] => exact renderValue_head x rest
  | x :: y :: items =>
      rw [joined, List.append_assoc]
      exact renderValue_head x _

theorem renderMembers_head {members : List (String × Json)} (hne : members ≠ [])
    (rest : List Char) : (joined renderMember members ++ rest).head? ≠ some '\x7d' := by
  match members with
  | [] => exact absurd rfl hne
  | [p] => rintro ⟨⟩
  | p :: q :: members => rintro ⟨⟩

theorem readValue_arr {levels : Nat} {items : List Json}
    (h : ∀ x ∈ items, Reads (readValue levels) renderValue depth levels x) (rest : List Char) :
    readValue (levels + 1) (renderValue (.arr items) ++ rest) =
      if (Json.arr items).depth ≤ levels + 1 then some (.arr items, rest) else none := by
  have htext : renderValue (.arr items) ++ rest =
      '[' :: (joined renderValue items ++ ']' :: rest) := by
    simp [renderValue, renderItems_eq]
  simp only [htext, readValue, List.head?_cons, if_true, List.tail_cons, depth_arr_le_iff]
  rcases eq_or_ne items [] with rfl | hne
  · simp [joined]
  · have hlen := length_le_joined renderValue_pos items
    have hfuel : items.length ≤ ('[' :: (joined renderValue items ++ ']' :: rest)).length := by
      simp only [List.length_cons, List.length_append]
      omega
    rw [if_neg (renderItems_head hne _),
      readSeq_joined ⟨by decide, by decide⟩ (by decide) hne hfuel h rest]
    split <;> rfl

theorem readValue_obj {levels : Nat} {members : List (String × Json)}
    (h : ∀ p ∈ members, Reads (readValue levels) renderValue depth levels p.2)
    (rest : List Char) :
    readValue (levels + 1) (renderValue (.obj members) ++ rest) =
      if (Json.obj members).depth ≤ levels + 1 then some (.obj members, rest) else none := by
  have htext : renderValue (.obj members) ++ rest =
      '\x7b' :: (joined renderMember members ++ '\x7d' :: rest) := by
    simp [renderValue, renderMembers_eq]
  simp only [htext, readValue, List.head?_cons, List.tail_cons, depth_obj_le_iff]
  rw [if_neg (by decide), if_pos trivial]
  rcases eq_or_ne members [] with rfl | hne
  · simp [joined]
  · have hlen := length_le_joined renderMember_pos members
    have hfuel : members.length ≤
        ('\x7b' :: (joined renderMember members ++ '\x7d' :: rest)).length := by
      simp only [List.length_cons, List.length_append]
      omega
    rw [if_neg (renderMembers_head hne _),
      readSeq_joined ⟨by decide, by decide⟩ (by decide) hne hfuel
        (fun p hp => readMember_render (h p hp)) rest]
    split <;> rfl

/-- Induction over the document, with one level less for what stands in it. -/
theorem reads_readValue (j : Json) : ∀ levels,
    Reads (readValue levels) renderValue depth levels j := by
  induction j using tree_induction with
  | scalar j harr hobj =>
      intro levels c rest hc
      cases j with
      | null => exact readValue_leaf (by rintro ⟨⟩) (by rintro ⟨⟩)
      | bool b => cases b <;> exact readValue_leaf (by rintro ⟨⟩) (by rintro ⟨⟩)
      | int n =>
          exact (readValue_number (startsNumber_writeInt n) _).trans (readScalar_writeInt n hc rest)
      | real d =>
          exact (readValue_number (startsNumber_writeReal d) _).trans
            (readScalar_writeReal d hc rest)
      | str s =>
          exact (readValue_leaf (by rintro ⟨⟩) (by rintro ⟨⟩)).trans
            (readScalar_writeScalar (v := .text s) (fun _ h => by cases h) hc rest)
      | arr items => exact absurd rfl (harr items)
      | obj members => exact absurd rfl (hobj members)
  | arr items ih =>
      intro levels c rest hc
      cases levels with
      | zero => rfl
      | succ levels => exact readValue_arr (fun x hx => ih x hx levels) _
  | obj members ih =>
      intro levels c rest hc
      cases levels with
      | zero => rfl
      | succ levels => exact readValue_obj (fun p hp => ih p hp levels) _

/-! ### As bytes -/

def toVec (j : Json) : List UInt8 := (renderValue j).flatMap String.utf8EncodeChar

def fromSlice (bytes : List UInt8) : Except String Json :=
  match bytes.toByteArray.utf8Decode? with
  | none => .error "invalid unicode code point"
  | some text =>
      match readValue recursionLimit text.toList with
      | some (j, []) => .ok j
      | _ => .error "invalid document"

theorem fromSlice_toVec (j : Json) : fromSlice (toVec j) =
    match readValue recursionLimit (renderValue j) with
      | some (j, []) => .ok j
      | _ => .error "invalid document" := by
  have hdecode : (toVec j).toByteArray.utf8Decode? = some (renderValue j).toArray :=
    List.utf8Decode?_utf8Encode
  rw [fromSlice, hdecode]

theorem readValue_document (members : List (String × Json)) :
    readValue recursionLimit (renderValue (.obj members)) =
      if (Json.obj members).depth ≤ recursionLimit then some (.obj members, []) else none := by
  have h : readValue (126 + 1) (renderValue (.obj members) ++ []) = _ :=
    readValue_obj (fun p _ => reads_readValue p.2 126) []
  rwa [List.append_nil] at h

end Nested

/-- The codec of whole documents satisfies the laws a program relies on. -/
def SerdeJson.exact : SerdeJson where
  toVec := Nested.toVec
  fromSlice := Nested.fromSlice
  reread := id
  fromSlice_toVec members _ hdepth := by
    have hid : (Json.obj members).mapReal id = .obj members :=
      (mapReal_eq_self_iff _).2 fun _ _ => rfl
    rw [Nested.fromSlice_toVec, Nested.readValue_document, if_pos hdepth, hid]
  fromSlice_deep members _ hdeep := by
    rw [Nested.fromSlice_toVec, Nested.readValue_document, if_neg (Nat.not_le.2 hdeep)]
    exact ⟨_, rfl⟩

end JsonText

import Mathlib.Data.List.Basic

/-! # Bytes as hexadecimal text

    Encoding writes two lower-case digits a byte; decoding accepts both cases
    and refuses an odd number of digits and every other character. -/

namespace HexText

/-- The lower-case digit of a value below sixteen. -/
def digitChar (n : Nat) : Char :=
  if n < 10 then Char.ofNat (48 + n) else Char.ofNat (87 + n)

/-- The value of a digit in either case. -/
def digitValue (c : Char) : Option Nat :=
  if 48 ≤ c.toNat ∧ c.toNat ≤ 57 then some (c.toNat - 48)
  else if 97 ≤ c.toNat ∧ c.toNat ≤ 102 then some (c.toNat - 87)
  else if 65 ≤ c.toNat ∧ c.toNat ≤ 70 then some (c.toNat - 55)
  else none

def encodeChars : List UInt8 → List Char
  | [] => []
  | b :: rest => digitChar (b.toNat / 16) :: digitChar (b.toNat % 16) :: encodeChars rest

def decodeChars : List Char → Option (List UInt8)
  | [] => some []
  | [_] => none
  | hi :: lo :: rest => do
      let h ← digitValue hi
      let l ← digitValue lo
      let bytes ← decodeChars rest
      pure (UInt8.ofNat (16 * h + l) :: bytes)

/-- `hex::encode`, and SQLite's `lower(hex(..))` of a blob. -/
def encode (bytes : List UInt8) : String :=
  String.ofList (encodeChars bytes)

def decode (text : String) : Option (List UInt8) :=
  decodeChars text.toList

theorem digitValue_digitChar : ∀ n, n < 16 → digitValue (digitChar n) = some n := by
  decide

theorem digitChar_ne_brace : ∀ n, n < 16 → digitChar n ≠ '{' := by
  decide

/-- The characters of encoded text. -/
def IsLowerHex (c : Char) : Prop := ∃ n, n < 16 ∧ c = digitChar n

theorem isLowerHex_of_mem : ∀ (bytes : List UInt8), ∀ c ∈ encodeChars bytes, IsLowerHex c := by
  intro bytes
  induction bytes with
  | nil =>
      intro c hc
      cases hc
  | cons b rest ih =>
      intro c hc
      have hb := b.toNat_lt
      rw [encodeChars, List.mem_cons, List.mem_cons] at hc
      rcases hc with rfl | rfl | hc
      · exact ⟨b.toNat / 16, by omega, rfl⟩
      · exact ⟨b.toNat % 16, by omega, rfl⟩
      · exact ih c hc

/-- **DECODING READS BACK** what encoding wrote. -/
theorem decodeChars_encodeChars (bytes : List UInt8) :
    decodeChars (encodeChars bytes) = some bytes := by
  induction bytes with
  | nil => rfl
  | cons b rest ih =>
      have hb := b.toNat_lt
      have hbyte : UInt8.ofNat (16 * (b.toNat / 16) + b.toNat % 16) = b := by
        rw [Nat.div_add_mod, UInt8.ofNat_toNat]
      simp only [encodeChars, decodeChars, digitValue_digitChar _ (show b.toNat / 16 < 16 by omega),
        digitValue_digitChar _ (show b.toNat % 16 < 16 by omega), ih, Option.bind_eq_bind,
        Option.bind_some, hbyte]
      rfl

theorem decode_encode (bytes : List UInt8) : decode (encode bytes) = some bytes := by
  rw [decode, encode, String.toList_ofList, decodeChars_encodeChars]

theorem encode_injective {a b : List UInt8} (h : encode a = encode b) : a = b := by
  have h' := congrArg decode h
  rw [decode_encode, decode_encode] at h'
  exact Option.some.inj h'

theorem length_encodeChars (bytes : List UInt8) :
    (encodeChars bytes).length = 2 * bytes.length := by
  induction bytes with
  | nil => rfl
  | cons b rest ih =>
      rw [encodeChars, List.length_cons, List.length_cons, List.length_cons, ih]
      omega

/-- Decoding halves the length. -/
theorem length_of_decodeChars : ∀ (cs : List Char) (bytes : List UInt8),
    decodeChars cs = some bytes → cs.length = 2 * bytes.length
  | [], bytes, h => by
      cases Option.some.inj h
      rfl
  | [_], _, h => by cases h
  | hi :: lo :: rest, bytes, h => by
      simp only [decodeChars, Option.bind_eq_bind, Option.bind_eq_some_iff] at h
      obtain ⟨x, _, y, _, tail, htail, hbytes⟩ := h
      cases Option.some.inj hbytes
      have ih := length_of_decodeChars rest tail htail
      rw [List.length_cons, List.length_cons, List.length_cons, ih]
      omega

end HexText

import Mathlib.Algebra.Group.Int.Defs
import Mathlib.Algebra.GroupWithZero.Nat
import Mathlib.Data.List.Basic
import Mathlib.Data.List.Induction

/-! # Sixteen bytes as the 26 characters of a ULID

    The bytes are one number in base 256, the text the same number in base 32
    over Crockford's alphabet, padded to 26 digits. -/

namespace UlidText

/-! ## Numbers of a fixed width -/

/-- The last `width` digits of `n`, most significant first. -/
def fixedDigits (base : Nat) : Nat → Nat → List Nat
  | 0, _ => []
  | width + 1, n => fixedDigits base width (n / base) ++ [n % base]

def digitsValue (base : Nat) (digits : List Nat) : Nat :=
  digits.foldl (fun n d => base * n + d) 0

theorem digitsValue_concat (base : Nat) (digits : List Nat) (d : Nat) :
    digitsValue base (digits ++ [d]) = base * digitsValue base digits + d := by
  simp [digitsValue, List.foldl_append]

theorem length_fixedDigits (base : Nat) : ∀ width n, (fixedDigits base width n).length = width
  | 0, _ => rfl
  | width + 1, n => by
      rw [fixedDigits, List.length_append, length_fixedDigits base width]
      rfl

theorem lt_of_mem_fixedDigits {base : Nat} (hb : 0 < base) :
    ∀ width n, ∀ d ∈ fixedDigits base width n, d < base
  | 0, _, _, h => by cases h
  | width + 1, n, d, h => by
      rcases List.mem_append.1 h with h | h
      · exact lt_of_mem_fixedDigits hb width _ d h
      · cases List.mem_singleton.1 h
        exact Nat.mod_lt _ hb

theorem digitsValue_fixedDigits {base : Nat} (hb : 0 < base) :
    ∀ width n, n < base ^ width → digitsValue base (fixedDigits base width n) = n
  | 0, n, h => by
      have h0 : n = 0 := by simpa using h
      rw [h0]
      rfl
  | width + 1, n, h => by
      have hdiv : n / base < base ^ width := by
        rw [Nat.div_lt_iff_lt_mul hb, ← Nat.pow_succ]
        exact h
      rw [fixedDigits, digitsValue_concat, digitsValue_fixedDigits hb width _ hdiv,
        Nat.div_add_mod]

theorem digitsValue_lt {base : Nat} (digits : List Nat)
    (h : ∀ d ∈ digits, d < base) : digitsValue base digits < base ^ digits.length := by
  induction digits using List.reverseRecOn with
  | nil => exact Nat.one_pos
  | append_singleton ds d ih =>
      have hd : d < base := h d (by simp)
      have ih := ih fun x hx => h x (List.mem_append_left _ hx)
      rw [digitsValue_concat, List.length_append, List.length_singleton, Nat.pow_succ]
      calc base * digitsValue base ds + d < base * (digitsValue base ds + 1) := by
            rw [Nat.mul_add]
            omega
        _ ≤ base * base ^ ds.length := Nat.mul_le_mul_left _ ih
        _ = base ^ ds.length * base := Nat.mul_comm _ _

theorem fixedDigits_digitsValue {base : Nat} (digits : List Nat)
    (h : ∀ d ∈ digits, d < base) :
    fixedDigits base digits.length (digitsValue base digits) = digits := by
  induction digits using List.reverseRecOn with
  | nil => rfl
  | append_singleton ds d ih =>
      have hd : d < base := h d (by simp)
      have ih := ih fun x hx => h x (List.mem_append_left _ hx)
      have hdiv : (base * digitsValue base ds + d) / base = digitsValue base ds := by
        rw [Nat.mul_add_div (by omega), Nat.div_eq_of_lt hd, Nat.add_zero]
      have hmod : (base * digitsValue base ds + d) % base = d := by
        rw [Nat.mul_add_mod, Nat.mod_eq_of_lt hd]
      rw [digitsValue_concat, List.length_append, List.length_singleton, fixedDigits, hdiv, ih,
        hmod]

/-! ## The alphabet -/

def alphabet : List Char := "0123456789ABCDEFGHJKMNPQRSTVWXYZ".toList

def digitChar (n : Nat) : Char := alphabet.getD n '0'

/-- The value of a character, in either case. -/
def digitValue (c : Char) : Option Nat := alphabet.findIdx? fun a => a == c.toUpper

theorem digitValue_digitChar : ∀ n, n < 32 → digitValue (digitChar n) = some n := by
  decide

def byteValues (bytes : List UInt8) : List Nat := bytes.map UInt8.toNat

/-- `Ulid::to_string`. -/
def encode (bytes : List UInt8) : String :=
  String.ofList ((fixedDigits 32 26 (digitsValue 256 (byteValues bytes))).map digitChar)

/-- `Ulid::from_str`: 26 characters of the alphabet. -/
def decode (text : String) : Option (List UInt8) :=
  if text.toList.length = 26 then
    (text.toList.mapM digitValue).map fun digits =>
      (fixedDigits 256 16 (digitsValue 32 digits)).map UInt8.ofNat
  else none

theorem length_encode (bytes : List UInt8) : (encode bytes).toList.length = 26 := by
  rw [encode, String.toList_ofList, List.length_map, length_fixedDigits]

/-- The text is made of letters and digits. -/
theorem isAlphanum_of_mem_encode {bytes : List UInt8} {c : Char}
    (h : c ∈ (encode bytes).toList) : c.isAlphanum = true := by
  have hdigit : ∀ n, n < 32 → (digitChar n).isAlphanum = true := by decide
  rw [encode, String.toList_ofList] at h
  obtain ⟨d, hd, rfl⟩ := List.mem_map.1 h
  exact hdigit d (lt_of_mem_fixedDigits (by decide) _ _ d hd)

theorem length_of_decode {text : String} {bytes : List UInt8} (h : decode text = some bytes) :
    bytes.length = 16 := by
  rw [decode] at h
  split at h
  · obtain ⟨digits, _, rfl⟩ := Option.map_eq_some_iff.1 h
    rw [List.length_map, length_fixedDigits]
  · cases h

theorem mapM_digitValue (digits : List Nat) (h : ∀ d ∈ digits, d < 32) :
    (digits.map digitChar).mapM digitValue = some digits := by
  induction digits with
  | nil => rfl
  | cons d ds ih =>
      rw [List.map_cons, List.mapM_cons, digitValue_digitChar d (h d List.mem_cons_self),
        ih fun x hx => h x (List.mem_cons_of_mem _ hx)]
      rfl

theorem map_ofNat_byteValues (bytes : List UInt8) :
    (byteValues bytes).map UInt8.ofNat = bytes := by
  induction bytes with
  | nil => rfl
  | cons b rest ih =>
      rw [byteValues, List.map_cons, List.map_cons, UInt8.ofNat_toNat]
      exact congrArg _ ih

/-- **A ULID READS BACK** the bytes it was written from. -/
theorem decode_encode (bytes : List UInt8) (h : bytes.length = 16) :
    decode (encode bytes) = some bytes := by
  have hbytes : ∀ d ∈ byteValues bytes, d < 256 := by
    intro d hd
    obtain ⟨b, _, rfl⟩ := List.mem_map.1 hd
    exact b.toNat_lt
  have hlen : (byteValues bytes).length = 16 := by
    rw [byteValues, List.length_map, h]
  have hlt : digitsValue 256 (byteValues bytes) < 32 ^ 26 := by
    have := digitsValue_lt _ hbytes
    rw [hlen] at this
    exact Nat.lt_trans this (by decide)
  rw [decode, if_pos (length_encode bytes), encode, String.toList_ofList,
    mapM_digitValue _ (lt_of_mem_fixedDigits (by decide) _ _), Option.map_some,
    digitsValue_fixedDigits (by decide) _ _ hlt]
  have hback := fixedDigits_digitsValue _ hbytes
  rw [hlen] at hback
  rw [hback, map_ofNat_byteValues]

end UlidText

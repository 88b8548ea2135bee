import Livtet.Lib.Utf8Text

/-! # Percent escapes

    A byte that may not stand in an address is written as a percent sign and two
    hexadecimal digits. Reading replaces exactly these; any other percent sign is kept. -/

namespace PercentText

open Utf8Text

def percent : UInt8 := 0x25

/-- The value of a digit in either case. -/
def hexValue (b : UInt8) : Option Nat :=
  if 0x30 ≤ b ∧ b ≤ 0x39 then some (b.toNat - 48)
  else if 0x41 ≤ b ∧ b ≤ 0x46 then some (b.toNat - 55)
  else if 0x61 ≤ b ∧ b ≤ 0x66 then some (b.toNat - 87)
  else none

/-- The byte that two digits name. -/
def escaped (hi lo : UInt8) : Option UInt8 := do
  let h ← hexValue hi
  let l ← hexValue lo
  pure (UInt8.ofNat (16 * h + l))

def unescape : List UInt8 → List UInt8
  | [] => []
  | b :: hi :: lo :: tail =>
      match if b = percent then escaped hi lo else none with
      | some x => x :: unescape tail
      | none => b :: unescape (hi :: lo :: tail)
  | b :: rest => b :: unescape rest

/-- The upper-case digit of a value below sixteen. -/
def hexDigit (n : Nat) : Char := if n < 10 then Char.ofNat (48 + n) else Char.ofNat (55 + n)

def escapeByte (b : UInt8) : List Char := ['%', hexDigit (b.toNat / 16), hexDigit (b.toNat % 16)]

/-- The text of bytes, those that `keep` does not hold of escaped. -/
def escape (keep : UInt8 → Bool) (bs : List UInt8) : List Char :=
  bs.flatMap fun b => if keep b then [Char.ofNat b.toNat] else escapeByte b

theorem hexValue_lt {b : UInt8} {n : Nat} (h : hexValue b = some n) : n < 16 := by
  have hle : ∀ {lo hi : UInt8}, lo ≤ b ∧ b ≤ hi → lo.toNat ≤ b.toNat ∧ b.toNat ≤ hi.toNat :=
    fun h => ⟨UInt8.le_iff_toNat_le.1 h.1, UInt8.le_iff_toNat_le.1 h.2⟩
  rw [hexValue] at h
  split_ifs at h with h1 h2 h3
  · have hb : b.toNat ≤ 57 := (hle h1).2
    have hn := Option.some.inj h
    omega
  · have hb : b.toNat ≤ 70 := (hle h2).2
    have hn := Option.some.inj h
    omega
  · have hb : b.toNat ≤ 102 := (hle h3).2
    have hn := Option.some.inj h
    omega

/-- Only the percent sign has the byte of it. -/
theorem percent_not_mem_encode {c : Char} (h : c ≠ '%') : percent ∉ String.utf8EncodeChar c := by
  rcases encode_cases c with ⟨hlt, henc⟩ | ⟨_, a, b, tail, henc, hle, hall⟩
  · rw [henc, List.mem_singleton]
    intro hbyte
    have hnat : percent.toNat = c.toNat := by
      rw [hbyte, UInt8.toNat_ofNat']
      omega
    exact h (Char.ext (UInt32.toNat_inj.1 hnat.symm))
  · rw [henc, List.mem_cons]
    rintro (rfl | hmem)
    · exact absurd hle (by decide)
    · cases hall percent hmem

/-! ## Reading -/

section Reading

variable {b hi lo x : UInt8} {rest tail : List UInt8}

theorem unescape_cons (h : ∀ hi lo tail, rest = hi :: lo :: tail → b = percent →
    escaped hi lo = none) : unescape (b :: rest) = b :: unescape rest := by
  match rest, h with
  | [], _ => rfl
  | [_], _ => rfl
  | hi :: lo :: tail, h =>
      have hnone : (if b = percent then escaped hi lo else none) = none := by
        split_ifs with hb
        · exact h hi lo tail rfl hb
        · rfl
      rw [unescape, hnone]

theorem unescape_cons_ne (h : b ≠ percent) : unescape (b :: rest) = b :: unescape rest :=
  unescape_cons fun _ _ _ _ hb => absurd hb h

theorem unescape_append {bs : List UInt8} (h : percent ∉ bs) (rest : List UInt8) :
    unescape (bs ++ rest) = bs ++ unescape rest := by
  induction bs with
  | nil => rfl
  | cons b bs ih =>
      obtain ⟨hb, hbs⟩ := List.ne_and_not_mem_of_not_mem_cons h
      rw [List.cons_append, unescape_cons_ne (Ne.symm hb), ih hbs]
      rfl

theorem unescape_escaped (h : escaped hi lo = some x) :
    unescape (percent :: hi :: lo :: tail) = x :: unescape tail := by
  rw [unescape, if_pos rfl, h]

end Reading

/-! ## Reading what was written -/

theorem hexDigit_spec : ∀ n < 16, (hexDigit n).toNat < 128 ∧
    hexValue (UInt8.ofNat (hexDigit n).toNat) = some n := by
  decide

theorem bytes_escapeByte (b : UInt8) : ∃ hi lo, bytes (escapeByte b) = [percent, hi, lo] ∧
    escaped hi lo = some b := by
  have hlt := b.toNat_lt
  obtain ⟨hhi, hvalue_hi⟩ := hexDigit_spec (b.toNat / 16) (by omega)
  obtain ⟨hlo, hvalue_lo⟩ := hexDigit_spec (b.toNat % 16) (by omega)
  refine ⟨UInt8.ofNat (hexDigit (b.toNat / 16)).toNat,
    UInt8.ofNat (hexDigit (b.toNat % 16)).toNat, ?_, ?_⟩
  · rw [escapeByte, bytes_cons, bytes_cons, bytes_cons, bytes_nil, encode_of_lt hhi,
      encode_of_lt hlo]
    rfl
  · have hbyte : UInt8.ofNat (16 * (b.toNat / 16) + b.toNat % 16) = b := by
      rw [Nat.div_add_mod, UInt8.ofNat_toNat]
    simp only [escaped, hvalue_hi, hvalue_lo, Option.bind_eq_bind, Option.bind_some, hbyte]
    rfl

/-- Escapes are read back, provided that no byte kept is a percent sign or beyond 127. -/
theorem unescape_bytes_escape {keep : UInt8 → Bool}
    (hkeep : ∀ b, keep b = true → b < 0x80 ∧ b ≠ percent) (bs : List UInt8) :
    unescape (bytes (escape keep bs)) = bs := by
  induction bs with
  | nil => rfl
  | cons b bs ih =>
      rw [escape, List.flatMap_cons, bytes_append]
      cases hb : keep b with
      | true =>
          obtain ⟨hlt, hne⟩ := hkeep b hb
          rw [if_pos rfl, bytes_cons, bytes_nil, List.append_nil, encode_ascii hlt,
            List.singleton_append, unescape_cons_ne hne]
          exact congrArg (b :: ·) ih
      | false =>
          obtain ⟨hi, lo, hbytes, hescaped⟩ := bytes_escapeByte b
          rw [if_neg (by rintro ⟨⟩), hbytes]
          exact (unescape_escaped hescaped).trans (congrArg (b :: ·) ih)

end PercentText

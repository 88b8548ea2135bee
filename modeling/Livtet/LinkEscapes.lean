import Livtet.Lib.Outcomes
import Livtet.PairLink

/-! # Which escapes of a link are read right

    The reader finds the escapes of a value in its bytes, but takes the two digits out of
    the text: where the second of them ends within a character, it panics. And a sign
    before a digit is a number to the standard library, so a percent sign, a plus and a
    digit are read as one byte.

    Every other text is read as it should be, and a link that holds neither is parsed
    without a panic, since what is read of it are parts of it. -/

namespace SyncPairLink

open SyncPairing (isWhitespace trim)
open Utf8Text PercentText

/-! ## The texts that are read right -/

def isHexDigit (c : Char) : Bool := c.toNat < 128 && (hexValue (UInt8.ofNat c.toNat)).isSome

/-- The second byte after a percent sign is there, and is not the last of its character. -/
def cuts : List Char → Bool
  | [] => false
  | [c] => 3 ≤ c.utf8Size
  | c :: d :: _ => 3 ≤ c.utf8Size || (c.utf8Size == 1 && 2 ≤ d.utf8Size)

/-- What follows a percent sign is a plus sign and a digit. -/
def signed : List Char → Bool
  | c :: d :: _ => c == '+' && isHexDigit d
  | _ => false

/-- No percent sign is followed by either. -/
def clean : List Char → Bool
  | [] => true
  | c :: rest => (c != '%' || (!cuts rest && !signed rest)) && clean rest

/-! ## The number that two bytes are read as -/

section Radix

variable {hi : UInt8} (lo : UInt8)

theorem toDigit_sixteen (b : UInt8) : toDigit 16 b = hexValue b := by
  rw [toDigit]
  cases h : hexValue b with
  | none => rfl
  | some n => rw [Option.filter_some, if_pos (decide_eq_true (hexValue_lt h))]

/-- Two digits make the byte that they escape. -/
theorem fromStrRadix_digits (h : hi ≠ 0x2B) :
    (fromStrRadix 16 256 [hi, lo]).map UInt8.ofNat = escaped hi lo := by
  have hhead : ¬ [hi, lo].head? = some 0x2B := fun h' => h (Option.some.inj h')
  simp only [fromStrRadix, if_neg hhead, List.isEmpty_cons, Bool.false_eq_true, if_false,
    List.mapM_cons, List.mapM_nil, toDigit_sixteen, escaped]
  cases hh : hexValue hi with
  | none => rfl
  | some x =>
      cases hl : hexValue lo with
      | none => rfl
      | some y =>
          have hx := hexValue_lt hh
          have hy := hexValue_lt hl
          have hlt : 16 * (16 * 0 + x) + y < 256 := by omega
          show (Option.filter _ (some (16 * (16 * 0 + x) + y))).map UInt8.ofNat = _
          rw [Option.filter_some, if_pos (decide_eq_true hlt), Nat.mul_zero, Nat.zero_add]
          rfl

/-- A sign before the digit is skipped. -/
theorem fromStrRadix_signed : fromStrRadix 16 256 [0x2B, lo] = hexValue lo := by
  simp only [fromStrRadix, List.head?_cons, if_true, List.tail_cons, List.isEmpty_cons,
    Bool.false_eq_true, if_false, List.mapM_cons, List.mapM_nil, toDigit_sixteen]
  cases h : hexValue lo with
  | none => rfl
  | some n =>
      have hlt := hexValue_lt h
      have hbound : 16 * 0 + n < 256 := by omega
      show Option.filter _ (some (16 * 0 + n)) = some n
      rw [Option.filter_some, if_pos (decide_eq_true hbound), Nat.mul_zero, Nat.zero_add]

theorem fromStrRadix_high (h : 0xC0 ≤ hi) :
    fromStrRadix 16 256 [hi, lo] = none ∧ escaped hi lo = none := by
  have hne : hi ≠ 0x2B := by
    rintro rfl
    exact absurd h (by decide)
  have hhi : hexValue hi = none := by
    have hle : ∀ n : UInt8, n < 0xC0 → ¬ hi ≤ n := fun n hn =>
      UInt8.not_le.2 (UInt8.lt_of_lt_of_le hn h)
    rw [hexValue, if_neg fun h => hle 0x39 (by decide) h.2,
      if_neg fun h => hle 0x46 (by decide) h.2, if_neg fun h => hle 0x66 (by decide) h.2]
  have hescaped : escaped hi lo = none := by
    rw [escaped, hhi]
    rfl
  exact ⟨Option.map_eq_none_iff.1 ((fromStrRadix_digits lo hne).trans hescaped), hescaped⟩

end Radix

/-! ## One percent sign -/

section Step

variable {b hi lo : UInt8} {rest tail : List UInt8} {v : List Char}

theorem decodeBytes_cons_ne (h : b ≠ percent) :
    decodeBytes (b :: rest) = (decodeBytes rest).map (b :: ·) := by
  match rest with
  | [] => rfl
  | [_] => rfl
  | hi :: lo :: tail => rw [decodeBytes, if_neg h]

theorem decodeBytes_append {bs : List UInt8} (h : percent ∉ bs) (rest : List UInt8) :
    decodeBytes (bs ++ rest) = (decodeBytes rest).map (bs ++ ·) := by
  induction bs with
  | nil =>
      show decodeBytes rest = (decodeBytes rest).map id
      rw [Option.map_id, id]
  | cons b bs ih =>
      obtain ⟨hb, hbs⟩ := List.ne_and_not_mem_of_not_mem_cons h
      rw [List.cons_append, decodeBytes_cons_ne (Ne.symm hb), ih hbs, Option.map_map]
      rfl

/-- The digits end within a character. -/
theorem bytes_of_cuts (h : cuts v = true) :
    ∃ hi lo tail, bytes v = hi :: lo :: tail ∧ isCharBoundary tail = false := by
  have hlong : ∀ {c rest}, 3 ≤ Char.utf8Size c →
      ∃ hi lo tail, bytes (c :: rest) = hi :: lo :: tail ∧ isCharBoundary tail = false := by
    intro c rest hc
    obtain ⟨a, b, tail, henc, _, hall⟩ := encode_of_two_le (Nat.le_of_succ_le hc)
    cases tail with
    | nil =>
        rw [← String.length_utf8EncodeChar, henc] at hc
        exact absurd hc (by simp)
    | cons x tail =>
        have hx : isContinuation x = true := hall x (by simp)
        refine ⟨a, b, x :: tail ++ bytes rest, by rw [bytes_cons, henc]; rfl, ?_⟩
        rw [List.cons_append, isCharBoundary, hx]
        rfl
  cases v with
  | nil => cases h
  | cons c rest =>
    cases rest with
    | nil => exact hlong (of_decide_eq_true h)
    | cons d w =>
      simp only [cuts, Bool.or_eq_true, Bool.and_eq_true, decide_eq_true_eq, beq_iff_eq] at h
      rcases h with hc | ⟨hc, hd⟩
      · exact hlong hc
      · obtain ⟨a, b, tail, henc, _, hall⟩ := encode_of_two_le hd
        have hb : isContinuation b = true := hall b (by simp)
        refine ⟨UInt8.ofNat c.toNat, a, b :: tail ++ bytes w, ?_, ?_⟩
        · rw [bytes_cons, bytes_cons, henc, encode_of_lt (lt_of_utf8Size hc)]
          rfl
        · rw [List.cons_append, isCharBoundary, hb]
          rfl

theorem decodeBytes_cut (h : cuts v = true) : decodeBytes (percent :: bytes v) = none := by
  obtain ⟨hi, lo, tail, hbytes, htail⟩ := bytes_of_cuts h
  rw [hbytes, decodeBytes, if_pos rfl, htail, Bool.and_false]
  rfl

/-- What is taken for digits is two characters of one byte, or one of two; or there is too
    little text. -/
theorem bytes_of_not_cuts (h : cuts v = false) :
    (bytes v).length ≤ 1 ∨
      (∃ c d w, v = c :: d :: w ∧ c.toNat < 128 ∧ d.toNat < 128) ∨
        ∃ a b w, bytes v = a :: b :: bytes w ∧ 0xC0 ≤ a := by
  cases v with
  | nil => exact .inl (Nat.zero_le 1)
  | cons c rest =>
      rcases encode_cases c with ⟨hlt, henc⟩ | ⟨_, a, b, tail, henc, hle, _⟩
      · cases rest with
        | nil => exact .inl (by rw [bytes_cons, henc]; exact Nat.le_refl 1)
        | cons d w =>
            have hc : c.utf8Size = 1 := by rw [← String.length_utf8EncodeChar, henc]; rfl
            simp only [cuts, hc, Bool.or_eq_false_iff, beq_self_eq_true, Bool.true_and,
              decide_eq_false_iff_not] at h
            have hd : d.utf8Size = 1 := by
              have hpos := d.utf8Size_pos
              omega
            exact .inr (.inl ⟨c, d, w, rfl, hlt, lt_of_utf8Size hd⟩)
      · have hshort : ¬ 3 ≤ c.utf8Size := by
          cases rest with
          | nil => exact of_decide_eq_false h
          | cons d w => exact of_decide_eq_false (Bool.or_eq_false_iff.1 h).1
        cases tail with
        | nil => exact .inr (.inr ⟨a, b, rest, by rw [bytes_cons, henc]; rfl, hle⟩)
        | cons x tail =>
            rw [← String.length_utf8EncodeChar, henc] at hshort
            exact absurd (by simp) hshort

theorem decodeBytes_digits {w : List Char} (h : bytes v = hi :: lo :: bytes w) :
    decodeBytes (percent :: bytes v) =
      match fromStrRadix 16 256 [hi, lo] with
      | some x => (decodeBytes (bytes w)).map (UInt8.ofNat x :: ·)
      | none => (decodeBytes (bytes v)).map (percent :: ·) := by
  have hboundary : isCharBoundary (hi :: lo :: bytes w) = true := h ▸ isCharBoundary_bytes v
  rw [h, decodeBytes, if_pos rfl, hboundary, isCharBoundary_bytes w]
  rfl

/-- The sign is left where it is. -/
def Kept (v : List Char) : Prop :=
  decodeBytes (percent :: bytes v) = (decodeBytes (bytes v)).map (percent :: ·) ∧
    unescape (percent :: bytes v) = percent :: unescape (bytes v)

/-- The sign and two digits are replaced. -/
def Replaced (v : List Char) : Prop :=
  ∃ x w, clean w = clean v ∧ w.length < v.length ∧
    decodeBytes (percent :: bytes v) = (decodeBytes (bytes w)).map (x :: ·) ∧
      unescape (percent :: bytes v) = x :: unescape (bytes w)

/-- The sign, a plus and a digit are replaced, and should not be. -/
def Misread (v : List Char) : Prop :=
  ∃ x tail, x < 16 ∧ decodeBytes (percent :: bytes v) = (decodeBytes tail).map (x :: ·) ∧
    unescape (percent :: bytes v) = percent :: unescape (bytes v)

theorem kept_of_none {w : List Char} (h : bytes v = hi :: lo :: bytes w)
    (hradix : fromStrRadix 16 256 [hi, lo] = none) (hescaped : escaped hi lo = none) : Kept v := by
  refine ⟨?_, ?_⟩
  · rw [decodeBytes_digits h, hradix]
  · rw [h]
    refine unescape_cons fun _ _ _ heq _ => ?_
    simp only [List.cons.injEq] at heq
    obtain ⟨rfl, rfl, _⟩ := heq
    exact hescaped

theorem kept_of_short (h : (bytes v).length ≤ 1) : Kept v := by
  rw [Kept]
  match bytes v, h with
  | [], _ => exact ⟨rfl, rfl⟩
  | [_], _ => exact ⟨rfl, rfl⟩

theorem ne_percent_of_hexValue {c : Char} {n : Nat} (h : hexValue (UInt8.ofNat c.toNat) = some n) :
    c ≠ '%' := by
  rintro rfl
  cases h

theorem byte_eq_plus_iff {c : Char} (h : c.toNat < 128) : UInt8.ofNat c.toNat = 0x2B ↔ c = '+' := by
  refine ⟨fun heq => ?_, fun heq => heq ▸ rfl⟩
  have hnat : c.toNat = 43 := by
    have := congrArg UInt8.toNat heq
    rw [UInt8.toNat_ofNat'] at this
    change c.toNat % 256 = 43 at this
    omega
  exact Char.ext (UInt32.toNat_inj.1 hnat)

theorem clean_cons_ne {c : Char} {rest : List Char} (h : c ≠ '%') :
    clean (c :: rest) = clean rest := by
  rw [clean, (bne_iff_ne.2 h), Bool.true_or, Bool.true_and]

/-- Two characters of one byte. -/
theorem percent_pair {c d : Char} {w : List Char} (hc : c.toNat < 128) (hd : d.toNat < 128) :
    (signed (c :: d :: w) = true ∧ Misread (c :: d :: w)) ∨
      (signed (c :: d :: w) = false ∧ (Kept (c :: d :: w) ∨ Replaced (c :: d :: w))) := by
  have hbytes : bytes (c :: d :: w) = UInt8.ofNat c.toNat :: UInt8.ofNat d.toNat :: bytes w := by
    rw [bytes_cons, bytes_cons, encode_of_lt hc, encode_of_lt hd]
    rfl
  by_cases hplus : c = '+'
  · -- a sign and one digit are read as a number, which no escape allows
    subst hplus
    have hdigit : isHexDigit d = (hexValue (UInt8.ofNat d.toNat)).isSome := by
      rw [isHexDigit, decide_eq_true hd, Bool.true_and]
    have hradix := fromStrRadix_signed (UInt8.ofNat d.toNat)
    rw [signed, hdigit, beq_self_eq_true, Bool.true_and]
    cases hvalue : hexValue (UInt8.ofNat d.toNat) with
    | none => exact .inr ⟨rfl, .inl (kept_of_none hbytes (hradix.trans hvalue) rfl)⟩
    | some n =>
        have hn := hexValue_lt hvalue
        refine .inl ⟨rfl, UInt8.ofNat n, bytes w, ?_, ?_, ?_⟩
        · rw [UInt8.lt_iff_toNat_lt, UInt8.toNat_ofNat']
          show n % 256 < 16
          omega
        · have htaken := decodeBytes_digits hbytes
          rw [show UInt8.ofNat '+'.toNat = 0x2B from rfl, hradix, hvalue] at htaken
          exact htaken
        · rw [hbytes]
          exact unescape_cons fun _ _ _ heq _ => by
            obtain ⟨rfl, _⟩ := List.cons.inj heq
            rfl
  · -- without a sign the two readings agree on what a digit is
    have hsigned : signed (c :: d :: w) = false := by
      rw [signed, beq_eq_false_iff_ne.2 hplus, Bool.false_and]
    have hradix := fromStrRadix_digits (UInt8.ofNat d.toNat) fun h =>
      hplus ((byte_eq_plus_iff hc).1 h)
    refine .inr ⟨hsigned, ?_⟩
    cases hescaped : escaped (UInt8.ofNat c.toNat) (UInt8.ofNat d.toNat) with
    | none =>
        rw [hescaped, Option.map_eq_none_iff] at hradix
        exact .inl (kept_of_none hbytes hradix hescaped)
    | some x =>
        rw [hescaped, Option.map_eq_some_iff] at hradix
        obtain ⟨n, hn, rfl⟩ := hradix
        have hclean : clean w = clean (c :: d :: w) := by
          simp only [escaped, Option.bind_eq_bind, Option.bind_eq_some_iff] at hescaped
          obtain ⟨_, hhi, _, hlo, _⟩ := hescaped
          rw [clean_cons_ne (ne_percent_of_hexValue hhi),
            clean_cons_ne (ne_percent_of_hexValue hlo)]
        refine .inr ⟨UInt8.ofNat n, w, hclean, Nat.lt_add_of_pos_right Nat.two_pos, ?_, ?_⟩
        · rw [decodeBytes_digits hbytes, hn]
        · rw [hbytes, unescape_escaped hescaped]

/-- What the text after a percent sign makes of it. -/
theorem percent_cases (v : List Char) :
    (cuts v = true ∧ decodeBytes (percent :: bytes v) = none) ∨
      (cuts v = false ∧ signed v = true ∧ Misread v) ∨
        (cuts v = false ∧ signed v = false ∧ (Kept v ∨ Replaced v)) := by
  cases hcuts : cuts v with
  | true => exact .inl ⟨rfl, decodeBytes_cut hcuts⟩
  | false =>
      refine .inr ?_
      rcases bytes_of_not_cuts hcuts with hshort | ⟨c, d, w, rfl, hc, hd⟩ | ⟨a, b, w, hbytes, hle⟩
      · have hsigned : signed v = false := by
          match v, hshort with
          | [], _ => rfl
          | [_], _ => rfl
          | c :: d :: w, hshort =>
              rw [bytes_cons, bytes_cons, List.length_append, List.length_append,
                String.length_utf8EncodeChar, String.length_utf8EncodeChar] at hshort
              have hc := c.utf8Size_pos
              have hd := d.utf8Size_pos
              omega
        exact .inr ⟨rfl, hsigned, .inl (kept_of_short hshort)⟩
      · rcases percent_pair hc hd with ⟨hsigned, hmisread⟩ | ⟨hsigned, hread⟩
        · exact .inl ⟨rfl, hsigned, hmisread⟩
        · exact .inr ⟨rfl, hsigned, hread⟩
      · have hsigned : signed v = false := by
          match v, hbytes with
          | [], hbytes => cases hbytes
          | [_], _ => rfl
          | c :: d :: rest, hbytes =>
              rw [signed, Bool.and_eq_false_iff]
              refine .inl (beq_eq_false_iff_ne.2 ?_)
              rintro rfl
              obtain ⟨rfl, _⟩ := List.cons.inj hbytes
              exact absurd hle (by decide)
        -- the second byte is of a longer character, so neither reading takes it for a digit
        obtain ⟨hradix, hescaped⟩ := fromStrRadix_high b hle
        exact .inr ⟨rfl, hsigned, .inl (kept_of_none hbytes hradix hescaped)⟩

end Step

/-! ## Whole texts -/

theorem bytes_percent (cs : List Char) : bytes ('%' :: cs) = percent :: bytes cs := rfl

theorem clean_percent {cs : List Char} : clean ('%' :: cs) = true ↔
    (cuts cs = false ∧ signed cs = false) ∧ clean cs = true := by
  simp only [clean, bne_self_eq_false, Bool.false_or, Bool.and_eq_true, Bool.not_eq_true']

/-- A clean text has exactly its escapes replaced. -/
theorem decodeBytes_of_clean : ∀ cs : List Char, clean cs = true →
    decodeBytes (bytes cs) = some (unescape (bytes cs))
  | [], _ => rfl
  | c :: rest, h => by
      by_cases hc : c = '%'
      · subst hc
        obtain ⟨⟨hcuts, hsigned⟩, hrest⟩ := clean_percent.1 h
        rw [bytes_percent]
        rcases percent_cases rest with ⟨hcuts', _⟩ | ⟨_, hsigned', _⟩ | ⟨_, _, hread⟩
        · cases hcuts.symm.trans hcuts'
        · cases hsigned.symm.trans hsigned'
        · rcases hread with ⟨hdecode, hunescape⟩ | ⟨x, w, hclean, hlt, hdecode, hunescape⟩
          · rw [hdecode, hunescape, decodeBytes_of_clean rest hrest]
            rfl
          · rw [hdecode, hunescape, decodeBytes_of_clean w (hclean.trans hrest)]
            rfl
      · have hpercent := percent_not_mem_encode hc
        rw [clean_cons_ne hc] at h
        rw [bytes_cons, decodeBytes_append hpercent, unescape_append hpercent,
          decodeBytes_of_clean rest h]
        rfl
termination_by cs => cs.length

/-- From some place on the bytes are others: a small one where a percent sign should be. -/
def Parted (read right : List UInt8) : Prop :=
  ∃ before x after after', x < 16 ∧ read = before ++ x :: after ∧
    right = before ++ percent :: after'

theorem Parted.append {read right : List UInt8} (h : Parted read right) (bs : List UInt8) :
    Parted (bs ++ read) (bs ++ right) := by
  obtain ⟨before, x, after, after', hx, rfl, rfl⟩ := h
  exact ⟨bs ++ before, x, after, after', hx, (List.append_assoc ..).symm,
    (List.append_assoc ..).symm⟩

/-- As text they are others too, since both bytes there stand for themselves. -/
theorem Parted.fromUtf8Lossy_ne {read right : List UInt8} (h : Parted read right) :
    fromUtf8Lossy read ≠ fromUtf8Lossy right := by
  obtain ⟨before, x, after, after', hx, rfl, rfl⟩ := h
  have hlt : x.toNat < 16 := UInt8.lt_iff_toNat_lt.1 hx
  have hx' : x < 0x80 := UInt8.lt_trans hx (by decide)
  have hpercent : percent < 0x80 := by decide
  rw [fromUtf8Lossy_append_ascii hx', fromUtf8Lossy_append_ascii hpercent, ne_eq,
    List.append_cancel_left_eq, List.cons.injEq]
  rintro ⟨hchar, _⟩
  have hnat := congrArg Char.toNat hchar
  rw [toNat_ofNat_ascii x.toNat (by omega)] at hnat
  change x.toNat = 37 at hnat
  omega

/-- Another text panics, or is read as other bytes. -/
theorem parted_of_not_clean : ∀ (cs : List Char) {read : List UInt8}, clean cs = false →
    decodeBytes (bytes cs) = some read → Parted read (unescape (bytes cs))
  | c :: rest, read, h, hread => by
      by_cases hc : c = '%'
      · subst hc
        rw [bytes_percent] at hread ⊢
        have hbad : cuts rest = false → signed rest = false → clean rest = false := by
          intro hcuts hsigned
          by_contra hrest
          rw [clean_percent.2 ⟨⟨hcuts, hsigned⟩, Bool.of_not_eq_false hrest⟩] at h
          cases h
        rcases percent_cases rest with ⟨_, hnone⟩ | ⟨_, _, hmisread⟩ | ⟨hcuts, hsigned, hgood⟩
        · cases hnone.symm.trans hread
        -- the bytes part here, whatever is made of the rest
        · obtain ⟨x, tail, hx, hdecode, hunescape⟩ := hmisread
          rw [hdecode, Option.map_eq_some_iff] at hread
          obtain ⟨after, _, rfl⟩ := hread
          exact ⟨[], x, after, _, hx, rfl, hunescape⟩
        -- this sign is read right, so a later one is not
        · have hrest := hbad hcuts hsigned
          rcases hgood with ⟨hdecode, hunescape⟩ | ⟨x, w, hclean, hlt, hdecode, hunescape⟩
          · rw [hdecode, Option.map_eq_some_iff] at hread
            obtain ⟨more, hmore, rfl⟩ := hread
            rw [hunescape]
            exact (parted_of_not_clean rest hrest hmore).append [percent]
          · rw [hdecode, Option.map_eq_some_iff] at hread
            obtain ⟨more, hmore, rfl⟩ := hread
            rw [hunescape]
            exact (parted_of_not_clean w (hclean.trans hrest) hmore).append [x]
      · have hpercent := percent_not_mem_encode hc
        rw [clean_cons_ne hc] at h
        rw [bytes_cons, decodeBytes_append hpercent, Option.map_eq_some_iff] at hread
        obtain ⟨more, hmore, rfl⟩ := hread
        rw [bytes_cons, unescape_append hpercent]
        exact (parted_of_not_clean rest h hmore).append _
termination_by cs => cs.length

/-- The text with exactly its escapes replaced. -/
def unescaped (value : String) : String :=
  String.ofList (fromUtf8Lossy (unescape (bytes value.toList)))

theorem decode_eq_unescaped_iff (value : String) :
    decode value = some (unescaped value) ↔ clean value.toList = true := by
  rw [decode, unescaped]
  refine ⟨fun h => ?_, fun h => by rw [decodeBytes_of_clean _ h]; rfl⟩
  by_contra hclean
  obtain ⟨read, hread, heq⟩ := Option.map_eq_some_iff.1 h
  have hparted := parted_of_not_clean _ (Bool.of_not_eq_true hclean) hread
  exact hparted.fromUtf8Lossy_ne (String.ofList_injective heq)

/-! ## Parts of a clean text are clean -/

section Parts

variable {cs ds : List Char}

theorem cuts_append (h : cuts cs = true) : cuts (cs ++ ds) = true := by
  match cs, h with
  | [c], h =>
      cases ds with
      | nil => exact h
      | cons d ds => exact Bool.or_eq_true_iff.2 (.inl h)
  | c :: d :: cs, h => exact h

theorem signed_append (h : signed cs = true) : signed (cs ++ ds) = true := by
  match cs, h with
  | c :: d :: cs, h => exact h

theorem clean_of_append_right (h : clean (cs ++ ds) = true) : clean ds = true := by
  induction cs with
  | nil => exact h
  | cons c cs ih =>
      rw [List.cons_append, clean, Bool.and_eq_true] at h
      exact ih h.2

theorem clean_of_append_left (h : clean (cs ++ ds) = true) : clean cs = true := by
  induction cs with
  | nil => rfl
  | cons c cs ih =>
      by_cases hc : c = '%'
      · subst hc
        obtain ⟨⟨hcuts, hsigned⟩, hrest⟩ := clean_percent.1 h
        refine clean_percent.2 ⟨⟨?_, ?_⟩, ih hrest⟩
        · exact Bool.of_not_eq_true fun h => by cases (cuts_append h).symm.trans hcuts
        · exact Bool.of_not_eq_true fun h => by cases (signed_append h).symm.trans hsigned
      · rw [List.cons_append, clean_cons_ne hc] at h
        rw [clean_cons_ne hc]
        exact ih h

theorem clean_of_part (h : clean cs = true) (hpart : ds <:+: cs) : clean ds = true := by
  obtain ⟨before, after, rfl⟩ := hpart
  exact clean_of_append_right (clean_of_append_left h)

theorem splitOnce_suffix {sep : List Char} {p : List Char × List Char}
    (h : splitOnce sep cs = some p) : p.2 <:+ cs := by
  induction cs generalizing p with
  | nil => cases h
  | cons c cs ih =>
      rw [splitOnce] at h
      split_ifs at h
      · cases Option.some.inj h
        exact List.drop_suffix _ _
      · obtain ⟨q, hq, rfl⟩ := Option.map_eq_some_iff.1 h
        exact (ih hq).trans (List.suffix_cons c cs)

theorem getD_splitOnce_suffix (sep cs : List Char) :
    ((splitOnce sep cs).getD (cs, [])).2 <:+ cs := by
  cases h : splitOnce sep cs with
  | none => exact List.nil_suffix
  | some p => exact splitOnce_suffix h

theorem trim_part (s : String) : (trim s).toList <:+: s.toList := by
  rw [trim, String.toList_ofList]
  have hend : ((s.toList.dropWhile isWhitespace).reverse.dropWhile isWhitespace).reverse <+:
      s.toList.dropWhile isWhitespace :=
    List.reverse_suffix.1 (by rw [List.reverse_reverse]; exact List.dropWhile_suffix _)
  exact hend.isInfix.trans (List.dropWhile_suffix _).isInfix

theorem splitOn_part {c : Char} (h : ds ∈ cs.splitOn c) : ds <:+: cs := by
  have hmem : ds ∈ (cs.splitOn c).intersperse [c] := by
    obtain ⟨i, hi⟩ := List.mem_iff_getElem?.1 h
    exact List.mem_of_getElem? (List.getElem?_intersperse_two_mul.trans hi)
  have hpart := List.infix_of_mem_flatten hmem
  rwa [← List.intercalate, List.intercalate_splitOn] at hpart

theorem queryOf_part (h : queryOf cs = .ok ds) : ds <:+: cs := by
  rw [queryOf] at h
  cases hsplit : splitOnce "://".toList cs with
  | none =>
      rw [hsplit] at h
      cases h
  | some p =>
      rw [hsplit] at h
      have hrest := (splitOnce_suffix hsplit).isInfix
      have hquery := (getD_splitOnce_suffix ['?'] p.2).isInfix
      cases hweb : isWebScheme (toAsciiLowercase p.1) with
      | error e =>
          simp only [hweb] at h
          cases h
      | ok isWeb =>
          simp only [hweb] at h
          obtain ⟨_, _, rfl⟩ := Outcomes.map_eq_ok.1 h
          exact hquery.trans hrest

end Parts

/-- The loop does not panic on clean parameters. -/
theorem readPairs_isSome (seen : Seen) {pairs : List (List Char)}
    (h : ∀ pair ∈ pairs, clean pair = true) : (readPairs seen pairs).isSome = true := by
  induction pairs generalizing seen with
  | nil => rfl
  | cons pair rest ih =>
      obtain ⟨hpair, hrest⟩ := List.forall_mem_cons.1 h
      have hvalue : clean ((splitOnce ['='] pair).getD (pair, [])).2 = true :=
        clean_of_part hpair (getD_splitOnce_suffix _ _).isInfix
      have hdecode : decode (String.ofList ((splitOnce ['='] pair).getD (pair, [])).2) = _ :=
        (decode_eq_unescaped_iff _).2 (by rwa [String.toList_ofList])
      simp only [readPairs, hdecode]
      cases hrecord : seen.record _ _ with
      | error e => rfl
      | ok seen => exact ih seen hrest

theorem parse_isSome {raw : String} (h : clean raw.toList = true) : (parse raw).isSome = true := by
  rw [parse]
  cases hquery : queryOf (trim raw).toList with
  | error e => rfl
  | ok query =>
      have hclean := clean_of_part h ((queryOf_part hquery).trans (trim_part raw))
      rw [Option.isSome_map]
      exact readPairs_isSome _ fun pair hpair =>
        clean_of_part hclean (splitOn_part (List.mem_filter.1 hpair).1)

/-- A text is parsed without a panic and has exactly its escapes replaced, just if no
    percent sign in it is followed by a sign and a digit or by what does not end after
    two bytes. -/
theorem escapes_exact_iff (text : String) :
    ((parse text).isSome = true ∧ decode text = some (unescaped text)) ↔
      clean text.toList = true := by
  rw [decode_eq_unescaped_iff]
  exact ⟨fun h => h.2, fun h => ⟨parse_isSome h, h⟩⟩

/-- A euro sign after a percent sign panics; a plus sign and a digit are read as a byte. -/
theorem not_escapes_exact_euro : parse "livtet://sync?name=%€" = none ∧
    decode "%+F" = some "\x0F" ∧ unescaped "%+F" = "%+F" :=
  ⟨rfl, rfl, rfl⟩

end SyncPairLink

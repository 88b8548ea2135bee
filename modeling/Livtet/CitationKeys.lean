import Mathlib.Algebra.Ring.Nat
import Livtet.Csl
import Livtet.Lib.FreshNames
import Livtet.Lib.Utf8Text

/-! # Citation keys

    Every item of a batch has a key of its own, made from the first author and the year. Where
    items share it, a hash of the identifier is put behind it, and where that is still not
    enough an ordinal. The ordinal is a machine number: with overflow checks the search for a
    key stops at the largest, and without them it runs in a circle. -/

namespace Citations

open FreshNames (fresh freshAll Begins)

/-! ## Bases -/

/-- The lower case of the characters that are kept or folded. No other character has one among
    them, and is its own here. -/
def toLowercase (c : Char) : List Char :=
  let n := c.toNat
  if ('A' ≤ c ∧ c ≤ 'Z') ∨ (0xC0 ≤ n ∧ n ≤ 0xDE ∧ n ≠ 0xD7) then [Char.ofNat (n + 32)]
  else if n = 0x130 then ['i', Char.ofNat 0x307]
  else if n = 0x178 then ['ÿ']
  else if n = 0x212A then ['k']
  else if n = 0x212B then ['å']
  else if n = 0x1E9E then ['ß']
  else if ((0x100 ≤ n ∧ n ≤ 0x137) ∨ (0x14A ≤ n ∧ n ≤ 0x177)) ∧ n % 2 = 0 then [Char.ofNat (n + 1)]
  else if ((0x139 ≤ n ∧ n ≤ 0x148) ∨ (0x179 ≤ n ∧ n ≤ 0x17E)) ∧ n % 2 = 1 then [Char.ofNat (n + 1)]
  else [c]

def replacements : List (List Char × List Char) :=
  [(['à', 'á', 'â', 'ã', 'ä', 'å', 'ā', 'ă', 'ą'], ['a']),
   (['æ'], ['a', 'e']),
   (['ç', 'ć', 'ĉ', 'ċ', 'č'], ['c']),
   (['ď', 'đ', 'ð'], ['d']),
   (['è', 'é', 'ê', 'ë', 'ē', 'ĕ', 'ė', 'ę', 'ě'], ['e']),
   (['ğ', 'ĝ', 'ġ', 'ģ'], ['g']),
   (['ĥ', 'ħ'], ['h']),
   (['ì', 'í', 'î', 'ï', 'ī', 'ĭ', 'į', 'ı'], ['i']),
   (['ĵ'], ['j']),
   (['ķ'], ['k']),
   (['ĺ', 'ļ', 'ľ', 'ł'], ['l']),
   (['ñ', 'ń', 'ņ', 'ň', 'ŉ'], ['n']),
   (['ò', 'ó', 'ô', 'õ', 'ö', 'ø', 'ō', 'ŏ', 'ő'], ['o']),
   (['œ'], ['o', 'e']),
   (['ŕ', 'ŗ', 'ř'], ['r']),
   (['ś', 'ŝ', 'ş', 'š', 'ß'], ['s']),
   (['ţ', 'ť', 'ŧ', 'þ'], ['t']),
   (['ù', 'ú', 'û', 'ü', 'ū', 'ŭ', 'ů', 'ű', 'ų'], ['u']),
   (['ŵ'], ['w']),
   (['ý', 'ÿ'], ['y']),
   (['ź', 'ż', 'ž'], ['z'])]

def foldNonAscii (c : Char) : Option (List Char) :=
  (replacements.find? fun row => row.1.contains c).map fun row => row.2

def foldAscii (value : String) : List Char :=
  value.toList.flatMap fun c => (toLowercase c).flatMap fun lower =>
    if lower.isAlphanum then [lower] else (foldNonAscii lower).getD []

def citationKey (item : CslItem) : String :=
  let family := ((item.author.head?.bind fun name => name.family.or name.literal).map foldAscii).getD []
  String.ofList family ++ (item.issuedYear.map showInt).getD "nd"

/-! ## Keys -/

/-- FNV-1a. -/
def fnv1a (bytes : List UInt8) : UInt64 :=
  bytes.foldl (fun hash byte => (hash ^^^ byte.toUInt64) * 0x100000001b3) 0xcbf29ce484222325

/-- The first six of at least six hexadecimal digits. -/
def shortIdHash (id : String) : String :=
  let digits := Nat.toDigits 16 (fnv1a (Utf8Text.bytes id.toList)).toNat
  String.ofList ((List.replicate (6 - digits.length) '0' ++ digits).take 6)

/-- The key an item would have if no one had it yet. -/
def stem (bases : List String) (item : CslItem) : String :=
  if 1 < bases.count (citationKey item) then citationKey item ++ "-" ++ shortIdHash item.id
  else citationKey item

/-- `ordinal += 1`, in 32 bits. -/
def nextOrdinal (overflowChecks : Bool) (ordinal : Int32) : Option Int32 :=
  if overflowChecks = true ∧ ordinal = Int32.maxValue then none else some (ordinal + 1)

/-- The search for a key that is not used. -/
def insertFresh (overflowChecks : Bool) (used : List String) (stem : String) :
    Nat → String → Int32 → Option String
  | 0, _, _ => none
  | fuel + 1, key, ordinal =>
      if key ∈ used then
        (nextOrdinal overflowChecks ordinal).bind fun next =>
          insertFresh overflowChecks used stem fuel (stem ++ "-" ++ showInt ordinal) next
      else some key

def keysFrom (overflowChecks : Bool) (fuel : Nat) (bases : List String) :
    List String → List CslItem → Option (List String)
  | _, [] => some []
  | used, item :: items =>
      (insertFresh overflowChecks used (stem bases item) fuel (stem bases item) 2).bind fun key =>
        (keysFrom overflowChecks fuel bases (key :: used) items).map (key :: ·)

/-- The keys of a batch, when each search ends within `fuel` rounds. -/
def deconflictedKeys (overflowChecks : Bool) (fuel : Nat) (items : List CslItem) :
    Option (List String) :=
  keysFrom overflowChecks fuel (items.map citationKey) [] items

/-! ## The keys that are tried -/

/-- The ordinal before the `i`-th round, if the search comes to it. -/
def ordinalAt (overflowChecks : Bool) : Nat → Option Int32
  | 0 => some 2
  | i + 1 => (ordinalAt overflowChecks i).bind (nextOrdinal overflowChecks)

def keyName (overflowChecks : Bool) (stem : String) : Nat → Option String
  | 0 => some stem
  | i + 1 => (ordinalAt overflowChecks i).bind fun ordinal =>
      (nextOrdinal overflowChecks ordinal).map fun _ => stem ++ "-" ++ showInt ordinal

/-- How many keys a search can try. -/
def limit (overflowChecks : Bool) : Nat := if overflowChecks then 2 ^ 31 - 2 else 2 ^ 32 + 1

variable {overflowChecks : Bool}

/-- The search is one for a fresh name. -/
theorem insertFresh_eq {used : List String} {stem : String} (fuel : Nat) {i : Nat} {key : String}
    {ordinal : Int32} (hkey : keyName overflowChecks stem i = some key)
    (hordinal : ordinalAt overflowChecks i = some ordinal) :
    insertFresh overflowChecks used stem fuel key ordinal =
      fresh (keyName overflowChecks stem) used fuel i := by
  induction fuel generalizing i key ordinal with
  | zero => rfl
  | succ fuel ih =>
      rw [insertFresh, fresh, hkey, Option.bind_some]
      split
      · have hname : keyName overflowChecks stem (i + 1) =
            (nextOrdinal overflowChecks ordinal).map fun _ => stem ++ "-" ++ showInt ordinal := by
          rw [keyName, hordinal, Option.bind_some]
        have hnext : ordinalAt overflowChecks (i + 1) = nextOrdinal overflowChecks ordinal := by
          rw [ordinalAt, hordinal, Option.bind_some]
        cases hstep : nextOrdinal overflowChecks ordinal with
        | none =>
            -- the ordinal overflows before the key is looked up
            rw [hstep] at hname
            cases fuel with
            | zero => rfl
            | succ fuel =>
                rw [fresh, hname]
                rfl
        | some next =>
            rw [hstep] at hname hnext
            exact ih hname hnext
      · rfl

theorem keysFrom_eq (fuel : Nat) (bases used : List String) (items : List CslItem) :
    keysFrom overflowChecks fuel bases used items =
      freshAll fuel used (items.map fun item => keyName overflowChecks (stem bases item)) := by
  induction items generalizing used with
  | nil => rfl
  | cons item items ih =>
      rw [keysFrom, insertFresh_eq fuel (i := 0) rfl rfl, List.map_cons, freshAll]
      simp only [ih]

theorem ordinalAt_unchecked (i : Nat) : ordinalAt false i = some (Int32.ofNat (i + 2)) := by
  induction i with
  | zero => rfl
  | succ i ih =>
      rw [ordinalAt, ih, Option.bind_some, nextOrdinal, if_neg (fun h => Bool.noConfusion h.1),
        Nat.add_right_comm, Int32.ofNat_add (i + 2) 1]
      rfl

theorem nextOrdinal_checked {n : Nat} (hn : n < 2 ^ 31) : nextOrdinal true (Int32.ofNat n) =
    if n + 1 < 2 ^ 31 then some (Int32.ofNat (n + 1)) else none := by
  have hlast : Int32.ofNat n = Int32.maxValue ↔ n + 1 = 2 ^ 31 := by
    rw [← Int32.toInt_inj, Int32.toInt_ofNat_of_lt hn, Int32.toInt_maxValue]
    omega
  rw [nextOrdinal]
  split
  · rename_i hmax
    have heq := hlast.1 hmax.2
    rw [if_neg (by omega)]
  · rename_i hmax
    have hne : n + 1 ≠ 2 ^ 31 := fun heq => hmax ⟨rfl, hlast.2 heq⟩
    rw [if_pos (by omega), Int32.ofNat_add n 1]
    rfl

theorem ordinalAt_checked (i : Nat) :
    ordinalAt true i = if i + 2 < 2 ^ 31 then some (Int32.ofNat (i + 2)) else none := by
  induction i with
  | zero => rfl
  | succ i ih =>
      rw [ordinalAt, ih]
      split
      · rename_i hlt
        rw [Option.bind_some, nextOrdinal_checked hlt, Nat.add_right_comm]
      · rw [if_neg (by omega)]
        rfl

theorem keyName_unchecked (stem : String) (i : Nat) :
    keyName false stem (i + 1) = some (stem ++ "-" ++ showInt (Int32.ofNat (i + 2))) := by
  rw [keyName, ordinalAt_unchecked, Option.bind_some, nextOrdinal,
    if_neg (fun h => Bool.noConfusion h.1)]
  rfl

theorem keyName_checked (stem : String) (i : Nat) : keyName true stem (i + 1) =
    if i + 1 < 2 ^ 31 - 2 then some (stem ++ "-" ++ showInt (Int32.ofNat (i + 2))) else none := by
  rw [keyName, ordinalAt_checked]
  split
  · rename_i hlt
    rw [Option.bind_some, nextOrdinal_checked hlt]
    split
    · rw [if_pos (by omega)]
      rfl
    · rw [if_neg (by omega)]
      rfl
  · rw [if_neg (by omega)]
    rfl

/-- Each key that is tried is the stem, or the stem with an ordinal. -/
theorem eq_of_keyName {stem key : String} {i : Nat} (h : keyName overflowChecks stem i = some key) :
    key = stem ∨ ∃ ordinal, key = stem ++ "-" ++ showInt ordinal := by
  cases i with
  | zero =>
      cases h
      exact Or.inl rfl
  | succ i =>
      obtain ⟨ordinal, _, hrest⟩ := Option.bind_eq_some_iff.1 h
      obtain ⟨_, _, rfl⟩ := Option.map_eq_some_iff.1 hrest
      exact Or.inr ⟨ordinal, rfl⟩

theorem stem_ne_numbered (stem : String) (ordinal : Int32) :
    stem ≠ stem ++ "-" ++ showInt ordinal := by
  intro h
  have hlength := congrArg String.length h
  rw [String.length_append, String.length_append] at hlength
  have hhyphen : ("-").length = 1 := rfl
  omega

theorem ofNat_eq_ofNat {m n : Nat} : Int32.ofNat m = Int32.ofNat n ↔ m % 2 ^ 32 = n % 2 ^ 32 := by
  rw [← Int32.toBitVec_inj, Int32.toBitVec_ofNat', Int32.toBitVec_ofNat', ← BitVec.toNat_inj,
    BitVec.toNat_ofNat, BitVec.toNat_ofNat]

theorem numbered_inj {stem : String} {i j : Nat} (hi : i < 2 ^ 32) (hj : j < 2 ^ 32)
    (h : stem ++ "-" ++ showInt (Int32.ofNat (i + 2)) = stem ++ "-" ++ showInt (Int32.ofNat (j + 2))) :
    i = j := by
  have hlists : (stem ++ "-").toList ++ (showInt (Int32.ofNat (i + 2))).toList =
      (stem ++ "-").toList ++ (showInt (Int32.ofNat (j + 2))).toList := by
    rw [← String.toList_append, ← String.toList_append, h]
  -- the stem is the same, so the ordinals are
  have hordinals := showInt_injective (String.toList_inj.1 (List.append_cancel_left hlists))
  rw [ofNat_eq_ofNat] at hordinals
  omega

theorem begins_keyName (overflowChecks : Bool) (stem : String) :
    Begins (keyName overflowChecks stem) (limit overflowChecks) := by
  have hname : ∀ i, i + 1 < limit overflowChecks → i < 2 ^ 32 ∧ keyName overflowChecks stem (i + 1) =
      some (stem ++ "-" ++ showInt (Int32.ofNat (i + 2))) := by
    intro i hi
    cases overflowChecks with
    | false =>
        rw [limit, if_neg Bool.false_ne_true] at hi
        exact ⟨by omega, keyName_unchecked stem i⟩
    | true =>
        rw [limit, if_pos rfl] at hi
        exact ⟨by omega, by rw [keyName_checked, if_pos hi]⟩
  constructor
  · intro i hi
    cases i with
    | zero => exact ⟨stem, rfl⟩
    | succ i => exact ⟨_, (hname i hi).2⟩
  · intro i hi j hj h
    cases i with
    | zero =>
        cases j with
        | zero => rfl
        | succ j =>
            rw [(hname j hj).2] at h
            exact absurd (Option.some.inj h) (stem_ne_numbered stem _)
    | succ i =>
        cases j with
        | zero =>
            rw [(hname i hi).2] at h
            exact absurd (Option.some.inj h).symm (stem_ne_numbered stem _)
        | succ j =>
            rw [(hname i hi).2, (hname j hj).2] at h
            rw [numbered_inj (hname i hi).1 (hname j hj).1 (Option.some.inj h)]

/-- The keys that a search can try. -/
def pool (overflowChecks : Bool) (stem : String) : List String :=
  (List.range (limit overflowChecks)).filterMap (keyName overflowChecks stem)

theorem length_pool_le (overflowChecks : Bool) (stem : String) :
    (pool overflowChecks stem).length ≤ limit overflowChecks := by
  have hle := List.length_filterMap_le (keyName overflowChecks stem)
    (List.range (limit overflowChecks))
  rwa [List.length_range] at hle

theorem mem_pool {stem key : String} {j : Nat} (h : keyName overflowChecks stem j = some key) :
    key ∈ pool overflowChecks stem := by
  have hin : ∃ k < limit overflowChecks, keyName overflowChecks stem k = some key := by
    cases j with
    | zero =>
        refine ⟨0, ?_, h⟩
        rw [limit]
        split <;> omega
    | succ j =>
        cases overflowChecks with
        | true =>
            rw [keyName_checked] at h
            split at h
            · rename_i hlt
              refine ⟨j + 1, ?_, ?_⟩
              · rw [limit, if_pos rfl]
                exact hlt
              · rw [keyName_checked, if_pos hlt]
                exact h
            · cases h
        | false =>
            -- the ordinals run in a circle
            refine ⟨j % 2 ^ 32 + 1, ?_, ?_⟩
            · rw [limit, if_neg Bool.false_ne_true]
              omega
            · rw [keyName_unchecked] at h ⊢
              have hsame : Int32.ofNat (j % 2 ^ 32 + 2) = Int32.ofNat (j + 2) := by
                rw [ofNat_eq_ofNat]
                omega
              rw [hsame]
              exact h
  obtain ⟨k, hk, hname⟩ := hin
  exact List.mem_filterMap.2 ⟨k, List.mem_range.2 hk, hname⟩

/-! ## Keys of a batch -/

theorem deconflictedKeys_eq (fuel : Nat) (items : List CslItem) :
    deconflictedKeys overflowChecks fuel items =
      freshAll fuel [] (items.map fun item =>
        keyName overflowChecks (stem (items.map citationKey) item)) :=
  keysFrom_eq fuel (items.map citationKey) [] items

/-- Keys that are returned are told apart, and each is one its item can have. -/
theorem deconflictedKeys_spec {fuel : Nat} {items : List CslItem} {keys : List String}
    (h : deconflictedKeys overflowChecks fuel items = some keys) :
    keys.Nodup ∧ List.Forall₂ (fun item key => key = stem (items.map citationKey) item ∨
      ∃ ordinal, key = stem (items.map citationKey) item ++ "-" ++ showInt ordinal) items keys := by
  rw [deconflictedKeys_eq] at h
  obtain ⟨hnodup, _, hown⟩ := FreshNames.freshAll_spec h
  rw [List.forall₂_map_left_iff] at hown
  refine ⟨hnodup, hown.imp ?_⟩
  intro item key hkey
  obtain ⟨j, hj⟩ := hkey
  exact eq_of_keyName hj

theorem citationKey_prefix_stem (bases : List String) (item : CslItem) :
    (citationKey item).toList <+: (stem bases item).toList := by
  rw [stem]
  split
  · rw [String.toList_append, String.toList_append, List.append_assoc]
    exact List.prefix_append _ _
  · exact List.prefix_refl _

/-- A key for each item, no two the same, and each begins with the item's own. -/
def KeysRight (overflowChecks : Bool) (items : List CslItem) : Prop :=
  ∃ fuel keys, (∀ more ≥ fuel, deconflictedKeys overflowChecks more items = some keys) ∧
    keys.Nodup ∧
    List.Forall₂ (fun item key => (citationKey item).toList <+: key.toList) items keys

theorem keysRight_of_deconflictedKeys {fuel : Nat} {items : List CslItem} {keys : List String}
    (h : deconflictedKeys overflowChecks fuel items = some keys) :
    KeysRight overflowChecks items := by
  have hmore : ∀ more ≥ fuel, deconflictedKeys overflowChecks more items = some keys := by
    intro more hle
    rw [deconflictedKeys_eq] at h ⊢
    exact FreshNames.freshAll_mono h hle
  obtain ⟨hnodup, hown⟩ := deconflictedKeys_spec h
  refine ⟨fuel, keys, hmore, hnodup, hown.imp ?_⟩
  intro item key hkey
  have hprefix := citationKey_prefix_stem (items.map citationKey) item
  rcases hkey with rfl | ⟨ordinal, rfl⟩
  · exact hprefix
  · rw [String.toList_append, String.toList_append, List.append_assoc]
    exact hprefix.trans (List.prefix_append _ _)

/-- No batch has more items than a search has keys to try: every search finds one. -/
theorem keysRight_of_length_le {items : List CslItem} (h : items.length ≤ limit overflowChecks) :
    KeysRight overflowChecks items := by
  have hbegins : ∀ name ∈ items.map fun item =>
      keyName overflowChecks (stem (items.map citationKey) item),
      Begins name (limit overflowChecks) := by
    intro name hname
    obtain ⟨item, _, rfl⟩ := List.mem_map.1 hname
    exact begins_keyName overflowChecks _
  obtain ⟨keys, hkeys⟩ := @FreshNames.exists_freshAll _ _ [] _ _ hbegins
    (by rw [List.length_nil, List.length_map]; omega)
  rw [← deconflictedKeys_eq] at hkeys
  exact keysRight_of_deconflictedKeys hkeys

/-- Whenever an item's turn comes, there is a key that it can try and none before it has. -/
def KeyLeft (overflowChecks : Bool) (items : List CslItem) : Prop :=
  ∀ before item after, items = before ++ item :: after → ∀ fuel keys,
    keysFrom overflowChecks fuel (items.map citationKey) [] before = some keys →
      ∃ key ∈ pool overflowChecks (stem (items.map citationKey) item), key ∉ keys

theorem gapless_keyName (overflowChecks : Bool) (stem : String) :
    FreshNames.Gapless (keyName overflowChecks stem) := by
  intro i j hij hnone
  cases i with
  | zero => cases hnone
  | succ i =>
      obtain ⟨j, rfl⟩ := Nat.exists_eq_add_one.2 (Nat.lt_of_lt_of_le (Nat.succ_pos i) hij)
      cases overflowChecks with
      | false =>
          rw [keyName_unchecked] at hnone
          cases hnone
      | true =>
          rw [keyName_checked] at hnone ⊢
          split at hnone
          · cases hnone
          · rw [if_neg (by omega)]

theorem keyLeft_of_right {items : List CslItem} (h : KeysRight overflowChecks items) :
    KeyLeft overflowChecks items := by
  obtain ⟨fuel, keys, hkeys, _⟩ := h
  have hfound := hkeys fuel (Nat.le_refl fuel)
  rw [deconflictedKeys_eq] at hfound
  intro before item after hitems fuel' given hgiven
  rw [keysFrom_eq] at hgiven
  have hnames := congrArg
    (List.map fun item => keyName overflowChecks (stem (items.map citationKey) item)) hitems
  rw [List.map_append, List.map_cons] at hnames
  obtain ⟨j, key, hname, _, hfree⟩ :=
    FreshNames.spare_of_freshAll hfound _ _ _ hnames fuel' given hgiven
  exact ⟨key, mem_pool hname, hfree⟩

theorem keysRight_of_keyLeft {items : List CslItem} (h : KeyLeft overflowChecks items) :
    KeysRight overflowChecks items := by
  have hspare : FreshNames.Spare [] (items.map fun item =>
      keyName overflowChecks (stem (items.map citationKey) item)) := by
    intro before name after hnames fuel given hgiven
    obtain ⟨first, rest, hitems, rfl, hrest⟩ := List.map_eq_append_iff.1 hnames
    obtain ⟨item, last, rfl, rfl, _⟩ := List.map_eq_cons_iff.1 hrest
    rw [← keysFrom_eq] at hgiven
    obtain ⟨key, hkey, hfree⟩ := h first item last hitems fuel given hgiven
    obtain ⟨j, _, hname⟩ := List.mem_filterMap.1 hkey
    exact ⟨j, key, hname, List.not_mem_nil, hfree⟩
  have hgapless : ∀ name ∈ items.map fun item =>
      keyName overflowChecks (stem (items.map citationKey) item), FreshNames.Gapless name := by
    intro name hname
    obtain ⟨item, _, rfl⟩ := List.mem_map.1 hname
    exact gapless_keyName overflowChecks _
  obtain ⟨fuel, keys, hkeys⟩ := FreshNames.exists_freshAll_of_spare hgapless hspare
  rw [← deconflictedKeys_eq] at hkeys
  exact keysRight_of_deconflictedKeys hkeys

/-- Items that are all the same have no other keys than one of them. -/
theorem not_keysRight_replicate {n : Nat} (hn : limit overflowChecks < n) (item : CslItem) :
    ¬ KeysRight overflowChecks (List.replicate n item) := by
  rintro ⟨fuel, keys, hkeys, _⟩
  have hfound := hkeys fuel (Nat.le_refl fuel)
  rw [deconflictedKeys_eq, List.map_replicate, List.map_replicate] at hfound
  have hpool : ∀ name ∈ List.replicate n
      (keyName overflowChecks (stem (List.replicate n (citationKey item)) item)),
      ∀ j key, name j = some key →
        key ∈ pool overflowChecks (stem (List.replicate n (citationKey item)) item) := by
    intro name hname j key hkey
    rw [List.eq_of_mem_replicate hname] at hkey
    exact mem_pool hkey
  have hle := FreshNames.length_le_of_freshAll hpool hfound
  rw [List.length_replicate] at hle
  exact absurd (hle.trans (length_pool_le _ _)) (by omega)

/-- A batch has its keys as long as no search comes to an end without one, which is so for
    all batches of a length just when it does not go beyond what one search can try. -/
theorem keys_right_iff (overflowChecks : Bool) :
    (∀ items, KeysRight overflowChecks items ↔ KeyLeft overflowChecks items) ∧
    ∀ n, (∀ items : List CslItem, items.length = n → KeysRight overflowChecks items) ↔
      n ≤ limit overflowChecks := by
  refine ⟨fun items => ⟨keyLeft_of_right, keysRight_of_keyLeft⟩, fun n => ⟨fun h => ?_, fun h => ?_⟩⟩
  · by_contra hlt
    exact not_keysRight_replicate (Nat.lt_of_not_le hlt) (CslItem.bare "9")
      (h _ List.length_replicate)
  · intro items hitems
    exact keysRight_of_length_le (hitems ▸ h)

/-- One item over and over: the ordinals run out, or run in a circle. -/
theorem keys_not_right :
    ¬ KeysRight true (List.replicate (2 ^ 31 - 1) (CslItem.bare "9")) ∧
      ¬ KeysRight false (List.replicate (2 ^ 32 + 2) (CslItem.bare "9")) := by
  constructor
  · refine not_keysRight_replicate ?_ _
    rw [limit, if_pos rfl]
    omega
  · refine not_keysRight_replicate ?_ _
    rw [limit, if_neg Bool.false_ne_true]
    omega

/-! ## The characters of keys -/

/-- Letters and digits, and what is before an ordinal, a hash or a year long ago. -/
def isKeyChar (c : Char) : Bool := c.isAlphanum || c == '-'

theorem isKeyChar_of_isDigit {c : Char} (h : c.isDigit = true) : isKeyChar c = true := by
  rw [isKeyChar, Char.isAlphanum, h, Bool.or_true, Bool.true_or]

theorem isKeyChar_of_toDigits {n : Nat} {c : Char} (h : c ∈ Nat.toDigits 16 n) :
    isKeyChar c = true := by
  have hdigit : ∀ d < 16, isKeyChar (Nat.digitChar d) = true := by decide
  induction n using Nat.strongRecOn with
  | ind n ih =>
      rcases Nat.lt_or_ge n 16 with hlt | hge
      · rw [Nat.toDigits_of_lt_base hlt, List.mem_singleton] at h
        rw [h]
        exact hdigit n hlt
      · rw [Nat.toDigits_of_base_le (by decide) hge, List.mem_append] at h
        rcases h with h | h
        · exact ih (n / 16) (by omega) h
        · rw [List.mem_singleton.1 h]
          exact hdigit _ (Nat.mod_lt n (by decide))

theorem isKeyChar_of_foldAscii {value : String} {c : Char} (h : c ∈ foldAscii value) :
    isKeyChar c = true := by
  have hrows : (replacements.all fun row => row.2.all isKeyChar) = true := by decide
  obtain ⟨d, _, h⟩ := List.mem_flatMap.1 h
  obtain ⟨lower, _, h⟩ := List.mem_flatMap.1 h
  split at h
  · rename_i halphanum
    rw [List.mem_singleton.1 h, isKeyChar, halphanum, Bool.true_or]
  · rw [foldNonAscii] at h
    cases hrow : replacements.find? fun row => row.1.contains lower with
    | none =>
        rw [hrow] at h
        cases h
    | some row =>
        rw [hrow] at h
        have hall := List.all_eq_true.1 hrows row (List.mem_of_find?_eq_some hrow)
        exact List.all_eq_true.1 hall c h

theorem isKeyChar_of_showInt {n : Int32} {c : Char} (h : c ∈ (showInt n).toList) :
    isKeyChar c = true := by
  rcases mem_showInt h with rfl | hdigit
  · rfl
  · exact isKeyChar_of_isDigit hdigit

theorem isKeyChar_of_citationKey {item : CslItem} {c : Char} (h : c ∈ (citationKey item).toList) :
    isKeyChar c = true := by
  rw [citationKey, String.toList_append, String.toList_ofList, List.mem_append] at h
  rcases h with h | h
  · cases hname : item.author.head?.bind fun name => name.family.or name.literal with
    | none =>
        rw [hname] at h
        cases h
    | some name =>
        rw [hname] at h
        exact isKeyChar_of_foldAscii h
  · cases hyear : item.issuedYear with
    | none =>
        rw [hyear] at h
        have hnd : (("nd").toList).all isKeyChar = true := by decide
        exact List.all_eq_true.1 hnd c h
    | some year =>
        rw [hyear] at h
        exact isKeyChar_of_showInt h

theorem isKeyChar_of_stem {bases : List String} {item : CslItem} {c : Char}
    (h : c ∈ (stem bases item).toList) : isKeyChar c = true := by
  rw [stem] at h
  split at h
  · rw [String.toList_append, String.toList_append, List.mem_append, List.mem_append] at h
    rcases h with (h | h) | h
    · exact isKeyChar_of_citationKey h
    · rw [List.mem_singleton.1 h]
      rfl
    · rw [shortIdHash, String.toList_ofList] at h
      rcases List.mem_append.1 (List.mem_of_mem_take h) with h | h
      · rw [List.eq_of_mem_replicate h]
        rfl
      · exact isKeyChar_of_toDigits h
  · exact isKeyChar_of_citationKey h

theorem isKeyChar_of_deconflictedKeys {fuel : Nat} {items : List CslItem} {keys : List String}
    (h : deconflictedKeys overflowChecks fuel items = some keys) :
    ∀ key ∈ keys, ∀ c ∈ key.toList, isKeyChar c = true := by
  intro key hkey c hc
  obtain ⟨i, hi, rfl⟩ := List.getElem_of_mem hkey
  have hown := (deconflictedKeys_spec h).2
  rcases hown.get (by rw [hown.length_eq]; exact hi) hi with hstem | ⟨ordinal, hstem⟩
  · rw [List.get_eq_getElem] at hstem
    rw [hstem] at hc
    exact isKeyChar_of_stem hc
  · rw [List.get_eq_getElem] at hstem
    rw [hstem, String.toList_append, String.toList_append, List.mem_append, List.mem_append] at hc
    rcases hc with (hc | hc) | hc
    · exact isKeyChar_of_stem hc
    · rw [List.mem_singleton.1 hc]
      rfl
    · exact isKeyChar_of_showInt hc

/-! ## Batches in another order -/

/-- The items of a batch are given the same keys in every order. -/
def OrderFree (overflowChecks : Bool) (items : List CslItem) : Prop :=
  ∀ items', items'.Perm items → ∃ fuel keys keys',
    deconflictedKeys overflowChecks fuel items = some keys ∧
    deconflictedKeys overflowChecks fuel items' = some keys' ∧
    (items'.zip keys').Perm (items.zip keys)

theorem stem_perm {items items' : List CslItem} (h : items'.Perm items) :
    stem (items'.map citationKey) = stem (items.map citationKey) := by
  funext item
  rw [stem, stem, (h.map citationKey).count_eq]

/-- Where no two have a stem in common, the keys are the stems. -/
theorem deconflictedKeys_stems {fuel : Nat} {items : List CslItem}
    (h : (items.map (stem (items.map citationKey))).Nodup) :
    deconflictedKeys overflowChecks (fuel + 1) items =
      some (items.map (stem (items.map citationKey))) := by
  rw [deconflictedKeys_eq]
  refine FreshNames.freshAll_heads ?_ h fun _ _ => List.not_mem_nil
  rw [List.map_map, List.map_map]
  rfl

theorem zip_map_perm {items items' : List CslItem} (h : items'.Perm items) (f : CslItem → String) :
    (items'.zip (items'.map f)).Perm (items.zip (items.map f)) := by
  have hzip : ∀ l : List CslItem, l.zip (l.map f) = l.map fun item => (item, f item) := by
    intro l
    rw [← List.zip_map', List.map_id']
  rw [hzip, hzip]
  exact h.map _

theorem orderFree_of_stems {items : List CslItem}
    (h : (items.map (stem (items.map citationKey))).Nodup) : OrderFree overflowChecks items := by
  intro items' hperm
  have hstems : (items'.map (stem (items'.map citationKey))).Nodup := by
    rw [stem_perm hperm]
    exact (hperm.map _).nodup_iff.2 h
  refine ⟨1, _, _, deconflictedKeys_stems h, deconflictedKeys_stems hstems, ?_⟩
  rw [stem_perm hperm]
  exact zip_map_perm hperm _

/-- Whoever is first has the stem for a key. -/
theorem key_of_first {fuel : Nat} {item : CslItem} {rest : List CslItem} {keys : List String}
    (h : deconflictedKeys overflowChecks fuel (item :: rest) = some keys) :
    (item, stem ((item :: rest).map citationKey) item) ∈ (item :: rest).zip keys := by
  rw [deconflictedKeys_eq, List.map_cons] at h
  have hfirst : keyName overflowChecks (stem ((item :: rest).map citationKey) item) 0 =
      some (stem ((item :: rest).map citationKey) item) := rfl
  obtain ⟨others, rfl⟩ := FreshNames.freshAll_first hfirst List.not_mem_nil h
  exact List.mem_cons_self

theorem eq_of_mem_zip {items : List CslItem} {keys : List String} (hkeys : keys.Nodup)
    {a b : CslItem} {key : String} (ha : (a, key) ∈ items.zip keys) (hb : (b, key) ∈ items.zip keys) :
    a = b := by
  obtain ⟨i, hi, hzipa⟩ := List.getElem_of_mem ha
  obtain ⟨j, hj, hzipb⟩ := List.getElem_of_mem hb
  rw [List.getElem_zip, Prod.mk.injEq] at hzipa hzipb
  obtain ⟨rfl, hkeya⟩ := hzipa
  obtain ⟨rfl, hkeyb⟩ := hzipb
  have hij : i = j := (hkeys.getElem_inj_iff).1 (hkeya.trans hkeyb.symm)
  subst hij
  rfl

/-- Of two items with a stem in common, the one that comes first has it for a key. -/
theorem stems_of_orderFree {items : List CslItem} (hids : (items.map CslItem.id).Nodup)
    (h : OrderFree overflowChecks items) : (items.map (stem (items.map citationKey))).Nodup := by
  obtain ⟨fuel, keys, _, hkeys, _⟩ := h items (List.Perm.refl items)
  have hown : ∀ item ∈ items, (item, stem (items.map citationKey) item) ∈ items.zip keys := by
    intro item hitem
    have hperm : (item :: items.erase item).Perm items := (List.perm_cons_erase hitem).symm
    obtain ⟨fuel', keys', others, hkeys', hothers, hzip⟩ := h _ hperm
    -- moved to the front, the item has its stem for a key
    have hfirst := hzip.subset (key_of_first hothers)
    rw [stem_perm hperm] at hfirst
    -- the keys of the batch do not depend on the fuel
    have hsame : keys' = keys := by
      rw [deconflictedKeys_eq] at hkeys hkeys'
      have hmost := FreshNames.freshAll_mono hkeys (Nat.le_max_left fuel fuel')
      rw [FreshNames.freshAll_mono hkeys' (Nat.le_max_right fuel fuel')] at hmost
      exact Option.some.inj hmost
    rwa [hsame] at hfirst
  refine (List.nodup_map_iff_inj_on hids.of_map).2 fun a ha b hb hstem => ?_
  have howna := hown a ha
  rw [hstem] at howna
  exact eq_of_mem_zip (deconflictedKeys_spec hkeys).1 howna (hown b hb)

/-- The keys do not depend on the order just where no two items have a stem in common: not
    the same base, nor, where a base is shared, the same hash behind it. -/
theorem order_free_iff (overflowChecks : Bool) {items : List CslItem}
    (hids : (items.map CslItem.id).Nodup) :
    OrderFree overflowChecks items ↔ (items.map (stem (items.map citationKey))).Nodup :=
  ⟨stems_of_orderFree hids, orderFree_of_stems⟩

/-- Two items of one base, whose identifiers are told apart by their hashes. -/
theorem order_free_two : OrderFree true [CslItem.bare "1", CslItem.bare "2"] :=
  (order_free_iff true (by decide)).2 (by decide +kernel)

/-- Two items of one base and one hash. -/
theorem not_order_free : ([CslItem.bare "11562", CslItem.bare "15627"].map CslItem.id).Nodup ∧
    ¬ OrderFree true [CslItem.bare "11562", CslItem.bare "15627"] := by
  refine ⟨by decide, fun h => ?_⟩
  have hstems := stems_of_orderFree (by decide) h
  revert hstems
  decide +kernel

end Citations

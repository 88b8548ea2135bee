import Livtet.Pairing
import Livtet.Lib.Blanks
import Livtet.Lib.Pieces
import Mathlib.Order.Bounds.Basic

/-! # The parts of an author's name

    A name is split at its first comma, or else before its family name: the last word, with
    the particles before it. No word is lost, and the family name is as long as it can be.
    The two columns are filled where they are empty, each by itself; filling them again
    changes nothing.

    A part that an import has left out is filled too. So if the one part that is there
    spells the name, the two spell more than the name, unless nothing is left to fill in. -/

namespace AuthorNames

open SyncPairing (DbId isWhitespace)
open Blanks
open Pieces (splitOnce splitOnce_append splitOnce_of_notMem splitOnce_eq_some splitOnce_eq_none)

/-! ## Splitting a name -/

def particles : List String :=
  ["al", "ap", "ben", "bin", "da", "dal", "de", "del", "della", "den", "der", "di", "do", "dos",
    "du", "el", "ibn", "la", "le", "st", "ten", "ter", "van", "von", "y", "zu", "zum", "zur"]

/-- No character beyond ASCII has a lower case that is a letter of these. -/
def isParticle (token : List Char) : Bool :=
  let lower := (token.reverse.dropWhile fun c => c == '.').reverse.map Char.toLower
  (particles.map String.toList).contains lower

/-- Trim a part and treat an empty one as absent. -/
def nonEmpty (part : List Char) : Option String :=
  let part := trim isWhitespace part
  if part.isEmpty then none else some (String.ofList part)

/-- `split_whitespace`. -/
def tokens (name : String) : List (List Char) := words isWhitespace name.toList

def join (ws : List (List Char)) : String := String.ofList ([' '].intercalate ws)

/-- The loop: where the family name begins, grown leftwards from `start`. Nothing is the result
    of a subtraction that overflows and of an index that is out of range. -/
def growLeft (ts : List (List Char)) : Nat → Option Nat
  | 0 => some 0
  | 1 => some 1
  | start + 2 =>
      if ts.length < start + 2 then none
      else if ts.length - (start + 2) < 3 then
        match ts[start + 1]? with
        | none => none
        | some token => if isParticle token then growLeft ts (start + 1) else some (start + 2)
      else some (start + 2)

def splitName (name : String) : Option (Option String × Option String) :=
  let name := trim isWhitespace name.toList
  if name.isEmpty then some (none, none)
  else
    match splitOnce ',' name with
    | some (family, given) => some (nonEmpty family, nonEmpty given)
    | none =>
        let ts := words isWhitespace name
        if ts.length < 1 then none
        else do
          let start ← growLeft ts (ts.length - 1)
          if ts.length < start then none
          else some (some (join (ts.drop start)),
            if 0 < start then some (join (ts.take start)) else none)

/-! ## The backfill -/

structure AuthorRow where
  id : DbId
  name : String
  family : Option String
  given : Option String
deriving DecidableEq

@[ext] structure AuthorTable where
  rows : List AuthorRow
  ids : (rows.map fun r => r.id).Nodup

/-- `COALESCE` of both columns. -/
def AuthorRow.coalesce (family given : Option String) (r : AuthorRow) : AuthorRow :=
  { r with family := r.family.or family, given := r.given.or given }

/-- `UPDATE authors .. WHERE id = ?`. -/
def AuthorTable.update (id : DbId) (family given : Option String) (t : AuthorTable) :
    AuthorTable where
  rows := t.rows.map fun r => if r.id = id then r.coalesce family given else r
  ids := by
    have hids : (fun r : AuthorRow => (if r.id = id then r.coalesce family given else r).id) =
        fun r => r.id := by
      funext r
      split <;> rfl
    rw [List.map_map]
    show (t.rows.map fun r => (if r.id = id then r.coalesce family given else r).id).Nodup
    rw [hids]
    exact t.ids

/-- What is done for a row that was read. -/
def backfill (t : AuthorTable) (row : AuthorRow) : Option AuthorTable :=
  if row.family.isSome ∧ row.given.isSome then some t
  else do
    let (family, given) ← splitName row.name
    if family.isNone ∧ given.isNone then some t
    else some (t.update row.id family given)

/-- All rows are read first. -/
def apply (t : AuthorTable) : Option AuthorTable := t.rows.foldlM backfill t

/-! ## How long a family name is -/

/-- The last `m` words may be a family name: the words before the last are particles, and
    unless it is the only word, one is left for the given name. -/
structure FamilySize (ts : List (List Char)) (m : Nat) : Prop where
  low : 1 ≤ m
  high : m ≤ 3
  le : m ≤ ts.length
  particles : ∀ i t, ts.length - m ≤ i → i + 1 < ts.length → ts[i]? = some t →
    isParticle t = true
  rest : 1 < ts.length → m < ts.length

section Family

variable {ts : List (List Char)} {k : Nat}

/-- The family name is as long as it can be where it does not grow any further. -/
theorem isGreatest_of_stop (hk : k < ts.length) (hsize : FamilySize ts (ts.length - k))
    (hstop : k ≤ 1 ∨ 3 ≤ ts.length - k ∨ ∃ t, ts[k - 1]? = some t ∧ isParticle t = false) :
    IsGreatest {m | FamilySize ts m} (ts.length - k) := by
  refine ⟨hsize, fun m hm => ?_⟩
  by_contra hlt
  have hlow := hm.low
  have hhigh := hm.high
  have hle := hm.le
  have hrest := hm.rest
  rcases hstop with hfirst | hthree | ⟨t, ht, hno⟩
  · omega
  · omega
  · -- a longer family name would begin before this word
    have hparticle := hm.particles (k - 1) t (by omega) (by omega) ht
    rw [hno] at hparticle
    cases hparticle

theorem FamilySize.grow {t : List Char} (hk : k + 2 < ts.length)
    (hsize : FamilySize ts (ts.length - (k + 2))) (hthree : ts.length - (k + 2) < 3)
    (ht : ts[k + 1]? = some t) (hparticle : isParticle t = true) :
    FamilySize ts (ts.length - (k + 1)) := by
  refine ⟨by omega, by omega, by omega, fun i u hi hlast hu => ?_, by omega⟩
  by_cases hfirst : i = k + 1
  · rw [hfirst, ht] at hu
    cases hu
    exact hparticle
  · exact hsize.particles i u (by omega) hlast hu

/-- The loop stops in range, at the longest family name. -/
theorem growLeft_spec (hk : k < ts.length) (hsize : FamilySize ts (ts.length - k)) :
    ∃ start, growLeft ts k = some start ∧ start < ts.length ∧
      IsGreatest {m | FamilySize ts m} (ts.length - start) := by
  induction k with
  | zero => exact ⟨0, rfl, hk, isGreatest_of_stop hk hsize (Or.inl (Nat.zero_le 1))⟩
  | succ k ih =>
      cases k with
      | zero => exact ⟨1, rfl, hk, isGreatest_of_stop hk hsize (Or.inl (Nat.le_refl 1))⟩
      | succ k =>
          have hin : k + 1 < ts.length := by omega
          have ht : ts[k + 1]? = some ts[k + 1] := List.getElem?_eq_getElem hin
          rw [growLeft, if_neg (by omega)]
          split
          · rename_i hthree
            rw [ht]
            dsimp only
            split
            · rename_i hparticle
              exact ih hin (hsize.grow hk hthree ht hparticle)
            · rename_i hno
              exact ⟨k + 2, rfl, hk, isGreatest_of_stop hk hsize
                (Or.inr (Or.inr ⟨_, ht, Bool.eq_false_iff.2 hno⟩))⟩
          · rename_i hthree
            exact ⟨k + 2, rfl, hk, isGreatest_of_stop hk hsize
              (Or.inr (Or.inl (Nat.not_lt.1 hthree)))⟩

/-- One word is always a family name. -/
theorem familySize_one (hne : ts ≠ []) : FamilySize ts 1 := by
  have hpos := List.length_pos_iff.2 hne
  exact ⟨Nat.le_refl 1, by decide, hpos, fun i t hi hlast _ => absurd hlast (by omega), id⟩

end Family

/-! ## What a name is split into -/

/-- The words of a part, none if it is absent. -/
def partTokens (part : Option String) : List (List Char) := (part.map tokens).getD []

theorem tokens_join {ws : List (List Char)} (hws : ∀ w ∈ ws, IsWord isWhitespace w) :
    tokens (join ws) = ws := by
  have hblank : isWhitespace ' ' = true := by decide
  rw [tokens, join, String.toList_ofList, words_join hblank hws]

theorem isWord_of_mem_tokens {name : String} : ∀ w ∈ tokens name, IsWord isWhitespace w :=
  fun _ => isWord_of_mem

section Split

variable {name : String}

theorem tokens_ne_nil_iff : tokens name ≠ [] ↔ trim isWhitespace name.toList ≠ [] :=
  not_congr words_eq_nil_iff

/-- A comma that is not in the name is not in what is left of it. -/
theorem splitOnce_trim_of_notMem {c : Char} (hc : c ∉ name.toList) :
    splitOnce c (trim isWhitespace name.toList) = none := by
  refine splitOnce_of_notMem fun hmem => hc ?_
  obtain ⟨lead, trail, hs, _, _⟩ := exists_trim isWhitespace name.toList
  rw [hs]
  exact List.mem_append_right _ (List.mem_append_left _ hmem)

/-- The parts of a name without a comma. -/
theorem splitName_of_no_comma (hne : tokens name ≠ []) (hcomma : ',' ∉ name.toList) :
    ∃ m, IsGreatest {m | FamilySize (tokens name) m} m ∧
      splitName name = some (some (join ((tokens name).drop ((tokens name).length - m))),
        if (tokens name).length = 1 then none
        else some (join ((tokens name).take ((tokens name).length - m)))) := by
  have hpos := List.length_pos_iff.2 hne
  have hone : FamilySize (tokens name) ((tokens name).length - ((tokens name).length - 1)) := by
    rw [Nat.sub_sub_self hpos]
    exact familySize_one hne
  obtain ⟨start, hgrow, hstart, hgreatest⟩ := growLeft_spec (Nat.sub_lt hpos Nat.one_pos) hone
  refine ⟨_, hgreatest, ?_⟩
  have htrim : (trim isWhitespace name.toList).isEmpty = false :=
    List.isEmpty_eq_false_iff.2 (tokens_ne_nil_iff.1 hne)
  have hwords : words isWhitespace (trim isWhitespace name.toList) = tokens name :=
    words_trim name.toList
  have hgiven : 0 < start ↔ ¬ (tokens name).length = 1 := by
    have hlow := hgreatest.1.low
    have hrest := hgreatest.1.rest
    omega
  rw [splitName]
  simp only [htrim, Bool.false_eq_true, if_false, splitOnce_trim_of_notMem hcomma, hwords]
  rw [if_neg (by omega), hgrow, Nat.sub_sub_self hstart.le]
  show (if (tokens name).length < start then none else _) = _
  rw [if_neg (by omega)]
  by_cases h : 0 < start
  · rw [if_pos h, if_neg (hgiven.1 h)]
  · rw [if_neg h, if_pos (not_not.1 fun hone' => h (hgiven.2 hone'))]

theorem splitName_of_blank (h : tokens name = []) : splitName name = some (none, none) := by
  have htrim : (trim isWhitespace name.toList).isEmpty = true :=
    List.isEmpty_iff.2 (not_not.1 fun hne => tokens_ne_nil_iff.2 hne h)
  rw [splitName]
  exact if_pos htrim

/-- No word is lost. -/
theorem splitName_tokens (hcomma : ',' ∉ name.toList) :
    ∃ parts, splitName name = some parts ∧
      partTokens parts.2 ++ partTokens parts.1 = tokens name := by
  by_cases hne : tokens name = []
  · exact ⟨(none, none), splitName_of_blank hne, hne.symm⟩
  · obtain ⟨m, hgreatest, hsplit⟩ := splitName_of_no_comma hne hcomma
    refine ⟨_, hsplit, ?_⟩
    have hdrop : partTokens (some (join ((tokens name).drop ((tokens name).length - m)))) =
        (tokens name).drop ((tokens name).length - m) :=
      tokens_join fun w hw => isWord_of_mem_tokens w (List.mem_of_mem_drop hw)
    have htake : partTokens (some (join ((tokens name).take ((tokens name).length - m)))) =
        (tokens name).take ((tokens name).length - m) :=
      tokens_join fun w hw => isWord_of_mem_tokens w (List.mem_of_mem_take hw)
    show partTokens (if _ then _ else _) ++ partTokens _ = _
    rw [hdrop]
    split
    · rename_i hone
      have hlow := hgreatest.1.low
      have hzero : (tokens name).length - m = 0 := by omega
      rw [hzero]
      rfl
    · rw [htake, List.take_append_drop]

/-- The parts of a name with a comma. -/
theorem splitName_of_comma {before after : List Char} (hbefore : ',' ∉ before)
    (hname : name.toList = before ++ ',' :: after) :
    splitName name = some (nonEmpty before, nonEmpty after) := by
  obtain ⟨lead, trail, hs, hlead, htrail⟩ := exists_trim isWhitespace name.toList
  have hcomma : isWhitespace ',' = false := by decide
  have hmem : ',' ∈ trim isWhitespace name.toList := by
    have hin : ',' ∈ name.toList := by
      rw [hname]
      exact List.mem_append_right _ List.mem_cons_self
    rw [hs] at hin
    rcases List.mem_append.1 hin with hin | hin
    · rw [hlead _ hin] at hcomma
      cases hcomma
    · rcases List.mem_append.1 hin with hin | hin
      · exact hin
      · rw [htrail _ hin] at hcomma
        cases hcomma
  obtain ⟨family, given, htrim, hfamily⟩ := List.eq_append_cons_of_mem hmem
  -- the first comma of the name is the first of what is left of it
  have hsame : name.toList = (lead ++ family) ++ ',' :: (given ++ trail) := by
    rw [hs, htrim]
    simp only [List.append_assoc, List.cons_append]
  have hlead' : ',' ∉ lead ++ family := by
    intro hin
    rcases List.mem_append.1 hin with hin | hin
    · rw [hlead _ hin] at hcomma
      cases hcomma
    · exact hfamily hin
  have hboth := splitOnce_append hlead' (given ++ trail)
  rw [← hsame, hname, splitOnce_append hbefore] at hboth
  obtain ⟨rfl, rfl⟩ := Prod.mk.inj (Option.some.inj hboth)
  have hnone : ∀ c ∈ ([] : List Char), isWhitespace c = true := List.forall_mem_nil _
  have hleft : trim isWhitespace (lead ++ family) = trim isWhitespace family := by
    have happend := trim_append family hlead hnone
    rwa [List.append_nil] at happend
  have hright : trim isWhitespace (given ++ trail) = trim isWhitespace given :=
    trim_append given hnone htrail
  rw [splitName, htrim, nonEmpty, nonEmpty, hleft, hright, splitOnce_append hfamily]
  have hempty : (family ++ ',' :: given).isEmpty = false :=
    List.isEmpty_eq_false_iff.2 (by simp)
  simp only [hempty]
  rfl

end Split

/-- A name is always split. -/
theorem exists_splitName (name : String) : ∃ parts, splitName name = some parts := by
  by_cases hcomma : ',' ∈ name.toList
  · obtain ⟨before, after, hname, hbefore⟩ := List.eq_append_cons_of_mem hcomma
    exact ⟨_, splitName_of_comma hbefore hname⟩
  · obtain ⟨parts, hparts, _⟩ := splitName_tokens hcomma
    exact ⟨parts, hparts⟩

/-! ## What the backfill leaves -/

/-- A row with its empty parts filled from its name. -/
def AuthorRow.filled (r : AuthorRow) : AuthorRow :=
  let parts := (splitName r.name).getD (none, none)
  r.coalesce parts.1 parts.2

theorem coalesce_coalesce (family given : Option String) (r : AuthorRow) :
    (r.coalesce family given).coalesce family given = r.coalesce family given := by
  show AuthorRow.mk r.id r.name ((r.family.or family).or family) ((r.given.or given).or given) = _
  rw [Option.or_assoc, Option.or_self, Option.or_assoc, Option.or_self]
  rfl

theorem filled_filled (r : AuthorRow) : r.filled.filled = r.filled :=
  coalesce_coalesce _ _ r

/-- Only the row with the id is updated. -/
theorem map_update {r : AuthorRow} {pre post : List AuthorRow} (f : AuthorRow → AuthorRow)
    (hids : ((pre ++ r :: post).map fun x => x.id).Nodup) :
    ((pre ++ r :: post).map fun x => if x.id = r.id then f x else x) = pre ++ f r :: post := by
  rw [List.map_append, List.map_cons, List.nodup_append, List.nodup_cons] at hids
  obtain ⟨_, ⟨hpost, _⟩, hpre⟩ := hids
  have hsame : ∀ rows : List AuthorRow, (∀ x ∈ rows, x.id ≠ r.id) →
      (rows.map fun x => if x.id = r.id then f x else x) = rows := by
    intro rows hrows
    conv => rhs; rw [← List.map_id rows]
    exact List.map_congr_left fun x hx => if_neg (hrows x hx)
  rw [List.map_append, List.map_cons, if_pos rfl, hsame pre, hsame post]
  · exact fun x hx hid => hpost (List.mem_map.2 ⟨x, hx, hid⟩)
  · exact fun x hx => hpre x.id (List.mem_map_of_mem hx) r.id List.mem_cons_self

/-- One step fills the row that was read. -/
theorem backfill_spec {t : AuthorTable} {r : AuthorRow} {pre post : List AuthorRow}
    (ht : t.rows = pre ++ r :: post) :
    ∃ t', backfill t r = some t' ∧ t'.rows = pre ++ r.filled :: post := by
  obtain ⟨⟨family, given⟩, hsplit⟩ := exists_splitName r.name
  have hfilled : r.filled = r.coalesce family given := by
    rw [AuthorRow.filled, hsplit]
    rfl
  rw [backfill]
  split
  · rename_i hboth
    obtain ⟨f, hf⟩ := Option.isSome_iff_exists.1 hboth.1
    obtain ⟨g, hg⟩ := Option.isSome_iff_exists.1 hboth.2
    have hsame : r.filled = r := by
      rw [hfilled, AuthorRow.coalesce, hf, hg, Option.some_or, Option.some_or, ← hf, ← hg]
    exact ⟨t, rfl, by rw [ht, hsame]⟩
  · rw [hsplit]
    show ∃ t', (if family.isNone = true ∧ given.isNone = true then some t else _) = some t' ∧ _
    split
    · rename_i hnone
      have hsame : r.filled = r := by
        rw [hfilled, AuthorRow.coalesce, Option.isNone_iff_eq_none.1 hnone.1,
          Option.isNone_iff_eq_none.1 hnone.2, Option.or_none, Option.or_none]
      exact ⟨t, rfl, by rw [ht, hsame]⟩
    · refine ⟨_, rfl, ?_⟩
      -- ids are unique, so that UPDATE finds no other row
      have hids := t.ids
      rw [ht] at hids
      show (t.rows.map fun x => if x.id = r.id then x.coalesce family given else x) = _
      rw [ht, hfilled]
      exact map_update _ hids

/-- Each row is filled, the rows before it being filled already. -/
theorem foldlM_backfill (post : List AuthorRow) : ∀ (pre : List AuthorRow) (t : AuthorTable),
    t.rows = pre ++ post → ∃ t', post.foldlM backfill t = some t' ∧
      t'.rows = pre ++ post.map AuthorRow.filled := by
  induction post with
  | nil => exact fun pre t ht => ⟨t, rfl, ht⟩
  | cons r post ih =>
      intro pre t ht
      obtain ⟨t₁, hstep, hrows⟩ := backfill_spec ht
      have hassoc : t₁.rows = (pre ++ [r.filled]) ++ post := by
        rw [hrows, List.append_assoc, List.singleton_append]
      obtain ⟨t', hrest, hrows'⟩ := ih _ t₁ hassoc
      refine ⟨t', ?_, ?_⟩
      · rw [List.foldlM_cons, hstep]
        exact hrest
      · rw [hrows', List.append_assoc, List.singleton_append, List.map_cons]

theorem apply_spec (t : AuthorTable) :
    ∃ t', apply t = some t' ∧ t'.rows = t.rows.map AuthorRow.filled :=
  foldlM_backfill t.rows [] t rfl

theorem apply_apply (t : AuthorTable) : ∃ t', apply t = some t' ∧ apply t' = some t' := by
  obtain ⟨t', happly, hrows⟩ := apply_spec t
  obtain ⟨t'', happly', hrows'⟩ := apply_spec t'
  refine ⟨t', happly, ?_⟩
  have hsame : t'' = t' := by
    refine AuthorTable.ext ?_
    rw [hrows', hrows, List.map_map]
    exact List.map_congr_left fun r _ => filled_filled r
  rw [happly', hsame]

/-- **NO WORD IS LOST, AND ONE RUN IS ENOUGH.** The family name of a name without a comma is as
    long as it can be; a comma parts the name; and a second run changes nothing, and neither
    changes a part that is there. -/
theorem split_and_apply :
    (∀ name, tokens name ≠ [] → ',' ∉ name.toList →
      ∃ m, IsGreatest {m | FamilySize (tokens name) m} m ∧
        splitName name = some (some (join ((tokens name).drop ((tokens name).length - m))),
          if (tokens name).length = 1 then none
          else some (join ((tokens name).take ((tokens name).length - m)))) ∧
        ∀ parts, splitName name = some parts →
          partTokens parts.2 ++ partTokens parts.1 = tokens name) ∧
    (∀ name before after, ',' ∉ before → name.toList = before ++ ',' :: after →
      splitName name = some (nonEmpty before, nonEmpty after)) ∧
    ∀ t, ∃ t', apply t = some t' ∧ apply t' = some t' ∧
      List.Forall₂ (fun r r' : AuthorRow => r'.id = r.id ∧ r'.name = r.name ∧
        (∀ f, r.family = some f → r'.family = some f) ∧
        ∀ g, r.given = some g → r'.given = some g) t.rows t'.rows := by
  refine ⟨fun name hne hcomma => ?_, fun name before after => splitName_of_comma, fun t => ?_⟩
  · obtain ⟨m, hgreatest, hsplit⟩ := splitName_of_no_comma hne hcomma
    refine ⟨m, hgreatest, hsplit, fun parts hparts => ?_⟩
    obtain ⟨parts', hparts', htokens⟩ := splitName_tokens hcomma
    rw [hparts] at hparts'
    cases hparts'
    exact htokens
  · obtain ⟨t', happly, hagain⟩ := apply_apply t
    obtain ⟨t'', happly', hrows⟩ := apply_spec t
    rw [happly] at happly'
    cases happly'
    refine ⟨t', happly, hagain, ?_⟩
    rw [hrows, List.forall₂_map_right_iff]
    refine List.forall₂_same.2 fun r _ => ⟨rfl, rfl, fun f hf => ?_, fun g hg => ?_⟩
    · show r.family.or _ = some f
      rw [hf, Option.some_or]
    · show r.given.or _ = some g
      rw [hg, Option.some_or]

/-- Two particles belong to the family name. -/
theorem split_van_der_berg :
    (∃ m, IsGreatest {m | FamilySize (tokens "Anna van der Berg") m} m) ∧
      splitName "Anna van der Berg" = some (some "van der Berg", some "Anna") :=
  ⟨(split_and_apply.1 "Anna van der Berg" (by decide +kernel) (by decide +kernel)).imp
    fun _ h => h.1, by decide +kernel⟩

/-! ## Parts that an import has left out -/

/-- The words of the given name and of the family name. -/
def AuthorRow.spelled (r : AuthorRow) : List (List Char) := partTokens r.given ++ partTokens r.family

/-- The parts that are there spell the name, or none is there. -/
def Imported (r : AuthorRow) : Prop :=
  r.spelled = tokens r.name ∨ r.family = none ∧ r.given = none

/-- Nothing is left to fill in beside a part that is there: both are, or neither, or the name is
    blank, or it is one word and that is the family name. -/
def NothingLeft (r : AuthorRow) : Prop :=
  (r.family = none ↔ r.given = none) ∨ tokens r.name = [] ∨
    r.family ≠ none ∧ (tokens r.name).length = 1

section Imported

variable {r : AuthorRow}

/-- What is derived from a name that is not blank. -/
theorem derived_parts (hne : tokens r.name ≠ []) (hcomma : ',' ∉ r.name.toList) :
    ∃ family given, splitName r.name = some (some family, given) ∧
      partTokens given ++ tokens family = tokens r.name ∧ tokens family ≠ [] ∧
      (given = none ↔ (tokens r.name).length = 1) ∧ (given ≠ none → partTokens given ≠ []) := by
  obtain ⟨m, hgreatest, hsplit⟩ := splitName_of_no_comma hne hcomma
  obtain ⟨parts, hparts, htokens⟩ := splitName_tokens hcomma
  rw [hsplit] at hparts
  cases hparts
  have hlow := hgreatest.1.low
  have hle := hgreatest.1.le
  have hrest := hgreatest.1.rest
  have hfamily : tokens (join ((tokens r.name).drop ((tokens r.name).length - m))) =
      (tokens r.name).drop ((tokens r.name).length - m) :=
    tokens_join fun w hw => isWord_of_mem_tokens w (List.mem_of_mem_drop hw)
  refine ⟨_, _, hsplit, htokens, ?_, ?_, ?_⟩
  · rw [hfamily]
    refine List.ne_nil_of_length_pos ?_
    rw [List.length_drop]
    omega
  · split
    · rename_i hone
      exact ⟨fun _ => hone, fun _ => rfl⟩
    · rename_i hmany
      exact ⟨fun h => (by cases h), fun hone => absurd hone hmany⟩
  · intro _
    split
    · rename_i hone
      rename_i hgiven
      exact absurd (if_pos hone) hgiven
    · rename_i hmany
      have htake : partTokens (some (join ((tokens r.name).take ((tokens r.name).length - m)))) =
          (tokens r.name).take ((tokens r.name).length - m) :=
        tokens_join fun w hw => isWord_of_mem_tokens w (List.mem_of_mem_take hw)
      rw [htake]
      refine List.ne_nil_of_length_pos ?_
      rw [List.length_take]
      omega

theorem filled_of_split {family given : Option String}
    (h : splitName r.name = some (family, given)) : r.filled = r.coalesce family given := by
  rw [AuthorRow.filled, h]
  rfl

/-- A row is filled with what spells its name, exactly if nothing else was left to fill in. -/
theorem spelled_filled_iff (hcomma : ',' ∉ r.name.toList) (himported : Imported r) :
    r.filled.spelled = tokens r.name ↔ NothingLeft r := by
  by_cases hblank : tokens r.name = []
  · refine iff_of_true ?_ (Or.inr (Or.inl hblank))
    have hsame : r.filled = r := by
      rw [filled_of_split (splitName_of_blank hblank), AuthorRow.coalesce, Option.or_none,
        Option.or_none]
    rw [hsame]
    rcases himported with hspelled | ⟨hfamily, hgiven⟩
    · exact hspelled
    · rw [AuthorRow.spelled, hfamily, hgiven, hblank]
      rfl
  · obtain ⟨family, given, hsplit, htokens, hfamily, hone, hgiven⟩ := derived_parts hblank hcomma
    rw [filled_of_split hsplit, NothingLeft, or_iff_right hblank]
    -- a part that is there stays, and the other one is what the name is cut into
    cases hf : r.family with
    | some f =>
        have hspelled : r.spelled = tokens r.name :=
          himported.resolve_right fun h => by rw [hf] at h; cases h.1
        rw [AuthorRow.spelled, hf] at hspelled
        cases hg : r.given with
        | some g =>
            rw [hg] at hspelled
            refine iff_of_true ?_ (Or.inl (iff_of_false (Option.some_ne_none f)
              (Option.some_ne_none g)))
            rw [AuthorRow.spelled, AuthorRow.coalesce, hf, hg]
            exact hspelled
        | none =>
            rw [hg] at hspelled
            have hlone : tokens f = tokens r.name := hspelled
            have hafter : (r.coalesce (some family) given).spelled =
                partTokens given ++ tokens r.name := by
              rw [AuthorRow.spelled, AuthorRow.coalesce, hf, hg, ← hlone]
              rfl
            rw [hafter, List.append_left_eq_self]
            -- the family name is the whole name, so the derived given name is one too many
            constructor
            · intro hnil
              have hnone : given = none := by
                by_contra hsome
                exact hgiven hsome hnil
              exact Or.inr ⟨Option.some_ne_none f, hone.1 hnone⟩
            · rintro (hiff | ⟨_, hlength⟩)
              · cases hiff.2 rfl
              · rw [hone.2 hlength]
                rfl
    | none =>
        cases hg : r.given with
        | some g =>
            have hspelled : r.spelled = tokens r.name :=
              himported.resolve_right fun h => by rw [hg] at h; cases h.2
            rw [AuthorRow.spelled, hf, hg] at hspelled
            have hlone : tokens g = tokens r.name := (List.append_nil _).symm.trans hspelled
            have hafter : (r.coalesce (some family) given).spelled =
                tokens r.name ++ tokens family := by
              rw [AuthorRow.spelled, AuthorRow.coalesce, hf, hg, ← hlone]
              rfl
            rw [hafter, List.append_right_eq_self]
            -- every name that is not blank has a family name
            refine iff_of_false hfamily ?_
            rintro (hiff | ⟨hsome, _⟩)
            · cases hiff.1 rfl
            · exact hsome rfl
        | none =>
            refine iff_of_true ?_ (Or.inl (iff_of_true rfl rfl))
            rw [AuthorRow.spelled, AuthorRow.coalesce, hf, hg]
            exact htokens

end Imported

/-- **THE PARTS SPELL THE NAME** after the backfill, exactly if nothing is left to fill in beside
    a part that is there. -/
theorem spelled_iff {t t' : AuthorTable} (h : apply t = some t') {r r' : AuthorRow}
    (hr : r ∈ t.rows) (hr' : r' ∈ t'.rows) (hid : r'.id = r.id) (hcomma : ',' ∉ r.name.toList)
    (himported : Imported r) :
    r'.name = r.name ∧ (r'.spelled = tokens r.name ↔ NothingLeft r) := by
  obtain ⟨t'', happly, hrows⟩ := apply_spec t
  rw [h] at happly
  cases happly
  have hfilled : r.filled ∈ t'.rows := by
    rw [hrows]
    exact List.mem_map_of_mem hr
  have hsame : r' = r.filled := List.inj_on_of_nodup_map t'.ids hr' hfilled hid
  rw [hsame]
  exact ⟨rfl, spelled_filled_iff hcomma himported⟩

/-! ## Rows of an import -/

def authorId : DbId := ⟨List.replicate 16 19, List.length_replicate⟩

/-- One author, of whom an import knows a part. -/
def oneAuthor (name : String) (family : Option String) : AuthorTable where
  rows := [⟨authorId, name, family, none⟩]
  ids := List.nodup_singleton _

/-- A name of two words, of which neither part is known. -/
theorem spelled_le_guin :
    (AuthorRow.filled ⟨authorId, "Ursula Guin", none, none⟩).spelled = tokens "Ursula Guin" := by
  obtain ⟨t', happly, hrows⟩ := apply_spec (oneAuthor "Ursula Guin" none)
  have hmem : (AuthorRow.filled ⟨authorId, "Ursula Guin", none, none⟩) ∈ t'.rows := by
    rw [hrows]
    exact List.mem_singleton_self _
  exact ((spelled_iff happly (List.mem_singleton_self _) hmem rfl (by decide +kernel)
    (Or.inr ⟨rfl, rfl⟩)).2).2 (Or.inl (iff_of_true rfl rfl))

/-- A family name of two words is given a given name. -/
theorem not_spelled_family_name :
    Imported ⟨authorId, "Imagine Dragons", some "Imagine Dragons", none⟩ ∧
      ∃ t', apply (oneAuthor "Imagine Dragons" (some "Imagine Dragons")) = some t' ∧
        ∃ r' ∈ t'.rows, r'.id = authorId ∧ r'.spelled ≠ tokens "Imagine Dragons" := by
  have himported : Imported ⟨authorId, "Imagine Dragons", some "Imagine Dragons", none⟩ :=
    Or.inl rfl
  obtain ⟨t', happly, hrows⟩ := apply_spec (oneAuthor "Imagine Dragons" (some "Imagine Dragons"))
  refine ⟨himported, t', happly,
    AuthorRow.filled ⟨authorId, "Imagine Dragons", some "Imagine Dragons", none⟩, ?_, rfl, ?_⟩
  · rw [hrows]
    exact List.mem_singleton_self _
  · intro h
    rcases (spelled_filled_iff (by decide +kernel) himported).1 h with hiff | hblank | ⟨_, hone⟩
    · cases hiff.2 rfl
    · exact absurd hblank (by decide +kernel)
    · exact absurd hone (by decide +kernel)

end AuthorNames

import Mathlib.Data.List.Nodup
import Mathlib.Data.List.Perm.Subperm
import Mathlib.Data.List.Range

/-! # Fresh names

    Names are given one after another, each the first of a sequence that no one has yet. A
    sequence may end, or run in a circle: it is enough that it begins with more names than
    are taken. -/

namespace FreshNames

variable {α : Type} [DecidableEq α]

/-- The first name from the `i`-th on that is not taken, as far as the fuel goes. -/
def fresh (name : Nat → Option α) (taken : List α) : Nat → Nat → Option α
  | 0, _ => none
  | fuel + 1, i =>
      (name i).bind fun a => if a ∈ taken then fresh name taken fuel (i + 1) else some a

/-- A name for each sequence, in their order. -/
def freshAll (fuel : Nat) : List α → List (Nat → Option α) → Option (List α)
  | _, [] => some []
  | taken, name :: names =>
      (fresh name taken fuel 0).bind fun a => (freshAll fuel (a :: taken) names).map (a :: ·)

/-- The first `n` names are there, and no two of them are the same. -/
structure Begins (name : Nat → Option α) (n : Nat) : Prop where
  there : ∀ i < n, ∃ a, name i = some a
  apart : ∀ i < n, ∀ j < n, name i = name j → i = j

variable {name : Nat → Option α} {taken : List α} {a : α}

/-! ## One name -/

theorem fresh_eq_some {fuel i : Nat} (h : fresh name taken fuel i = some a) :
    a ∉ taken ∧ ∃ j, name j = some a := by
  induction fuel generalizing i with
  | zero => cases h
  | succ fuel ih =>
      obtain ⟨b, hb, hrest⟩ := Option.bind_eq_some_iff.1 h
      split at hrest
      · exact ih hrest
      · rename_i hfree
        cases hrest
        exact ⟨hfree, i, hb⟩

theorem fresh_mono {fuel more i : Nat} (h : fresh name taken fuel i = some a)
    (hmore : fuel ≤ more) : fresh name taken more i = some a := by
  induction fuel generalizing i more with
  | zero => cases h
  | succ fuel ih =>
      obtain ⟨rest, rfl⟩ := Nat.exists_eq_add_of_le' hmore
      rw [fresh] at h
      rw [← Nat.add_assoc, fresh]
      obtain ⟨b, hb, hrest⟩ := Option.bind_eq_some_iff.1 h
      refine Option.bind_eq_some_iff.2 ⟨b, hb, ?_⟩
      split at hrest
      · rename_i htaken
        rw [if_pos htaken]
        exact ih hrest (by omega)
      · rename_i hfree
        rw [if_neg hfree]
        exact hrest

/-- The first name is given when it is free. -/
theorem fresh_head {fuel : Nat} (hname : name 0 = some a) (hfree : a ∉ taken) :
    fresh name taken (fuel + 1) 0 = some a := by
  rw [fresh, hname, Option.bind_some, if_neg hfree]

/-- A name that is free is reached, as no name before it is missing. -/
theorem exists_fresh_of_free (d : Nat) {i : Nat} (hthere : ∀ k < d, ∃ b, name (i + k) = some b)
    (hname : name (i + d) = some a) (hfree : a ∉ taken) :
    ∃ b, fresh name taken (d + 1) i = some b := by
  induction d generalizing i with
  | zero =>
      rw [Nat.add_zero] at hname
      exact ⟨a, by rw [fresh, hname, Option.bind_some, if_neg hfree]⟩
  | succ d ih =>
      obtain ⟨b, hb⟩ := hthere 0 (Nat.succ_pos d)
      rw [Nat.add_zero] at hb
      rw [fresh, hb, Option.bind_some]
      split
      · refine ih (i := i + 1) (fun k hk => ?_) ?_
        · rw [Nat.add_right_comm]
          exact hthere (k + 1) (by omega)
        · rw [Nat.add_right_comm]
          exact hname
      · exact ⟨b, rfl⟩

/-- More names than are taken: one of them is free. -/
theorem exists_free {n : Nat} (hbegins : Begins name n) (hn : taken.length < n) :
    ∃ j < n, ∃ a, name j = some a ∧ a ∉ taken := by
  by_contra hnone
  have hnodup : ((List.range n).map name).Nodup :=
    List.nodup_range.map_on fun i hi j hj =>
      hbegins.apart i (List.mem_range.1 hi) j (List.mem_range.1 hj)
  have hsubset : (List.range n).map name ⊆ taken.map some := by
    intro x hx
    obtain ⟨j, hj, rfl⟩ := List.mem_map.1 hx
    obtain ⟨a, ha⟩ := hbegins.there j (List.mem_range.1 hj)
    have htaken : a ∈ taken := by
      by_contra hfree
      exact hnone ⟨j, List.mem_range.1 hj, a, ha, hfree⟩
    exact List.mem_map.2 ⟨a, htaken, ha.symm⟩
  have hlength := (hnodup.subperm hsubset).length_le
  rw [List.length_map, List.length_map, List.length_range] at hlength
  omega

theorem exists_fresh {n : Nat} (hbegins : Begins name n) (hn : taken.length < n) :
    ∃ a, fresh name taken n 0 = some a := by
  obtain ⟨j, hj, a, hname, hfree⟩ := exists_free hbegins hn
  obtain ⟨b, hb⟩ := exists_fresh_of_free j (i := 0)
    (fun k hk => by rw [Nat.zero_add]; exact hbegins.there k (by omega))
    (by rw [Nat.zero_add]; exact hname) hfree
  exact ⟨b, fresh_mono hb hj⟩

/-! ## All names -/

/-- The names that are given are told apart, from each other and from those taken before, and
    each is of its own sequence. -/
theorem freshAll_spec {fuel : Nat} {names : List (Nat → Option α)} {keys : List α}
    (h : freshAll fuel taken names = some keys) :
    keys.Nodup ∧ (∀ a ∈ keys, a ∉ taken) ∧
      List.Forall₂ (fun name a => ∃ j, name j = some a) names keys := by
  induction names generalizing taken keys with
  | nil =>
      cases h
      exact ⟨List.nodup_nil, List.forall_mem_nil _, List.Forall₂.nil⟩
  | cons name names ih =>
      obtain ⟨a, ha, hrest⟩ := Option.bind_eq_some_iff.1 h
      obtain ⟨rest, hkeys, rfl⟩ := Option.map_eq_some_iff.1 hrest
      obtain ⟨hnodup, hapart, hown⟩ := ih hkeys
      obtain ⟨hfree, hname⟩ := fresh_eq_some ha
      refine ⟨List.nodup_cons.2 ⟨fun hmem => hapart a hmem List.mem_cons_self, hnodup⟩, ?_,
        List.Forall₂.cons hname hown⟩
      intro b hb
      rcases List.mem_cons.1 hb with rfl | hb
      · exact hfree
      · exact fun htaken => hapart b hb (List.mem_cons_of_mem a htaken)

theorem freshAll_mono {fuel more : Nat} {names : List (Nat → Option α)} {keys : List α}
    (h : freshAll fuel taken names = some keys) (hmore : fuel ≤ more) :
    freshAll more taken names = some keys := by
  induction names generalizing taken keys with
  | nil => exact h
  | cons name names ih =>
      obtain ⟨a, ha, hrest⟩ := Option.bind_eq_some_iff.1 h
      obtain ⟨rest, hkeys, rfl⟩ := Option.map_eq_some_iff.1 hrest
      rw [freshAll, fresh_mono ha hmore, Option.bind_some, ih hkeys]
      rfl

/-- Names are given to all when each sequence begins with enough of them. -/
theorem exists_freshAll {n : Nat} {names : List (Nat → Option α)}
    (hbegins : ∀ name ∈ names, Begins name n) (hn : taken.length + names.length ≤ n) :
    ∃ keys, freshAll n taken names = some keys := by
  induction names generalizing taken with
  | nil => exact ⟨[], rfl⟩
  | cons name names ih =>
      rw [List.length_cons] at hn
      obtain ⟨a, ha⟩ := @exists_fresh α _ name taken n (hbegins name List.mem_cons_self) (by omega)
      obtain ⟨keys, hkeys⟩ := @ih (a :: taken)
        (fun name hname => hbegins name (List.mem_cons_of_mem _ hname))
        (by rw [List.length_cons]; omega)
      exact ⟨a :: keys, by rw [freshAll, ha, Option.bind_some, hkeys]; rfl⟩

/-- Of sequences that all have no other names than `pool`, no more than that are named. -/
theorem length_le_of_freshAll {fuel : Nat} {names : List (Nat → Option α)} {keys pool : List α}
    (hpool : ∀ name ∈ names, ∀ j a, name j = some a → a ∈ pool)
    (h : freshAll fuel taken names = some keys) : names.length ≤ pool.length := by
  obtain ⟨hnodup, _, hown⟩ := freshAll_spec h
  have hsubset : keys ⊆ pool := by
    intro a ha
    obtain ⟨i, hi, rfl⟩ := List.getElem_of_mem ha
    obtain ⟨j, hj⟩ := hown.get (by rw [hown.length_eq]; exact hi) hi
    exact hpool _ (List.get_mem names _) j _ hj
  rw [hown.length_eq]
  exact (hnodup.subperm hsubset).length_le

/-- Where the first names are told apart, everyone gets the first. -/
theorem freshAll_heads {fuel : Nat} {names : List (Nat → Option α)} {heads : List α}
    (hheads : names.map (fun name => name 0) = heads.map some) (hnodup : heads.Nodup)
    (hfree : ∀ a ∈ heads, a ∉ taken) : freshAll (fuel + 1) taken names = some heads := by
  induction names generalizing taken heads with
  | nil =>
      cases heads with
      | nil => rfl
      | cons a heads => cases hheads
  | cons name names ih =>
      cases heads with
      | nil => cases hheads
      | cons a heads =>
          obtain ⟨hname, hrest⟩ := List.cons.inj hheads
          obtain ⟨hnotMem, hnodup⟩ := List.nodup_cons.1 hnodup
          have hkeys : freshAll (fuel + 1) (a :: taken) names = some heads := by
            refine ih hrest hnodup fun b hb htaken => ?_
            rcases List.mem_cons.1 htaken with rfl | htaken
            · exact hnotMem hb
            · exact hfree b (List.mem_cons_of_mem a hb) htaken
          rw [freshAll, fresh_head hname (hfree a List.mem_cons_self), Option.bind_some, hkeys]
          rfl

/-- Whoever comes first gets the first name. -/
theorem freshAll_first {fuel : Nat} {names : List (Nat → Option α)} {keys : List α}
    (hname : name 0 = some a) (hfree : a ∉ taken)
    (h : freshAll fuel taken (name :: names) = some keys) : ∃ rest, keys = a :: rest := by
  obtain ⟨b, hb, hrest⟩ := Option.bind_eq_some_iff.1 h
  obtain ⟨rest, _, rfl⟩ := Option.map_eq_some_iff.1 hrest
  cases fuel with
  | zero => cases hb
  | succ fuel =>
      rw [fresh_head hname hfree] at hb
      cases hb
      exact ⟨rest, rfl⟩

theorem freshAll_append {fuel : Nat} (names more : List (Nat → Option α)) :
    freshAll fuel taken (names ++ more) = (freshAll fuel taken names).bind fun keys =>
      (freshAll fuel (keys.reverse ++ taken) more).map (keys ++ ·) := by
  induction names generalizing taken with
  | nil =>
      rw [List.nil_append, freshAll, Option.bind_some, List.reverse_nil, List.nil_append]
      exact Option.map_id'.symm
  | cons name names ih =>
      rw [List.cons_append, freshAll, freshAll]
      cases fresh name taken fuel 0 with
      | none => rfl
      | some a =>
          rw [Option.bind_some, Option.bind_some, ih]
          cases freshAll fuel (a :: taken) names with
          | none => rfl
          | some keys =>
              rw [Option.bind_some, Option.map_some, Option.bind_some, List.reverse_cons,
                List.append_assoc, Option.map_map]
              rfl

/-- A sequence that ends does not go on after it. -/
def Gapless (name : Nat → Option α) : Prop := ∀ i j, i ≤ j → name i = none → name j = none

/-- Everyone has a name to take in their turn. -/
def Spare (taken : List α) (names : List (Nat → Option α)) : Prop :=
  ∀ before name after, names = before ++ name :: after → ∀ fuel keys,
    freshAll fuel taken before = some keys → ∃ j a, name j = some a ∧ a ∉ taken ∧ a ∉ keys

theorem spare_of_freshAll {fuel : Nat} {names : List (Nat → Option α)} {keys : List α}
    (h : freshAll fuel taken names = some keys) : Spare taken names := by
  rintro before name after rfl fuel' given hgiven
  rw [freshAll_append] at h
  obtain ⟨first, hfirst, hrest⟩ := Option.bind_eq_some_iff.1 h
  obtain ⟨rest, hrest, _⟩ := Option.map_eq_some_iff.1 hrest
  obtain ⟨a, ha, _⟩ := Option.bind_eq_some_iff.1 hrest
  obtain ⟨hfree, j, hj⟩ := fresh_eq_some ha
  -- what was given before does not depend on the fuel
  have hsame : given = first := by
    have hmost := freshAll_mono hgiven (Nat.le_max_left fuel' fuel)
    rw [freshAll_mono hfirst (Nat.le_max_right fuel' fuel)] at hmost
    exact (Option.some.inj hmost).symm
  rw [List.mem_append, List.mem_reverse, not_or] at hfree
  exact ⟨j, a, hj, hfree.2, hsame ▸ hfree.1⟩

theorem exists_freshAll_of_spare {names : List (Nat → Option α)}
    (hgapless : ∀ name ∈ names, Gapless name) (h : Spare taken names) :
    ∃ fuel keys, freshAll fuel taken names = some keys := by
  induction names using List.reverseRecOn with
  | nil => exact ⟨0, [], rfl⟩
  | append_singleton names name ih =>
      have hbefore : Spare taken names := by
        rintro before next after rfl
        exact h before next (after ++ [name]) (List.append_assoc ..)
      obtain ⟨fuel, keys, hkeys⟩ := ih
        (fun name hname => hgapless name (List.mem_append_left _ hname)) hbefore
      obtain ⟨j, a, hname, hfree, hnew⟩ := h names name [] rfl fuel keys hkeys
      have hthere : ∀ k < j, ∃ b, name (0 + k) = some b := by
        intro k hk
        rw [Nat.zero_add, ← Option.isSome_iff_exists, Option.isSome_iff_ne_none]
        intro hnone
        rw [hgapless name (List.mem_append_right _ List.mem_cons_self) k j hk.le hnone] at hname
        cases hname
      have htaken : a ∉ keys.reverse ++ taken := by
        rw [List.mem_append, List.mem_reverse, not_or]
        exact ⟨hnew, hfree⟩
      obtain ⟨b, hb⟩ := exists_fresh_of_free j hthere (by rw [Nat.zero_add]; exact hname) htaken
      refine ⟨max fuel (j + 1), keys ++ [b], ?_⟩
      rw [freshAll_append, freshAll_mono hkeys (Nat.le_max_left _ _), Option.bind_some, freshAll,
        fresh_mono hb (Nat.le_max_right _ _)]
      rfl

end FreshNames

import Livtet.Lib.FirstSeen

/-! # Counting by key

    Each element of a list has some keys; the count of a key is the number of elements that
    have it, however often they have it. There is one count for each key that occurs
    (`nodup_keys_counts`). Where the keys are made from names, and a name can be told from
    its key, the counts are those of the names (`length_holders_of_named`), and there are no
    more of them than names (`length_counts_le`). -/

namespace Buckets

open FirstSeen

variable {δ κ ν : Type} [DecidableEq κ]

section Counts

variable (keys : δ → List κ) (docs : List δ)

/-- The elements that have a key. -/
def holders (k : κ) : List δ := docs.filter fun d => (keys d).contains k

/-- Each key that occurs, with the number of elements that have it. -/
def counts : List (κ × Nat) :=
  (docs.flatMap keys).eraseDups.map fun k => (k, (holders keys docs k).length)

variable {keys docs}

theorem map_fst_counts : (counts keys docs).map Prod.fst = (docs.flatMap keys).eraseDups := by
  rw [counts, List.map_map]
  exact List.map_id _

theorem nodup_keys_counts : ((counts keys docs).map Prod.fst).Nodup := by
  rw [map_fst_counts]
  exact nodup_eraseDups _

theorem mem_counts {k : κ} {n : Nat} :
    (k, n) ∈ counts keys docs ↔ (∃ d ∈ docs, k ∈ keys d) ∧ n = (holders keys docs k).length := by
  rw [counts, List.mem_map]
  constructor
  · rintro ⟨k', hk', h⟩
    cases h
    exact ⟨List.mem_flatMap.1 (List.mem_eraseDups.1 hk'), rfl⟩
  · rintro ⟨hk, rfl⟩
    exact ⟨k, List.mem_eraseDups.2 (List.mem_flatMap.2 hk), rfl⟩

/-- The counts over a list that was made from another. -/
theorem counts_map {ε : Type} (f : ε → δ) (xs : List ε) :
    counts keys (xs.map f) = counts (fun x => keys (f x)) xs := by
  rw [counts, counts, List.flatMap_map]
  refine List.map_congr_left fun k _ => ?_
  rw [holders, holders, List.filter_map, List.length_map]
  rfl

theorem nodup_counts : (counts keys docs).Nodup := .of_map _ nodup_keys_counts

/-- Where one key alone is looked for, its entry is what is found. -/
theorem filter_counts_eq {p : κ → Bool} {k : κ} (hocc : ∃ d ∈ docs, k ∈ keys d) (hk : p k = true)
    (honly : ∀ d ∈ docs, ∀ k' ∈ keys d, p k' = true → k' = k) :
    (counts keys docs).filter (fun x => p x.1) = [(k, (holders keys docs k).length)] := by
  refine List.perm_singleton.1 ((List.perm_ext_iff_of_nodup (nodup_counts.filter _)
    (List.nodup_singleton _)).2 fun x => ?_)
  obtain ⟨k', n⟩ := x
  rw [List.mem_filter, mem_counts, List.mem_singleton, Prod.mk.injEq]
  constructor
  · rintro ⟨⟨⟨d, hd, hmem⟩, rfl⟩, hp⟩
    obtain rfl := honly d hd k' hmem hp
    exact ⟨rfl, rfl⟩
  · rintro ⟨rfl, rfl⟩
    exact ⟨⟨hocc, rfl⟩, hk⟩

end Counts

/-! ## Keys made from names -/

section Names

variable [DecidableEq ν] {names : δ → List ν} {key : ν → Option κ} {docs : List δ}

/-- No more keys than names. -/
theorem length_counts_le :
    (counts (fun d => (names d).filterMap key) docs).length ≤
      (docs.flatMap names).eraseDups.length := by
  have hkeys : ((docs.flatMap fun d => (names d).filterMap key).eraseDups).Subperm
      ((docs.flatMap names).eraseDups.filterMap key) := by
    refine (nodup_eraseDups _).subperm fun k hk => ?_
    obtain ⟨d, hd, hmem⟩ := List.mem_flatMap.1 (List.mem_eraseDups.1 hk)
    obtain ⟨name, hname, hkey⟩ := List.mem_filterMap.1 hmem
    exact List.mem_filterMap.2
      ⟨name, List.mem_eraseDups.2 (List.mem_flatMap.2 ⟨d, hd, hname⟩), hkey⟩
  rw [← List.length_map (f := Prod.fst), map_fst_counts]
  exact hkeys.length_le.trans (List.length_filterMap_le _ _)

/-- A name that alone has its key is had by those that have the key. -/
theorem holders_of_named {name : ν} {k : κ} (hname : key name = some k)
    (honly : ∀ d ∈ docs, ∀ name' ∈ names d, key name' = some k → name' = name) :
    holders (fun d => (names d).filterMap key) docs k = holders names docs name := by
  refine List.filter_congr fun d hd => ?_
  rw [Bool.eq_iff_iff, List.contains_iff_mem, List.contains_iff_mem, List.mem_filterMap]
  constructor
  · rintro ⟨name', hmem, hkey⟩
    rwa [← honly d hd name' hmem hkey]
  · intro hmem
    exact ⟨name, hmem, hname⟩

end Names

end Buckets

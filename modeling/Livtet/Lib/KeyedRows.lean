import Mathlib.Data.List.Nodup

/-! # Rows with a key

    A table as a list of rows no two of which have the same key: the first row with a
    key is the only one. -/

namespace KeyedRows

variable {α κ : Type*} {rows : List α} {key : α → κ}

theorem nodup_append_one {xs : List α} {a : α} (h : xs.Nodup) (ha : a ∉ xs) :
    (xs ++ [a]).Nodup := by
  rw [← List.concat_eq_append]
  exact h.concat ha

theorem append_one_subset {xs ys : List α} {a : α} (h : xs ⊆ ys) (ha : a ∈ ys) :
    xs ++ [a] ⊆ ys := by
  refine List.append_subset.2 ⟨h, fun b hb => ?_⟩
  rw [List.mem_singleton.1 hb]
  exact ha

/-- Two selections from the rows name the same keys only if they are the same. -/
theorem perm_filter_iff (hkeys : (rows.map key).Nodup) {p q : α → Bool} :
    ((rows.filter p).map key).Perm ((rows.filter q).map key) ↔ ∀ r ∈ rows, p r = q r := by
  constructor
  · have hkept : ∀ {p q : α → Bool}, ((rows.filter p).map key).Perm ((rows.filter q).map key) →
        ∀ r ∈ rows, p r = true → q r = true := by
      intro p q h r hr hp
      have hmem := h.mem_iff.1 (List.mem_map_of_mem (List.mem_filter.2 ⟨hr, hp⟩))
      obtain ⟨r', hr', hkey⟩ := List.mem_map.1 hmem
      obtain ⟨hr', hq⟩ := List.mem_filter.1 hr'
      rw [← List.inj_on_of_nodup_map hkeys hr' hr hkey]
      exact hq
    intro h r hr
    rw [Bool.eq_iff_iff]
    exact ⟨hkept h r hr, hkept h.symm r hr⟩
  · intro h
    rw [List.filter_congr h]

variable [DecidableEq κ]

theorem find?_key_eq_some (hkeys : (rows.map key).Nodup) {k : κ} {r : α} :
    (rows.find? fun r => decide (key r = k)) = some r ↔ r ∈ rows ∧ key r = k := by
  constructor
  · intro h
    exact ⟨List.mem_of_find?_eq_some h, of_decide_eq_true (List.find?_some h :)⟩
  · rintro ⟨hr, rfl⟩
    cases hfound : rows.find? fun r' => decide (key r' = key r) with
    | none => exact absurd (decide_eq_true rfl) (List.find?_eq_none.1 hfound r hr)
    | some r' =>
        have hkey : key r' = key r := of_decide_eq_true (List.find?_some hfound :)
        rw [List.inj_on_of_nodup_map hkeys (List.mem_of_find?_eq_some hfound) hr hkey]

theorem find?_key_eq_none {k : κ} :
    (rows.find? fun r => decide (key r = k)) = none ↔ k ∉ rows.map key := by
  rw [List.find?_eq_none]
  constructor
  · intro h hk
    obtain ⟨r, hr, rfl⟩ := List.mem_map.1 hk
    exact h r hr (decide_eq_true rfl)
  · intro hk r hr htrue
    exact hk (List.mem_map.2 ⟨r, hr, of_decide_eq_true htrue⟩)

/-- An update by key that keeps the key changes what is found under it. -/
theorem find?_key_update {f : α → α} (hf : ∀ r, key (f r) = key r) (k : κ) :
    ((rows.map fun r => if key r = k then f r else r).find? fun r => decide (key r = k)) =
      (rows.find? fun r => decide (key r = k)).map f := by
  induction rows with
  | nil => rfl
  | cons r rest ih =>
      rw [List.map_cons, List.find?_cons, List.find?_cons]
      by_cases hr : key r = k
      · rw [if_pos hr, decide_eq_true ((hf r).trans hr), decide_eq_true hr]
        rfl
      · rw [if_neg hr, decide_eq_false hr]
        exact ih

end KeyedRows

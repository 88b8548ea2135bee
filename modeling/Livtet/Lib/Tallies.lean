import Mathlib.Algebra.BigOperators.Group.List.Basic
import Mathlib.Algebra.Ring.Int.Defs
import Mathlib.Data.List.Nodup

/-! # Tallies — a sum over a list, one element of which changes

    Each element weighs something; a list weighs the sum. An element is replaced at its
    position, or in every place where its key is; if no other has the key, the two weigh
    the same. -/

namespace Tallies

variable {α κ : Type*} {w : α → Int} {xs : List α} {a b : α}

/-- What the elements weigh together. -/
def tally (w : α → Int) (xs : List α) : Int := (xs.map w).sum

@[simp] theorem tally_nil : tally w [] = 0 := rfl

@[simp] theorem tally_cons : tally w (a :: xs) = w a + tally w xs := by
  rw [tally, List.map_cons, List.sum_cons]
  rfl

theorem tally_concat : tally w (xs ++ [a]) = tally w xs + w a := by
  rw [tally, List.map_append, List.sum_append, List.map_singleton, List.sum_singleton]
  rfl

/-- Weighing a part is weighing the rest as nothing. -/
theorem tally_filter (p : α → Bool) :
    tally w (xs.filter p) = tally (fun x => if p x then w x else 0) xs := by
  induction xs with
  | nil => rfl
  | cons x rest ih =>
      rw [tally_cons, ← ih]
      by_cases hx : p x = true
      · rw [List.filter_cons_of_pos hx, tally_cons, if_pos hx]
      · rw [List.filter_cons_of_neg hx, if_neg hx, Int.zero_add]

theorem tally_set {i : Nat} (h : xs[i]? = some a) :
    tally w (xs.set i b) = tally w xs - w a + w b := by
  induction xs generalizing i with
  | nil => cases h
  | cons x rest ih =>
      cases i with
      | zero =>
          cases h
          rw [List.set_cons_zero, tally_cons, tally_cons]
          omega
      | succ i =>
          rw [List.set_cons_succ, tally_cons, tally_cons, ih h]
          omega

variable [DecidableEq κ] {key : α → κ}

theorem map_update_of_notMem {k : κ} (h : k ∉ xs.map key) (f : α → α) :
    (xs.map fun x => if key x = k then f x else x) = xs := by
  have hid : ∀ x ∈ xs, (if key x = k then f x else x) = x :=
    fun x hx => if_neg fun hk : key x = k => h (List.mem_map.2 ⟨x, hx, hk⟩)
  rw [List.map_congr_left hid, List.map_id']

/-- An update by key changes one element, if no two have the same. -/
theorem tally_update (hkeys : (xs.map key).Nodup) (ha : a ∈ xs) (f : α → α) :
    tally w (xs.map fun x => if key x = key a then f x else x) = tally w xs - w a + w (f a) := by
  induction xs with
  | nil => cases ha
  | cons x rest ih =>
      obtain ⟨hnew, hrest⟩ := List.nodup_cons.1 hkeys
      rw [List.map_cons, tally_cons, tally_cons]
      rcases List.mem_cons.1 ha with rfl | ha
      · rw [if_pos rfl, map_update_of_notMem hnew]
        omega
      · have hne : ¬ key x = key a := fun hx => hnew (hx ▸ List.mem_map_of_mem ha)
        rw [if_neg hne, ih hrest ha]
        omega

end Tallies

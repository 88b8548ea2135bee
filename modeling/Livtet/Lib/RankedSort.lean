import Mathlib.Data.List.Basic
import Mathlib.Data.List.Nodup

/-! # Sorting the best of a ranking

    A list is sorted by a key, ties by position. If only the first `n` of it are sorted,
    what comes out is what the whole list would have given without the others
    (`byKey_take`): the start of the sorted list is right exactly as far as it consists of
    the first `n`.

    A list read in pages of a fixed size is the list. -/

namespace RankedSort

variable {α : Type} {le : α → α → Bool}

/-- The list with its positions, by the key and then by the position. -/
def byKey (le : α → α → Bool) (l : List α) : List (α × Nat) :=
  l.zipIdx.mergeSort (List.zipIdxLE le)

theorem map_fst_byKey (l : List α) : (byKey le l).map Prod.fst = l.mergeSort le :=
  List.mergeSort_zipIdx

theorem perm_byKey (l : List α) : (byKey le l).Perm l.zipIdx := List.mergeSort_perm _ _

@[simp] theorem length_byKey (l : List α) : (byKey le l).length = l.length := by
  rw [byKey, List.length_mergeSort, List.length_zipIdx]

theorem mem_byKey {l : List α} {x : α × Nat} : x ∈ byKey le l ↔ l[x.2]? = some x.1 := by
  rw [byKey, List.mem_mergeSort, List.mem_zipIdx_iff_getElem?]

theorem filter_zipIdx (l : List α) (n : Nat) :
    (l.take n).zipIdx = l.zipIdx.filter fun x => decide (x.2 < n) := by
  have hfrom : ∀ (l : List α) (n k : Nat),
      (l.take n).zipIdx k = (l.zipIdx k).filter fun x => decide (x.2 < k + n) := by
    intro l
    induction l with
    | nil => intro n k; simp
    | cons a rest ih =>
        intro n k
        cases n with
        | zero =>
            symm
            rw [List.take_zero, List.zipIdx_nil, List.filter_eq_nil_iff]
            intro x hx
            have := (List.mem_zipIdx hx).1
            simpa using this
        | succ n =>
            rw [List.take_succ_cons, List.zipIdx_cons, List.zipIdx_cons, ih n (k + 1),
              List.filter_cons_of_pos (by simp)]
            refine congrArg (List.cons _) (List.filter_congr fun x _ => ?_)
            rw [Nat.add_assoc, Nat.add_comm 1 n]
  have h := hfrom l n 0
  rwa [Nat.zero_add] at h

/-- Of the first `n`, the sort keeps what it keeps of the whole list. -/
theorem byKey_take (trans : ∀ a b c, le a b → le b c → le a c)
    (total : ∀ a b, le a b || le b a) (l : List α) (n : Nat) :
    byKey le (l.take n) = (byKey le l).filter fun x => decide (x.2 < n) := by
  have hsorted := fun l : List α => List.pairwise_mergeSort (List.zipIdxLE_trans trans)
    (List.zipIdxLE_total total) l.zipIdx
  refine List.Perm.eq_of_pairwise ?_ (hsorted (l.take n))
    ((hsorted l).sublist List.filter_sublist) ?_
  · -- entries that are not apart in the order are at one position
    intro a b ha hb hab hba
    have hpos : a.2 = b.2 := by
      rw [List.zipIdxLE] at hab hba
      grind
    have ha' := mem_byKey.1 ha
    have hb' := mem_byKey.1 (List.mem_of_mem_filter hb)
    rw [List.getElem?_take] at ha'
    split at ha'
    next =>
      rw [hpos, hb', Option.some.injEq] at ha'
      exact Prod.ext ha'.symm hpos
    next => cases ha'
  · refine (perm_byKey (l.take n)).trans ?_
    rw [filter_zipIdx]
    exact ((perm_byKey l).filter _).symm

/-- Nothing comes before what is sorted first. -/
theorem le_of_mem_take_one (trans : ∀ a b c, le a b → le b c → le a c)
    (total : ∀ a b, le a b || le b a) {l : List α} {x y : α × Nat}
    (hx : x ∈ (byKey le l).take 1) (hy : y ∈ byKey le l) : le x.1 y.1 = true := by
  have hsorted := List.pairwise_mergeSort (List.zipIdxLE_trans trans)
    (List.zipIdxLE_total total) l.zipIdx
  rw [← byKey] at hsorted
  cases hlist : byKey le l with
  | nil =>
      rw [hlist] at hy
      cases hy
  | cons z rest =>
      rw [hlist] at hx hy hsorted
      rw [List.take_succ_cons, List.take_zero, List.mem_singleton] at hx
      rw [hx]
      rcases List.mem_cons.1 hy with rfl | hy
      · simpa using total y.1 y.1
      · have hle := List.rel_of_pairwise_cons hsorted hy
        rw [List.zipIdxLE] at hle
        grind

/-- The start of a list survives a filter that keeps all of it, and no other. -/
theorem take_filter_eq_iff {p : α → Bool} {l : List α} {n : Nat} :
    (l.filter p).take n = l.take n ↔ ∀ x ∈ l.take n, p x = true := by
  constructor
  · intro h x hx
    rw [← h] at hx
    exact List.of_mem_filter (List.mem_of_mem_take hx)
  · intro h
    have hsplit : l.filter p = l.take n ++ (l.drop n).filter p := by
      rw [← List.take_append_drop n l, List.filter_append, List.take_append_drop,
        List.filter_eq_self.2 h]
    rw [hsplit]
    by_cases hn : n ≤ l.length
    · exact List.take_left' (List.length_take_of_le hn)
    · rw [List.drop_eq_nil_of_le (Nat.le_of_not_le hn), List.filter_nil, List.append_nil,
        List.take_take, Nat.min_self]

/-- Where no two elements rank the same, what a filter keeps is sorted as it is in the
    whole list. -/
theorem mergeSort_filter (trans : ∀ a b c, le a b → le b c → le a c)
    (total : ∀ a b, le a b || le b a) {l : List α}
    (antisymm : ∀ a ∈ l, ∀ b ∈ l, le a b → le b a → a = b) (p : α → Bool) :
    (l.filter p).mergeSort le = (l.mergeSort le).filter p := by
  refine List.Perm.eq_of_pairwise ?_
    (List.pairwise_mergeSort trans total _)
    ((List.pairwise_mergeSort trans total l).filter p)
    ((List.mergeSort_perm _ _).trans ((List.mergeSort_perm l le).filter p).symm)
  intro a b ha hb
  exact antisymm a (List.mem_of_mem_filter (List.mem_mergeSort.1 ha))
    b (List.mem_mergeSort.1 (List.mem_of_mem_filter hb))

/-! ## Pages -/

def page (size : Nat) (l : List α) (i : Nat) : List α := (l.drop (i * size)).take size

theorem flatMap_page (size : Nat) (l : List α) (n : Nat) :
    (List.range n).flatMap (page size l) = l.take (n * size) := by
  induction n with
  | zero => rw [List.range_zero, List.flatMap_nil, Nat.zero_mul, List.take_zero]
  | succ n ih =>
      rw [List.range_succ, List.flatMap_append, ih, List.flatMap_singleton, page,
        Nat.succ_mul, List.take_add]

/-- A page depends on the list up to its end. -/
theorem page_eq (size : Nat) (l : List α) (i : Nat) :
    page size l i = (l.take ((i + 1) * size)).drop (i * size) := by
  rw [page, Nat.succ_mul, List.drop_take, Nat.add_sub_cancel_left]

theorem page_of_length_le {size : Nat} {l : List α} {i : Nat} (h : l.length ≤ i * size) :
    page size l i = [] := by
  rw [page, List.drop_eq_nil_of_le h, List.take_nil]

theorem map_page {β : Type} (f : α → β) (size : Nat) (l : List α) (i : Nat) :
    (page size l i).map f = page size (l.map f) i := by
  rw [page, page, List.map_take, List.map_drop]

theorem length_page (size : Nat) (l : List α) (i : Nat) :
    (page size l i).length = min size (l.length - i * size) := by
  rw [page, List.length_take, List.length_drop]

theorem getElem?_page {size r : Nat} (hr : r < size) (l : List α) (i : Nat) :
    (page size l i)[r]? = l[i * size + r]? := by
  rw [page, List.getElem?_take_of_lt hr, List.getElem?_drop]

/-- Pages of the same sizes that make up the same list are the same pages. -/
theorem eq_of_flatMap_eq {f g : Nat → List α} {n : Nat}
    (hlength : ∀ i < n, (f i).length = (g i).length)
    (h : (List.range n).flatMap f = (List.range n).flatMap g) : ∀ i < n, f i = g i := by
  have hmap : (List.range n).map f = (List.range n).map g := by
    refine List.eq_iff_flatten_eq.2 ⟨?_, ?_⟩
    · rw [← List.flatMap_def, ← List.flatMap_def, h]
    · rw [List.map_map, List.map_map]
      exact List.map_congr_left fun i hi => hlength i (List.mem_range.1 hi)
  intro i hi
  exact List.map_inj_left.1 hmap i (List.mem_range.2 hi)

end RankedSort

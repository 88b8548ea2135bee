import Mathlib.Data.List.Sort

/-! # Rows read in key order, a page at a time

    A query `ORDER BY key LIMIT n` visits the matching rows in some order that
    respects the key; which of two rows with one key comes first is left open,
    and may differ from one limit to the next. `KeyOrder` is such an order.

    Reading on from the last key of a page (strictly above it) visits exactly
    the rest of the rows when the page ends where a group of equal keys ends:
    `CleanCut`. Where a group is cut, its tail is never read again. -/

namespace SortedPages

variable {α : Type*}

/-- An order in which a query visits rows: for each limit, a permutation of the
    rows in which the relation never goes back. -/
structure KeyOrder (α : Type*) (rel : α → α → Prop) where
  visit : Int → List α → List α
  perm : ∀ n l, (visit n l).Perm l
  sorted : ∀ n l, (visit n l).Pairwise rel

/-- The insertion sort is one such order, for every decidable total preorder. -/
def KeyOrder.insertionSort {rel : α → α → Prop} [DecidableRel rel]
    (total : ∀ a b, rel a b ∨ rel b a) (trans : ∀ a b c, rel a b → rel b c → rel a c) :
    KeyOrder α rel where
  visit _ l := l.insertionSort rel
  perm _ l := List.perm_insertionSort rel l
  sorted _ l := by
    have : Std.Total rel := ⟨total⟩
    have : IsTrans α rel := ⟨trans⟩
    exact List.pairwise_insertionSort rel l

/-- The order looks at nothing but what `same` compares: rows that are related one by one
    are visited in related orders. -/
def KeyOrder.Positional {rel : α → α → Prop} (o : KeyOrder α rel) (same : α → α → Prop) : Prop :=
  ∀ r : α → α → Prop, (∀ a b, r a b → same a b) →
    ∀ n l l', List.Forall₂ r l l' → List.Forall₂ r (o.visit n l) (o.visit n l')

/-- Inserting related rows into related lists. -/
theorem forall₂_orderedInsert {rel r : α → α → Prop} [DecidableRel rel]
    (hrel : ∀ a b c d, r a c → r b d → (rel a b ↔ rel c d)) {a c : α} (hac : r a c) :
    ∀ {l l' : List α}, List.Forall₂ r l l' →
      List.Forall₂ r (l.orderedInsert rel a) (l'.orderedInsert rel c) := by
  intro l l' h
  induction h with
  | nil => exact .cons hac .nil
  | @cons b d l l' hbd hrest ih =>
      by_cases hab : rel a b
      · rw [List.orderedInsert_cons_of_le _ _ hab,
          List.orderedInsert_cons_of_le _ _ ((hrel a b c d hac hbd).1 hab)]
        exact .cons hac (.cons hbd hrest)
      · have hcd : ¬ rel c d := fun h => hab ((hrel a b c d hac hbd).2 h)
        rw [List.orderedInsert_of_not_le _ _ hab, List.orderedInsert_of_not_le _ _ hcd]
        exact .cons hbd ih

theorem KeyOrder.positional_insertionSort {rel same : α → α → Prop} [DecidableRel rel]
    (total : ∀ a b, rel a b ∨ rel b a) (trans : ∀ a b c, rel a b → rel b c → rel a c)
    (hrel : ∀ a b c d, same a c → same b d → (rel a b ↔ rel c d)) :
    (KeyOrder.insertionSort total trans).Positional same := by
  intro r hr n l l' h
  show List.Forall₂ r (l.insertionSort rel) (l'.insertionSort rel)
  induction h with
  | nil => exact .nil
  | cons hac _ ih =>
      exact forall₂_orderedInsert
        (fun a b c d hac hbd => hrel a b c d (hr a c hac) (hr b d hbd)) hac ih

/-- The rows `LIMIT n` keeps: all of them when the limit is negative. -/
def limited (n : Int) (l : List α) : List α :=
  if n < 0 then l else l.take n.toNat

theorem forall₂_limited {r : α → α → Prop} {n : Int} {l l' : List α} (h : List.Forall₂ r l l') :
    List.Forall₂ r (limited n l) (limited n l') := by
  rw [limited, limited]
  split
  · exact h
  · exact List.forall₂_take _ h

theorem limited_of_pos {n : Nat} (l : List α) : limited (n : Int) l = l.take n := by
  rw [limited, if_neg (by omega), Int.toNat_natCast]

/-- A page holds no row that was not there. -/
theorem mem_of_mem_limited {n : Int} {l : List α} {a : α} (h : a ∈ limited n l) :
    a ∈ l := by
  rw [limited] at h
  split at h
  · exact h
  · exact List.mem_of_mem_take h

variable (key : α → Int)

/-- No group of equal keys reaches across position `n`. -/
def CleanCut (n : Nat) (keys : List Int) : Prop :=
  ∀ k, keys[n - 1]? = some k → keys[n]? ≠ some k

/-- No group of equal keys reaches across a multiple of `n`. -/
def NoStraddle (n : Nat) (keys : List Int) : Prop :=
  ∀ j, 0 < j → CleanCut (j * n) keys

theorem noStraddle_iff {n : Nat} (hn : 0 < n) (keys : List Int) :
    NoStraddle n keys ↔ CleanCut n keys ∧ NoStraddle n (keys.drop n) := by
  constructor
  · intro h
    refine ⟨?_, ?_⟩
    · have h1 := h 1 (by decide)
      rwa [Nat.one_mul] at h1
    · intro j hj k hk
      rw [List.getElem?_drop] at hk ⊢
      have h1 := h (j + 1) (by omega) k
      have hpos : 0 < j * n := Nat.mul_pos hj hn
      have e1 : (j + 1) * n - 1 = n + (j * n - 1) := by
        rw [Nat.add_mul]
        omega
      have e2 : (j + 1) * n = n + j * n := by
        rw [Nat.add_mul]
        omega
      rw [e1, e2] at h1
      exact h1 hk
  · intro h j hj k hk
    obtain ⟨h0, hrest⟩ := h
    rcases Nat.lt_or_ge 1 j with hlt | hle
    · have h1 := hrest (j - 1) (by omega) k
      rw [List.getElem?_drop, List.getElem?_drop] at h1
      have hpos : 0 < (j - 1) * n := Nat.mul_pos (by omega) hn
      have e0 : j * n = n + (j - 1) * n := by
        conv_lhs => rw [show j = 1 + (j - 1) by omega, Nat.add_mul, Nat.one_mul]
      have e1 : n + ((j - 1) * n - 1) = j * n - 1 := by omega
      rw [e1, ← e0] at h1
      exact h1 hk
    · have e : j = 1 := by omega
      subst e
      rw [Nat.one_mul] at hk ⊢
      exact h0 k hk

theorem noStraddle_of_length_le {n : Nat} {keys : List Int}
    (h : keys.length ≤ n) : NoStraddle n keys := by
  intro j hj k _ hk
  have hlt : j * n < keys.length := by
    rcases Nat.lt_or_ge (j * n) keys.length with hlt | hge
    · exact hlt
    · rw [List.getElem?_eq_none hge] at hk
      cases hk
  have hge : n ≤ j * n := Nat.le_mul_of_pos_left n hj
  omega

section Sorted

variable {l : List α} (hsorted : l.Pairwise (fun a b => key a ≤ key b))
include hsorted

/-- In key order, everything before a position is at or below its key. -/
theorem key_le_of_mem_take {n : Nat} {a x : α} (ha : l[n - 1]? = some a) (hn : 0 < n)
    (hx : x ∈ l.take n) : key x ≤ key a := by
  obtain ⟨i, hi, rfl⟩ := List.getElem_of_mem hx
  rw [List.length_take] at hi
  rw [List.getElem_take]
  obtain ⟨hlt, rfl⟩ := List.getElem?_eq_some_iff.1 ha
  rcases Nat.lt_or_ge i (n - 1) with h | h
  · exact List.pairwise_iff_getElem.1 hsorted i (n - 1) (by omega) hlt h
  · have e : i = n - 1 := by omega
    subst e
    exact le_refl _

/-- In key order, everything after a position is at or above its key. -/
theorem key_le_of_mem_drop {n : Nat} {a x : α} (ha : l[n - 1]? = some a) (hn : 0 < n)
    (hx : x ∈ l.drop n) : key a ≤ key x := by
  obtain ⟨i, hi, rfl⟩ := List.getElem_of_mem hx
  rw [List.length_drop] at hi
  rw [List.getElem_drop]
  obtain ⟨hlt, rfl⟩ := List.getElem?_eq_some_iff.1 ha
  exact List.pairwise_iff_getElem.1 hsorted (n - 1) (n + i) hlt (by omega) (by omega)

/-- Past a clean cut every key is strictly above the last one of the page. -/
theorem key_lt_of_mem_drop {n : Nat} {a x : α} (ha : l[n - 1]? = some a) (hn : 0 < n)
    (hcut : CleanCut n (l.map key)) (hx : x ∈ l.drop n) : key a < key x := by
  obtain ⟨b, hb⟩ : ∃ b, l[n]? = some b := by
    rcases Nat.lt_or_ge n l.length with h | h
    · exact ⟨l[n], List.getElem?_eq_getElem h⟩
    · rw [List.drop_eq_nil_of_le h] at hx
      cases hx
  have hab : key a ≤ key b := by
    refine key_le_of_mem_drop key hsorted ha hn ?_
    exact List.mem_of_getElem? (i := 0) (by rw [List.getElem?_drop]; exact hb)
  have hne : key a ≠ key b := by
    intro e
    refine hcut (key a) ?_ ?_
    · rw [List.getElem?_map, ha]
      rfl
    · rw [List.getElem?_map, hb, e]
      rfl
  have hbx : key b ≤ key x := by
    have hdrop : l.drop n = b :: l.drop (n + 1) := by
      obtain ⟨hlt, rfl⟩ := List.getElem?_eq_some_iff.1 hb
      exact List.drop_eq_getElem_cons hlt
    rw [hdrop] at hx
    rcases List.mem_cons.1 hx with rfl | hx
    · exact le_refl _
    · exact key_le_of_mem_drop key hsorted (n := n + 1) hb (by omega) hx
  omega

/-- **READING ON FROM A CLEAN CUT** visits exactly the rest. -/
theorem filter_above_eq_drop {n : Nat} {a : α} (ha : l[n - 1]? = some a) (hn : 0 < n)
    (hcut : CleanCut n (l.map key)) :
    l.filter (fun x => decide (key a < key x)) = l.drop n := by
  conv_lhs => rw [← List.take_append_drop n l]
  rw [List.filter_append]
  have h1 : (l.take n).filter (fun x => decide (key a < key x)) = [] := by
    rw [List.filter_eq_nil_iff]
    intro x hx
    have := key_le_of_mem_take key hsorted ha hn hx
    simpa using this
  have h2 : (l.drop n).filter (fun x => decide (key a < key x)) = l.drop n := by
    rw [List.filter_eq_self]
    intro x hx
    have := key_lt_of_mem_drop key hsorted ha hn hcut hx
    simpa using this
  rw [h1, h2, List.nil_append]

end Sorted

/-- Where a cut is not clean, the page holds fewer rows of the key it ends on
    than there are. -/
theorem countP_take_lt {l : List α} {n : Nat} {b : α} {k : Int} (hb : l[n]? = some b)
    (hk : key b = k) :
    (l.take n).countP (fun x => decide (key x = k)) <
      l.countP (fun x => decide (key x = k)) := by
  conv_rhs => rw [← List.take_append_drop n l]
  rw [List.countP_append]
  have hpos : 0 < (l.drop n).countP (fun x => decide (key x = k)) := by
    rw [List.countP_pos_iff]
    refine ⟨b, ?_, by simpa using hk⟩
    exact List.mem_of_getElem? (i := 0) (by rw [List.getElem?_drop]; exact hb)
  omega

end SortedPages

import Livtet.Lib.FirstSeen
import Livtet.Lib.RankedSort

/-! # Pages of what is seen

    A list is read in pages: a page begins where the one before would end if the list were
    taken as it is, looks further than its own end, and keeps the first elements that are
    different.

    A page that meets an element twice takes in the element with which the next one begins.
    So no element is on two pages exactly if those before the last page are each met only
    once (`nodup_flatMap_seenPage_iff`). -/

namespace DistinctPages

open FirstSeen RankedSort

variable {α : Type} [BEq α] [LawfulBEq α] {size : Nat} {upTo : Nat → Nat} {l : List α}

/-- The first different elements from the start of the page, as far as it looks. -/
def seenPage (size : Nat) (upTo : Nat → Nat) (l : List α) (i : Nat) : List α :=
  ((l.take (upTo i)).drop (i * size)).eraseDups.take size

omit [BEq α] [LawfulBEq α] in
/-- A page looks further than its end. -/
theorem take_window (hupTo : ∀ i, (i + 1) * size < upTo i) {i k : Nat} (hk : k ≤ size + 1) :
    ((l.take (upTo i)).drop (i * size)).take k = (l.drop (i * size)).take k := by
  have hfar := hupTo i
  rw [Nat.succ_mul] at hfar
  rw [List.drop_take, List.take_take, Nat.min_eq_left (by omega)]

/-- A page without an element twice is the page of the list. -/
theorem seenPage_of_nodup (hupTo : ∀ i, (i + 1) * size < upTo i) {i : Nat}
    (h : (page size l i).Nodup) : seenPage size upTo l i = page size l i := by
  have hwindow := take_window (l := l) hupTo (i := i) (Nat.le_succ size)
  rw [seenPage, take_eraseDups_eq_iff.2 (by rwa [hwindow]), hwindow]
  rfl

omit [BEq α] [LawfulBEq α] in
theorem page_last {i : Nat} (hlast : l.length ≤ (i + 1) * size) :
    page size l i = l.drop (i * size) := by
  rw [Nat.succ_mul] at hlast
  rw [page, List.take_of_length_le]
  rw [List.length_drop]
  omega

omit [LawfulBEq α] in
theorem seenPage_last (hupTo : ∀ i, (i + 1) * size < upTo i) {i : Nat}
    (hlast : l.length ≤ (i + 1) * size) :
    seenPage size upTo l i = (page size l i).eraseDups := by
  have hall : l.take (upTo i) = l :=
    List.take_of_length_le (hlast.trans (Nat.le_of_lt (hupTo i)))
  rw [page_last hlast, seenPage, hall, List.take_of_length_le]
  refine (eraseDups_sublist _).length_le.trans ?_
  rw [Nat.succ_mul] at hlast
  rw [List.length_drop]
  omega

/-- The first element after the end of a page is on the next one. -/
theorem mem_seenPage_begin (hsize : 1 ≤ size) (hupTo : ∀ i, (i + 1) * size < upTo i) {i : Nat}
    {a : α} (ha : l[i * size]? = some a) : a ∈ seenPage size upTo l i := by
  have hone := take_window (l := l) hupTo (i := i) (k := 1) (by omega)
  have hmem : a ∈ (l.drop (i * size)).take 1 := by
    refine List.mem_of_getElem? (i := 0) ?_
    rw [List.getElem?_take_of_lt Nat.one_pos, List.getElem?_drop, Nat.add_zero, ha]
  rw [← hone] at hmem
  refine mem_take_eraseDups (((eraseDups_sublist _).length_le.trans ?_).trans hsize) hmem
  exact List.length_take_le _ _

/-- A page with an element twice takes in what the next one begins with. -/
theorem nodup_page_of_disjoint (hsize : 1 ≤ size) (hupTo : ∀ i, (i + 1) * size < upTo i) {i : Nat}
    (hmore : (i + 1) * size < l.length)
    (hdisjoint : (seenPage size upTo l i).Disjoint (seenPage size upTo l (i + 1))) :
    (page size l i).Nodup := by
  by_contra htwice
  have hnext : l[(i + 1) * size]? = some l[(i + 1) * size] := List.getElem?_eq_getElem hmore
  have hwindow := take_window (l := l) hupTo (i := i) (Nat.le_refl (size + 1))
  have hsucc : i * size + size = (i + 1) * size := (Nat.succ_mul i size).symm
  have hmem : l[(i + 1) * size] ∈ (l.drop (i * size)).take (size + 1) := by
    refine List.mem_of_getElem? (i := size) ?_
    rw [List.getElem?_take_of_lt (Nat.lt_succ_self size), List.getElem?_drop, hsucc, hnext]
  -- one more than the page, and one of them twice
  have hfew : ((l.drop (i * size)).take (size + 1)).eraseDups.length ≤ size := by
    have hle := (eraseDups_sublist ((l.drop (i * size)).take (size + 1))).length_le
    have hbound := List.length_take_le (size + 1) (l.drop (i * size))
    by_contra hmany
    have hnodup : ((l.drop (i * size)).take (size + 1)).Nodup :=
      length_eraseDups_eq_iff.1 (by omega)
    refine htwice (hnodup.sublist ?_)
    exact (List.take_prefix_take_left (Nat.le_succ size)).sublist
  rw [← hwindow] at hmem hfew
  exact hdisjoint (mem_take_eraseDups hfew hmem) (mem_seenPage_begin hsize hupTo hnext)

/-- Pages without an element twice, and the last one. -/
theorem flatMap_seenPage (hupTo : ∀ i, (i + 1) * size < upTo i) {p : Nat}
    (hlast : l.length ≤ (p + 1) * size) (h : ∀ i < p, (page size l i).Nodup) :
    (List.range (p + 1)).flatMap (seenPage size upTo l) =
      l.take (p * size) ++ (l.drop (p * size)).eraseDups := by
  have hpages : (List.range p).map (seenPage size upTo l) = (List.range p).map (page size l) :=
    List.map_congr_left fun i hi => seenPage_of_nodup hupTo (h i (List.mem_range.1 hi))
  rw [List.range_succ, List.flatMap_append, List.flatMap_singleton, List.flatMap_def, hpages,
    ← List.flatMap_def, flatMap_page, seenPage_last hupTo hlast, page_last hlast]

omit [BEq α] [LawfulBEq α] in
theorem nodup_page_of_nodup_take {p i : Nat} (hi : i < p) (h : (l.take (p * size)).Nodup) :
    (page size l i).Nodup := by
  have hle : (i + 1) * size ≤ p * size := Nat.mul_le_mul_right size hi
  rw [page_eq]
  refine h.sublist ((List.drop_sublist _ _).trans ?_)
  exact (List.take_prefix_take_left hle).sublist

/-- **NO ELEMENT IS ON TWO PAGES** exactly if none that comes before the last page comes again. -/
theorem nodup_flatMap_seenPage_iff (hsize : 1 ≤ size) (hupTo : ∀ i, (i + 1) * size < upTo i)
    {p : Nat} (hp : p * size < l.length) (hlast : l.length ≤ (p + 1) * size) :
    ((List.range (p + 1)).flatMap (seenPage size upTo l)).Nodup ↔
      (l.take (p * size) ++ (l.drop (p * size)).eraseDups).Nodup := by
  constructor
  · intro h
    rw [← flatMap_seenPage hupTo hlast]
    · exact h
    intro i hi
    have hle : (i + 1) * size ≤ p * size := Nat.mul_le_mul_right size hi
    refine nodup_page_of_disjoint hsize hupTo (Nat.lt_of_le_of_lt hle hp) ?_
    have hpairs := (List.nodup_flatMap.1 h).2
    have hpair : List.Disjoint (seenPage size upTo l _) (seenPage size upTo l _) :=
      List.pairwise_iff_getElem.1 hpairs i (i + 1)
        (by rw [List.length_range]; omega) (by rw [List.length_range]; omega) (Nat.lt_succ_self i)
    rwa [List.getElem_range, List.getElem_range] at hpair
  · intro h
    rw [flatMap_seenPage hupTo hlast fun i hi => nodup_page_of_nodup_take hi h.of_append_left]
    exact h

/-- None that comes before a position comes again. -/
theorem nodup_take_append_iff {s : Nat} : (l.take s ++ (l.drop s).eraseDups).Nodup ↔
    ∀ r₁ r₂ : Nat, r₁ < r₂ → ∀ a, l[r₁]? = some a → l[r₂]? = some a → s ≤ r₁ := by
  rw [List.nodup_append']
  constructor
  · rintro ⟨hfirst, _, hdisjoint⟩ r₁ r₂ hlt a h₁ h₂
    by_contra hnot
    have hbefore : (l.take s)[r₁]? = some a := by
      rw [List.getElem?_take_of_lt (Nat.lt_of_not_le hnot), h₁]
    by_cases hboth : r₂ < s
    · have hagain : (l.take s)[r₂]? = some a := by rw [List.getElem?_take_of_lt hboth, h₂]
      obtain ⟨hlength, _⟩ := List.getElem?_eq_some_iff.1 hagain
      exact List.nodup_iff_getElem?_ne_getElem?.1 hfirst r₁ r₂ hlt hlength
        (hbefore.trans hagain.symm)
    · refine hdisjoint (List.mem_of_getElem? hbefore) (List.mem_eraseDups.2 ?_)
      refine List.mem_of_getElem? (i := r₂ - s) ?_
      rw [List.getElem?_drop, Nat.add_sub_cancel' (Nat.le_of_not_lt hboth), h₂]
  · intro h
    refine ⟨List.nodup_iff_getElem?_ne_getElem?.2 fun i j hij hj heq => ?_, nodup_eraseDups _, ?_⟩
    · rw [List.length_take] at hj
      rw [List.getElem?_take_of_lt (by omega), List.getElem?_take_of_lt (by omega)] at heq
      have hat : l[j]? = some l[j] := List.getElem?_eq_getElem (by omega)
      have := h i j hij _ (heq.trans hat) hat
      omega
    · intro a hfirst hlater
      obtain ⟨i, hi⟩ := List.mem_iff_getElem?.1 hfirst
      obtain ⟨j, hj⟩ := List.mem_iff_getElem?.1 (List.mem_eraseDups.1 hlater)
      rw [List.getElem?_drop] at hj
      rw [List.getElem?_take] at hi
      split at hi
      next hlt =>
        have := h i (s + j) (by omega) a hi hj
        omega
      next => cases hi

/-- If none comes again, each page is what is seen of the page of the list. -/
theorem seenPage_eq (hupTo : ∀ i, (i + 1) * size < upTo i) {p i : Nat} (hi : i ≤ p)
    (hlast : l.length ≤ (p + 1) * size)
    (h : ∀ r₁ r₂ : Nat, r₁ < r₂ → ∀ a, l[r₁]? = some a → l[r₂]? = some a → p * size ≤ r₁) :
    seenPage size upTo l i = (page size l i).eraseDups := by
  rcases Nat.lt_or_eq_of_le hi with hlt | rfl
  · have hnodup := nodup_page_of_nodup_take hlt (nodup_take_append_iff.2 h).of_append_left
    rw [seenPage_of_nodup hupTo hnodup, eraseDups_of_nodup hnodup]
  · exact seenPage_last hupTo hlast

omit [BEq α] [LawfulBEq α] in
/-- A window that has all of a kind in it has as many of them as the list. -/
theorem filter_window {p : α → Bool} {start stop : Nat} (hle : start ≤ stop)
    (h : ∀ r a, l[r]? = some a → p a = true → start ≤ r ∧ r < stop) :
    ((l.take stop).drop start).filter p = l.filter p := by
  have hsplit : l = l.take start ++ ((l.take stop).drop start ++ l.drop stop) := by
    have hstart : (l.take stop).take start = l.take start := by
      rw [List.take_take, Nat.min_eq_left hle]
    rw [← List.append_assoc, ← hstart, List.take_append_drop, List.take_append_drop]
  have hbefore : (l.take start).filter p = [] := by
    refine List.filter_eq_nil_iff.2 fun a ha hpa => ?_
    obtain ⟨r, hr⟩ := List.mem_iff_getElem?.1 ha
    rw [List.getElem?_take] at hr
    split at hr
    next hlt =>
      have := (h r a hr hpa).1
      omega
    next => cases hr
  have hafter : (l.drop stop).filter p = [] := by
    refine List.filter_eq_nil_iff.2 fun a ha hpa => ?_
    obtain ⟨r, hr⟩ := List.mem_iff_getElem?.1 ha
    rw [List.getElem?_drop] at hr
    have := (h _ a hr hpa).2
    omega
  conv_rhs => rw [hsplit, List.filter_append, List.filter_append, hbefore, hafter,
    List.nil_append, List.append_nil]

end DistinctPages

import Mathlib.Data.List.Induction
import Mathlib.Data.List.InsertIdx
import Mathlib.Data.List.Nodup
import Mathlib.Data.List.Perm.Basic
import Mathlib.Data.List.Sort

/-! # Lists by position

    The order of a list is kept outside the list, as a number for each element: gaps are
    allowed, and the pairs come in any order. Sorting by the number gives the list back if
    the numbers are all different (`eq_of_increasing`).

    Moving an element takes it out and puts it in again. Numbers that are written afresh,
    from nought on, increase (`increasing_numbered`). -/

namespace Positions

variable {α : Type}

/-! ## Increasing numbers -/

/-- The numbers of the pairs increase. -/
def Increasing (pairs : List (α × Int)) : Prop := pairs.Pairwise fun a b => a.2 < b.2

/-- A list that is sorted by number, of pairs whose numbers are all different. -/
theorem eq_of_increasing {sorted pairs : List (α × Int)} (hperm : sorted.Perm pairs)
    (hsorted : sorted.Pairwise fun a b => a.2 ≤ b.2) (hpairs : Increasing pairs) :
    sorted = pairs := by
  have hapart : ∀ a ∈ pairs, ∀ b ∈ pairs, a.2 = b.2 → a = b := by
    have hnodup : (pairs.map Prod.snd).Nodup :=
      List.pairwise_map.2 (hpairs.imp fun hlt heq => absurd heq (Int.ne_of_lt hlt))
    exact fun a ha b hb heq => List.inj_on_of_nodup_map hnodup ha hb heq
  have hantisymm : ∀ a b : α × Int, a ∈ sorted → b ∈ pairs → a.2 ≤ b.2 → b.2 ≤ a.2 → a = b :=
    fun a b ha hb hab hba => hapart a (hperm.mem_iff.1 ha) b hb (Int.le_antisymm hab hba)
  exact hperm.eq_of_pairwise hantisymm hsorted (hpairs.imp Int.le_of_lt)

/-- As many as there are numbers at most. -/
theorem length_le_of_increasing {pairs : List (α × Int)} (h : Increasing pairs) {low : Int} :
    ∀ {high : Int}, (∀ x ∈ pairs, low ≤ x.2 ∧ x.2 < high) → low ≤ high →
      (pairs.length : Int) ≤ high - low := by
  induction pairs using List.reverseRecOn with
  | nil =>
      intro high _ hle
      exact Int.sub_nonneg_of_le hle
  | append_singleton pairs x ih =>
      intro high hbound _
      obtain ⟨hrest, _, hlast⟩ := List.pairwise_append.1 h
      obtain ⟨hlow, hhigh⟩ := hbound x (List.mem_append_right _ (List.mem_singleton_self x))
      have hbefore : (pairs.length : Int) ≤ x.2 - low := ih hrest (fun y hy =>
        ⟨(hbound y (List.mem_append_left _ hy)).1, hlast y hy x (List.mem_singleton_self x)⟩) hlow
      rw [List.length_append, List.length_singleton]
      omega

theorem Increasing.filter {pairs : List (α × Int)} (h : Increasing pairs) (p : α × Int → Bool) :
    Increasing (pairs.filter p) := List.Pairwise.filter p h

theorem Increasing.append_one {pairs : List (α × Int)} (h : Increasing pairs) {x : α × Int}
    (hx : ∀ y ∈ pairs, y.2 < x.2) : Increasing (pairs ++ [x]) := by
  refine List.pairwise_append.2 ⟨h, List.pairwise_singleton _ _, fun y hy z hz => ?_⟩
  rw [List.mem_singleton.1 hz]
  exact hx y hy

/-! ## Numbered afresh -/

/-- Each element with its index. -/
def numbered (l : List α) : List (α × Int) := l.zipIdx.map fun x => (x.1, (x.2 : Int))

theorem map_fst_numbered (l : List α) : (numbered l).map Prod.fst = l := by
  rw [numbered, List.map_map]
  exact List.zipIdx_map_fst ..

theorem mem_numbered {l : List α} {a : α} {n : Int} :
    (a, n) ∈ numbered l ↔ ∃ i : Nat, l[i]? = some a ∧ n = i := by
  rw [numbered, List.mem_map]
  constructor
  · rintro ⟨⟨b, i⟩, hmem, heq⟩
    cases heq
    exact ⟨i, List.mem_zipIdx_iff_getElem?.1 hmem, rfl⟩
  · rintro ⟨i, hi, rfl⟩
    exact ⟨(a, i), List.mem_zipIdx_iff_getElem?.2 hi, rfl⟩

theorem increasing_numbered (l : List α) : Increasing (numbered l) := by
  refine List.pairwise_map.2 ?_
  have hsnd : (l.zipIdx.map Prod.snd).Pairwise (· < ·) := by
    rw [List.zipIdx_map_snd, ← List.range_eq_range']
    exact List.pairwise_lt_range
  exact (List.pairwise_map.1 hsnd).imp Int.ofNat_lt.2

/-! ## Moving -/

variable [DecidableEq α]

/-- Taken out, and put in again at a position, or at the end. -/
def moveTo (a : α) (position : Nat) (l : List α) : List α :=
  (l.erase a).insertIdx (min position (l.erase a).length) a

theorem moveTo_perm {a : α} {l : List α} (h : a ∈ l) (position : Nat) :
    (moveTo a position l).Perm l :=
  (List.perm_insertIdx a (l.erase a) (Nat.min_le_right _ _)).trans (List.perm_cons_erase h).symm

end Positions

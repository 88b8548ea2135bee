import Mathlib.Data.List.DropRight

/-! # Rings — a queue that forgets its oldest entries

    Before an entry is pushed, entries are taken off the front until there is room. What
    is in the queue after any number of pushes are the last ones, in their order. -/

namespace Rings

variable {α : Type*}

/-- Take entries off the front while there are as many as may be kept. -/
def makeRoom (cap : Nat) : List α → List α
  | [] => []
  | x :: q => if cap ≤ (x :: q).length then makeRoom cap q else x :: q

def push (cap : Nat) (q : List α) (x : α) : List α := makeRoom cap q ++ [x]

/-- The newest entries first, at most `limit` of them. -/
def newest (q : List α) (limit : Nat) : List α := q.reverse.take limit

theorem makeRoom_eq_drop (cap : Nat) (q : List α) :
    makeRoom cap q = q.drop (q.length + 1 - cap) := by
  induction q with
  | nil => simp [makeRoom]
  | cons x q ih =>
      rw [makeRoom]
      split
      · next hfull =>
          have hcount : (x :: q).length + 1 - cap = (q.length + 1 - cap) + 1 := by
            rw [List.length_cons] at hfull ⊢
            omega
          rw [ih, hcount, List.drop_succ_cons]
      · next hroom =>
          have hcount : (x :: q).length + 1 - cap = 0 := by omega
          rw [hcount, List.drop_zero]

/-- A push onto the last entries of what there was leaves the last ones with the new. -/
theorem push_rtake {cap : Nat} (hcap : 0 < cap) (xs : List α) (x : α) :
    push cap (xs.rtake cap) x = (xs ++ [x]).rtake cap := by
  have hcount : (xs.length - cap) + ((xs.drop (xs.length - cap)).length + 1 - cap) =
      (xs ++ [x]).length - cap := by
    rw [List.length_drop, List.length_append, List.length_singleton]
    omega
  have hle : (xs ++ [x]).length - cap ≤ xs.length := by
    rw [List.length_append, List.length_singleton]
    omega
  rw [push, makeRoom_eq_drop, List.rtake, List.drop_drop, hcount, List.rtake,
    List.drop_append_of_le_length hle]

/-- **THE LAST ENTRIES STAY.** -/
theorem foldl_push {cap : Nat} (hcap : 0 < cap) (xs : List α) : ∀ before : List α,
    xs.foldl (push cap) (before.rtake cap) = (before ++ xs).rtake cap := by
  induction xs with
  | nil => simp
  | cons x xs ih =>
      intro before
      rw [List.foldl_cons, push_rtake hcap, ih, List.append_assoc, List.singleton_append]

/-- Reading the newest entries of the queue is reading those of everything pushed, up to
    the number that is kept. -/
theorem newest_rtake (cap limit : Nat) (xs : List α) :
    newest (xs.rtake cap) limit = xs.reverse.take (min limit cap) := by
  rw [newest, List.rtake_eq_reverse_take_reverse, List.reverse_reverse, List.take_take]

end Rings

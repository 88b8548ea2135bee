import Mathlib.Data.List.Sort
import Mathlib.Data.List.Count

/-! # Fixed windows — a budget of calls, from the call that opens a window

    One caller of a rate limiter. The first call opens a window; the calls that come
    before the window is over are let through until the budget is spent, and the first
    call after it opens the next one. So no stretch of time of the length of a window
    meets the calls of more than two windows. -/

namespace FixedWindow

/-- When the window opened, and the calls let through since. -/
abbrev Entry := Nat × Nat

section Caller

variable (window budget : Nat)

def isOpen (now : Nat) (e : Entry) : Bool := now - e.1 < window

/-- The window a call falls into: the open one, or a new one. -/
def entryAt (now : Nat) (s : Option Entry) : Entry := (s.filter (isOpen window now)).getD (now, 0)

/-- The window after a call; a call beyond the budget is not counted. -/
def spend (e : Entry) : Entry := if e.2 < budget then (e.1, e.2 + 1) else e

def next (s : Option Entry) (now : Nat) : Option Entry := some (spend budget (entryAt window now s))

/-- The calls, each with its answer. -/
def trace : Option Entry → List Nat → List (Nat × Bool)
  | _, [] => []
  | s, now :: rest =>
      (now, decide ((entryAt window now s).2 < budget)) :: trace (next window budget s now) rest

/-- How many calls before an instant are let through. -/
def passedBefore (limit : Nat) (s : Option Entry) (times : List Nat) : Nat :=
  (trace window budget s times).countP fun p => p.2 && decide (p.1 < limit)

/-- How many calls of a stretch of time are let through. -/
def passedWithin (first last : Nat) (s : Option Entry) (times : List Nat) : Nat :=
  (trace window budget s times).countP fun p => p.2 && decide (first ≤ p.1 ∧ p.1 ≤ last)

end Caller

variable {window budget : Nat}

theorem entryAt_open {now : Nat} {e : Entry} (hstart : e.1 ≤ now) (h : now < e.1 + window) :
    entryAt window now (some e) = e := by
  have hopen : isOpen window now e = true := decide_eq_true (by omega)
  rw [entryAt, Option.filter_some_pos hopen, Option.getD_some]

theorem entryAt_closed {now : Nat} {e : Entry} (h : e.1 + window ≤ now) :
    entryAt window now (some e) = (now, 0) := by
  have hclosed : isOpen window now e = false := decide_eq_false (by omega)
  rw [entryAt, Option.filter_some_neg (by simp [hclosed]), Option.getD_none]

/-- What is left of a window later on does not depend on whether it was dropped before. -/
theorem filter_open_filter {s : Option Entry} {earlier now : Nat} (h : earlier ≤ now) :
    (s.filter (isOpen window earlier)).filter (isOpen window now) =
      s.filter (isOpen window now) := by
  rw [Option.filter_filter]
  congr 1
  funext e
  rw [Bool.and_eq_right_iff_imp]
  intro hnow
  have hnow : now - e.1 < window := of_decide_eq_true hnow
  exact decide_eq_true (by omega)

theorem passedBefore_cons (limit : Nat) (s : Option Entry) (now : Nat) (rest : List Nat) :
    passedBefore window budget limit s (now :: rest) =
      passedBefore window budget limit (next window budget s now) rest +
        if (entryAt window now s).2 < budget ∧ now < limit then 1 else 0 := by
  rw [passedBefore, trace, List.countP_cons, ← passedBefore]
  simp

theorem passedWithin_cons (first last : Nat) (s : Option Entry) (now : Nat) (rest : List Nat) :
    passedWithin window budget first last s (now :: rest) =
      passedWithin window budget first last (next window budget s now) rest +
        if (entryAt window now s).2 < budget ∧ first ≤ now ∧ now ≤ last then 1 else 0 := by
  rw [passedWithin, trace, List.countP_cons, ← passedWithin]
  simp

/-- Nothing is let through before an instant that no call comes before. -/
theorem passedBefore_eq_zero {limit : Nat} {s : Option Entry} {times : List Nat}
    (h : ∀ t ∈ times, limit ≤ t) : passedBefore window budget limit s times = 0 := by
  induction times generalizing s with
  | nil => rfl
  | cons now rest ih =>
      obtain ⟨hnow, hrest⟩ := List.forall_mem_cons.1 h
      rw [passedBefore_cons, ih hrest, if_neg fun hcount => absurd hcount.2 (not_lt.2 hnow)]

/-- The budget of an open window is not exceeded before the window is over. -/
theorem passedBefore_of_entry {limit : Nat} {e : Entry} {times : List Nat}
    (hsorted : times.Pairwise (· ≤ ·)) (hstart : ∀ t ∈ times, e.1 ≤ t) (hbudget : e.2 ≤ budget)
    (hlimit : limit ≤ e.1 + window) :
    passedBefore window budget limit (some e) times + e.2 ≤ budget := by
  induction times generalizing e with
  | nil =>
      show 0 + e.2 ≤ budget
      omega
  | cons now rest ih =>
      obtain ⟨hnow, hrest⟩ := List.forall_mem_cons.1 hstart
      obtain ⟨hle, hsorted'⟩ := List.pairwise_cons.1 hsorted
      by_cases hopen : now < e.1 + window
      · rw [passedBefore_cons, next, entryAt_open hnow hopen, spend]
        by_cases hspent : e.2 < budget
        · rw [if_pos hspent]
          have hih : _ + (e.2 + 1) ≤ _ := ih (e := (e.1, e.2 + 1)) hsorted' hrest hspent hlimit
          split <;> omega
        · rw [if_neg hspent, if_neg fun hcount => hspent hcount.1]
          exact ih hsorted' hrest hbudget hlimit
      · -- the calls that are left come after the window
        rw [passedBefore_eq_zero, Nat.zero_add]
        · exact hbudget
        · intro t ht
          rcases List.mem_cons.1 ht with rfl | ht
          · omega
          · have := hle t ht
            omega

/-- A call that finds no open window opens one, whose budget is not exceeded either. -/
theorem passedBefore_of_opening {now : Nat} {s : Option Entry} {rest : List Nat}
    (hsorted : (now :: rest).Pairwise (· ≤ ·)) (hnone : s.filter (isOpen window now) = none) :
    passedBefore window budget (now + window) s (now :: rest) ≤ budget := by
  have hstart : ∀ t ∈ now :: rest, now ≤ t :=
    List.forall_mem_cons.2 ⟨le_refl now, (List.pairwise_cons.1 hsorted).1⟩
  by_cases hwindow : 0 < window
  · have hopen : entryAt window now (some (now, 0)) = (now, 0) :=
      entryAt_open (le_refl now) (Nat.lt_add_of_pos_right hwindow)
    have hentry : entryAt window now s = entryAt window now (some (now, 0)) := by
      rw [entryAt, hnone, Option.getD_none, hopen]
    have hfresh : passedBefore window budget (now + window) (some (now, 0)) (now :: rest) + 0 ≤
        budget := passedBefore_of_entry hsorted hstart (Nat.zero_le _) (le_refl _)
    rw [passedBefore_cons, next, ← hentry] at hfresh
    rw [passedBefore_cons, next]
    exact hfresh
  · -- a window without length lets nothing through before it is over
    rw [Nat.eq_zero_of_not_pos hwindow, Nat.add_zero, passedBefore_eq_zero hstart]
    exact Nat.zero_le _

/-- Two budgets are not exceeded before the window that follows is over. -/
theorem passedBefore_two {limit : Nat} {e : Entry} {times : List Nat}
    (hsorted : times.Pairwise (· ≤ ·)) (hstart : ∀ t ∈ times, e.1 ≤ t) (hbudget : e.2 ≤ budget)
    (hlimit : limit ≤ e.1 + 2 * window) :
    passedBefore window budget limit (some e) times + e.2 ≤ 2 * budget := by
  induction times generalizing e with
  | nil =>
      show 0 + e.2 ≤ 2 * budget
      omega
  | cons now rest ih =>
      obtain ⟨hnow, hrest⟩ := List.forall_mem_cons.1 hstart
      obtain ⟨hle, hsorted'⟩ := List.pairwise_cons.1 hsorted
      rw [passedBefore_cons, next, spend]
      by_cases hopen : now < e.1 + window
      · rw [entryAt_open hnow hopen]
        by_cases hspent : e.2 < budget
        · rw [if_pos hspent]
          have hih : _ + (e.2 + 1) ≤ _ := ih (e := (e.1, e.2 + 1)) hsorted' hrest hspent hlimit
          split <;> omega
        · rw [if_neg hspent, if_neg fun hcount => hspent hcount.1]
          exact ih hsorted' hrest hbudget hlimit
      · -- the call opens the window that follows, which outlasts the limit
        rw [entryAt_closed (not_lt.1 hopen)]
        dsimp only
        by_cases hspent : 0 < budget
        · rw [if_pos hspent]
          have hnext : passedBefore window budget limit (some (now, 0 + 1)) rest + 1 ≤ budget :=
            passedBefore_of_entry hsorted' hle hspent (by show limit ≤ now + window; omega)
          split <;> omega
        · rw [if_neg hspent, if_neg fun hcount => hspent hcount.1]
          have hnext : passedBefore window budget limit (some (now, 0)) rest + 0 ≤ budget :=
            passedBefore_of_entry hsorted' hle (Nat.zero_le _) (by show limit ≤ now + window; omega)
          omega

/-- What a caller's state is worth before the calls that follow: its window is within the
    budget and did not open later than they come. -/
def Valid (budget : Nat) (s : Option Entry) (times : List Nat) : Prop :=
  ∀ e, s = some e → e.2 ≤ budget ∧ ∀ t ∈ times, e.1 ≤ t

theorem valid_next {s : Option Entry} {now : Nat} {rest : List Nat}
    (hsorted : (now :: rest).Pairwise (· ≤ ·)) (h : Valid budget s (now :: rest)) :
    Valid budget (next window budget s now) rest := by
  have hentry : (entryAt window now s).2 ≤ budget ∧ ∀ t ∈ rest, (entryAt window now s).1 ≤ t := by
    rw [entryAt]
    cases hfilter : s.filter (isOpen window now) with
    | none => exact ⟨Nat.zero_le _, (List.pairwise_cons.1 hsorted).1⟩
    | some e =>
        obtain ⟨hbudget, hstart⟩ := h e (Option.filter_eq_some_iff.1 hfilter).1
        exact ⟨hbudget, fun t ht => hstart t (List.mem_cons_of_mem _ ht)⟩
  intro e he
  cases Option.some.inj he
  rw [spend]
  split
  · next hspent => exact ⟨hspent, hentry.2⟩
  · exact hentry

/-- Calls from an instant on, until the length of a window later. -/
theorem passedBefore_window {first : Nat} {s : Option Entry} {times : List Nat}
    (hwindow : 0 < window) (hsorted : times.Pairwise (· ≤ ·)) (hvalid : Valid budget s times)
    (hfirst : ∀ t ∈ times, first ≤ t) :
    passedBefore window budget (first + window + 1) s times ≤ 2 * budget := by
  cases times with
  | nil => exact Nat.zero_le _
  | cons now rest =>
      have hnow := hfirst now List.mem_cons_self
      -- the first call falls into its window, which is where the two budgets start
      have hsame : ∀ e, entryAt window now s = e → entryAt window now (some e) = e →
          passedBefore window budget (first + window + 1) s (now :: rest) =
            passedBefore window budget (first + window + 1) (some e) (now :: rest) := by
        intro e he he'
        rw [passedBefore_cons, passedBefore_cons, next, next, he, he']
      cases hfilter : s.filter (isOpen window now) with
      | none =>
          have hentry : entryAt window now s = (now, 0) := by rw [entryAt, hfilter, Option.getD_none]
          rw [hsame _ hentry (entryAt_open (le_refl now) (Nat.lt_add_of_pos_right hwindow))]
          have hstart : ∀ t ∈ now :: rest, now ≤ t :=
            List.forall_mem_cons.2 ⟨le_refl now, (List.pairwise_cons.1 hsorted).1⟩
          exact passedBefore_two (e := (now, 0)) hsorted hstart (Nat.zero_le _)
            (by show first + window + 1 ≤ now + 2 * window; omega)
      | some e =>
          obtain ⟨hs, hopen⟩ := Option.filter_eq_some_iff.1 hfilter
          obtain ⟨hbudget, hstart⟩ := hvalid e hs
          have hlt : now - e.1 < window := of_decide_eq_true hopen
          have htwo : passedBefore window budget (first + window + 1) (some e) (now :: rest) + e.2 ≤
              2 * budget := passedBefore_two hsorted hstart hbudget (by omega)
          rw [hs]
          omega

/-- **NO STRETCH OF THE LENGTH OF A WINDOW** sees more than two budgets. -/
theorem passedWithin_le {first last : Nat} {s : Option Entry} {times : List Nat}
    (hwindow : 0 < window) (hlast : last ≤ first + window) (hsorted : times.Pairwise (· ≤ ·))
    (hvalid : Valid budget s times) :
    passedWithin window budget first last s times ≤ 2 * budget := by
  induction times generalizing s with
  | nil => exact Nat.zero_le _
  | cons now rest ih =>
      by_cases hnow : now < first
      · rw [passedWithin_cons, if_neg fun hcount => absurd hcount.2.1 (not_le.2 hnow)]
        exact ih (List.pairwise_cons.1 hsorted).2 (valid_next hsorted hvalid)
      · have hwithin : passedBefore window budget (first + window + 1) s (now :: rest) ≤
            2 * budget := by
          refine passedBefore_window hwindow hsorted hvalid ?_
          refine List.forall_mem_cons.2 ⟨not_lt.1 hnow, fun t ht => ?_⟩
          exact le_trans (not_lt.1 hnow) ((List.pairwise_cons.1 hsorted).1 t ht)
        refine le_trans (List.countP_mono_left fun p _ hp => ?_) hwithin
        simp only [Bool.and_eq_true, decide_eq_true_eq] at hp ⊢
        exact ⟨hp.1, by omega⟩

end FixedWindow

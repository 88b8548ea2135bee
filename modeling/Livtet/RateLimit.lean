import Livtet.Lib.FixedWindow
import Livtet.Pairing

/-! # The budget for pairing claims

    Every call drops the windows of all nodes that are over, so what one node is answered
    looks as if it depended on when the others call. It does not: a window that is
    dropped early would have been dropped by the node's own next call. Each node sees a
    fixed window of its own, and the bounds are those of the fixed window.

    A window without length is never open. Each call then opens a window afresh, and the
    budget bounds nothing. -/

namespace SyncPairing

open Maps FixedWindow

/-- `max` claims for each node in each `window`. -/
structure ClaimRateLimiter where
  window : Nat
  max : Nat
deriving DecidableEq, Repr

structure Call where
  now : Instant
  nodeId : String
deriving DecidableEq, Repr

namespace ClaimRateLimiter

section Limiter

variable (l : ClaimRateLimiter)

/-- Count a claim; `true` when it is within the budget. -/
def allowAt (now : Instant) (nodeId : String) (windows : Map String (Instant × Nat)) :
    Bool × Map String (Instant × Nat) :=
  let windows := retain (fun _ w => decide (now - w.1 < l.window)) windows
  let entry := (windows.lookup nodeId).getD (now, 0)
  if l.max ≤ entry.2 then (false, windows.insert nodeId entry)
  else (true, windows.insert nodeId (entry.1, entry.2 + 1))

/-- The limiter a claim is checked against: ten a minute. -/
def default : ClaimRateLimiter := { window := 60 * 10 ^ 9, max := 10 }

theorem allowAt_default (now : Instant) (nodeId : String) (windows : Map String (Instant × Nat)) :
    SyncPairing.allowAt now nodeId windows = default.allowAt now nodeId windows := rfl

/-- The windows after a sequence of calls. -/
def after (windows : Map String (Instant × Nat)) (calls : List Call) : Map String (Instant × Nat) :=
  calls.foldl (fun windows c => (l.allowAt c.now c.nodeId windows).2) windows

/-- The calls, each with its answer. -/
def answers : Map String (Instant × Nat) → List Call → List (Call × Bool)
  | _, [] => []
  | windows, c :: rest =>
      (c, (l.allowAt c.now c.nodeId windows).1) ::
        answers (l.allowAt c.now c.nodeId windows).2 rest

/-- The answers to one node's calls, from a state of the limiter on. -/
def answersTo (nodeId : String) (windows : Map String (Instant × Nat)) (calls : List Call) :
    List (Instant × Bool) :=
  ((l.answers windows calls).filter fun p => p.1.nodeId == nodeId).map fun p => (p.1.now, p.2)

/-- How many claims of a node are allowed at instants that meet a condition. -/
def allowed (nodeId : String) (windows : Map String (Instant × Nat)) (calls : List Call)
    (during : Instant → Bool) : Nat :=
  (l.answersTo nodeId windows calls).countP fun p => p.2 && during p.1

/-- The calls of a node. -/
def callsOf (nodeId : String) (calls : List Call) : List Call :=
  calls.filter fun c => c.nodeId == nodeId

end Limiter

/-! ## One node's view -/

variable {l : ClaimRateLimiter} {windows : Map String (Instant × Nat)} {nodeId : String}

theorem lookup_retain_open (now : Instant) (windows : Map String (Instant × Nat)) (a : String) :
    (retain (fun _ w => decide (now - w.1 < l.window)) windows).lookup a =
      (windows.lookup a).filter (isOpen l.window now) := by
  ext e
  rw [lookup_retain, Option.filter_eq_some_iff]
  rfl

/-- A node's own call is answered from the window it falls into. -/
theorem allowAt_own (now : Instant) :
    (l.allowAt now nodeId windows).1 =
      decide ((entryAt l.window now (windows.lookup nodeId)).2 < l.max) ∧
    (l.allowAt now nodeId windows).2.lookup nodeId =
      next l.window l.max (windows.lookup nodeId) now := by
  have hentry : ((retain (fun _ w => decide (now - w.1 < l.window)) windows).lookup nodeId).getD
      (now, 0) = entryAt l.window now (windows.lookup nodeId) := by
    rw [lookup_retain_open, entryAt]
  rw [allowAt, hentry, next, spend]
  by_cases hspent : (entryAt l.window now (windows.lookup nodeId)).2 < l.max
  · rw [if_neg (not_le.2 hspent), if_pos hspent, AList.lookup_insert]
    exact ⟨(decide_eq_true hspent).symm, rfl⟩
  · rw [if_pos (not_lt.1 hspent), if_neg hspent, AList.lookup_insert]
    exact ⟨(decide_eq_false hspent).symm, rfl⟩

/-- Another node's call drops the window if it is over. -/
theorem lookup_allowAt_other (now : Instant) {other : String} (hne : nodeId ≠ other) :
    (l.allowAt now other windows).2.lookup nodeId =
      (windows.lookup nodeId).filter (isOpen l.window now) := by
  rw [← lookup_retain_open, allowAt]
  split <;> exact AList.lookup_insert_ne hne

theorem callsOf_cons_own (c : Call) (rest : List Call) :
    callsOf c.nodeId (c :: rest) = c :: callsOf c.nodeId rest :=
  List.filter_cons_of_pos (by simp)

theorem callsOf_cons_other {c : Call} (h : c.nodeId ≠ nodeId) (rest : List Call) :
    callsOf nodeId (c :: rest) = callsOf nodeId rest :=
  List.filter_cons_of_neg (by simp [h])

theorem answersTo_cons_own (c : Call) (rest : List Call) :
    l.answersTo c.nodeId windows (c :: rest) =
      (c.now, (l.allowAt c.now c.nodeId windows).1) ::
        l.answersTo c.nodeId (l.allowAt c.now c.nodeId windows).2 rest := by
  rw [answersTo, answers, List.filter_cons_of_pos (by simp), List.map_cons, ← answersTo]

theorem answersTo_cons_other {c : Call} (h : c.nodeId ≠ nodeId) (rest : List Call) :
    l.answersTo nodeId windows (c :: rest) =
      l.answersTo nodeId (l.allowAt c.now c.nodeId windows).2 rest := by
  rw [answersTo, answers, List.filter_cons_of_neg (by simp [h]), ← answersTo]

/-- The caller's window and the limiter's entry for it are the same from some time on. -/
def Agrees (l : ClaimRateLimiter) (since : Instant) (entry s : Option Entry) : Prop :=
  ∀ now, since ≤ now → entry.filter (isOpen l.window now) = s.filter (isOpen l.window now)

/-- **ONE NODE'S ANSWERS** are those of a fixed window of its own. By induction on the
    calls; a call of another node may only drop a window that is over. -/
theorem answersTo_eq_trace {since : Instant} {s : Option Entry} {calls : List Call}
    (hsorted : calls.Pairwise fun a b => a.now ≤ b.now) (hsince : ∀ c ∈ calls, since ≤ c.now)
    (hagrees : Agrees l since (windows.lookup nodeId) s) :
    l.answersTo nodeId windows calls =
      trace l.window l.max s ((callsOf nodeId calls).map Call.now) := by
  induction calls generalizing since s windows with
  | nil => rfl
  | cons c rest ih =>
      obtain ⟨hlater, hsorted'⟩ := List.pairwise_cons.1 hsorted
      by_cases hown : c.nodeId = nodeId
      · subst hown
        obtain ⟨hanswer, hwindow⟩ : (l.allowAt c.now c.nodeId windows).1 = _ ∧
          (l.allowAt c.now c.nodeId windows).2.lookup c.nodeId = _ := allowAt_own c.now
        have hentry : entryAt l.window c.now (windows.lookup c.nodeId) = entryAt l.window c.now s := by
          rw [entryAt, entryAt, hagrees c.now (hsince c List.mem_cons_self)]
        have hagrees' : Agrees l c.now ((l.allowAt c.now c.nodeId windows).2.lookup c.nodeId)
            (next l.window l.max s c.now) := by
          rw [hwindow, next, next, hentry]
          exact fun _ _ => rfl
        have hrest := ih hsorted' hlater hagrees'
        rw [answersTo_cons_own, hrest, callsOf_cons_own, List.map_cons, trace, hanswer, hentry]
      · rw [answersTo_cons_other hown, callsOf_cons_other hown]
        refine ih hsorted' hlater fun now hnow => ?_
        rw [lookup_allowAt_other c.now (Ne.symm hown), filter_open_filter hnow]
        exact hagrees now (le_trans (hsince c List.mem_cons_self) hnow)

theorem callsOf_idem (nodeId : String) (calls : List Call) :
    callsOf nodeId (callsOf nodeId calls) = callsOf nodeId calls := by
  rw [callsOf, callsOf, List.filter_filter]
  simp

theorem pairwise_callsOf {calls : List Call} (hsorted : calls.Pairwise fun a b => a.now ≤ b.now) :
    (callsOf nodeId calls).Pairwise fun a b => a.now ≤ b.now := hsorted.filter _

/-- The answers to a node from a state of the limiter on. -/
theorem answersTo_eq {calls : List Call} (hsorted : calls.Pairwise fun a b => a.now ≤ b.now) :
    l.answersTo nodeId windows calls =
      trace l.window l.max (windows.lookup nodeId) ((callsOf nodeId calls).map Call.now) :=
  answersTo_eq_trace hsorted (fun _ _ => Nat.zero_le _) fun _ _ => rfl

/-- What stays in the map after a call is open: the entry of the node that called, and
    those that were not dropped. -/
theorem open_allowAt (hwindow : 0 < l.window) {now : Instant} {caller : String}
    {e : Instant × Nat} (h : (l.allowAt now caller windows).2.lookup nodeId = some e) :
    isOpen l.window now e = true := by
  by_cases hown : nodeId = caller
  · subst hown
    rw [(allowAt_own now).2, next] at h
    cases Option.some.inj h
    have hentry : isOpen l.window now (entryAt l.window now (windows.lookup nodeId)) = true := by
      rw [entryAt]
      cases hfilter : (windows.lookup nodeId).filter (isOpen l.window now) with
      | none =>
          show decide (now - now < l.window) = true
          rw [Nat.sub_self]
          exact decide_eq_true hwindow
      | some e => exact (Option.filter_eq_some_iff.1 hfilter).2
    rw [spend]
    split <;> exact hentry
  · rw [lookup_allowAt_other now hown] at h
    exact (Option.filter_eq_some_iff.1 h).2

theorem after_append_one (before : List Call) (c : Call) :
    l.after ∅ (before ++ [c]) = (l.allowAt c.now c.nodeId (l.after ∅ before)).2 := by
  rw [after, List.foldl_append]
  rfl

/-- **CLAIMS ARE LIMITED PER NODE**: a node is answered as if it called alone; from the call
    that opens its window, no more than the budget is allowed before the window is over;
    and where a window has any length, no more than two budgets are allowed in a stretch
    no longer than it, and every entry that is kept is of an open window. -/
theorem claims_limited (l : ClaimRateLimiter) (calls : List Call)
    (hsorted : calls.Pairwise fun a b => a.now ≤ b.now) :
    (∀ nodeId, l.answersTo nodeId ∅ calls = l.answersTo nodeId ∅ (callsOf nodeId calls)) ∧
    (∀ before c rest, calls = before ++ c :: rest →
      ((l.after ∅ before).lookup c.nodeId).filter (isOpen l.window c.now) = none →
      l.allowed c.nodeId (l.after ∅ before) (c :: rest) (fun t => decide (t < c.now + l.window)) ≤
        l.max) ∧
    (0 < l.window → ∀ nodeId first last, last ≤ first + l.window →
      l.allowed nodeId ∅ calls (fun t => decide (first ≤ t ∧ t ≤ last)) ≤ 2 * l.max) ∧
    (0 < l.window → ∀ before c rest, calls = before ++ c :: rest →
      ∀ nodeId e, (l.after ∅ (before ++ [c])).lookup nodeId = some e →
        isOpen l.window c.now e = true) := by
  refine ⟨?_, ?_, ?_, ?_⟩
  · intro nodeId
    rw [answersTo_eq hsorted, answersTo_eq (pairwise_callsOf hsorted), callsOf_idem]
  · rintro before c rest rfl hnone
    have hsorted' := (List.pairwise_append.1 hsorted).2.1
    have htimes : ((callsOf c.nodeId (c :: rest)).map Call.now).Pairwise (· ≤ ·) :=
      List.pairwise_map.2 (pairwise_callsOf hsorted')
    rw [allowed, answersTo_eq hsorted']
    rw [callsOf_cons_own, List.map_cons] at htimes ⊢
    exact passedBefore_of_opening htimes hnone
  · intro hwindow nodeId first last hlast
    rw [allowed, answersTo_eq hsorted]
    exact passedWithin_le hwindow hlast (List.pairwise_map.2 (pairwise_callsOf hsorted))
      (fun _ h => by cases h)
  · rintro hwindow before c rest rfl nodeId e h
    rw [after_append_one] at h
    exact open_allowAt hwindow h

/-- Three claims of two nodes at one instant, of which two may pass for each node. -/
theorem claims_limited_pair :
    (ClaimRateLimiter.mk 60 1).allowed "a" ∅ [⟨0, "a"⟩, ⟨0, "b"⟩, ⟨0, "a"⟩]
      (fun t => decide (0 ≤ t ∧ t ≤ 60)) ≤ 2 * 1 :=
  (claims_limited ⟨60, 1⟩ [⟨0, "a"⟩, ⟨0, "b"⟩, ⟨0, "a"⟩] (by decide)).2.2.1 (by decide) "a" 0 60
    (by decide)

/-- A window without length: three claims at one instant pass a budget of one, and the
    entry that is kept is of a window that is not open. -/
theorem claims_unlimited_without_length :
    [(⟨0, "a"⟩ : Call), ⟨0, "a"⟩, ⟨0, "a"⟩].Pairwise (fun a b => a.now ≤ b.now) ∧
    ¬ (ClaimRateLimiter.mk 0 1).allowed "a" ∅ [⟨0, "a"⟩, ⟨0, "a"⟩, ⟨0, "a"⟩]
      (fun t => decide (0 ≤ t ∧ t ≤ 0)) ≤ 2 * 1 ∧
    ((ClaimRateLimiter.mk 0 1).after ∅ [⟨0, "a"⟩]).lookup "a" = some (0, 1) ∧
    isOpen 0 0 (0, 1) = false := by
  decide

end ClaimRateLimiter

end SyncPairing

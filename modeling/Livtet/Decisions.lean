import Livtet.Daemon
import Livtet.Lib.Runs

/-! # An offer is decided once

    The pending check of a decision and its status write are separate steps, and the
    write does not ask again. While no second call for an offer gets past its check
    before the first is over, and no accepting call is cut off between applying the
    held rows and writing the status, a decision is final: the status never changes
    again, and the held rows are applied at most once and only for an acceptance. -/

namespace SyncDecisions

open SyncStore SyncEngine SyncOffers SyncDaemon Maps

variable {env : Env}

/-! ## The condition on a step -/

/-- No call for the offer is past its check and not yet over. -/
def Idle (s : State) (offerId : String) : Prop :=
  ∀ c call, s.calls.lookup c = some call → call.offerId ≠ offerId

/-- The call has applied its rows and not yet written its status. -/
def Exposed (call : Call) : Prop := call.phase = .holding true

def Guard (s : State) : Action → Prop
  | .check _ offerId _ => Idle s offerId
  | .failCall c => ∀ call, s.calls.lookup c = some call → ¬ Exposed call
  | .crash => ∀ c call, s.calls.lookup c = some call → ¬ Exposed call
  | _ => True

/-! ## What a step does to offers, calls and applied rows -/

def statusOf (s : State) (offerId : String) : Option OfferStatus :=
  (s.offers.lookup offerId).map fun row => row.status

/-- The parts the decisions are about. -/
structure SameCalls (s s' : State) : Prop where
  calls : s'.calls = s.calls
  applied : s'.applied = s.applied
  kept : ∀ o st, statusOf s o = some st → statusOf s' o = some st

theorem SameCalls.of_eq {s s' : State} (hcalls : s'.calls = s.calls) (happlied : s'.applied = s.applied)
    (hoffers : s'.offers = s.offers) : SameCalls s s' := by
  refine ⟨hcalls, happlied, fun o st h => ?_⟩
  rw [statusOf, hoffers]
  exact h

/-- Everything a step can do to calls, statuses and applied rows. -/
inductive Effect (s s' : State) : Prop
  /-- A pull, or an action that does not fit the state. -/
  | other (h : SameCalls s s')
  | check (c : Nat) (call : Call) (hnew : s.calls.lookup c = none)
      (hpending : statusOf s call.offerId = some .pending) (hphase : call.phase = .checked)
      (hidle : Idle s call.offerId) (hs : s' = s.setCall c call)
  | download (c : Nat) (call : Call) (paths : InventoryPaths) (hcall : s.calls.lookup c = some call)
      (haccepted : call.accepted = true) (hphase : call.phase = .checked)
      (hs : s' = s.setCall c { call with phase := .downloaded paths })
  | hold (c : Nat) (call : Call) (paths : InventoryPaths) (hcall : s.calls.lookup c = some call)
      (hphase : call.phase = .downloaded paths)
      (hcalls : s'.calls = s.calls.insert c { call with phase := .holding false })
      (happlied : s'.applied = s.applied) (hoffers : s'.offers = s.offers)
  | apply (c : Nat) (call : Call) (paths : InventoryPaths) (hcall : s.calls.lookup c = some call)
      (hphase : call.phase = .downloaded paths)
      (hcalls : s'.calls = s.calls.insert c { call with phase := .holding true })
      (happlied : s'.applied = s.applied ++ [call.offerId]) (hoffers : s'.offers = s.offers)
  | write (c : Nat) (call : Call) (now : String) (hcall : s.calls.lookup c = some call)
      (hready : (call.phase = .checked ∧ call.accepted = false) ∨
        ∃ applied, call.phase = .holding applied)
      (hcalls : s'.calls = s.calls.erase c) (happlied : s'.applied = s.applied)
      (hoffers : s'.offers = writeDecision now call.offerId call.accepted s.offers)
  | fail (gone : Nat → Prop)
      (hexposed : ∀ c call, gone c → s.calls.lookup c = some call → ¬ Exposed call)
      (hcalls : ∀ c call, s'.calls.lookup c = some call ↔ s.calls.lookup c = some call ∧ ¬ gone c)
      (happlied : s'.applied = s.applied) (hoffers : s'.offers = s.offers)

/-- One call is over without a status, and nothing else happened. -/
theorem effect_dropped {s s' : State} {c : Nat} (hcalls : s'.calls = s.calls.erase c)
    (happlied : s'.applied = s.applied) (hoffers : s'.offers = s.offers)
    (h : ∀ call, s.calls.lookup c = some call → ¬ Exposed call) : Effect s s' := by
  refine .fail (fun c' => c' = c) ?_ ?_ happlied hoffers
  · rintro c' call rfl hcall
    exact h call hcall
  · intro c' call
    rw [hcalls, lookup_erase]
    exact And.comm

theorem effect_applyHeld {s : State} {now : String} {c : Nat} {call : Call} {paths : InventoryPaths}
    (hcall : s.calls.lookup c = some call) (hphase : call.phase = .downloaded paths) :
    Effect s (applyHeld env now c call paths s) := by
  simp only [applyHeld]
  split
  · exact .hold c call paths hcall hphase rfl rfl rfl
  · split
    · -- the rows were refused: the call is over and nothing was applied
      refine effect_dropped rfl rfl rfl fun call' hcall' hexposed => ?_
      rw [hcall] at hcall'
      cases Option.some.inj hcall'
      rw [Exposed, hphase] at hexposed
      cases hexposed
    · exact .apply c call paths hcall hphase rfl rfl rfl

theorem sameCalls_recordOffer {s : State} {now : String} {p : Nat} {pull : Pull}
    {page : PullResponse} {offer : SyncChange × JsonText.Json}
    {rest : List (SyncChange × JsonText.Json)} {found : Option InboundOffer} :
    SameCalls s (recordOffer env now p pull page offer rest found s) := by
  simp only [recordOffer]
  split
  · exact .of_eq rfl rfl rfl
  · split
    · exact .of_eq rfl rfl rfl
    · refine ⟨rfl, rfl, fun o st h => ?_⟩
      obtain ⟨old, hold, rfl⟩ := Option.map_eq_some_iff.1 h
      obtain ⟨row, hrow, hstatus⟩ := status_upsertOffer hold
      exact Option.map_eq_some_iff.2 ⟨row, hrow, hstatus⟩

/-- Each step has one of the effects, when it meets the condition. -/
theorem effect_step {s : State} {a : Action} (hguard : Guard s a) : Effect s (step env s a) := by
  cases a with
  | startPull p peer =>
      simp only [step]
      split <;> exact .other (.of_eq rfl rfl rfl)
  | fetch p log =>
      simp only [step]
      split
      · simp only [SyncDaemon.fetch]
        split
        · split <;> exact .other (.of_eq rfl rfl rfl)
        · exact .other (.of_eq rfl rfl rfl)
      · exact .other (.of_eq rfl rfl rfl)
  | applyPage p now =>
      simp only [step]
      split
      · simp only [SyncDaemon.applyPage]
        split
        · exact .other (.of_eq rfl rfl rfl)
        · split <;> exact .other (.of_eq rfl rfl rfl)
      · exact .other (.of_eq rfl rfl rfl)
  | lookupOffer p =>
      simp only [step]
      split <;> exact .other (.of_eq rfl rfl rfl)
  | recordOffer p now =>
      simp only [step]
      split
      · exact .other sameCalls_recordOffer
      · exact .other (.of_eq rfl rfl rfl)
  | finishPage p =>
      simp only [step]
      split
      · simp only [SyncDaemon.finishPage]
        split <;> exact .other (.of_eq rfl rfl rfl)
      · exact .other (.of_eq rfl rfl rfl)
  | failPull p => exact .other (.of_eq rfl rfl rfl)
  | check c offerId accepted =>
      simp only [step, SyncDaemon.check]
      split
      · next row hrow hnew =>
          split
          · next hpending =>
              refine .check c ⟨offerId, row, accepted, .checked⟩ hnew ?_ rfl hguard rfl
              exact Option.map_eq_some_iff.2 ⟨row, hrow, hpending⟩
          · exact .other (.of_eq rfl rfl rfl)
      · exact .other (.of_eq rfl rfl rfl)
  | download c paths =>
      simp only [step]
      split
      · next offerId row hcall => exact .download c _ paths hcall rfl rfl rfl
      · exact .other (.of_eq rfl rfl rfl)
  | applyHeld c now =>
      simp only [step]
      split
      · next offerId row accepted paths hcall _ => exact effect_applyHeld hcall rfl
      · exact .other (.of_eq rfl rfl rfl)
  | write c now =>
      simp only [step]
      split
      · -- a rejection never takes the gate
        next offerId row hcall => exact .write c _ now hcall (Or.inl ⟨rfl, rfl⟩) rfl rfl rfl
      · next offerId row accepted applied hcall =>
          exact .write c _ now hcall (Or.inr ⟨applied, rfl⟩) rfl rfl rfl
      · exact .other (.of_eq rfl rfl rfl)
  | failCall c => exact effect_dropped rfl rfl rfl hguard
  | crash =>
      -- every call is gone at once
      refine .fail (fun _ => True) (fun c call _ => hguard c call) ?_ rfl rfl
      intro c call
      constructor
      · intro h
        cases h
      · rintro ⟨_, h⟩
        exact absurd trivial h

/-! ## The invariant -/

structure Inv (s : State) : Prop where
  alone : ∀ c c' call call', s.calls.lookup c = some call → s.calls.lookup c' = some call' →
    call.offerId = call'.offerId → c = c'
  pending : ∀ c call, s.calls.lookup c = some call → statusOf s call.offerId = some .pending
  accepting : ∀ c call, s.calls.lookup c = some call → call.phase ≠ .checked → call.accepted = true
  once : ∀ o, s.applied.count o ≤ 1
  applied : ∀ o ∈ s.applied, statusOf s o = some .accepted ∨
    ∃ c call, s.calls.lookup c = some call ∧ call.offerId = o ∧ Exposed call

/-- Only a status write changes a status, and it finds its row pending. -/
theorem decided_kept {s s' : State} (hs : Inv s) (h : Effect s s') {o : String} {st : OfferStatus}
    (hst : statusOf s o = some st) (hdecided : st ≠ .pending) : statusOf s' o = some st := by
  have hkeep : s'.offers = s.offers → statusOf s' o = some st := by
    intro hoffers
    rw [statusOf, hoffers]
    exact hst
  cases h with
  | other h => exact h.kept o st hst
  | check c call _ _ _ _ heq =>
      subst heq
      exact hst
  | download c call paths _ _ _ heq =>
      subst heq
      exact hst
  | hold c call paths _ _ _ _ hoffers => exact hkeep hoffers
  | apply c call paths _ _ _ _ hoffers => exact hkeep hoffers
  | write c call now hcall _ _ _ hoffers =>
      have hne : o ≠ call.offerId := by
        rintro rfl
        rw [hs.pending c call hcall] at hst
        exact hdecided (Option.some.inj hst).symm
      rw [statusOf, hoffers, lookup_writeDecision_ne hne]
      exact hst
  | fail gone _ _ _ hoffers => exact hkeep hoffers

/-- A call moves on to its next phase, its rows still unapplied. -/
theorem inv_setPhase {s s' : State} {c : Nat} {call : Call} {phase : CallPhase} (hs : Inv s)
    (hcall : s.calls.lookup c = some call) (hunexposed : ¬ Exposed call)
    (haccepting : phase ≠ .checked → call.accepted = true)
    (hcalls : s'.calls = s.calls.insert c { call with phase })
    (happlied : s'.applied = s.applied) (hoffers : s'.offers = s.offers) : Inv s' := by
  -- every call of the new state is an old one, up to its phase
  have hold : ∀ c' call', s'.calls.lookup c' = some call' →
      ∃ old, s.calls.lookup c' = some old ∧ old.offerId = call'.offerId ∧
        (call' = old ∨ call' = { call with phase }) := by
    intro c' call' h
    rw [hcalls] at h
    rcases lookup_insert.1 h with ⟨rfl, rfl⟩ | ⟨_, h⟩
    · exact ⟨call, hcall, rfl, Or.inr rfl⟩
    · exact ⟨call', h, rfl, Or.inl rfl⟩
  refine ⟨?_, ?_, ?_, ?_, ?_⟩
  · intro c1 c2 call1 call2 h1 h2 hoffer
    obtain ⟨old1, ho1, he1, _⟩ := hold c1 call1 h1
    obtain ⟨old2, ho2, he2, _⟩ := hold c2 call2 h2
    exact hs.alone c1 c2 old1 old2 ho1 ho2 (by rw [he1, he2, hoffer])
  · intro c' call' h
    obtain ⟨old, ho, he, _⟩ := hold c' call' h
    rw [statusOf, hoffers, ← he]
    exact hs.pending c' old ho
  · intro c' call' h hphase
    obtain ⟨old, ho, _, rfl | rfl⟩ := hold c' call' h
    · exact hs.accepting c' call' ho hphase
    · exact haccepting hphase
  · rw [happlied]
    exact hs.once
  · intro o ho
    rw [happlied] at ho
    rcases hs.applied o ho with hst | ⟨c', call', h', hoffer, hexposed⟩
    · left
      rw [statusOf, hoffers]
      exact hst
    · refine Or.inr ⟨c', call', ?_, hoffer, hexposed⟩
      rw [hcalls]
      refine lookup_insert.2 (Or.inr ⟨?_, h'⟩)
      rintro rfl
      rw [hcall] at h'
      cases Option.some.inj h'
      exact hunexposed hexposed

theorem not_exposed_of_phase {call : Call} {phase : CallPhase} (h : call.phase = phase)
    (hne : phase ≠ .holding true) : ¬ Exposed call := by
  intro hexposed
  rw [Exposed, h] at hexposed
  exact hne hexposed

/-- The rows of a downloaded call have not been applied before. -/
theorem not_mem_applied {s : State} {c : Nat} {call : Call} {paths : InventoryPaths} (hs : Inv s)
    (hcall : s.calls.lookup c = some call) (hphase : call.phase = .downloaded paths) :
    call.offerId ∉ s.applied := by
  intro hmem
  rcases hs.applied _ hmem with hst | ⟨c', call', h', hoffer, hexposed⟩
  · rw [hs.pending c call hcall] at hst
    cases hst
  · cases hs.alone c c' call call' hcall h' hoffer.symm
    rw [hcall] at h'
    cases Option.some.inj h'
    exact not_exposed_of_phase hphase (fun h => by cases h) hexposed

theorem inv_check {s : State} {c : Nat} {call : Call} (hs : Inv s) (hnew : s.calls.lookup c = none)
    (hpending : statusOf s call.offerId = some .pending) (hphase : call.phase = .checked)
    (hidle : Idle s call.offerId) : Inv (s.setCall c call) := by
  have hcases : ∀ c' call', (s.setCall c call).calls.lookup c' = some call' →
      (c' = c ∧ call' = call) ∨ (c' ≠ c ∧ s.calls.lookup c' = some call') :=
    fun c' call' h => lookup_insert.1 h
  refine ⟨?_, ?_, ?_, hs.once, ?_⟩
  · intro c1 c2 call1 call2 h1 h2 hoffer
    rcases hcases c1 call1 h1 with ⟨rfl, rfl⟩ | ⟨_, ho1⟩
    · rcases hcases c2 call2 h2 with ⟨rfl, _⟩ | ⟨_, ho2⟩
      · rfl
      · exact absurd hoffer.symm (hidle c2 call2 ho2)
    · rcases hcases c2 call2 h2 with ⟨rfl, rfl⟩ | ⟨_, ho2⟩
      · exact absurd hoffer (hidle c1 call1 ho1)
      · exact hs.alone c1 c2 call1 call2 ho1 ho2 hoffer
  · intro c' call' h
    rcases hcases c' call' h with ⟨_, rfl⟩ | ⟨_, ho⟩
    · exact hpending
    · exact hs.pending c' call' ho
  · intro c' call' h hne
    rcases hcases c' call' h with ⟨_, rfl⟩ | ⟨_, ho⟩
    · exact absurd hphase hne
    · exact hs.accepting c' call' ho hne
  · intro o ho
    rcases hs.applied o ho with hst | ⟨c', call', h', hoffer, hexposed⟩
    · exact Or.inl hst
    · refine Or.inr ⟨c', call', lookup_insert.2 (Or.inr ⟨?_, h'⟩), hoffer, hexposed⟩
      rintro rfl
      rw [hnew] at h'
      cases h'

theorem inv_apply {s s' : State} {c : Nat} {call : Call} {paths : InventoryPaths} (hs : Inv s)
    (hcall : s.calls.lookup c = some call) (hphase : call.phase = .downloaded paths)
    (hcalls : s'.calls = s.calls.insert c { call with phase := .holding true })
    (happlied : s'.applied = s.applied ++ [call.offerId]) (hoffers : s'.offers = s.offers) :
    Inv s' := by
  have haccepted : call.accepted = true :=
    hs.accepting c call hcall (by rw [hphase]; exact fun h => by cases h)
  -- apart from the applied rows this is a change of phase
  have hmoved : Inv { s' with applied := s.applied } :=
    inv_setPhase hs hcall (not_exposed_of_phase hphase fun h => by cases h) (fun _ => haccepted)
      hcalls rfl hoffers
  refine ⟨hmoved.alone, hmoved.pending, hmoved.accepting, ?_, ?_⟩
  · intro o
    rw [happlied, List.count_append, List.count_singleton]
    have hold := hs.once o
    by_cases ho : call.offerId = o
    · subst ho
      rw [List.count_eq_zero_of_not_mem (not_mem_applied hs hcall hphase)]
      simp
    · rw [if_neg (by simpa using ho)]
      omega
  · intro o ho
    rw [happlied] at ho
    rcases List.mem_append.1 ho with ho | ho
    · exact hmoved.applied o ho
    · cases List.mem_singleton.1 ho
      refine Or.inr ⟨c, { call with phase := .holding true }, ?_, rfl, rfl⟩
      rw [hcalls]
      exact AList.lookup_insert _

theorem inv_write {s s' : State} {c : Nat} {call : Call} {now : String} (hs : Inv s)
    (hcall : s.calls.lookup c = some call)
    (hready : (call.phase = .checked ∧ call.accepted = false) ∨
      ∃ applied, call.phase = .holding applied)
    (hcalls : s'.calls = s.calls.erase c) (happlied : s'.applied = s.applied)
    (hoffers : s'.offers = writeDecision now call.offerId call.accepted s.offers) : Inv s' := by
  -- one call at a time decides an offer, so a write touches no other call's offer
  have hkept : ∀ o, o ≠ call.offerId → statusOf s' o = statusOf s o := by
    intro o hne
    rw [statusOf, statusOf, hoffers, lookup_writeDecision_ne hne]
  have hold : ∀ c' call', s'.calls.lookup c' = some call' →
      c' ≠ c ∧ s.calls.lookup c' = some call' := by
    intro c' call' h
    rw [hcalls] at h
    exact lookup_erase.1 h
  refine ⟨?_, ?_, ?_, ?_, ?_⟩
  · intro c1 c2 call1 call2 h1 h2 hoffer
    exact hs.alone c1 c2 call1 call2 (hold c1 call1 h1).2 (hold c2 call2 h2).2 hoffer
  · intro c' call' h
    obtain ⟨hne, ho⟩ := hold c' call' h
    have hother : call'.offerId ≠ call.offerId := by
      intro hoffer
      exact hne (hs.alone c' c call' call ho hcall hoffer)
    rw [hkept _ hother]
    exact hs.pending c' call' ho
  · intro c' call' h
    exact hs.accepting c' call' (hold c' call' h).2
  · rw [happlied]
    exact hs.once
  · intro o ho
    rw [happlied] at ho
    by_cases hoffer : o = call.offerId
    · -- the rows of this offer were applied, so the call that writes accepts it
      subst hoffer
      left
      have haccepted : call.accepted = true := by
        rcases hready with ⟨hphase, _⟩ | ⟨applied, hphase⟩
        · rcases hs.applied _ ho with hst | ⟨c', call', h', hoffer', hexposed⟩
          · rw [hs.pending c call hcall] at hst
            cases hst
          · cases hs.alone c c' call call' hcall h' hoffer'.symm
            rw [hcall] at h'
            cases Option.some.inj h'
            exact absurd hexposed (not_exposed_of_phase hphase fun h => by cases h)
        · exact hs.accepting c call hcall (by rw [hphase]; exact fun h => by cases h)
      obtain ⟨row, hrow, _⟩ := Option.map_eq_some_iff.1 (hs.pending c call hcall)
      obtain ⟨row', hrow', hstatus⟩ := lookup_writeDecision hrow
      rw [haccepted] at hoffers
      rw [statusOf, hoffers]
      exact Option.map_eq_some_iff.2 ⟨row', hrow', hstatus⟩
    · rcases hs.applied o ho with hst | ⟨c', call', h', hoffer', hexposed⟩
      · left
        rw [hkept o hoffer]
        exact hst
      · refine Or.inr ⟨c', call', ?_, hoffer', hexposed⟩
        rw [hcalls]
        refine lookup_erase.2 ⟨?_, h'⟩
        rintro rfl
        rw [hcall] at h'
        cases Option.some.inj h'
        exact hoffer hoffer'.symm

theorem inv_step {s : State} {a : Action} (hs : Inv s) (hguard : Guard s a) :
    Inv (step env s a) := by
  cases (effect_step hguard : Effect s (step env s a)) with
  | other h =>
      refine ⟨?_, ?_, ?_, ?_, ?_⟩
      · rw [h.calls]
        exact hs.alone
      · intro c call hcall
        rw [h.calls] at hcall
        exact h.kept _ _ (hs.pending c call hcall)
      · rw [h.calls]
        exact hs.accepting
      · rw [h.applied]
        exact hs.once
      · intro o ho
        rw [h.applied] at ho
        rw [h.calls]
        rcases hs.applied o ho with hst | hcall
        · exact Or.inl (h.kept o _ hst)
        · exact Or.inr hcall
  | check c call hnew hpending hphase hidle heq =>
      rw [heq]
      exact inv_check hs hnew hpending hphase hidle
  | download c call paths hcall haccepted hphase heq =>
      rw [heq]
      exact inv_setPhase hs hcall (not_exposed_of_phase hphase fun h => by cases h)
        (fun _ => haccepted) rfl rfl rfl
  | hold c call paths hcall hphase hcalls happlied hoffers =>
      exact inv_setPhase hs hcall (not_exposed_of_phase hphase fun h => by cases h)
        (fun _ => hs.accepting c call hcall (by rw [hphase]; exact fun h => by cases h))
        hcalls happlied hoffers
  | apply c call paths hcall hphase hcalls happlied hoffers =>
      exact inv_apply hs hcall hphase hcalls happlied hoffers
  | write c call now hcall hready hcalls happlied hoffers =>
      exact inv_write hs hcall hready hcalls happlied hoffers
  | fail gone hexposed hcalls happlied hoffers =>
      -- no call that goes has applied rows of an offer that is left undecided
      have hstatus : ∀ o, statusOf (step env s a) o = statusOf s o := by
        intro o
        rw [statusOf, statusOf, hoffers]
      refine ⟨?_, ?_, ?_, ?_, ?_⟩
      · intro c1 c2 call1 call2 h1 h2
        exact hs.alone c1 c2 call1 call2 ((hcalls c1 call1).1 h1).1 ((hcalls c2 call2).1 h2).1
      · intro c call hcall
        rw [hstatus]
        exact hs.pending c call ((hcalls c call).1 hcall).1
      · intro c call hcall
        exact hs.accepting c call ((hcalls c call).1 hcall).1
      · rw [happlied]
        exact hs.once
      · intro o ho
        rw [happlied] at ho
        rw [hstatus]
        rcases hs.applied o ho with hst | ⟨c, call, hcall, hoffer, hcut⟩
        · exact Or.inl hst
        · refine Or.inr ⟨c, call, (hcalls c call).2 ⟨hcall, fun hgone => ?_⟩, hoffer, hcut⟩
          exact hexposed c call hgone hcall hcut

/-! ## Every run -/

/-- What a run owes every offer. -/
structure DecidedOnce (env : Env) (start : State) (run : List Action) : Prop where
  /-- A status that is not `pending` any more stays. -/
  final : ∀ before after o st, run = before ++ after →
    statusOf (Runs.exec (step env) start before) o = some st → st ≠ .pending →
    statusOf (Runs.exec (step env) start run) o = some st
  /-- The held rows are applied at most once. -/
  once : ∀ o, (Runs.exec (step env) start run).applied.count o ≤ 1
  /-- They are applied for an accepted offer, or the call that applied them is about
      to write that it accepts. -/
  accepted : ∀ o ∈ (Runs.exec (step env) start run).applied,
    statusOf (Runs.exec (step env) start run) o = some .accepted ∨
    ∃ c call, (Runs.exec (step env) start run).calls.lookup c = some call ∧ call.offerId = o ∧
      call.accepted = true ∧ Exposed call

/-- A daemon that has just started: no call is running, whatever the tables hold. -/
def Started (s : State) : Prop := s.calls = ∅ ∧ s.applied = []

theorem inv_of_started {s : State} (h : Started s) : Inv s := by
  obtain ⟨hcalls, happlied⟩ := h
  refine ⟨?_, ?_, ?_, ?_, ?_⟩
  · intro c c' call call' hcall
    rw [hcalls] at hcall
    cases hcall
  · intro c call hcall
    rw [hcalls] at hcall
    cases hcall
  · intro c call hcall
    rw [hcalls] at hcall
    cases hcall
  · intro o
    rw [happlied]
    exact Nat.zero_le 1
  · intro o ho
    rw [happlied] at ho
    cases ho

/-- A decided status outlives every admitted run. -/
theorem decided_kept_run {o : String} {st : OfferStatus} (hdecided : st ≠ .pending) :
    ∀ (run : List Action) (s : State), Inv s → Runs.Admitted (step env) Guard s run →
      statusOf s o = some st → statusOf (Runs.exec (step env) s run) o = some st := by
  intro run
  induction run with
  | nil =>
      intro s _ _ h
      exact h
  | cons a rest ih =>
      intro s hs hrun h
      exact ih _ (inv_step hs hrun.1) hrun.2 (decided_kept hs (effect_step hrun.1) h hdecided)

/-- **AN OFFER IS DECIDED ONCE** in every run in which no call for it passes its check
    while another one is running, and no call is cut off between applying the held
    rows and writing its status. -/
theorem decidedOnce_of_admitted (env : Env) (start : State) (run : List Action)
    (hstart : Started start) (hrun : Runs.Admitted (step env) Guard start run) :
    DecidedOnce env start run := by
  have hinv : Inv (Runs.exec (step env) start run) :=
    Runs.invariant (fun _ _ hs hg => inv_step hs hg) run (inv_of_started hstart) hrun
  refine ⟨?_, hinv.once, ?_⟩
  · rintro before after o st rfl hst hdecided
    rw [Runs.exec_append]
    refine decided_kept_run hdecided after _ ?_ (Runs.Admitted.drop before after hrun) hst
    exact Runs.invariant (fun _ _ hs hg => inv_step hs hg) before (inv_of_started hstart)
      (Runs.Admitted.of_append before after hrun)
  · intro o ho
    rcases hinv.applied o ho with hst | ⟨c, call, hcall, hoffer, hexposed⟩
    · exact Or.inl hst
    · refine Or.inr ⟨c, call, hcall, hoffer, hinv.accepting c call hcall ?_, hexposed⟩
      rw [hexposed]
      exact fun h => by cases h

/-! ## One call, and two at once -/

/-- A pending offer that holds one row. -/
def pendingOffer : InboundOffer where
  fromDeviceId := "phone"
  inventoryId := "00000000000000000000000000000001"
  editionId := "00000000000000000000000000000002"
  workId := "00000000000000000000000000000003"
  title := "Dune"
  authors := "[]"
  fileName := none
  hasCover := false
  offeredAt := "2026-01-01 00:00:00"
  receivedAt := "2026-01-01 00:00:01"
  status := .pending
  decidedAt := none
  deferredChanges :=
    [{ id := 4, entityType := "work", entityId := "00000000000000000000000000000003"
       operation := "DELETE", version := 4, payload := "null", changedAt := "2026-01-01 00:00:00"
       deviceId := "phone" }]

def startState : State where
  deviceId := "laptop"
  db := Db.empty false
  offers := (∅ : InboundOffers).insert "offer" pendingOffer
  cursors := ∅
  writeGate := none
  pulls := ∅
  calls := ∅
  recorded := []
  leaked := []
  applied := []

/-- An accepting call from its download to its status. -/
def accept (c : Nat) : List Action :=
  [.download c {}, .applyHeld c "2026-01-01 00:00:02", .write c "2026-01-01 00:00:02"]

/-- A call that accepts alone. -/
theorem decidedOnce_accept :
    Started startState ∧
    DecidedOnce Env.reference startState (.check 0 "offer" true :: accept 0) := by
  refine ⟨⟨rfl, rfl⟩, decidedOnce_of_admitted Env.reference startState _ ⟨rfl, rfl⟩ ?_⟩
  refine ⟨?_, trivial, trivial, trivial, trivial⟩
  intro c call hcall
  cases hcall

/-- A rejection is overwritten by an acceptance that was checked before it. -/
theorem not_decidedOnce_overlap :
    ¬ DecidedOnce Env.reference startState
      ([.check 0 "offer" true, .check 1 "offer" false, .write 1 "2026-01-01 00:00:01"] ++
        accept 0) := by
  intro h
  have hrejected := h.final
    [.check 0 "offer" true, .check 1 "offer" false, .write 1 "2026-01-01 00:00:01"] (accept 0)
    "offer" .rejected rfl (by decide) (by decide)
  revert hrejected
  decide

end SyncDecisions

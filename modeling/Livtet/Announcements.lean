import Mathlib.Data.List.Perm.Basic
import Livtet.Lifecycle

/-! # Announcements — the record of the endpoint

    A rebind and a rename withdraw the record in the slot, announce another and store it
    there, each as a step of its own. What is in the slot when a record is stored is not
    withdrawn. So where two of them overlap, a record may be announced that nothing
    withdraws any more; where they do not, every record is in the slot or about to be. -/

namespace SyncLifecycle

open Runs

/-! ## Who announces -/

/-- Where a rename is between withdrawing a record and storing another. -/
def RenamePhase.announces : RenamePhase → Bool
  | .stopping => false
  | .announcing | .posting _ => true

def Current.announces (c : Current) : Bool := c.job == .rebind && c.phase != .stopping

/-- The rebinds and renames that have withdrawn a record and not yet stored another. -/
def State.announcers (s : State) : Nat :=
  (s.current.toList.countP Current.announces) + s.renames.countP RenamePhase.announces

/-- A record is withdrawn for another only while nobody else announces. -/
def Alone (s : State) : Action → Prop
  | .advance _ => s.current = some ⟨.rebind, .stopping⟩ → s.announcers = 0
  | .rename i _ => s.renames[i]? = some .stopping → s.announcers = 0
  | _ => True

/-- A record that is announced is the one in the slot, or is about to be. -/
def NoneLeft (s : State) : Prop :=
  ∀ r ∈ s.records, s.advertiser = some r ∨ (∃ job, s.current = some ⟨job, .posting r⟩) ∨
    .posting r ∈ s.renames

/-! ## One step -/

section Records

variable {s s' : State}

theorem set_perm {i : Nat} {p : RenamePhase} {l : List RenamePhase} (h : l[i]? = some p)
    (q : RenamePhase) : (l.set i q).Perm (q :: l.eraseIdx i) ∧ l.Perm (p :: l.eraseIdx i) := by
  obtain ⟨hi, rfl⟩ := List.getElem?_eq_some_iff.1 h
  exact ⟨List.set_perm_cons_eraseIdx hi q, (List.getElem_cons_eraseIdx_perm hi).symm⟩

/-- One at most announces, and nothing is in the slot meanwhile. -/
structure Orderly (s : State) : Prop where
  one : s.announcers ≤ 1
  empty : s.announcers = 1 → s.advertiser = none
  noneLeft : NoneLeft s
  /-- A shutdown announces nothing. -/
  brief : ∀ phase, s.current = some ⟨.shutdown, phase⟩ → phase = .stopping ∨ phase = .closing

theorem orderly_start (bound announced : Bool) : Orderly (start bound announced) := by
  refine ⟨Nat.zero_le 1, nofun, fun r hr => ?_, nofun⟩
  cases announced with
  | true => exact Or.inl (congrArg some (List.mem_singleton.1 hr).symm)
  | false => cases hr

def SameRecords (s s' : State) : Prop :=
  s'.current = s.current ∧ s'.renames = s.renames ∧ s'.advertiser = s.advertiser ∧
    s'.records = s.records

theorem sameRecords_shutdownDiscovery (s : State) : SameRecords s s.shutdownDiscovery := by
  rw [State.shutdownDiscovery]
  cases s.slot <;> exact ⟨rfl, rfl, rfl, rfl⟩

theorem sameRecords_store (s : State) (e : Nat) : SameRecords s (s.store e) := by
  rw [State.store]
  cases s.slot with
  | none => exact ⟨rfl, rfl, rfl, rfl⟩
  | some old =>
      have hdrop : SameRecords s (s.drop old) := by
        rw [State.drop]
        split <;> exact ⟨rfl, rfl, rfl, rfl⟩
      exact hdrop

theorem sameRecords_spawnServer (s : State) (e : Nat) : SameRecords s (s.spawnServer e) := by
  rw [State.spawnServer]
  split <;> exact ⟨rfl, rfl, rfl, rfl⟩

theorem sameRecords_discoveryIdentity (s : State) (ok : Bool) :
    SameRecords s (s.discoveryIdentity ok) := by
  rw [State.discoveryIdentity]
  cases s.slot with
  | some e => exact ⟨rfl, rfl, rfl, rfl⟩
  | none => cases ok <;> exact ⟨rfl, rfl, rfl, rfl⟩

/-- The records are as they were, and so is everything that announces. -/
theorem Orderly.same (h : Orderly s) (hsame : SameRecords s s') : Orderly s' := by
  obtain ⟨hcurrent, hrenames, hadvertiser, hrecords⟩ := hsame
  obtain ⟨one, empty, noneLeft, brief⟩ := h
  rw [State.announcers, ← hcurrent, ← hrenames] at one empty
  rw [← hadvertiser] at empty
  rw [NoneLeft, ← hrecords, ← hadvertiser, ← hcurrent, ← hrenames] at noneLeft
  rw [← hcurrent] at brief
  exact ⟨one, empty, noneLeft, brief⟩

theorem stopAdvertiser_records (s : State) : s.stopAdvertiser.advertiser = none ∧
    s.stopAdvertiser.current = s.current ∧ s.stopAdvertiser.renames = s.renames ∧
    ∀ r, r ∈ s.stopAdvertiser.records → r ∈ s.records ∧ s.advertiser ≠ some r := by
  rw [State.stopAdvertiser]
  cases hadvertiser : s.advertiser with
  | none => exact ⟨hadvertiser, rfl, rfl, fun r hr => ⟨hr, fun h => by cases h⟩⟩
  | some old =>
      refine ⟨rfl, rfl, rfl, fun r hr => ?_⟩
      obtain ⟨hr, hne⟩ := List.mem_filter.1 hr
      exact ⟨hr, fun hsame => of_decide_eq_true hne (Option.some.inj hsame).symm⟩

/-- A record that is still announced when the slot was emptied is about to be stored. -/
theorem NoneLeft.stopAdvertiser (h : NoneLeft s) : ∀ r ∈ s.stopAdvertiser.records,
    (∃ job, s.current = some ⟨job, .posting r⟩) ∨ .posting r ∈ s.renames := by
  intro r hr
  obtain ⟨hr, hne⟩ := (stopAdvertiser_records s).2.2.2 r hr
  exact (h r hr).resolve_left hne

theorem Orderly.stopAdvertiser (h : Orderly s) : Orderly s.stopAdvertiser := by
  obtain ⟨hnone, hcurrent, hrenames, _⟩ := stopAdvertiser_records s
  refine ⟨?_, fun _ => hnone, fun r hr => ?_, ?_⟩
  · rw [State.announcers, hcurrent, hrenames]
    exact h.one
  · rw [hcurrent, hrenames]
    exact Or.inr (h.noneLeft.stopAdvertiser r hr)
  · rw [hcurrent]
    exact h.brief

/-- The holder of the lock goes on, and announces as before. -/
theorem Orderly.go (h : Orderly s) {job : Job} {phase phase' : Phase}
    (hcurrent : s.current = some ⟨job, phase⟩)
    (hsame : (Current.mk job phase').announces = (Current.mk job phase).announces)
    (hposting : ∀ r, phase ≠ .posting r) (hbrief : job = .shutdown → phase' = .closing) :
    Orderly (s.go job phase') := by
  have hannouncers : (s.go job phase').announcers = s.announcers := by
    rw [State.announcers, State.announcers, hcurrent]
    show [Current.mk job phase'].countP _ + _ = [Current.mk job phase].countP _ + _
    rw [List.countP_singleton, List.countP_singleton, hsame]
    rfl
  refine ⟨hannouncers ▸ h.one, fun hone => h.empty (hannouncers ▸ hone), fun r hr => ?_,
    fun phase'' hc => ?_⟩
  · rcases h.noneLeft r hr with hslot | ⟨job', hc⟩ | hrename
    · exact Or.inl hslot
    · cases hcurrent.symm.trans hc
      exact absurd rfl (hposting r)
    · exact Or.inr (Or.inr hrename)
  · cases hc
    exact Or.inr (hbrief rfl)

/-- The holder of the lock lets go of it, and stores no record. -/
theorem Orderly.leave (h : Orderly s) (hposting : ∀ job r, s.current ≠ some ⟨job, .posting r⟩) :
    Orderly s.leave := by
  have hannouncers : s.leave.announcers = s.renames.countP RenamePhase.announces := Nat.zero_add _
  have hle : s.leave.announcers ≤ s.announcers := by
    rw [hannouncers]
    exact Nat.le_add_left _ _
  refine ⟨Nat.le_trans hle h.one, fun hone => h.empty (Nat.le_antisymm h.one (hone ▸ hle)),
    fun r hr => ?_, fun phase hc => by cases hc⟩
  rcases h.noneLeft r hr with hslot | ⟨job, hc⟩ | hrename
  · exact Or.inl hslot
  · exact absurd hc (hposting job r)
  · exact Or.inr (Or.inr hrename)

theorem Orderly.advance (h : Orderly s) {job : Job} {phase : Phase} {ok : Bool}
    (hcurrent : s.current = some ⟨job, phase⟩) (halone : Alone s (.advance ok)) :
    Orderly (s.advance job ok phase) := by
  have hposting : (∀ r, phase ≠ .posting r) → ∀ job r, s.current ≠ some ⟨job, .posting r⟩ := by
    intro hne job r hc
    cases hcurrent.symm.trans hc
    exact hne r rfl
  -- past its first two phases, the job is a rebind
  have hrebind : phase ≠ .stopping → phase ≠ .closing → job = .rebind := by
    intro hstopping hclosing
    cases job with
    | rebind => rfl
    | shutdown => exact ((h.brief phase hcurrent).elim hstopping hclosing).elim
  have hannouncing : job = .rebind → phase ≠ .stopping →
      s.renames.countP RenamePhase.announces = 0 ∧ s.advertiser = none := by
    rintro rfl hne
    have hself : (Current.mk .rebind phase).announces = true := by
      rw [Current.announces]
      simpa using hne
    have hone : s.announcers = 1 + s.renames.countP RenamePhase.announces := by
      rw [State.announcers, hcurrent]
      show [Current.mk .rebind phase].countP _ + _ = _
      rw [List.countP_singleton, if_pos hself]
    have hle := h.one
    exact ⟨by omega, h.empty (by omega)⟩
  cases phase with
  | stopping =>
      obtain ⟨hnone, hsame, hrenames, _⟩ := stopAdvertiser_records s
      cases job with
      | shutdown => exact h.stopAdvertiser.go (hsame.trans hcurrent) rfl nofun fun _ => rfl
      | rebind =>
          have hquiet : s.renames.countP RenamePhase.announces = 0 :=
            Nat.eq_zero_of_add_eq_zero_left (halone hcurrent)
          refine ⟨?_, fun _ => hnone, fun r hr => ?_, nofun⟩
          · show 1 + s.stopAdvertiser.renames.countP _ ≤ 1
            exact Nat.le_of_eq (by rw [hrenames, hquiet])
          · rcases h.noneLeft.stopAdvertiser r hr with ⟨job, hc⟩ | hrename
            · cases hcurrent.symm.trans hc
            · refine Or.inr (Or.inr ?_)
              rw [← hrenames] at hrename
              exact hrename
  | closing =>
      have hsame := sameRecords_shutdownDiscovery s
      have hshut := h.same hsame
      cases job with
      | shutdown =>
          refine hshut.leave ?_
          rw [hsame.1]
          exact hposting nofun
      | rebind => exact hshut.go (hsame.1.trans hcurrent) rfl nofun nofun
  | binding =>
      cases hrebind nofun nofun
      cases ok with
      | true =>
          have hbound : Orderly { s with bound := s.nextId :: s.bound, nextId := s.nextId + 1 } :=
            h.same ⟨rfl, rfl, rfl, rfl⟩
          exact hbound.go hcurrent rfl nofun nofun
      | false => exact h.leave (hposting nofun)
  | storing e =>
      cases hrebind nofun nofun
      have hsame := sameRecords_store s e
      exact (h.same hsame).go (hsame.1.trans hcurrent) rfl nofun nofun
  | spawning e =>
      cases hrebind nofun nofun
      have hsame := sameRecords_spawnServer s e
      exact (h.same hsame).go (hsame.1.trans hcurrent) rfl nofun nofun
  | announcing =>
      cases hrebind nofun nofun
      obtain ⟨hrenames, hnone⟩ := hannouncing rfl nofun
      cases ok with
      | true =>
          refine ⟨?_, fun _ => hnone, fun r hr => ?_, nofun⟩
          · show 1 + s.renames.countP _ ≤ 1
            exact Nat.le_of_eq (by rw [hrenames])
          · rcases List.mem_cons.1 hr with rfl | hr
            · exact Or.inr (Or.inl ⟨.rebind, rfl⟩)
            · rcases h.noneLeft r hr with hslot | ⟨job, hc⟩ | hrename
              · cases hnone.symm.trans hslot
              · cases hcurrent.symm.trans hc
              · exact Or.inr (Or.inr hrename)
      | false => exact h.leave (hposting nofun)
  | posting r =>
      cases hrebind nofun nofun
      obtain ⟨hrenames, hnone⟩ := hannouncing rfl nofun
      refine ⟨?_, fun hone => ?_, fun r' hr => ?_, nofun⟩
      · show 0 + s.renames.countP _ ≤ 1
        rw [hrenames]
        exact Nat.zero_le 1
      · have hzero : 0 + s.renames.countP RenamePhase.announces = 1 := hone
        rw [hrenames] at hzero
        cases hzero
      · rcases h.noneLeft r' hr with hslot | ⟨job, hc⟩ | hrename
        · cases hnone.symm.trans hslot
        · cases hcurrent.symm.trans hc
          exact Or.inl rfl
        · exact Or.inr (Or.inr hrename)

theorem Orderly.rename (h : Orderly s) {i : Nat} {ok : Bool} {phase : RenamePhase}
    (hi : s.renames[i]? = some phase) (halone : Alone s (.rename i ok)) :
    Orderly (s.rename i ok phase) := by
  have hperm := (set_perm hi phase).2
  have hcount := hperm.countP_eq RenamePhase.announces
  rw [List.countP_cons] at hcount
  have hmem : ∀ r, .posting r ∈ s.renames → phase = .posting r ∨ .posting r ∈ s.renames.eraseIdx i :=
    fun r hr => (List.mem_cons.1 (hperm.mem_iff.1 hr)).imp Eq.symm id
  -- a rename that announces is the only one to do so
  have hannouncing : phase.announces = true → s.current.toList.countP Current.announces = 0 ∧
      (s.renames.eraseIdx i).countP RenamePhase.announces = 0 ∧ s.advertiser = none := by
    intro hself
    rw [if_pos hself] at hcount
    have hsum : s.announcers = s.current.toList.countP Current.announces +
      s.renames.countP RenamePhase.announces := rfl
    have hle := h.one
    exact ⟨by omega, by omega, h.empty (by omega)⟩
  cases phase with
  | stopping =>
      obtain ⟨hnone, hsame, _, _⟩ := stopAdvertiser_records s
      have hquiet : s.current.toList.countP Current.announces + s.renames.countP _ = 0 := halone hi
      have hset := (set_perm hi .announcing).1
      refine ⟨?_, fun _ => hnone, fun r hr => ?_, ?_⟩
      · show s.stopAdvertiser.current.toList.countP _ + (s.renames.set i .announcing).countP _ ≤ 1
        rw [hsame, hset.countP_eq, List.countP_cons]
        have hself : RenamePhase.announces .announcing = true := rfl
        rw [if_pos hself]
        omega
      · rcases h.noneLeft.stopAdvertiser r hr with ⟨job, hc⟩ | hrename
        · exact Or.inr (Or.inl ⟨job, hsame.trans hc⟩)
        · refine Or.inr (Or.inr (hset.mem_iff.2 (List.mem_cons_of_mem _ ?_)))
          exact (hmem r hrename).resolve_left nofun
      · intro phase' hc
        exact h.brief phase' (hsame.symm.trans hc)
  | announcing =>
      obtain ⟨hcurrent, hothers, hnone⟩ := hannouncing rfl
      cases ok with
      | true =>
          have hset := (set_perm hi (.posting s.nextId)).1
          refine ⟨?_, fun _ => hnone, fun r hr => ?_, h.brief⟩
          · show s.current.toList.countP _ + (s.renames.set i (.posting s.nextId)).countP _ ≤ 1
            rw [hcurrent, hset.countP_eq, List.countP_cons, hothers]
            exact Nat.le_refl 1
          · refine Or.inr ((List.mem_cons.1 hr).elim (fun hnew => Or.inr ?_) fun hr => ?_)
            · rw [hnew]
              exact hset.mem_iff.2 List.mem_cons_self
            · rcases h.noneLeft r hr with hslot | hc | hrename
              · cases hnone.symm.trans hslot
              · exact Or.inl hc
              · refine Or.inr (hset.mem_iff.2 (List.mem_cons_of_mem _ ?_))
                exact (hmem r hrename).resolve_left nofun
      | false =>
          refine ⟨?_, fun _ => hnone, fun r hr => ?_, h.brief⟩
          · show s.current.toList.countP _ + (s.renames.eraseIdx i).countP _ ≤ 1
            rw [hcurrent, hothers]
            exact Nat.zero_le 1
          · rcases h.noneLeft r hr with hslot | hc | hrename
            · cases hnone.symm.trans hslot
            · exact Or.inr (Or.inl hc)
            · exact Or.inr (Or.inr ((hmem r hrename).resolve_left nofun))
  | posting r =>
      obtain ⟨hcurrent, hothers, hnone⟩ := hannouncing rfl
      have hzero : s.current.toList.countP Current.announces +
          (s.renames.eraseIdx i).countP RenamePhase.announces = 0 := by
        rw [hcurrent, hothers]
      refine ⟨Nat.le_trans (Nat.le_of_eq hzero) (Nat.zero_le 1), fun hone => ?_, fun r' hr => ?_, h.brief⟩
      · cases hzero.symm.trans hone
      · rcases h.noneLeft r' hr with hslot | hc | hrename
        · cases hnone.symm.trans hslot
        · exact Or.inr (Or.inl hc)
        · rcases hmem r' hrename with hsame | hother
          · cases hsame
            exact Or.inl rfl
          · exact Or.inr (Or.inr hother)

/-- Who has just got the lock announces nothing yet. -/
theorem Orderly.lock (h : Orderly s) (hcurrent : s.current = none) (job : Job) (rest : List Job) :
    Orderly { s with current := some ⟨job, .stopping⟩, waiting := rest } := by
  have hself : (Current.mk job .stopping).announces = false := by
    rw [Current.announces]
    simp
  have hannouncers :
      State.announcers { s with current := some ⟨job, .stopping⟩, waiting := rest } =
        s.announcers := by
    rw [State.announcers, State.announcers, hcurrent]
    show [Current.mk job .stopping].countP _ + _ = 0 + _
    rw [List.countP_singleton, hself]
    rfl
  refine ⟨hannouncers ▸ h.one, fun hone => h.empty (hannouncers ▸ hone), fun r hr => ?_,
    fun phase hc => ?_⟩
  · rcases h.noneLeft r hr with hslot | ⟨job', hc⟩ | hrename
    · exact Or.inl hslot
    · cases hcurrent.symm.trans hc
    · exact Or.inr (Or.inr hrename)
  · cases hc
    exact Or.inl rfl

theorem Orderly.beginRename (h : Orderly s) :
    Orderly { s with renames := s.renames ++ [.stopping] } := by
  have hannouncers : State.announcers { s with renames := s.renames ++ [.stopping] } =
      s.announcers := by
    show _ + (s.renames ++ [RenamePhase.stopping]).countP _ = _
    rw [List.countP_append]
    rfl
  refine ⟨hannouncers ▸ h.one, fun hone => h.empty (hannouncers ▸ hone), fun r hr => ?_, h.brief⟩
  exact (h.noneLeft r hr).imp_right fun hhands => hhands.imp_right (List.mem_append_left _)

theorem orderly_step (s : State) (a : Action) (h : Orderly s) (halone : Alone s a) :
    Orderly (step s a) := by
  cases a with
  | call job => exact h.same ⟨rfl, rfl, rfl, rfl⟩
  | lock =>
      rw [step]
      split
      next job rest hcurrent _ => exact h.lock hcurrent job rest
      next => exact h
  | giveUp =>
      rw [step]
      split
      next hcurrent => exact h.leave fun job r hc => by cases hcurrent.symm.trans hc
      next => exact h
  | advance ok =>
      rw [step]
      cases hcurrent : s.current with
      | none => exact h
      | some c => exact h.advance hcurrent halone
  | beginRename => exact h.beginRename
  | rename i ok =>
      rw [step]
      cases hi : s.renames[i]? with
      | none => exact h
      | some phase => exact h.rename hi halone
  | pairingBegin ok => exact h.same (sameRecords_discoveryIdentity s ok)
  | stopAdvertiser => exact h.stopAdvertiser
  | shutdownDiscovery => exact h.same (sameRecords_shutdownDiscovery s)

end Records

/-! ## Runs -/

/-- **NO RECORD IS LEFT BEHIND** where announcements do not overlap. -/
theorem no_record_is_left (bound announced : Bool) (run : List Action)
    (h : Admitted step Alone (start bound announced) run) :
    NoneLeft (exec step (start bound announced) run) :=
  (invariant orderly_step run (orderly_start bound announced) h).noneLeft

/-- A daemon that is renamed while its endpoint is bound anew. -/
def renamedAfterRebind : List Action :=
  [.call .rebind, .lock, .beginRename] ++ List.replicate 7 (.advance true) ++
    List.replicate 3 (.rename 0 true)

theorem no_record_is_left_rename :
    NoneLeft (exec step (start true true) renamedAfterRebind) := by
  refine no_record_is_left true true renamedAfterRebind ?_
  simp only [renamedAfterRebind, List.replicate, List.cons_append, List.nil_append, Admitted, Alone]
  decide

/-- Where they overlap, one may be. -/
example : ¬ NoneLeft (exec step (start true true) [.beginRename, .beginRename, .rename 0 true,
    .rename 1 true, .rename 0 true, .rename 1 true, .rename 0 true, .rename 0 true]) := by
  intro h
  rcases h 2 (by decide) with hslot | ⟨job, hc⟩ | hrename
  · exact absurd hslot (by decide)
  · cases hc
  · exact absurd hrename (by decide)

end SyncLifecycle

import Livtet.Lib.Runs

/-! # The endpoint's lifecycle — rebinding, shutting down and renaming at once

    The daemon has one slot for the endpoint it bound and one for the record it announces.
    A rebind withdraws the record, closes the endpoint, binds another, puts it into the
    slot, spawns its accept loop and announces it; a shutdown does the first two. Both
    hold the lifecycle lock meanwhile. But the slots have locks of their own, and others
    come to them without the lifecycle lock: `pairing.begin` binds an endpoint where the
    slot is empty, `discovery.rename` withdraws the record and announces another, and the
    end of the daemon empties both slots.

    Whatever the order, the endpoint that is served is the one in the slot. One that
    `pairing.begin` bound is never served. -/

namespace SyncLifecycle

open Runs

/-! ## The daemon -/

inductive Job
  | rebind
  | shutdown
deriving DecidableEq, Repr

/-- Where the holder of the lifecycle lock is. -/
inductive Phase
  | stopping
  | closing
  | binding
  | storing (e : Nat)
  | spawning (e : Nat)
  | announcing
  | posting (r : Nat)
deriving DecidableEq, Repr

structure Current where
  job : Job
  phase : Phase
deriving DecidableEq, Repr

/-- Where a rename is. -/
inductive RenamePhase
  | stopping
  | announcing
  | posting (r : Nat)
deriving DecidableEq, Repr

/-- Endpoints and records are numbered as they come to be. -/
structure State where
  /-- The calls that wait for the lifecycle lock, and the one that holds it. -/
  waiting : List Job
  current : Option Current
  renames : List RenamePhase
  /-- `discovery`. -/
  slot : Option Nat
  /-- The endpoints whose socket is open. -/
  bound : List Nat
  /-- The endpoints whose accept loop runs. -/
  serving : List Nat
  /-- The endpoints that `pairing.begin` bound. -/
  lazily : List Nat
  advertiser : Option Nat
  /-- The records that are announced. -/
  records : List Nat
  nextId : Nat
deriving DecidableEq, Repr

/-- The daemon before its control loop: with an endpoint that is served, if it could be
    bound, and a record of it, if one could be announced. -/
def start (bound announced : Bool) : State where
  waiting := []
  current := none
  renames := []
  slot := if bound then some 0 else none
  bound := if bound then [0] else []
  serving := if bound then [0] else []
  lazily := []
  advertiser := if announced then some 1 else none
  records := if announced then [1] else []
  nextId := 2

namespace State

/-- `stop_advertiser`. -/
def stopAdvertiser (s : State) : State :=
  match s.advertiser with
  | none => s
  | some r => { s with advertiser := none, records := s.records.filter (· ≠ r) }

/-- `shutdown_discovery`: a closed endpoint ends its accept loop. -/
def shutdownDiscovery (s : State) : State :=
  match s.slot with
  | none => s
  | some e =>
      { s with
        slot := none
        bound := s.bound.filter (· ≠ e)
        serving := s.serving.filter (· ≠ e) }

/-- An endpoint whose last handle goes is closed; an accept loop has a handle. -/
def drop (s : State) (e : Nat) : State :=
  if e ∈ s.serving then s else { s with bound := s.bound.filter (· ≠ e) }

/-- An endpoint is put into the slot, and what was there goes. -/
def store (s : State) (e : Nat) : State :=
  match s.slot with
  | none => { s with slot := some e }
  | some old => { s.drop old with slot := some e }

/-- `spawn_server`; the accept loop of a closed endpoint ends at once. -/
def spawnServer (s : State) (e : Nat) : State :=
  if e ∈ s.bound then { s with serving := e :: s.serving } else s

/-- `discovery_identity` binds an endpoint where there is none. -/
def discoveryIdentity (s : State) (ok : Bool) : State :=
  match s.slot with
  | some _ => s
  | none =>
      if ok then
        { s with
          slot := some s.nextId
          bound := s.nextId :: s.bound
          lazily := s.nextId :: s.lazily
          nextId := s.nextId + 1 }
      else s

/-- The holder of the lock goes on to another phase, or lets go of the lock. -/
def go (s : State) (job : Job) (phase : Phase) : State := { s with current := some ⟨job, phase⟩ }

def leave (s : State) : State := { s with current := none }

/-- One step of `handle_server_rebind` or `handle_shutdown`; `ok` says whether what is
    bound or announced can be. -/
def advance (s : State) (job : Job) (ok : Bool) : Phase → State
  | .stopping => s.stopAdvertiser.go job .closing
  | .closing =>
      match job with
      | .shutdown => s.shutdownDiscovery.leave
      | .rebind => s.shutdownDiscovery.go job .binding
  | .binding =>
      if ok then
        { s with bound := s.nextId :: s.bound, nextId := s.nextId + 1 }.go job (.storing s.nextId)
      else s.leave
  | .storing e => (s.store e).go job (.spawning e)
  | .spawning e => (s.spawnServer e).go job .announcing
  | .announcing =>
      if ok then
        { s with records := s.nextId :: s.records, nextId := s.nextId + 1 }.go job (.posting s.nextId)
      else s.leave
  | .posting r => { s with advertiser := some r }.leave

/-- One step of `handle_discovery_rename`. -/
def rename (s : State) (i : Nat) (ok : Bool) : RenamePhase → State
  | .stopping => { s.stopAdvertiser with renames := s.renames.set i .announcing }
  | .announcing =>
      if ok then
        { s with
          records := s.nextId :: s.records
          nextId := s.nextId + 1
          renames := s.renames.set i (.posting s.nextId) }
      else { s with renames := s.renames.eraseIdx i }
  | .posting r => { s with advertiser := some r, renames := s.renames.eraseIdx i }

end State

inductive Action
  | call (job : Job)
  | lock
  | giveUp
  | advance (ok : Bool)
  | beginRename
  | rename (i : Nat) (ok : Bool)
  | pairingBegin (ok : Bool)
  | stopAdvertiser
  | shutdownDiscovery
deriving DecidableEq, Repr

/-- The lock is given to the calls in their order. A rebind that holds it and cannot read
    its parameters gives up. The last two actions are the daemon's end. -/
def step (s : State) : Action → State
  | .call job => { s with waiting := s.waiting ++ [job] }
  | .lock =>
      match s.current, s.waiting with
      | none, job :: rest => { s with current := some ⟨job, .stopping⟩, waiting := rest }
      | _, _ => s
  | .giveUp =>
      match s.current with
      | some ⟨.rebind, .stopping⟩ => s.leave
      | _ => s
  | .advance ok =>
      match s.current with
      | some c => s.advance c.job ok c.phase
      | none => s
  | .beginRename => { s with renames := s.renames ++ [.stopping] }
  | .rename i ok =>
      match s.renames[i]? with
      | some phase => s.rename i ok phase
      | none => s
  | .pairingBegin ok => s.discoveryIdentity ok
  | .stopAdvertiser => s.stopAdvertiser
  | .shutdownDiscovery => s.shutdownDiscovery

/-! ## What is kept -/

/-- Whatever the order of the steps. -/
structure Kept (s : State) : Prop where
  /-- The endpoint that is served is the one in the slot. -/
  served : ∀ e ∈ s.serving, s.slot = some e
  /-- An endpoint that is open is in the slot or about to be. -/
  owned : ∀ e ∈ s.bound, s.slot = some e ∨ s.current = some ⟨.rebind, .storing e⟩
  /-- An endpoint in the slot is served, or about to be, unless `pairing.begin` bound it:
      such a one never is. -/
  answered : ∀ e, s.slot = some e →
    e ∈ s.bound ∧ (e ∈ s.lazily ∨ e ∈ s.serving ∨ s.current = some ⟨.rebind, .spawning e⟩)
  unanswered : ∀ e ∈ s.lazily, e ∉ s.serving

/-- The phases in which a rebind has closed an endpoint and not yet served another. -/
def Phase.starting : Phase → Bool
  | .binding | .storing _ | .spawning _ => true
  | .stopping | .closing | .announcing | .posting _ => false

structure Inv (s : State) : Prop extends Kept s where
  /-- A shutdown binds nothing. -/
  shape : ∀ phase, s.current = some ⟨.shutdown, phase⟩ → phase.starting = false
  quiet : ∀ job phase, s.current = some ⟨job, phase⟩ → phase.starting = true → s.serving = []
  held : ∀ e, s.current = some ⟨.rebind, .storing e⟩ → e ∈ s.bound
  /-- What a rebind bound is not what `pairing.begin` bound. -/
  mine : ∀ e, s.current = some ⟨.rebind, .storing e⟩ ∨ s.current = some ⟨.rebind, .spawning e⟩ →
    e ∉ s.lazily ∧ e < s.nextId
  fresh : ∀ e, e ∈ s.bound ∨ e ∈ s.serving ∨ e ∈ s.lazily → e < s.nextId

theorem inv_start (bound announced : Bool) : Inv (start bound announced) := by
  cases bound <;> constructor <;> try constructor
  all_goals simp [start]

section Steps

variable {s s' : State} {job : Job} {phase phase' : Phase} {e : Nat}

/-- The endpoints are as they were, and so is the holder of the lock. -/
theorem Inv.same (h : Inv s) (hslot : s'.slot = s.slot) (hbound : s'.bound = s.bound)
    (hserving : s'.serving = s.serving) (hlazily : s'.lazily = s.lazily)
    (hcurrent : s'.current = s.current) (hnext : s.nextId ≤ s'.nextId) : Inv s' := by
  obtain ⟨⟨served, owned, answered, unanswered⟩, shape, quiet, held, mine, fresh⟩ := h
  rw [← hcurrent] at shape quiet held mine owned answered
  rw [← hslot] at served owned answered
  rw [← hbound] at owned answered held fresh
  rw [← hserving] at served answered unanswered quiet fresh
  rw [← hlazily] at answered unanswered mine fresh
  exact ⟨⟨served, owned, answered, unanswered⟩, shape, quiet, held,
    fun e he => ⟨(mine e he).1, Nat.lt_of_lt_of_le (mine e he).2 hnext⟩,
    fun e he => Nat.lt_of_lt_of_le (fresh e he) hnext⟩

/-- The holder of the lock goes on, where it had no endpoint in its hands and gets none. -/
theorem Inv.calm (h : Inv s) {c : Option Current}
    (hold : ∀ e, s.current ≠ some ⟨.rebind, .storing e⟩ ∧ s.current ≠ some ⟨.rebind, .spawning e⟩)
    (hnew : ∀ job phase, c = some ⟨job, phase⟩ →
      phase.starting = false ∨ job = .rebind ∧ phase = .binding ∧ s.serving = []) :
    Inv { s with current := c } where
  served := h.served
  owned e he := by
    rcases h.owned e he with hslot | hstoring
    · exact Or.inl hslot
    · exact absurd hstoring (hold e).1
  answered e hslot := by
    obtain ⟨hbound, hlazily | hserving | hspawning⟩ := h.answered e hslot
    · exact ⟨hbound, Or.inl hlazily⟩
    · exact ⟨hbound, Or.inr (Or.inl hserving)⟩
    · exact absurd hspawning (hold e).2
  unanswered := h.unanswered
  shape phase hc := by
    rcases hnew _ _ hc with hcalm | ⟨hjob, _⟩
    · exact hcalm
    · cases hjob
  quiet job phase hc hstarting := by
    rcases hnew _ _ hc with hcalm | ⟨_, _, hserving⟩
    · rw [hcalm] at hstarting
      cases hstarting
    · exact hserving
  held e hc := by rcases hnew _ _ hc with hcalm | ⟨_, hphase, _⟩ <;> contradiction
  mine e hc := by
    rcases hc with hc | hc <;>
      rcases hnew _ _ hc with hcalm | ⟨_, hphase, _⟩ <;> contradiction
  fresh := h.fresh

/-- What a rebind holds is not in the slot yet. -/
theorem Inv.slot_ne (h : Inv s) (hcurrent : s.current = some ⟨.rebind, .storing e⟩) :
    s.slot ≠ some e := by
  intro hslot
  obtain ⟨_, hlazily | hserving | hspawning⟩ := h.answered e hslot
  · exact (h.mine e (Or.inl hcurrent)).1 hlazily
  · rw [h.quiet _ _ hcurrent rfl] at hserving
    cases hserving
  · cases hcurrent.symm.trans hspawning

/-- Nothing is served while the slot is empty. -/
theorem Inv.serving_eq_nil (h : Inv s) (hslot : s.slot = none) : s.serving = [] :=
  List.eq_nil_iff_forall_not_mem.2 fun e he => by cases hslot.symm.trans (h.served e he)

theorem Inv.serving_shutdownDiscovery (h : Inv s) : s.shutdownDiscovery.serving = [] := by
  rw [State.shutdownDiscovery]
  cases hslot : s.slot with
  | none => exact h.serving_eq_nil hslot
  | some old =>
      refine List.filter_eq_nil_iff.2 fun e he => ?_
      have hsame : old = e := Option.some.inj (hslot.symm.trans (h.served e he))
      simp [hsame]

theorem current_shutdownDiscovery (s : State) : s.shutdownDiscovery.current = s.current := by
  rw [State.shutdownDiscovery]
  cases s.slot <;> rfl

theorem Inv.shutdownDiscovery (h : Inv s) : Inv s.shutdownDiscovery := by
  have hserving := h.serving_shutdownDiscovery
  rw [State.shutdownDiscovery] at hserving ⊢
  cases hslot : s.slot with
  | none => exact h
  | some old =>
      rw [hslot] at hserving
      dsimp only at hserving ⊢
      rw [hserving]
      refine ⟨⟨fun e he => (by cases he), fun e he => ?_, fun e he => (by cases he),
        fun _ _ he => (by cases he)⟩, h.shape, fun _ _ _ _ => rfl, fun e hcurrent => ?_, h.mine,
        fun e he => ?_⟩
      · obtain ⟨hbound, hne⟩ := List.mem_filter.1 he
        rcases h.owned e hbound with hsame | hcurrent
        · exact absurd (Option.some.inj (hsame.symm.trans hslot)) (of_decide_eq_true hne)
        · exact Or.inr hcurrent
      · refine List.mem_filter.2 ⟨h.held e hcurrent, decide_eq_true ?_⟩
        rintro rfl
        exact h.slot_ne hcurrent hslot
      · rcases he with he | he | he
        · exact h.fresh e (Or.inl (List.mem_filter.1 he).1)
        · cases he
        · exact h.fresh e (Or.inr (Or.inr he))

theorem Inv.discoveryIdentity (h : Inv s) (ok : Bool) : Inv (s.discoveryIdentity ok) := by
  rw [State.discoveryIdentity]
  cases hslot : s.slot with
  | some e => exact h
  | none =>
      cases ok with
      | false => exact h
      | true =>
          have hserving : s.serving = [] := h.serving_eq_nil hslot
          have hold : ∀ e, e ∈ s.bound ∨ e ∈ s.serving ∨ e ∈ s.lazily → e < s.nextId + 1 :=
            fun e he => Nat.lt_succ_of_lt (h.fresh e he)
          simp only [if_true]
          refine ⟨⟨fun e he => ?_, fun e he => ?_, fun e he => ?_, fun e _ he => ?_⟩, h.shape,
            h.quiet, fun e hcurrent => List.mem_cons_of_mem _ (h.held e hcurrent),
            fun e hcurrent => ?_, fun e he => ?_⟩
          · rw [hserving] at he
            cases he
          · rcases List.mem_cons.1 he with rfl | he
            · exact Or.inl rfl
            · rcases h.owned e he with hsame | hcurrent
              · cases hslot.symm.trans hsame
              · exact Or.inr hcurrent
          · cases Option.some.inj he
            exact ⟨List.mem_cons_self, Or.inl List.mem_cons_self⟩
          · rw [hserving] at he
            cases he
          · obtain ⟨hnot, hlt⟩ := h.mine e hcurrent
            refine ⟨fun he => ?_, Nat.lt_succ_of_lt hlt⟩
            rcases List.mem_cons.1 he with rfl | he
            · exact absurd hlt (Nat.lt_irrefl _)
            · exact hnot he
          · rcases he with he | he | he
            · rcases List.mem_cons.1 he with rfl | he
              · exact Nat.lt_succ_self _
              · exact hold e (Or.inl he)
            · exact hold e (Or.inr (Or.inl he))
            · rcases List.mem_cons.1 he with rfl | he
              · exact Nat.lt_succ_self _
              · exact hold e (Or.inr (Or.inr he))

/-- A rebind has bound an endpoint. -/
theorem Inv.bind (h : Inv s) (hcurrent : s.current = some ⟨.rebind, .binding⟩) :
    Inv { s with
      bound := s.nextId :: s.bound
      nextId := s.nextId + 1
      current := some ⟨.rebind, .storing s.nextId⟩ } := by
  have hserving : s.serving = [] := h.quiet _ _ hcurrent rfl
  refine ⟨⟨h.served, fun e he => ?_, fun e he => ?_, h.unanswered⟩, fun _ hc => ?_,
    fun _ _ _ _ => hserving, fun e hc => ?_, fun e hc => ?_, fun e he => ?_⟩
  · rcases List.mem_cons.1 he with rfl | he
    · exact Or.inr rfl
    · rcases h.owned e he with hslot | hstoring
      · exact Or.inl hslot
      · cases hcurrent.symm.trans hstoring
  · obtain ⟨hbound, hlazily | hs | hspawning⟩ := h.answered e he
    · exact ⟨List.mem_cons_of_mem _ hbound, Or.inl hlazily⟩
    · exact ⟨List.mem_cons_of_mem _ hbound, Or.inr (Or.inl hs)⟩
    · cases hcurrent.symm.trans hspawning
  · cases hc
  · cases hc
    exact List.mem_cons_self
  · have hsame : e = s.nextId := by
      rcases hc with hc | hc <;> cases hc
      rfl
    subst hsame
    exact ⟨fun he => absurd (h.fresh _ (Or.inr (Or.inr he))) (Nat.lt_irrefl _), Nat.lt_succ_self _⟩
  · rcases he with he | he | he
    · rcases List.mem_cons.1 he with rfl | he
      · exact Nat.lt_succ_self _
      · exact Nat.lt_succ_of_lt (h.fresh e (Or.inl he))
    · exact Nat.lt_succ_of_lt (h.fresh e (Or.inr (Or.inl he)))
    · exact Nat.lt_succ_of_lt (h.fresh e (Or.inr (Or.inr he)))

/-- What is in the slot when a rebind stores its endpoint is not served, so it goes. -/
theorem Inv.store_eq (h : Inv s) (hcurrent : s.current = some ⟨.rebind, .storing e⟩) :
    s.store e = { s with slot := some e, bound := s.bound.filter fun old => s.slot ≠ some old } := by
  have hserving : s.serving = [] := h.quiet _ _ hcurrent rfl
  rw [State.store]
  cases hslot : s.slot with
  | none => simp
  | some old =>
      have hnot : old ∉ s.serving := by
        rw [hserving]
        exact List.not_mem_nil
      have hfilter : (s.bound.filter (· ≠ old)) = s.bound.filter fun e => some old ≠ some e :=
        List.filter_congr fun e _ => by simp [eq_comm]
      show { s.drop old with slot := some e } = _
      rw [State.drop, if_neg hnot, ← hfilter]

theorem Inv.store (h : Inv s) (hcurrent : s.current = some ⟨.rebind, .storing e⟩) :
    Inv ((s.store e).go .rebind (.spawning e)) := by
  have hserving : s.serving = [] := h.quiet _ _ hcurrent rfl
  have hheld : e ∈ s.bound.filter fun old => s.slot ≠ some old :=
    List.mem_filter.2 ⟨h.held e hcurrent, decide_eq_true (h.slot_ne hcurrent)⟩
  rw [h.store_eq hcurrent, State.go]
  refine ⟨⟨fun e' he => ?_, fun e' he => ?_, fun e' he => ?_, h.unanswered⟩, fun _ hc => ?_,
    fun _ _ _ _ => hserving, fun _ hc => ?_, fun e' hc => ?_, fun e' he => ?_⟩
  · rw [hserving] at he
    cases he
  · obtain ⟨hbound, hne⟩ := List.mem_filter.1 he
    rcases h.owned e' hbound with hslot | hstoring
    · exact absurd hslot (of_decide_eq_true hne)
    · cases hcurrent.symm.trans hstoring
      exact Or.inl rfl
  · cases Option.some.inj he
    exact ⟨hheld, Or.inr (Or.inr rfl)⟩
  · cases hc
  · cases hc
  · rcases hc with hc | hc <;> cases hc
    exact h.mine e (Or.inl hcurrent)
  · rcases he with he | he
    · exact h.fresh e' (Or.inl (List.mem_filter.1 he).1)
    · exact h.fresh e' (Or.inr he)

theorem Inv.spawnServer (h : Inv s) (hcurrent : s.current = some ⟨.rebind, .spawning e⟩) :
    Inv ((s.spawnServer e).go .rebind .announcing) := by
  have hserving : s.serving = [] := h.quiet _ _ hcurrent rfl
  -- an endpoint that is still open is still in the slot
  have hslot : e ∈ s.bound → s.slot = some e := by
    intro he
    rcases h.owned e he with hslot | hstoring
    · exact hslot
    · cases hcurrent.symm.trans hstoring
  have hspawned : ∀ e', e' ∈ (s.spawnServer e).serving ↔ e' = e ∧ e ∈ s.bound := by
    intro e'
    rw [State.spawnServer]
    split
    next hbound => simp [hserving, hbound]
    next hclosed => simp [hserving, hclosed]
  have hsame : s.spawnServer e = { s with serving := (s.spawnServer e).serving } := by
    rw [State.spawnServer]
    split <;> rfl
  rw [hsame, State.go]
  refine ⟨⟨fun e' he => ?_, fun e' he => ?_, fun e' he => ?_, fun e' he hs => ?_⟩, fun _ hc => ?_,
    fun _ _ hc hstarting => ?_, fun _ hc => ?_, fun _ hc => ?_, fun e' he => ?_⟩
  · obtain ⟨rfl, hbound⟩ := (hspawned e').1 he
    exact hslot hbound
  · rcases h.owned e' he with hs | hstoring
    · exact Or.inl hs
    · cases hcurrent.symm.trans hstoring
  · obtain ⟨hbound, hlazily | hs | hspawning⟩ := h.answered e' he
    · exact ⟨hbound, Or.inl hlazily⟩
    · rw [hserving] at hs
      cases hs
    · cases hcurrent.symm.trans hspawning
      exact ⟨hbound, Or.inr (Or.inl ((hspawned e).2 ⟨rfl, hbound⟩))⟩
  · obtain ⟨rfl, _⟩ := (hspawned e').1 hs
    exact (h.mine e' (Or.inr hcurrent)).1 he
  · cases hc
  · cases hc
    cases hstarting
  · cases hc
  · rcases hc with hc | hc <;> cases hc
  · rcases he with he | he | he
    · exact h.fresh e' (Or.inl he)
    · obtain ⟨rfl, hbound⟩ := (hspawned e').1 he
      exact h.fresh e' (Or.inl hbound)
    · exact h.fresh e' (Or.inr (Or.inr he))

theorem stopAdvertiser_same (s : State) : s.stopAdvertiser.slot = s.slot ∧
    s.stopAdvertiser.bound = s.bound ∧ s.stopAdvertiser.serving = s.serving ∧
    s.stopAdvertiser.lazily = s.lazily ∧ s.stopAdvertiser.current = s.current ∧
    s.stopAdvertiser.nextId = s.nextId := by
  rw [State.stopAdvertiser]
  cases s.advertiser <;> exact ⟨rfl, rfl, rfl, rfl, rfl, rfl⟩

theorem Inv.stopAdvertiser (h : Inv s) : Inv s.stopAdvertiser := by
  obtain ⟨hslot, hbound, hserving, hlazily, hcurrent, hnext⟩ := stopAdvertiser_same s
  exact h.same hslot hbound hserving hlazily hcurrent (Nat.le_of_eq hnext.symm)

theorem Inv.advance (h : Inv s) (hcurrent : s.current = some ⟨job, phase⟩) (ok : Bool) :
    Inv (s.advance job ok phase) := by
  -- a shutdown is done before an endpoint is bound
  have hrebind : phase.starting = true → job = .rebind := by
    intro hstarting
    cases job with
    | rebind => rfl
    | shutdown =>
        rw [h.shape phase hcurrent] at hstarting
        cases hstarting
  have hold : (∀ e, phase ≠ .storing e ∧ phase ≠ .spawning e) → ∀ e,
      s.current ≠ some ⟨.rebind, .storing e⟩ ∧ s.current ≠ some ⟨.rebind, .spawning e⟩ := by
    intro hne e
    rw [hcurrent]
    exact ⟨fun hc => (hne e).1 (by cases hc; rfl), fun hc => (hne e).2 (by cases hc; rfl)⟩
  have hnone : ∀ (t : State) job phase, none = some (Current.mk job phase) →
      phase.starting = false ∨ job = .rebind ∧ phase = .binding ∧ t.serving = [] :=
    fun _ _ _ hc => by cases hc
  cases phase with
  | stopping =>
      refine h.stopAdvertiser.calm (c := some ⟨job, .closing⟩) ?_
        fun _ _ hc => Or.inl (by cases hc; rfl)
      rw [(stopAdvertiser_same s).2.2.2.2.1]
      exact hold fun e => ⟨nofun, nofun⟩
  | closing =>
      have hshut := h.shutdownDiscovery
      have hcalm := hold fun e => ⟨nofun, nofun⟩
      rw [← current_shutdownDiscovery s] at hcalm
      cases job with
      | shutdown => exact hshut.calm hcalm (hnone _)
      | rebind =>
          refine hshut.calm (c := some ⟨.rebind, .binding⟩) hcalm fun _ _ hc => Or.inr ?_
          cases hc
          exact ⟨rfl, rfl, h.serving_shutdownDiscovery⟩
  | binding =>
      cases hrebind rfl
      cases ok with
      | true => exact h.bind hcurrent
      | false => exact h.calm (hold fun e => ⟨nofun, nofun⟩) (hnone s)
  | storing e =>
      cases hrebind rfl
      exact h.store hcurrent
  | spawning e =>
      cases hrebind rfl
      exact h.spawnServer hcurrent
  | announcing =>
      have hcalm := hold fun e => ⟨nofun, nofun⟩
      cases ok with
      | true =>
          have hposting : Inv { s with current := some ⟨job, .posting s.nextId⟩ } :=
            h.calm hcalm fun _ _ hc => Or.inl (by cases hc; rfl)
          exact hposting.same rfl rfl rfl rfl rfl (Nat.le_succ _)
      | false => exact h.calm hcalm (hnone s)
  | posting r =>
      have hleft : Inv { s with current := none } := h.calm (hold fun e => ⟨nofun, nofun⟩) (hnone s)
      exact hleft.same rfl rfl rfl rfl rfl (Nat.le_refl _)

theorem Inv.rename (h : Inv s) (i : Nat) (ok : Bool) (phase : RenamePhase) :
    Inv (s.rename i ok phase) := by
  cases phase with
  | stopping => exact h.stopAdvertiser.same rfl rfl rfl rfl rfl (Nat.le_refl _)
  | announcing =>
      cases ok with
      | true => exact h.same rfl rfl rfl rfl rfl (Nat.le_succ _)
      | false => exact h.same rfl rfl rfl rfl rfl (Nat.le_refl _)
  | posting r => exact h.same rfl rfl rfl rfl rfl (Nat.le_refl _)

theorem inv_step (s : State) (a : Action) (h : Inv s) : Inv (step s a) := by
  cases a with
  | call job => exact h.same rfl rfl rfl rfl rfl (Nat.le_refl _)
  | lock =>
      rw [step]
      split
      next job rest hcurrent _ =>
        have hlocked : Inv { s with current := some ⟨job, .stopping⟩ } :=
          h.calm (fun e => by rw [hcurrent]; exact ⟨nofun, nofun⟩)
            fun _ _ hc => Or.inl (by cases hc; rfl)
        exact hlocked.same rfl rfl rfl rfl rfl (Nat.le_refl _)
      next => exact h
  | giveUp =>
      rw [step]
      split
      next hcurrent =>
        exact h.calm (fun e => by rw [hcurrent]; exact ⟨nofun, nofun⟩) fun _ _ hc => by cases hc
      next => exact h
  | advance ok =>
      rw [step]
      cases hcurrent : s.current with
      | none => exact h
      | some c => exact h.advance hcurrent ok
  | beginRename => exact h.same rfl rfl rfl rfl rfl (Nat.le_refl _)
  | rename i ok =>
      rw [step]
      cases s.renames[i]? with
      | none => exact h
      | some phase => exact h.rename i ok phase
  | pairingBegin ok => exact h.discoveryIdentity ok
  | stopAdvertiser => exact h.stopAdvertiser
  | shutdownDiscovery => exact h.shutdownDiscovery

end Steps

/-- **ONE ENDPOINT IS SERVED**, the one in the slot. -/
theorem one_endpoint_is_served (bound announced : Bool) (run : List Action) :
    Kept (exec step (start bound announced) run) :=
  (preserved inv_step run (inv_start bound announced)).toKept

end SyncLifecycle

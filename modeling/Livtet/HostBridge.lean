import Livtet.Rpc
import Livtet.Lib.Maps
import Livtet.Lib.Runs

/-! # Answers of the desktop

    The daemon asks the desktop over the channel it is asked on itself. A request draws an
    id, puts a sender under it into a registry, writes its line and waits. Whichever comes
    first takes the sender out again: an answer with the id, the timeout, or a channel that
    is closed.

    The steps of the two sides are taken in any order, and an answer is taken out of the
    registry before it is delivered. Ids may even come round again; then the older request
    loses its sender and says so. -/

namespace HostBridge

open SyncRpc JsonText JsonText.Json Maps

/-! ## Responses -/

/-- `Value::as_u64`. -/
def asU64 (x : Node) : Option UInt64 :=
  match x.val with
  | .int n => if 0 ≤ n ∧ n < 2 ^ 64 then some (UInt64.ofNat n.toNat) else none
  | _ => none

def responseId (response : RpcResponse) : Option UInt64 := response.id.bind asU64

/-- What a request returns for a response. -/
def outcome (response : RpcResponse) : Except String Node :=
  match response.result, response.error with
  | _, some error => .error error.message
  | some result, none => .ok result
  | none, none => .error "the desktop returned an empty response"

/-! ## Requests -/

def closed : String := "the control channel to the desktop is closed"

def dropped : String := "the desktop dropped the request"

def late : String := "the desktop did not answer in time"

/-- Where a request stands: before each of its statements, and when it has returned. -/
inductive Phase
  | registering
  | sending
  | waiting
  | forgetting (message : String)
  | finished (result : Except String Node)

/-- `inbox` is what was sent to its receiver. `arrivals` are the responses with its id that
    came in while it was registered, the first one first. -/
structure Request where
  id : UInt64
  method : String
  params : Node
  phase : Phase
  inbox : Option RpcResponse
  arrivals : List RpcResponse

namespace Request

/-- It has entered the registry and not returned. -/
def registered (q : Request) : Bool :=
  match q.phase with
  | .sending => true
  | .waiting => true
  | .forgetting _ => true
  | _ => false

/-- Its receiver is still there. -/
def listening (q : Request) : Bool :=
  match q.phase with
  | .sending => true
  | .waiting => true
  | _ => false

def note (response : RpcResponse) (q : Request) : Request :=
  if q.registered ∧ responseId response = some q.id then
    { q with arrivals := q.arrivals ++ [response] }
  else q

def receive (response : RpcResponse) (q : Request) : Request :=
  if q.listening then { q with inbox := some response } else q

end Request

/-! ## The bridge -/

/-- `taken` are the senders that are out of the registry, with the response they are to
    send. -/
structure State where
  isOpen : Bool
  lines : List (List UInt8)
  pending : Map UInt64 Nat
  nextId : UInt64
  requests : List Request
  taken : List (Nat × RpcResponse)

/-- `HostBridge::new`. -/
def start : State :=
  { isOpen := true, lines := [], pending := ∅, nextId := 1, requests := [], taken := [] }

inductive Action
  | request (method : String) (params : Node)
  | register (i : Nat)
  | send (i : Nat)
  | poll (i : Nat) (elapsed : Bool)
  | forget (i : Nat)
  | answer (response : RpcResponse)
  | deliver (n : Nat)
  | close

namespace State

/-- The sender of a request is somewhere. -/
def alive (s : State) (i : Nat) (q : Request) : Bool :=
  s.pending.lookup q.id = some i ∨ i ∈ s.taken.map Prod.fst

def put (s : State) (i : Nat) (q : Request) : State := { s with requests := s.requests.set i q }

def register (s : State) (i : Nat) (q : Request) : State :=
  match q.phase with
  | .registering => { s.put i { q with phase := .sending } with pending := s.pending.insert q.id i }
  | _ => s

/-- A request whose line cannot be sent goes on to forget its id. -/
def send (lib : SerdeJson) (s : State) (i : Nat) (q : Request) : State :=
  match q.phase with
  | .sending =>
      if s.isOpen then
        { s.put i { q with phase := .waiting } with
          lines := s.lines ++ [encodeRequest lib q.id q.method q.params] }
      else s.put i { q with phase := .forgetting closed }
  | _ => s

/-- The receiver is looked at before the clock. -/
def poll (s : State) (i : Nat) (elapsed : Bool) (q : Request) : State :=
  match q.phase with
  | .waiting =>
      match q.inbox with
      | some response => s.put i { q with phase := .finished (outcome response) }
      | none =>
          if s.alive i q then
            if elapsed then s.put i { q with phase := .forgetting late } else s
          else s.put i { q with phase := .finished (.error dropped) }
  | _ => s

def forget (s : State) (i : Nat) (q : Request) : State :=
  match q.phase with
  | .forgetting message =>
      { s.put i { q with phase := .finished (.error message) } with pending := s.pending.erase q.id }
  | _ => s

/-- `answer` as far as the registry. -/
def answer (s : State) (response : RpcResponse) : State :=
  let noted := { s with requests := s.requests.map (Request.note response) }
  match responseId response with
  | none => noted
  | some id =>
      match s.pending.lookup id with
      | none => noted
      | some i => { noted with pending := s.pending.erase id, taken := s.taken ++ [(i, response)] }

/-- The rest of `answer`. -/
def deliver (s : State) (n : Nat) : State :=
  match s.taken[n]? with
  | none => s
  | some (i, response) =>
      match s.requests[i]? with
      | none => s
      | some q => { s.put i (q.receive response) with taken := s.taken.eraseIdx n }

/-- A step of a request that was made. -/
def atRequest (s : State) (i : Nat) (f : Request → State) : State :=
  match s.requests[i]? with
  | none => s
  | some q => f q

end State

def step (lib : SerdeJson) (s : State) : Action → State
  | .request method params =>
      { s with
        nextId := s.nextId + 1
        requests := s.requests ++
          [{ id := s.nextId, method, params, phase := .registering, inbox := none, arrivals := [] }] }
  | .register i => s.atRequest i (s.register i)
  | .send i => s.atRequest i (s.send lib i)
  | .poll i elapsed => s.atRequest i (s.poll i elapsed)
  | .forget i => s.atRequest i (s.forget i)
  | .answer response => s.answer response
  | .deliver n => s.deliver n
  | .close => { s with isOpen := false }

/-! ## What one request has seen -/

/-- An error that no response is behind. -/
def Own (result : Except String Node) : Prop :=
  result = .error closed ∨ result = .error dropped ∨ result = .error late

/-- A request has nothing before it is registered; what it receives and what it returns is
    the first response with its id. -/
structure Sound (q : Request) : Prop where
  fresh : q.phase = .registering → q.inbox = none ∧ q.arrivals = []
  ids : ∀ r ∈ q.arrivals, responseId r = some q.id
  inbox : ∀ r, q.inbox = some r → q.arrivals.head? = some r
  own : ∀ message, q.phase = .forgetting message → Own (.error message)
  result : ∀ result, q.phase = .finished result →
    Own result ∨ ∃ r, q.arrivals.head? = some r ∧ result = outcome r

/-- A registered id belongs to a request that waits and has had no response; a sender that
    is taken out has the first response of its request. -/
structure Inv (s : State) : Prop where
  sound : ∀ (i : Nat) q, s.requests[i]? = some q → Sound q
  waits : ∀ id (i : Nat), s.pending.lookup id = some i → ∃ q, s.requests[i]? = some q ∧ q.id = id ∧
    q.registered = true ∧ q.inbox = none ∧ q.arrivals = []
  takes : ∀ (i : Nat) r, (i, r) ∈ s.taken → ∃ q, s.requests[i]? = some q ∧ q.arrivals.head? = some r

theorem inv_start : Inv start := by
  refine ⟨fun i q h => ?_, fun id i h => ?_, fun i r h => ?_⟩
  · cases h
  · cases h
  · cases h

/-! ## One request changes -/

section Updates

variable {lib : SerdeJson} {s s' : State} {i : Nat} {q q' : Request}

theorem getElem?_set_of_some {requests : List Request} (h : requests[i]? = some q) (j : Nat) :
    (requests.set i q')[j]? = if j = i then some q' else requests[j]? := by
  obtain ⟨hlt, _⟩ := List.getElem?_eq_some_iff.1 h
  rw [List.getElem?_set]
  by_cases hij : i = j
  · rw [if_pos hij, if_pos hlt, if_pos hij.symm]
  · rw [if_neg hij, if_neg fun hji => hij hji.symm]

/-- The invariant after a step of one request: its own entry, if it has one, must still
    wait for a first response; the other entries stay. -/
theorem Inv.update (h : Inv s) (hq : s.requests[i]? = some q)
    (hrequests : s'.requests = s.requests.set i q') (htaken : ∀ x ∈ s'.taken, x ∈ s.taken)
    (hsound : Sound q') (harrivals : q'.arrivals = q.arrivals)
    (hpending : ∀ id j, s'.pending.lookup id = some j →
      j = i ∧ q'.id = id ∧ q'.registered = true ∧ q'.inbox = none ∧ q'.arrivals = [] ∨
        j ≠ i ∧ s.pending.lookup id = some j) : Inv s' := by
  have hget : ∀ j, s'.requests[j]? = if j = i then some q' else s.requests[j]? := by
    intro j
    rw [hrequests]
    exact getElem?_set_of_some hq j
  refine ⟨fun j p hj => ?_, fun id j hj => ?_, fun j r hj => ?_⟩
  · rw [hget] at hj
    split at hj
    · cases hj
      exact hsound
    · exact h.sound j p hj
  · rcases hpending id j hj with ⟨rfl, hrest⟩ | ⟨hne, hold⟩
    · exact ⟨q', by rw [hget, if_pos rfl], hrest⟩
    · obtain ⟨p, hp, hrest⟩ := h.waits id j hold
      exact ⟨p, by rw [hget, if_neg hne, hp], hrest⟩
  · obtain ⟨p, hp, hhead⟩ := h.takes j r (htaken _ hj)
    by_cases hji : j = i
    · subst hji
      cases hq.symm.trans hp
      exact ⟨q', by rw [hget, if_pos rfl], by rw [harrivals, hhead]⟩
    · exact ⟨p, by rw [hget, if_neg hji, hp], hhead⟩

/-- An entry of a request that goes on waiting is kept as it is. -/
theorem Inv.entry (h : Inv s) (hq : s.requests[i]? = some q) (hid : q'.id = q.id)
    (hregistered : q.registered = true → q'.registered = true) (hinbox : q'.inbox = q.inbox)
    (harrivals : q'.arrivals = q.arrivals) (id : UInt64) (j : Nat)
    (hj : s.pending.lookup id = some j) :
    j = i ∧ q'.id = id ∧ q'.registered = true ∧ q'.inbox = none ∧ q'.arrivals = [] ∨
      j ≠ i ∧ s.pending.lookup id = some j := by
  by_cases hji : j = i
  · subst hji
    obtain ⟨p, hp, hpid, hpreg, hpin, hparr⟩ := h.waits id j hj
    cases hq.symm.trans hp
    exact Or.inl ⟨rfl, hid.trans hpid, hregistered hpreg, hinbox.trans hpin, harrivals.trans hparr⟩
  · exact Or.inr ⟨hji, hj⟩

/-- No entry of this request is there. -/
theorem Inv.no_entry (h : Inv s) (hq : s.requests[i]? = some q)
    (hnone : s.pending.lookup q.id = some i → q.registered = true → q.inbox = none →
      q.arrivals = [] → False) (id : UInt64) (j : Nat) (hj : s.pending.lookup id = some j) :
    j ≠ i := by
  rintro rfl
  obtain ⟨p, hp, rfl, hpreg, hpin, hparr⟩ := h.waits id j hj
  cases hq.symm.trans hp
  exact hnone hj hpreg hpin hparr

theorem inv_register (h : Inv s) (hq : s.requests[i]? = some q) : Inv (s.register i q) := by
  rw [State.register]
  split
  next hphase =>
    have hs := h.sound i q hq
    obtain ⟨hinbox, harrivals⟩ := hs.fresh hphase
    have hsound : Sound { q with phase := .sending } := by
      refine ⟨fun h => ?_, hs.ids, hs.inbox, fun m h => ?_, fun r h => ?_⟩
      · cases h
      · cases h
      · cases h
    refine h.update hq rfl (fun _ hx => hx) hsound rfl fun id j hj => ?_
    rcases lookup_insert.1 hj with ⟨rfl, rfl⟩ | ⟨_, hold⟩
    · exact Or.inl ⟨rfl, rfl, rfl, hinbox, harrivals⟩
    · refine Or.inr ⟨h.no_entry hq (fun _ hreg _ _ => ?_) id j hold, hold⟩
      rw [Request.registered, hphase] at hreg
      cases hreg
  next => exact h

/-- A request that goes on to forget its id for a reason of its own. -/
theorem sound_forgetting (hs : Sound q) {message : String} (hown : Own (.error message)) :
    Sound { q with phase := .forgetting message } := by
  refine ⟨fun h => ?_, hs.ids, hs.inbox, fun m h => ?_, fun r h => ?_⟩
  · cases h
  · cases h
    exact hown
  · cases h

theorem inv_forgetting (h : Inv s) (hq : s.requests[i]? = some q) {message : String}
    (hown : Own (.error message)) : Inv (s.put i { q with phase := .forgetting message }) :=
  h.update hq rfl (fun _ hx => hx) (sound_forgetting (h.sound i q hq) hown) rfl
    (h.entry hq rfl (fun _ => rfl) rfl rfl)

theorem inv_send (h : Inv s) (hq : s.requests[i]? = some q) : Inv (s.send lib i q) := by
  rw [State.send]
  split
  next hphase =>
    split
    · have hs := h.sound i q hq
      have hsound : Sound { q with phase := .waiting } := by
        refine ⟨fun h => ?_, hs.ids, hs.inbox, fun m h => ?_, fun r h => ?_⟩
        · cases h
        · cases h
        · cases h
      exact h.update hq rfl (fun _ hx => hx) hsound rfl (h.entry hq rfl (fun _ => rfl) rfl rfl)
    · exact inv_forgetting h hq (Or.inl rfl)
  next => exact h

theorem sound_finished (hs : Sound q) {result : Except String Node}
    (hresult : Own result ∨ ∃ r, q.arrivals.head? = some r ∧ result = outcome r) :
    Sound { q with phase := .finished result } := by
  refine ⟨fun h => ?_, hs.ids, hs.inbox, fun m h => ?_, fun r h => ?_⟩
  · cases h
  · cases h
  · cases h
    exact hresult

theorem inv_poll (h : Inv s) (hq : s.requests[i]? = some q) {elapsed : Bool} :
    Inv (s.poll i elapsed q) := by
  have hs := h.sound i q hq
  rw [State.poll]
  split
  next hphase =>
    split
    next response hinbox =>
      refine h.update hq rfl (fun _ hx => hx)
        (sound_finished hs (Or.inr ⟨response, hs.inbox _ hinbox, rfl⟩)) rfl fun id j hj => ?_
      refine Or.inr ⟨h.no_entry hq (fun _ _ hnone _ => ?_) id j hj, hj⟩
      rw [hinbox] at hnone
      cases hnone
    next hinbox =>
      split
      next halive =>
        split
        · exact inv_forgetting h hq (Or.inr (Or.inr rfl))
        · exact h
      next halive =>
        refine h.update hq rfl (fun _ hx => hx)
          (sound_finished hs (Or.inl (Or.inr (Or.inl rfl)))) rfl fun id j hj => ?_
        refine Or.inr ⟨h.no_entry hq (fun hentry _ _ _ => halive ?_) id j hj, hj⟩
        exact decide_eq_true (Or.inl hentry)
  next => exact h

theorem inv_forget (h : Inv s) (hq : s.requests[i]? = some q) : Inv (s.forget i q) := by
  have hs := h.sound i q hq
  rw [State.forget]
  split
  next message hphase =>
    refine h.update hq rfl (fun _ hx => hx) (sound_finished hs (Or.inl (hs.own message hphase))) rfl
      fun id j hj => ?_
    obtain ⟨hne, hold⟩ := lookup_erase.1 hj
    refine Or.inr ⟨?_, hold⟩
    rintro rfl
    obtain ⟨p, hp, hpid, _⟩ := h.waits id j hold
    cases hq.symm.trans hp
    exact hne hpid.symm
  next => exact h

/-! ## A response comes in -/

theorem note_same {response : RpcResponse} (h : responseId response ≠ some q.id) :
    q.note response = q := by
  rw [Request.note]
  exact if_neg fun hboth => h hboth.2

theorem note_cases (q : Request) (response : RpcResponse) :
    q.note response = q ∨ (q.registered = true ∧ responseId response = some q.id ∧
      q.note response = { q with arrivals := q.arrivals ++ [response] }) := by
  rw [Request.note]
  split
  next hboth => exact Or.inr ⟨hboth.1, hboth.2, rfl⟩
  next => exact Or.inl rfl

theorem head?_append {rs : List RpcResponse} {r r' : RpcResponse} (h : rs.head? = some r) :
    (rs ++ [r']).head? = some r := by
  cases rs with
  | nil => cases h
  | cons a rest => exact h

theorem head?_note {response r : RpcResponse} (h : q.arrivals.head? = some r) :
    (q.note response).arrivals.head? = some r := by
  rcases note_cases q response with hsame | ⟨_, _, hnoted⟩
  · rw [hsame]
    exact h
  · rw [hnoted]
    exact head?_append h

theorem sound_note (hs : Sound q) (response : RpcResponse) : Sound (q.note response) := by
  rcases note_cases q response with hsame | ⟨hreg, hid, hnoted⟩
  · rw [hsame]
    exact hs
  · rw [hnoted]
    refine ⟨fun hphase => ?_, fun r hr => ?_, fun r hr => head?_append (hs.inbox r hr), hs.own,
      fun result hfinished => ?_⟩
    · rw [Request.registered, show q.phase = .registering from hphase] at hreg
      cases hreg
    · rcases List.mem_append.1 hr with hold | hnew
      · exact hs.ids r hold
      · cases List.mem_singleton.1 hnew
        exact hid
    · refine (hs.result result hfinished).imp id ?_
      rintro ⟨r, hr, hresult⟩
      exact ⟨r, head?_append hr, hresult⟩

/-- Every request takes note of the response; the senders that are taken out already stay
    with theirs. -/
theorem inv_noted (h : Inv s) {response : RpcResponse}
    (hrequests : s'.requests = s.requests.map (Request.note response))
    (htaken : ∀ i r, (i, r) ∈ s'.taken → (i, r) ∈ s.taken ∨
      ∃ q, s'.requests[i]? = some q ∧ q.arrivals.head? = some r)
    (hpending : ∀ id i, s'.pending.lookup id = some i →
      s.pending.lookup id = some i ∧ responseId response ≠ some id) : Inv s' := by
  have hget : ∀ {i : Nat} {q}, s.requests[i]? = some q → s'.requests[i]? = some (q.note response) := by
    intro i q hq
    rw [hrequests, List.getElem?_map, hq]
    rfl
  refine ⟨fun i q hq => ?_, fun id i hi => ?_, fun i r hi => ?_⟩
  · rw [hrequests, List.getElem?_map] at hq
    obtain ⟨p, hp, rfl⟩ := Option.map_eq_some_iff.1 hq
    exact sound_note (h.sound i p hp) response
  · obtain ⟨hold, hother⟩ := hpending id i hi
    obtain ⟨p, hp, rfl, hrest⟩ := h.waits id i hold
    refine ⟨p, ?_, rfl, hrest⟩
    rw [hget hp, note_same hother]
  · rcases htaken i r hi with hold | hnew
    · obtain ⟨p, hp, hhead⟩ := h.takes i r hold
      exact ⟨_, hget hp, head?_note hhead⟩
    · exact hnew

theorem inv_answer (h : Inv s) (response : RpcResponse) : Inv (s.answer response) := by
  rw [State.answer]
  split
  next hid =>
    refine inv_noted h rfl (fun _ _ hx => Or.inl hx) fun id i hi => ⟨hi, ?_⟩
    rw [hid]
    exact (Option.some_ne_none id).symm
  next k hid =>
    split
    next hnone =>
      refine inv_noted h rfl (fun _ _ hx => Or.inl hx) fun id i hi => ⟨hi, fun hsame => ?_⟩
      cases hid.symm.trans hsame
      rw [hnone] at hi
      cases hi
    next i hi =>
      refine inv_noted h rfl (fun j r hx => ?_) fun id j hj => ?_
      · rcases List.mem_append.1 hx with hold | hnew
        · exact Or.inl hold
        · cases List.mem_singleton.1 hnew
          -- the sender of a request that has had no response goes with this one
          obtain ⟨q, hq, hqid, hreg, _, harrivals⟩ := h.waits k i hi
          refine Or.inr ⟨q.note response, ?_, ?_⟩
          · show (s.requests.map _)[i]? = _
            rw [List.getElem?_map, hq]
            rfl
          · rw [Request.note, if_pos ⟨hreg, hqid ▸ hid⟩, harrivals]
            rfl
      · obtain ⟨hne, hold⟩ := lookup_erase.1 hj
        refine ⟨hold, fun hsame => hne ?_⟩
        exact Option.some.inj (hsame.symm.trans hid)

theorem receive_cases (q : Request) (response : RpcResponse) :
    q.receive response = q ∨ (q.listening = true ∧
      q.receive response = { q with inbox := some response }) := by
  rw [Request.receive]
  split
  next hlistening => exact Or.inr ⟨hlistening, rfl⟩
  next => exact Or.inl rfl

theorem inv_deliver (h : Inv s) (n : Nat) : Inv (s.deliver n) := by
  rw [State.deliver]
  split
  next => exact h
  next i response htaken =>
    split
    next => exact h
    next q hq =>
      obtain ⟨p, hp, hhead⟩ := h.takes i response (List.mem_of_getElem? htaken)
      cases hq.symm.trans hp
      have hs := h.sound i q hq
      have hlater : ∀ id j, s.pending.lookup id = some j → j ≠ i := by
        refine h.no_entry hq fun _ _ _ harrivals => ?_
        rw [harrivals] at hhead
        cases hhead
      have hsound : Sound (q.receive response) ∧ (q.receive response).arrivals = q.arrivals := by
        rcases receive_cases q response with hsame | ⟨hlistening, hreceived⟩
        · rw [hsame]
          exact ⟨hs, rfl⟩
        · rw [hreceived]
          refine ⟨⟨fun hphase => ?_, hs.ids, fun r hr => ?_, hs.own, hs.result⟩, rfl⟩
          · rw [Request.listening, show q.phase = .registering from hphase] at hlistening
            cases hlistening
          · cases hr
            exact hhead
      exact h.update hq rfl (fun _ hx => List.mem_of_mem_eraseIdx hx) hsound.1 hsound.2
        fun id j hj => Or.inr ⟨hlater id j hj, hj⟩

theorem inv_request (h : Inv s) {method : String} {params : Node} :
    Inv (step lib s (.request method params)) := by
  have hget : ∀ {i : Nat} {q}, s.requests[i]? = some q →
      (step lib s (.request method params)).requests[i]? = some q := by
    intro i q hq
    obtain ⟨hlt, _⟩ := List.getElem?_eq_some_iff.1 hq
    exact (List.getElem?_append_left hlt).trans hq
  refine ⟨fun i q hq => ?_, fun id i hi => ?_, fun i r hi => ?_⟩
  · by_cases hlt : i < s.requests.length
    · exact h.sound i q ((List.getElem?_append_left hlt).symm.trans hq)
    · have hnew := (List.getElem?_append_right (Nat.not_lt.1 hlt)).symm.trans hq
      have hmem := List.mem_of_getElem? hnew
      cases List.mem_singleton.1 hmem
      refine ⟨fun _ => ⟨rfl, rfl⟩, fun r hr => ?_, fun r hr => ?_, fun m hm => ?_, fun r hr => ?_⟩
      · cases hr
      · cases hr
      · cases hm
      · cases hr
  · obtain ⟨q, hq, hrest⟩ := h.waits id i hi
    exact ⟨q, hget hq, hrest⟩
  · obtain ⟨q, hq, hrest⟩ := h.takes i r hi
    exact ⟨q, hget hq, hrest⟩

theorem inv_atRequest (h : Inv s) {f : Request → State}
    (hf : ∀ q, s.requests[i]? = some q → Inv (f q)) : Inv (s.atRequest i f) := by
  rw [State.atRequest]
  split
  next => exact h
  next q hq => exact hf q hq

end Updates

theorem inv_step (lib : SerdeJson) (s : State) (a : Action) (h : Inv s) : Inv (step lib s a) := by
  cases a with
  | request method params => exact inv_request h
  | register i => exact inv_atRequest h fun q hq => inv_register h hq
  | send i => exact inv_atRequest h fun q hq => inv_send h hq
  | poll i elapsed => exact inv_atRequest h fun q hq => inv_poll h hq
  | forget i => exact inv_atRequest h fun q hq => inv_forget h hq
  | answer response => exact inv_answer h response
  | deliver n => exact inv_deliver h n
  | close => exact ⟨h.sound, h.waits, h.takes⟩

/-! ## A request returns once -/

section Returned

variable {lib : SerdeJson} {s s' : State} {i : Nat} {q : Request} {result : Except String Node}

/-- A request has returned with a result. -/
def Returned (s : State) (i : Nat) (result : Except String Node) : Prop :=
  ∃ q, s.requests[i]? = some q ∧ q.phase = .finished result

theorem returned_put {j : Nat} {p p' : Request} (hp : s.requests[j]? = some p)
    (hopen : ∀ result, p.phase ≠ .finished result)
    (hrequests : s'.requests = s.requests.set j p') (h : Returned s i result) :
    Returned s' i result := by
  obtain ⟨q, hq, hphase⟩ := h
  refine ⟨q, ?_, hphase⟩
  rw [hrequests, getElem?_set_of_some hp]
  by_cases hij : i = j
  · subst hij
    cases hp.symm.trans hq
    exact absurd hphase (hopen result)
  · rw [if_neg hij, hq]

theorem open_of_phase {phase : Phase} (hphase : q.phase = phase)
    (hopen : ∀ result, phase ≠ .finished result) : ∀ result, q.phase ≠ .finished result :=
  fun result h => hopen result (hphase.symm.trans h)

theorem returned_atRequest {j : Nat} {f : Request → State}
    (hf : ∀ p, s.requests[j]? = some p → f p = s ∨
      (∀ result, p.phase ≠ .finished result) ∧ ∃ p', (f p).requests = s.requests.set j p')
    (h : Returned s i result) : Returned (s.atRequest j f) i result := by
  rw [State.atRequest]
  split
  next => exact h
  next p hp =>
    rcases hf p hp with hsame | ⟨hopen, p', hrequests⟩
    · rw [hsame]
      exact h
    · exact returned_put hp hopen hrequests h

theorem register_eq (s : State) (i : Nat) (q : Request) : s.register i q = s ∨
    (∀ result, q.phase ≠ .finished result) ∧
      ∃ q', (s.register i q).requests = s.requests.set i q' := by
  rw [State.register]
  split
  next hphase =>
    refine Or.inr ⟨open_of_phase hphase fun _ h => ?_, _, rfl⟩
    cases h
  next => exact Or.inl rfl

theorem send_eq (s : State) (i : Nat) (q : Request) : s.send lib i q = s ∨
    (∀ result, q.phase ≠ .finished result) ∧
      ∃ q', (s.send lib i q).requests = s.requests.set i q' := by
  rw [State.send]
  split
  next hphase =>
    refine Or.inr ⟨open_of_phase hphase fun _ h => ?_, ?_⟩
    · cases h
    · split
      · exact ⟨_, rfl⟩
      · exact ⟨_, rfl⟩
  next => exact Or.inl rfl

theorem poll_eq (s : State) (i : Nat) (elapsed : Bool) (q : Request) : s.poll i elapsed q = s ∨
    (∀ result, q.phase ≠ .finished result) ∧
      ∃ q', (s.poll i elapsed q).requests = s.requests.set i q' := by
  rw [State.poll]
  split
  next hphase =>
    have hopen := open_of_phase (q := q) hphase fun _ h => by cases h
    split
    next => exact Or.inr ⟨hopen, _, rfl⟩
    next =>
      split
      · split
        · exact Or.inr ⟨hopen, _, rfl⟩
        · exact Or.inl rfl
      · exact Or.inr ⟨hopen, _, rfl⟩
  next => exact Or.inl rfl

theorem forget_eq (s : State) (i : Nat) (q : Request) : s.forget i q = s ∨
    (∀ result, q.phase ≠ .finished result) ∧
      ∃ q', (s.forget i q).requests = s.requests.set i q' := by
  rw [State.forget]
  split
  next message hphase =>
    refine Or.inr ⟨open_of_phase hphase fun _ h => ?_, _, rfl⟩
    cases h
  next => exact Or.inl rfl

theorem phase_note (response : RpcResponse) (q : Request) : (q.note response).phase = q.phase := by
  rcases note_cases q response with hsame | ⟨_, _, hnoted⟩
  · rw [hsame]
  · rw [hnoted]

theorem returned_answer {response : RpcResponse} (h : Returned s i result) :
    Returned (s.answer response) i result := by
  have hrequests : (s.answer response).requests = s.requests.map (Request.note response) := by
    rw [State.answer]
    split
    · rfl
    · split
      · rfl
      · rfl
  obtain ⟨q, hq, hphase⟩ := h
  refine ⟨q.note response, ?_, (phase_note response q).trans hphase⟩
  rw [hrequests, List.getElem?_map, hq]
  rfl

/-- Who has returned listens no more. -/
theorem returned_deliver {n : Nat} (h : Returned s i result) : Returned (s.deliver n) i result := by
  rw [State.deliver]
  split
  next => exact h
  next j response _ =>
    split
    next => exact h
    next p hp =>
      obtain ⟨q, hq, hphase⟩ := h
      refine ⟨q, ?_, hphase⟩
      show (s.requests.set j (p.receive response))[i]? = some q
      rw [getElem?_set_of_some hp]
      by_cases hij : i = j
      · subst hij
        cases hp.symm.trans hq
        rw [if_pos rfl]
        rcases receive_cases p response with hsame | ⟨hlistening, _⟩
        · rw [hsame]
        · rw [Request.listening, hphase] at hlistening
          cases hlistening
      · rw [if_neg hij, hq]

theorem returned_step (a : Action) (h : Returned s i result) :
    Returned (step lib s a) i result := by
  cases a with
  | request method params =>
      obtain ⟨q, hq, hphase⟩ := h
      obtain ⟨hlt, _⟩ := List.getElem?_eq_some_iff.1 hq
      exact ⟨q, (List.getElem?_append_left hlt).trans hq, hphase⟩
  | register j => exact returned_atRequest (fun p _ => register_eq s j p) h
  | send j => exact returned_atRequest (fun p _ => send_eq s j p) h
  | poll j elapsed => exact returned_atRequest (fun p _ => poll_eq s j elapsed p) h
  | forget j => exact returned_atRequest (fun p _ => forget_eq s j p) h
  | answer response => exact returned_answer h
  | deliver n => exact returned_deliver h
  | close => exact h

end Returned

/-- An entry belongs to a request that has not returned. -/
theorem Inv.pending_empty {s : State} (h : Inv s)
    (hall : ∀ q ∈ s.requests, ∃ result, q.phase = .finished result) (id : UInt64) :
    s.pending.lookup id = none := by
  cases hid : s.pending.lookup id with
  | none => rfl
  | some i =>
      obtain ⟨q, hq, _, hregistered, _⟩ := h.waits id i hid
      obtain ⟨result, hphase⟩ := hall q (List.mem_of_getElem? hq)
      rw [Request.registered, hphase] at hregistered
      cases hregistered

/-- **AN ANSWER REACHES ITS REQUEST**: in whatever order requests, timeouts, failures and
    answers come, a request returns an error of its own or what the first response with its
    id says, and returns once; no response with another id is delivered to it; and when all
    requests have returned, no id is registered. -/
theorem answers_reach_request (lib : SerdeJson) (run : List Action) :
    let s := Runs.exec (step lib) start run
    (∀ i result, Returned s i result → Own result ∨
      ∃ q r, s.requests[i]? = some q ∧ q.arrivals.head? = some r ∧ responseId r = some q.id ∧
        result = outcome r) ∧
    (∀ i result rest, Returned s i result → Returned (Runs.exec (step lib) s rest) i result) ∧
    (∀ q ∈ s.requests, ∀ r, q.inbox = some r → responseId r = some q.id) ∧
    ((∀ q ∈ s.requests, ∃ result, q.phase = .finished result) →
      ∀ id, s.pending.lookup id = none) := by
  have hinv : Inv (Runs.exec (step lib) start run) :=
    Runs.preserved (inv_step lib) run inv_start
  refine ⟨?_, ?_, ?_, hinv.pending_empty⟩
  · rintro i result ⟨q, hq, hphase⟩
    have hs := hinv.sound i q hq
    refine (hs.result result hphase).imp id ?_
    rintro ⟨r, hhead, hresult⟩
    exact ⟨q, r, hq, hhead, hs.ids r (List.mem_of_mem_head? hhead), hresult⟩
  · intro i result rest h
    exact @Runs.preserved _ _ (step lib) (Returned · i result) (fun _ a => returned_step a) _ rest h
  · intro q hq r hr
    obtain ⟨i, hi⟩ := List.mem_iff_getElem?.1 hq
    have hs := hinv.sound i q hi
    exact hs.ids r (List.mem_of_mem_head? (hs.inbox r hr))

end HostBridge

import Mathlib.Data.List.Perm.Basic
import Livtet.Lib.HexText
import Livtet.Lib.Runs
import Livtet.Pairing

/-! # Advertising — the phone's endpoint and its key file

    The phone's node id comes from a key in a file, which the first call that needs it
    writes. An advertisement binds an endpoint under this key, serves it, announces a
    record and enters both under the path of the file; a second call returns the node id
    of the entry. But the entry is looked up long before it is made, and the file is
    looked for before it is written, so calls that overlap can each go ahead.

    Where no two of them do, there is one identity, and what answers or is announced is in
    the entry or belongs to a call that is not over: but for the endpoints of calls that
    could not announce a record. Those are served on, and nothing stops them. -/

namespace SyncAdvertising

open HexText Runs
open SyncPairing (trim)

/-! ## One key path -/

/-- The secret key of an endpoint. -/
abbrev SecretKey := { b : List UInt8 // b.length = 32 }

inductive LivtetError
  | sync (message : String)
  | database (message : String)
deriving DecidableEq, Repr

/-- Where a call is; `advertises` tells an advertisement from a call that dials a peer.
    Past the key they have nothing in common. -/
inductive Call
  | checking
  | looking (advertises : Bool)
  | reading (advertises : Bool)
  | truncating (advertises : Bool) (key : SecretKey)
  | writing (advertises : Bool) (key : SecretKey)
  | binding (advertises : Bool) (key : SecretKey)
  | opening (endpoint : Nat) (nodeId : String)
  | serving (endpoint : Nat) (nodeId : String)
  | announcing (endpoint : Nat) (nodeId : String)
  | storing (endpoint record : Nat) (nodeId : String)
deriving DecidableEq

/-- `RunningAdvertisement`. -/
structure Host where
  nodeId : String
  endpoint : Nat
  record : Nat
deriving DecidableEq

/-- What the process and the disk have for one path. Endpoints and records are numbered
    as they come to be. -/
structure State where
  file : Option String
  /-- The entry of the path in `ADVERTISED`. -/
  host : Option Host
  calls : List Call
  /-- The endpoints that answer. -/
  answering : List Nat
  /-- The records that are announced. -/
  records : List Nat
  /-- The endpoints whose record could not be announced. -/
  stranded : List Nat
  /-- The node ids that calls came by, the last one first. -/
  identities : List String
  /-- What failed, the last one first. -/
  failures : List LivtetError
  nextId : Nat
deriving DecidableEq

def start (file : Option String) : State := ⟨file, none, [], [], [], [], [], [], 0⟩

/-- What a step of a call meets: the key that is generated, and the error, if it fails. -/
structure Outcome where
  key : SecretKey
  fails : Option String

/-- The key that a file holds. -/
def keyIn (encoded : String) : Option SecretKey :=
  match decode (trim encoded) with
  | none => none
  | some decoded => if h : decoded.length = 32 then some ⟨decoded, h⟩ else none

def State.key (s : State) : Option SecretKey := s.file.bind keyIn

section Steps

variable (path : String) (parent : Option String) (nodeOf : SecretKey → String)

namespace State

/-- The call goes on. -/
def resume (s : State) (i : Nat) (c : Call) : State := { s with calls := s.calls.set i c }

/-- The call is over. -/
def finish (s : State) (i : Nat) (nodeId : String) : State :=
  { s with calls := s.calls.eraseIdx i, identities := nodeId :: s.identities }

def fail (s : State) (i : Nat) (e : LivtetError) : State :=
  { s with calls := s.calls.eraseIdx i, failures := e :: s.failures }

/-- A new key, and the directory it goes to, if the path has one. -/
def create (s : State) (i : Nat) (o : Outcome) (advertises : Bool) : State :=
  match parent, o.fails with
  | some parent, some e => s.fail i (.sync ("could not create " ++ parent ++ ": " ++ e))
  | _, _ => s.resume i (.truncating advertises o.key)

/-- One step of `advertise_sync_device`, or of `connect`, and of `load_or_create_secret`
    in both. A file is empty before it is written. A call that fails drops the endpoint
    it bound, and that closes it; but one that is served is held by its accept loop. -/
def advance (s : State) (i : Nat) (o : Outcome) : Call → State
  | .checking =>
      match s.host with
      | some host => s.finish i host.nodeId
      | none => s.resume i (.looking true)
  | .looking advertises =>
      match s.file with
      | some _ => s.resume i (.reading advertises)
      | none => s.create parent i o advertises
  | .reading advertises =>
      match o.fails with
      | some e => s.fail i (.sync ("could not read " ++ path ++ ": " ++ e))
      | none =>
          match s.key with
          | some key => s.resume i (.binding advertises key)
          | none => s.fail i (.sync (path ++ " does not hold a 32-byte hex secret key"))
  | .truncating advertises key =>
      match o.fails with
      | some e => s.fail i (.sync ("could not write " ++ path ++ ": " ++ e))
      | none => { s with file := some "" }.resume i (.writing advertises key)
  | .writing advertises key =>
      match o.fails with
      | some e => s.fail i (.sync ("could not write " ++ path ++ ": " ++ e))
      | none => { s with file := some (encode key.1) }.resume i (.binding advertises key)
  | .binding advertises key =>
      match o.fails with
      | some e => s.fail i (.sync ("could not start the sync endpoint: " ++ e))
      | none =>
          if advertises then
            { s with nextId := s.nextId + 1 }.resume i (.opening s.nextId (nodeOf key))
          else s.finish i (nodeOf key)
  | .opening endpoint nodeId =>
      match o.fails with
      | some e => s.fail i (.database e)
      | none => s.resume i (.serving endpoint nodeId)
  | .serving endpoint nodeId =>
      { s with answering := endpoint :: s.answering }.resume i (.announcing endpoint nodeId)
  | .announcing endpoint nodeId =>
      match o.fails with
      | some e =>
          { s with stranded := endpoint :: s.stranded }.fail i
            (.sync ("could not advertise this device: " ++ e))
      | none =>
          { s with records := s.nextId :: s.records, nextId := s.nextId + 1 }.resume i
            (.storing endpoint s.nextId nodeId)
  | .storing endpoint record nodeId =>
      { s with host := some ⟨nodeId, endpoint, record⟩ }.finish i nodeId

/-- `stop_advertising_sync_device`. -/
def stop (s : State) : State :=
  match s.host with
  | none => s
  | some host =>
      { s with
        host := none
        records := s.records.filter (· ≠ host.record)
        answering := s.answering.filter (· ≠ host.endpoint) }

end State

inductive Action
  | advertise
  | connect
  | advance (i : Nat) (o : Outcome)
  | stop

def step (s : State) : Action → State
  | .advertise => { s with calls := s.calls ++ [.checking] }
  | .connect => { s with calls := s.calls ++ [.looking false] }
  | .advance i o =>
      match s.calls[i]? with
      | some c => s.advance path parent nodeOf i o c
      | none => s
  | .stop => s.stop

end Steps

/-! ## Calls that overlap -/

namespace Call

/-- An advertisement that found no entry. -/
def advertises : Call → Bool
  | .checking => false
  | .looking advertises => advertises
  | .reading advertises => advertises
  | .truncating advertises _ => advertises
  | .writing advertises _ => advertises
  | .binding advertises _ => advertises
  | .opening _ _ => true
  | .serving _ _ => true
  | .announcing _ _ => true
  | .storing _ _ _ => true

/-- A call that found no file, and has not written it. -/
def creates : Call → Bool
  | .truncating _ _ | .writing _ _ => true
  | _ => false

/-- The endpoint that a call serves. -/
def serves : Call → Option Nat
  | .announcing endpoint _ => some endpoint
  | .storing endpoint _ _ => some endpoint
  | _ => none

/-- The record that a call announced. -/
def record : Call → Option Nat
  | .storing _ record _ => some record
  | _ => none

/-- The node id that a call is about to come by. -/
def nodeId (nodeOf : SecretKey → String) : Call → Option String
  | .binding _ key => some (nodeOf key)
  | .opening _ nodeId => some nodeId
  | .serving _ nodeId => some nodeId
  | .announcing _ nodeId => some nodeId
  | .storing _ _ nodeId => some nodeId
  | _ => none

end Call

/-- A call goes ahead without an entry only while no other does, and without a file only
    while no other is writing it. -/
def Alone (s : State) : Action → Prop
  | .advance i _ =>
      (s.calls[i]? = some .checking → s.host = none → s.calls.countP Call.advertises = 0) ∧
        ∀ advertises, s.calls[i]? = some (.looking advertises) → s.file = none →
          s.calls.countP Call.creates = 0
  | _ => True

instance (s : State) : (a : Action) → Decidable (Alone s a)
  | .advance i _ => inferInstanceAs (Decidable
      ((s.calls[i]? = some .checking → s.host = none → s.calls.countP Call.advertises = 0) ∧
        ∀ advertises, s.calls[i]? = some (.looking advertises) → s.file = none →
          s.calls.countP Call.creates = 0))
  | .advertise | .connect | .stop => isTrue trivial

/-- What holds of the process while its calls do not overlap. -/
structure Kept (nodeOf : SecretKey → String) (s : State) : Prop where
  /-- Whatever node id is given or advertised is that of the key in the file. -/
  identity : ∀ node, node ∈ s.identities ∨ (∃ host, s.host = some host ∧ host.nodeId = node) →
    ∃ key, s.key = some key ∧ node = nodeOf key
  /-- What is in the entry is served and announced. -/
  entry : ∀ host, s.host = some host → host.endpoint ∈ s.answering ∧ host.record ∈ s.records
  /-- An endpoint that answers is in the entry, or its call is not over, or its record
      could not be announced. -/
  answering : ∀ e ∈ s.answering, (∃ host, s.host = some host ∧ host.endpoint = e) ∨
    (∃ c ∈ s.calls, c.serves = some e) ∨ e ∈ s.stranded
  announced : ∀ r ∈ s.records, (∃ host, s.host = some host ∧ host.record = r) ∨
    ∃ c ∈ s.calls, c.record = some r

/-! ## The invariant -/

section Invariant

variable {path : String} {parent : Option String} {nodeOf : SecretKey → String} {s s' : State}

/-- What holds of a call on its way. -/
structure Good (nodeOf : SecretKey → String) (s : State) (c : Call) : Prop where
  missing : ∀ advertises key, c = .truncating advertises key → s.file = none
  blank : ∀ advertises key, c = .writing advertises key → s.file = some ""
  coming : ∀ node, c.nodeId nodeOf = some node → ∃ key, s.key = some key ∧ node = nodeOf key
  served : ∀ e, c.serves = some e → e ∈ s.answering
  recorded : ∀ r, c.record = some r → r ∈ s.records

structure Inv (nodeOf : SecretKey → String) (s : State) : Prop extends Kept nodeOf s where
  one : s.calls.countP Call.advertises ≤ 1
  free : ∀ host, s.host = some host → s.calls.countP Call.advertises = 0
  creator : s.calls.countP Call.creates ≤ 1
  good : ∀ c ∈ s.calls, Good nodeOf s c

theorem inv_start (nodeOf : SecretKey → String) (file : Option String) : Inv nodeOf (start file) where
  identity := by
    rintro node (hmem | ⟨host, hhost, _⟩)
    · cases hmem
    · cases hhost
  entry := nofun
  answering := nofun
  announced := nofun
  one := Nat.zero_le 1
  free := nofun
  creator := Nat.zero_le 1
  good := nofun

/-- A key that was written is read back. -/
theorem keyIn_encode (key : SecretKey) : keyIn (encode key.1) = some key := by
  have hdigit : ∀ n, n < 16 → (digitChar n).isAlphanum = true := by decide
  have htrim : trim (encode key.1) = encode key.1 := by
    refine SyncPairing.trim_of_alphanum fun c hc => ?_
    rw [encode, String.toList_ofList] at hc
    obtain ⟨n, hn, rfl⟩ := isLowerHex_of_mem key.1 c hc
    exact hdigit n hn
  rw [keyIn, htrim, decode_encode]
  exact dif_pos key.2

variable {c c' : Call} {rest : List Call}

theorem key_write (s : State) (key : SecretKey) :
    ({ s with file := some (encode key.1) } : State).key = some key := by
  rw [State.key, Option.bind_some]
  exact keyIn_encode key

/-- The file as it was, and no less that answers or is announced. -/
theorem Good.mono (h : Good nodeOf s c) (hfile : s'.file = s.file)
    (hanswering : s.answering ⊆ s'.answering) (hrecords : s.records ⊆ s'.records) :
    Good nodeOf s' c where
  missing advertises key hc := hfile.trans (h.missing advertises key hc)
  blank advertises key hc := hfile.trans (h.blank advertises key hc)
  coming node hnode := by
    rw [State.key, hfile]
    exact h.coming node hnode
  served e he := hanswering (h.served e he)
  recorded r hr := hrecords (h.recorded r hr)

/-- The calls in another order. -/
theorem Inv.perm {calls : List Call} (h : Inv nodeOf s) (hperm : s.calls.Perm calls) :
    Inv nodeOf { s with calls } where
  identity := h.identity
  entry := h.entry
  answering e he := by
    refine (h.answering e he).imp_right fun hheld => hheld.imp_left ?_
    exact fun ⟨c, hc, hserves⟩ => ⟨c, hperm.mem_iff.1 hc, hserves⟩
  announced r hr := (h.announced r hr).imp_right fun ⟨c, hc, hrecord⟩ =>
    ⟨c, hperm.mem_iff.1 hc, hrecord⟩
  one := hperm.countP_eq Call.advertises ▸ h.one
  free host hhost := hperm.countP_eq Call.advertises ▸ h.free host hhost
  creator := hperm.countP_eq Call.creates ▸ h.creator
  good c hc := (h.good c (hperm.mem_iff.2 hc)).mono rfl (fun _ => id) fun _ => id

/-- Where one call meets what only one may, no other does. -/
theorem alone_of_count {p : Call → Bool} (hone : (c :: rest).countP p ≤ 1) (hc : p c = true) :
    rest.countP p = 0 := by
  rw [List.countP_cons_of_pos hc] at hone
  exact Nat.le_zero.1 (Nat.le_of_succ_le_succ hone)

/-- An advertisement is on its way only while there is no entry. -/
theorem Inv.noHost (h : Inv nodeOf { s with calls := c :: rest }) (hc : c.advertises = true) :
    s.host = none := by
  cases hhost : s.host with
  | none => rfl
  | some host => exact absurd hc (List.countP_eq_zero.1 (h.free host hhost) c List.mem_cons_self)

theorem countP_first {p : Call → Bool} (hnone : rest.countP p = 0) : (c :: rest).countP p ≤ 1 := by
  rw [List.countP_cons, hnone]
  split <;> omega

theorem countP_next {p : Call → Bool} {next : List Call} (hle : next.countP p ≤ [c].countP p) :
    (next ++ rest).countP p ≤ (c :: rest).countP p := by
  rw [List.countP_append, ← List.singleton_append, List.countP_append]
  exact Nat.add_le_add_right hle _

/-! ## One step -/

/-- A step of a call that serves nothing: `next` is what has become of it. -/
theorem Inv.quiet (h : Inv nodeOf { s with calls := c :: rest })
    (hidle : c.serves = none ∧ c.record = none) {next : List Call} {identities : List String}
    (failures : List LivtetError) (nextId : Nat)
    (hidentities : ∀ node ∈ identities,
      node ∈ s.identities ∨ ∃ key, s.key = some key ∧ node = nodeOf key)
    (hone : (next ++ rest).countP Call.advertises ≤ 1)
    (hfree : ∀ host, s.host = some host → next.countP Call.advertises = 0)
    (hcreator : (next ++ rest).countP Call.creates ≤ 1) (hnext : ∀ d ∈ next, Good nodeOf s d) :
    Inv nodeOf { s with calls := next ++ rest, identities, failures, nextId } where
  identity node hnode := by
    rcases hnode with hmem | hhost
    · rcases hidentities node hmem with hold | hknown
      · exact h.identity node (Or.inl hold)
      · exact hknown
    · exact h.identity node (Or.inr hhost)
  entry := h.entry
  answering e he := by
    rcases h.answering e he with hhost | ⟨d, hd, hserves⟩ | hstranded
    · exact Or.inl hhost
    · rcases List.mem_cons.1 hd with rfl | hd
      · cases hidle.1.symm.trans hserves
      · exact Or.inr (Or.inl ⟨d, List.mem_append_right next hd, hserves⟩)
    · exact Or.inr (Or.inr hstranded)
  announced r hr := by
    rcases h.announced r hr with hhost | ⟨d, hd, hrecord⟩
    · exact Or.inl hhost
    · rcases List.mem_cons.1 hd with rfl | hd
      · cases hidle.2.symm.trans hrecord
      · exact Or.inr ⟨d, List.mem_append_right next hd, hrecord⟩
  one := hone
  free host hhost := by
    have hold := h.free host hhost
    rw [List.countP_append, hfree host hhost, Nat.zero_add]
    exact Nat.le_zero.1 (hold ▸ (List.sublist_cons_self c rest).countP_le)
  creator := hcreator
  good d hd := by
    rcases List.mem_append.1 hd with hd | hd
    · exact (hnext d hd).mono rfl (fun _ => id) fun _ => id
    · exact (h.good d (List.mem_cons_of_mem c hd)).mono rfl (fun _ => id) fun _ => id

/-- A call that serves nothing is over. -/
theorem Inv.leave (h : Inv nodeOf { s with calls := c :: rest })
    (hidle : c.serves = none ∧ c.record = none) {identities : List String}
    (failures : List LivtetError) (nextId : Nat)
    (hidentities : ∀ node ∈ identities,
      node ∈ s.identities ∨ ∃ key, s.key = some key ∧ node = nodeOf key) :
    Inv nodeOf { s with calls := rest, identities, failures, nextId } := by
  have hquiet : Inv nodeOf { s with calls := [] ++ rest, identities, failures, nextId } :=
    h.quiet hidle failures nextId hidentities
      (Nat.le_trans (List.sublist_cons_self c rest).countP_le h.one) (fun _ _ => rfl)
      (Nat.le_trans (List.sublist_cons_self c rest).countP_le h.creator) (fun d hd => by cases hd)
  exact hquiet

/-- A call that serves nothing goes on, and asks for no more. -/
theorem Inv.goOn (h : Inv nodeOf { s with calls := c :: rest })
    (hidle : c.serves = none ∧ c.record = none) (nextId : Nat)
    (hadvertises : c'.advertises = c.advertises) (hcreates : c'.creates = false)
    (hgood : Good nodeOf s c') : Inv nodeOf { s with calls := c' :: rest, nextId } := by
  have hsame : [c'].countP Call.advertises = [c].countP Call.advertises := by
    rw [List.countP_singleton, List.countP_singleton, hadvertises]
  refine h.quiet hidle s.failures nextId (fun _ => Or.inl)
    (Nat.le_trans (countP_next hsame.le) h.one) (fun host hhost => ?_)
    (Nat.le_trans (countP_next ?_) h.creator) (List.forall_mem_singleton.2 hgood)
  · have hnone : (c :: rest).countP Call.advertises = 0 := h.free host hhost
    rw [hsame]
    exact Nat.le_zero.1 (hnone ▸ (List.singleton_sublist.2 List.mem_cons_self).countP_le)
  · rw [List.countP_singleton, hcreates]
    exact Nat.zero_le _

/-- While the file holds no key, no node id is known: so the file can be written. -/
theorem Inv.write (h : Inv nodeOf { s with calls := c :: rest })
    (hidle : c.serves = none ∧ c.record = none) (hcreates : c.creates = true) (hkey : s.key = none)
    {file : Option String} (hadvertises : c'.advertises = c.advertises)
    (hgood : Good nodeOf { s with file } c') : Inv nodeOf { s with file, calls := c' :: rest } := by
  have hnothing : ∀ node, ¬ ∃ key, s.key = some key ∧ node = nodeOf key := by
    rintro node ⟨key, hsome, _⟩
    cases hkey.symm.trans hsome
  have hothers := alone_of_count h.creator hcreates
  have hleft : Inv nodeOf { s with calls := rest } :=
    h.leave hidle s.failures s.nextId fun _ => Or.inl
  have hsame : [c'].countP Call.advertises = [c].countP Call.advertises := by
    rw [List.countP_singleton, List.countP_singleton, hadvertises]
  exact {
    identity := fun node hnode => absurd (h.identity node hnode) (hnothing node)
    entry := h.entry
    answering := fun e he => (hleft.answering e he).imp_right fun hheld => hheld.imp_left
      fun ⟨d, hd, hserves⟩ => ⟨d, List.mem_cons_of_mem c' hd, hserves⟩
    announced := fun r hr => (hleft.announced r hr).imp_right
      fun ⟨d, hd, hrecord⟩ => ⟨d, List.mem_cons_of_mem c' hd, hrecord⟩
    one := Nat.le_trans (countP_next hsame.le) h.one
    free := fun host hhost =>
      Nat.le_zero.1 ((countP_next hsame.le).trans (h.free host hhost).le)
    creator := countP_first hothers
    good := by
      refine List.forall_mem_cons.2 ⟨hgood.mono rfl (fun _ => id) fun _ => id, fun d hd => ?_⟩
      -- no other call looks at the file that is written
      have hd' := h.good d (List.mem_cons_of_mem c hd)
      have hcreates' : ¬ d.creates = true := List.countP_eq_zero.1 hothers d hd
      refine ⟨?_, ?_, fun node hnode => absurd (hd'.coming node hnode) (hnothing node), hd'.served,
        hd'.recorded⟩
      · rintro advertises key rfl
        exact absurd rfl hcreates'
      · rintro advertises key rfl
        exact absurd rfl hcreates' }

variable {e r : Nat} {node : String}

/-- An endpoint that is served answers, and its call has it. -/
theorem Inv.serve (h : Inv nodeOf { s with calls := .serving e node :: rest }) :
    Inv nodeOf { s with answering := e :: s.answering, calls := .announcing e node :: rest } where
  identity := h.identity
  entry host hhost := (h.entry host hhost).imp_left (List.mem_cons_of_mem e)
  answering e' he := by
    have hleft : Inv nodeOf { s with calls := rest } :=
      h.leave ⟨rfl, rfl⟩ s.failures s.nextId fun _ => Or.inl
    rcases List.mem_cons.1 he with rfl | he
    · exact Or.inr (Or.inl ⟨_, List.mem_cons_self, rfl⟩)
    · exact (hleft.answering e' he).imp_right fun hheld => hheld.imp_left
        fun ⟨d, hd, hserves⟩ => ⟨d, List.mem_cons_of_mem _ hd, hserves⟩
  announced r hr := by
    have hleft : Inv nodeOf { s with calls := rest } :=
      h.leave ⟨rfl, rfl⟩ s.failures s.nextId fun _ => Or.inl
    exact (hleft.announced r hr).imp_right
      fun ⟨d, hd, hrecord⟩ => ⟨d, List.mem_cons_of_mem _ hd, hrecord⟩
  one := h.one
  free := h.free
  creator := h.creator
  good := by
    refine List.forall_mem_cons.2 ⟨⟨nofun, nofun, (h.good _ List.mem_cons_self).coming, ?_, nofun⟩,
      fun d hd => (h.good d (List.mem_cons_of_mem _ hd)).mono rfl (List.subset_cons_self _ _)
        fun _ => id⟩
    intro e' he
    cases he
    exact List.mem_cons_self

/-- A record that is announced belongs to the call. -/
theorem Inv.announce (h : Inv nodeOf { s with calls := .announcing e node :: rest }) (nextId : Nat) :
    Inv nodeOf { s with records := r :: s.records, nextId, calls := .storing e r node :: rest } where
  identity := h.identity
  entry host hhost := (h.entry host hhost).imp_right (List.mem_cons_of_mem r)
  answering e' he := by
    rcases h.answering e' he with hhost | ⟨d, hd, hserves⟩ | hstranded
    · exact Or.inl hhost
    · rcases List.mem_cons.1 hd with rfl | hd
      · exact Or.inr (Or.inl ⟨_, List.mem_cons_self, hserves⟩)
      · exact Or.inr (Or.inl ⟨d, List.mem_cons_of_mem _ hd, hserves⟩)
    · exact Or.inr (Or.inr hstranded)
  announced r' hr := by
    rcases List.mem_cons.1 hr with rfl | hr
    · exact Or.inr ⟨_, List.mem_cons_self, rfl⟩
    · rcases h.announced r' hr with hhost | ⟨d, hd, hrecord⟩
      · exact Or.inl hhost
      · rcases List.mem_cons.1 hd with rfl | hd
        · cases hrecord
        · exact Or.inr ⟨d, List.mem_cons_of_mem _ hd, hrecord⟩
  one := h.one
  free := h.free
  creator := h.creator
  good := by
    have hcall := h.good _ List.mem_cons_self
    refine List.forall_mem_cons.2 ⟨⟨nofun, nofun, hcall.coming, hcall.served, ?_⟩,
      fun d hd => (h.good d (List.mem_cons_of_mem _ hd)).mono rfl (fun _ => id)
        (List.subset_cons_self _ _)⟩
    intro r' hr
    cases hr
    exact List.mem_cons_self

/-- An endpoint whose record cannot be announced is left to its accept loop. -/
theorem Inv.strand (h : Inv nodeOf { s with calls := .announcing e node :: rest })
    (failures : List LivtetError) :
    Inv nodeOf { s with stranded := e :: s.stranded, failures, calls := rest } where
  identity := h.identity
  entry := h.entry
  answering e' he := by
    rcases h.answering e' he with hhost | ⟨d, hd, hserves⟩ | hstranded
    · exact Or.inl hhost
    · rcases List.mem_cons.1 hd with rfl | hd
      · cases hserves
        exact Or.inr (Or.inr List.mem_cons_self)
      · exact Or.inr (Or.inl ⟨d, hd, hserves⟩)
    · exact Or.inr (Or.inr (List.mem_cons_of_mem e hstranded))
  announced r hr := by
    rcases h.announced r hr with hhost | ⟨d, hd, hrecord⟩
    · exact Or.inl hhost
    · rcases List.mem_cons.1 hd with rfl | hd
      · cases hrecord
      · exact Or.inr ⟨d, hd, hrecord⟩
  one := Nat.le_trans (List.sublist_cons_self _ rest).countP_le h.one
  free host hhost := Nat.le_zero.1
    (Nat.le_trans (List.sublist_cons_self _ rest).countP_le (h.free host hhost).le)
  creator := Nat.le_trans (List.sublist_cons_self _ rest).countP_le h.creator
  good d hd := (h.good d (List.mem_cons_of_mem _ hd)).mono rfl (fun _ => id) fun _ => id

/-- What a call served and announced becomes the entry; there was none. -/
theorem Inv.store (h : Inv nodeOf { s with calls := .storing e r node :: rest }) :
    Inv nodeOf { s with
      host := some ⟨node, e, r⟩, identities := node :: s.identities, calls := rest } where
  identity node' hnode := by
    have hcoming := (h.good _ List.mem_cons_self).coming node rfl
    rcases hnode with hmem | ⟨host, hhost, rfl⟩
    · rcases List.mem_cons.1 hmem with rfl | hmem
      · exact hcoming
      · exact h.identity node' (Or.inl hmem)
    · cases hhost
      exact hcoming
  entry host hhost := by
    have hcall := h.good _ List.mem_cons_self
    cases hhost
    exact ⟨hcall.served e rfl, hcall.recorded r rfl⟩
  answering e' he := by
    rcases h.answering e' he with ⟨host, hhost, _⟩ | ⟨d, hd, hserves⟩ | hstranded
    · cases (h.noHost rfl).symm.trans hhost
    · rcases List.mem_cons.1 hd with rfl | hd
      · exact Or.inl ⟨_, rfl, Option.some.inj hserves⟩
      · exact Or.inr (Or.inl ⟨d, hd, hserves⟩)
    · exact Or.inr (Or.inr hstranded)
  announced r' hr := by
    rcases h.announced r' hr with ⟨host, hhost, _⟩ | ⟨d, hd, hrecord⟩
    · cases (h.noHost rfl).symm.trans hhost
    · rcases List.mem_cons.1 hd with rfl | hd
      · exact Or.inl ⟨_, rfl, Option.some.inj hrecord⟩
      · exact Or.inr ⟨d, hd, hrecord⟩
  one := Nat.le_trans (List.sublist_cons_self _ rest).countP_le h.one
  free host hhost := alone_of_count h.one rfl
  creator := Nat.le_trans (List.sublist_cons_self _ rest).countP_le h.creator
  good d hd := (h.good d (List.mem_cons_of_mem _ hd)).mono rfl (fun _ => id) fun _ => id

theorem advertises_of_serves (h : c.serves = some e) : c.advertises = true := by
  cases c <;> first | rfl | cases h

theorem advertises_of_record (h : c.record = some r) : c.advertises = true := by
  cases c <;> first | rfl | cases h

/-- Nothing is on its way while there is an entry, so what stops is all of it. -/
theorem Inv.stop (h : Inv nodeOf s) : Inv nodeOf s.stop := by
  rw [State.stop]
  cases hhost : s.host with
  | none => exact h
  | some host =>
      have hquiet := List.countP_eq_zero.1 (h.free host hhost)
      exact {
        identity := by
          rintro node (hmem | ⟨_, hnone, _⟩)
          · exact h.identity node (Or.inl hmem)
          · cases hnone
        entry := nofun
        answering := by
          intro e he
          obtain ⟨he, hne⟩ := List.mem_filter.1 he
          rcases h.answering e he with ⟨host', hhost', rfl⟩ | hheld
          · cases hhost.symm.trans hhost'
            exact absurd rfl (of_decide_eq_true hne)
          · exact Or.inr hheld
        announced := by
          intro r hr
          obtain ⟨hr, hne⟩ := List.mem_filter.1 hr
          rcases h.announced r hr with ⟨host', hhost', rfl⟩ | hheld
          · cases hhost.symm.trans hhost'
            exact absurd rfl (of_decide_eq_true hne)
          · exact Or.inr hheld
        one := h.one
        free := nofun
        creator := h.creator
        good := by
          intro c hc
          have hgood := h.good c hc
          refine ⟨hgood.missing, hgood.blank, hgood.coming, fun e he => ?_, fun r hr => ?_⟩
          · exact absurd (advertises_of_serves he) (hquiet c hc)
          · exact absurd (advertises_of_record hr) (hquiet c hc) }

/-- A step as the calls are numbered: the one that goes on keeps its place. -/
theorem Inv.resumed {i : Nat} (hlt : i < s.calls.length)
    (h : Inv nodeOf { s with calls := c' :: s.calls.eraseIdx i }) : Inv nodeOf (s.resume i c') :=
  h.perm (List.set_perm_cons_eraseIdx hlt c').symm

/-- A call that begins. -/
theorem Inv.enter (h : Inv nodeOf s) (hadvertises : c.advertises = false)
    (hcreates : c.creates = false) (hgood : Good nodeOf s c) :
    Inv nodeOf { s with calls := s.calls ++ [c] } where
  identity := h.identity
  entry := h.entry
  answering e he := (h.answering e he).imp_right fun hheld => hheld.imp_left
    fun ⟨d, hd, hserves⟩ => ⟨d, List.mem_append_left [c] hd, hserves⟩
  announced r hr := (h.announced r hr).imp_right
    fun ⟨d, hd, hrecord⟩ => ⟨d, List.mem_append_left [c] hd, hrecord⟩
  one := by
    rw [List.countP_append, List.countP_singleton, hadvertises]
    exact h.one
  free host hhost := by
    rw [List.countP_append, List.countP_singleton, hadvertises]
    exact h.free host hhost
  creator := by
    rw [List.countP_append, List.countP_singleton, hcreates]
    exact h.creator
  good d hd := by
    rcases List.mem_append.1 hd with hd | hd
    · exact (h.good d hd).mono rfl (fun _ => id) fun _ => id
    · cases List.mem_singleton.1 hd
      exact hgood.mono rfl (fun _ => id) fun _ => id

/-- The first call that finds neither an entry nor another one that found none. -/
theorem Inv.begin (h : Inv nodeOf { s with calls := .checking :: rest }) (hhost : s.host = none)
    (halone : rest.countP Call.advertises = 0) :
    Inv nodeOf { s with calls := .looking true :: rest } := by
  have hquiet : Inv nodeOf { s with calls := [.looking true] ++ rest } :=
    h.quiet ⟨rfl, rfl⟩ s.failures s.nextId (fun _ => Or.inl)
      (countP_first halone) (fun host hsome => by cases hhost.symm.trans hsome) h.creator
      (List.forall_mem_singleton.2 ⟨nofun, nofun, nofun, nofun, nofun⟩)
  exact hquiet

/-- The first call that finds neither a file nor another one that found none. -/
theorem Inv.create {advertises : Bool} {key : SecretKey}
    (h : Inv nodeOf { s with calls := .looking advertises :: rest }) (hfile : s.file = none)
    (halone : rest.countP Call.creates = 0) :
    Inv nodeOf { s with calls := .truncating advertises key :: rest } := by
  have hone : [Call.truncating advertises key].countP Call.advertises =
      [Call.looking advertises].countP Call.advertises := by
    rw [List.countP_singleton, List.countP_singleton, Call.advertises, Call.advertises]
  have hquiet : Inv nodeOf { s with calls := [.truncating advertises key] ++ rest } :=
    h.quiet ⟨rfl, rfl⟩ s.failures s.nextId (fun _ => Or.inl)
      (Nat.le_trans (countP_next hone.le) h.one)
      (fun host hhost => Nat.le_zero.1 (hone ▸ h.free host hhost ▸
        (List.singleton_sublist.2 List.mem_cons_self).countP_le))
      (countP_first halone)
      (List.forall_mem_singleton.2 ⟨fun _ _ _ => hfile, nofun, nofun, nofun, nofun⟩)
  exact hquiet

/-- A node id that a call comes by is that of the key in the file. -/
theorem known_cons {node : String} {identities : List String}
    (hknown : ∃ key, s.key = some key ∧ node = nodeOf key) (hsub : identities ⊆ s.identities) :
    ∀ n ∈ node :: identities, n ∈ s.identities ∨ ∃ key, s.key = some key ∧ n = nodeOf key :=
  List.forall_mem_cons.2 ⟨Or.inr hknown, fun _ hn => Or.inl (hsub hn)⟩

/-- A call that serves nothing fails. -/
theorem Inv.failed {i : Nat} (h : Inv nodeOf { s with calls := c :: s.calls.eraseIdx i })
    (hidle : c.serves = none ∧ c.record = none) (e : LivtetError) : Inv nodeOf (s.fail i e) :=
  h.leave hidle (e :: s.failures) s.nextId fun _ => Or.inl

section Advance

variable {i : Nat} {o : Outcome} (hlt : i < s.calls.length)
include hlt

theorem Inv.checking (h : Inv nodeOf { s with calls := .checking :: s.calls.eraseIdx i })
    (halone : s.host = none → (s.calls.eraseIdx i).countP Call.advertises = 0) :
    Inv nodeOf (s.advance path parent nodeOf i o .checking) := by
  rw [State.advance]
  cases hhost : s.host with
  | some host =>
      exact h.leave ⟨rfl, rfl⟩ s.failures s.nextId
        (known_cons (h.identity _ (Or.inr ⟨host, hhost, rfl⟩)) fun _ => id)
  | none => exact Inv.resumed hlt (h.begin hhost (halone hhost))

theorem Inv.looking {advertises : Bool}
    (h : Inv nodeOf { s with calls := .looking advertises :: s.calls.eraseIdx i })
    (halone : s.file = none → (s.calls.eraseIdx i).countP Call.creates = 0) :
    Inv nodeOf (s.advance path parent nodeOf i o (.looking advertises)) := by
  rw [State.advance]
  cases hfile : s.file with
  | some text =>
      exact Inv.resumed hlt
        (h.goOn ⟨rfl, rfl⟩ s.nextId rfl rfl ⟨nofun, nofun, nofun, nofun, nofun⟩)
  | none =>
      show Inv nodeOf (s.create parent i o advertises)
      unfold State.create
      split
      · exact h.failed ⟨rfl, rfl⟩ _
      · exact Inv.resumed hlt (h.create hfile (halone hfile))

theorem Inv.reading {advertises : Bool}
    (h : Inv nodeOf { s with calls := .reading advertises :: s.calls.eraseIdx i }) :
    Inv nodeOf (s.advance path parent nodeOf i o (.reading advertises)) := by
  rw [State.advance]
  cases o.fails with
  | some e => exact h.failed ⟨rfl, rfl⟩ _
  | none =>
      cases hkey : s.key with
      | none => exact h.failed ⟨rfl, rfl⟩ _
      | some key =>
          refine Inv.resumed hlt (h.goOn ⟨rfl, rfl⟩ s.nextId rfl rfl
            ⟨nofun, nofun, fun node hnode => ?_, nofun, nofun⟩)
          exact ⟨key, hkey, (Option.some.inj hnode).symm⟩

theorem Inv.truncating {advertises : Bool} {key : SecretKey}
    (h : Inv nodeOf { s with calls := .truncating advertises key :: s.calls.eraseIdx i })
    (hnone : s.key = none) :
    Inv nodeOf (s.advance path parent nodeOf i o (.truncating advertises key)) := by
  rw [State.advance]
  cases o.fails with
  | some e => exact h.failed ⟨rfl, rfl⟩ _
  | none =>
      exact Inv.resumed hlt (h.write ⟨rfl, rfl⟩ rfl hnone rfl
        ⟨nofun, fun _ _ _ => rfl, nofun, nofun, nofun⟩)

theorem Inv.writing {advertises : Bool} {key : SecretKey}
    (h : Inv nodeOf { s with calls := .writing advertises key :: s.calls.eraseIdx i })
    (hnone : s.key = none) :
    Inv nodeOf (s.advance path parent nodeOf i o (.writing advertises key)) := by
  rw [State.advance]
  cases o.fails with
  | some e => exact h.failed ⟨rfl, rfl⟩ _
  | none =>
      refine Inv.resumed hlt (h.write ⟨rfl, rfl⟩ rfl hnone rfl
        ⟨nofun, nofun, fun node hnode => ?_, nofun, nofun⟩)
      exact ⟨key, key_write s key, (Option.some.inj hnode).symm⟩

theorem Inv.binding {advertises : Bool} {key : SecretKey}
    (h : Inv nodeOf { s with calls := .binding advertises key :: s.calls.eraseIdx i })
    (hknown : ∃ k, s.key = some k ∧ nodeOf key = nodeOf k) :
    Inv nodeOf (s.advance path parent nodeOf i o (.binding advertises key)) := by
  rw [State.advance]
  cases o.fails with
  | some e => exact h.failed ⟨rfl, rfl⟩ _
  | none =>
      cases advertises with
      | true =>
          refine Inv.resumed hlt (h.goOn ⟨rfl, rfl⟩ (s.nextId + 1) rfl rfl
            ⟨nofun, nofun, fun node hnode => ?_, nofun, nofun⟩)
          exact Option.some.inj hnode ▸ hknown
      | false => exact h.leave ⟨rfl, rfl⟩ s.failures s.nextId (known_cons hknown fun _ => id)

end Advance

/-- While a call is writing the file there is no key in it. -/
theorem Good.noKey (h : Good nodeOf s c) (hcreates : c.creates = true) : s.key = none := by
  cases c with
  | truncating advertises key => rw [State.key, h.missing advertises key rfl]; rfl
  | writing advertises key => rw [State.key, h.blank advertises key rfl]; rfl
  | _ => cases hcreates

/-- One step of a call, a case for each place it can be at. -/
theorem Inv.advance {i : Nat} {o : Outcome} (h : Inv nodeOf s) (hi : s.calls[i]? = some c)
    (halone : Alone s (.advance i o)) : Inv nodeOf (s.advance path parent nodeOf i o c) := by
  obtain ⟨hlt, hget⟩ := List.getElem?_eq_some_iff.1 hi
  have hperm : s.calls.Perm (c :: s.calls.eraseIdx i) :=
    hget ▸ (List.getElem_cons_eraseIdx_perm hlt).symm
  have hcall : Inv nodeOf { s with calls := c :: s.calls.eraseIdx i } := h.perm hperm
  have hgood : Good nodeOf s c := h.good c (List.mem_of_getElem? hi)
  have hothers : ∀ p : Call → Bool, s.calls.countP p = 0 → (s.calls.eraseIdx i).countP p = 0 :=
    fun p hnone => Nat.le_zero.1 (hnone ▸ (List.eraseIdx_sublist s.calls i).countP_le)
  cases c with
  | checking => exact hcall.checking hlt fun hhost => hothers _ (halone.1 hi hhost)
  | looking advertises =>
      exact hcall.looking hlt fun hfile => hothers _ (halone.2 advertises hi hfile)
  | reading advertises => exact hcall.reading hlt
  | truncating advertises key => exact hcall.truncating hlt (hgood.noKey rfl)
  | writing advertises key => exact hcall.writing hlt (hgood.noKey rfl)
  | binding advertises key => exact hcall.binding hlt (hgood.coming (nodeOf key) rfl)
  | opening endpoint nodeId =>
      rw [State.advance]
      cases o.fails with
      | some e => exact hcall.failed ⟨rfl, rfl⟩ _
      | none =>
          exact Inv.resumed hlt (hcall.goOn ⟨rfl, rfl⟩ s.nextId rfl rfl
            ⟨nofun, nofun, hgood.coming, nofun, nofun⟩)
  | serving endpoint nodeId => exact Inv.resumed hlt hcall.serve
  | announcing endpoint nodeId =>
      rw [State.advance]
      cases o.fails with
      | some e => exact hcall.strand _
      | none => exact Inv.resumed hlt (hcall.announce (s.nextId + 1))
  | storing endpoint record nodeId => exact hcall.store

theorem inv_step (a : Action) (h : Inv nodeOf s) (halone : Alone s a) :
    Inv nodeOf (step path parent nodeOf s a) := by
  cases a with
  | advertise => exact h.enter rfl rfl ⟨nofun, nofun, nofun, nofun, nofun⟩
  | connect => exact h.enter rfl rfl ⟨nofun, nofun, nofun, nofun, nofun⟩
  | stop => exact h.stop
  | advance i o =>
      rw [step]
      cases hi : s.calls[i]? with
      | none => exact h
      | some c => exact h.advance hi halone

/-- Only what found no file writes it. -/
theorem file_advance {i : Nat} {o : Outcome} (hcreates : c.creates = false) :
    (s.advance path parent nodeOf i o c).file = s.file := by
  cases c with
  | truncating | writing => cases hcreates
  | serving | storing => rfl
  | looking advertises =>
      rw [State.advance]
      split
      · rfl
      · unfold State.create
        split <;> rfl
  | _ =>
      rw [State.advance]
      repeat' split
      all_goals rfl

/-- A key in the file stays. -/
theorem key_step (a : Action) (h : Inv nodeOf s) {key : SecretKey} (hkey : s.key = some key) :
    (step path parent nodeOf s a).key = some key := by
  cases a with
  | advertise | connect => exact hkey
  | stop =>
      rw [step, State.stop]
      cases s.host with
      | none => exact hkey
      | some host => exact hkey
  | advance i o =>
      rw [step]
      cases hi : s.calls[i]? with
      | none => exact hkey
      | some c =>
          have hcreates : c.creates = false := by
            refine Bool.eq_false_iff.2 fun hcreates => ?_
            cases ((h.good c (List.mem_of_getElem? hi)).noKey hcreates).symm.trans hkey
          show (s.advance path parent nodeOf i o c).key = some key
          rw [State.key, file_advance hcreates]
          exact hkey

end Invariant

/-- A step that does not fail. -/
def goes (key : SecretKey) : Outcome := ⟨key, none⟩

def keyOf (b : UInt8) : SecretKey := ⟨List.replicate 32 b, List.length_replicate⟩

/-- A first advertisement, and a second one that finds it. -/
def advertisedTwice : List Action :=
  .advertise :: List.replicate 9 (.advance 0 (goes (keyOf 7))) ++
    [.advertise, .advance 0 (goes (keyOf 8))]

/-- Where calls overlap, each can make a key, and the last one stays in the file. -/
example : (exec (step "key" none fun key => encode key.1) (start none)
    ([.connect, .connect, .advance 0 (goes (keyOf 7)), .advance 1 (goes (keyOf 8))] ++
      List.replicate 3 (.advance 0 (goes (keyOf 7))) ++
      List.replicate 3 (.advance 0 (goes (keyOf 8))))).identities =
        [encode (keyOf 8).1, encode (keyOf 7).1] := rfl

end SyncAdvertising

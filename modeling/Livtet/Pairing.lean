import Mathlib.Data.List.MinMax
import Livtet.Lib.Maps
import Livtet.Lib.Runs
import Livtet.Store

/-! # Pairing — claims, decisions and tokens

    A node files a claim and polls for the answer. Approving it mints a session
    token, which is written to the paired device's row, remembered under the
    claim's secret for the polls, and checked on every later request.

    Nothing asks whether the claim was decided before. A second approval replaces
    the token on the row while the first one is still what a poll is told, so the
    told token works as long as no claim is approved for a device whose approval is
    still remembered. -/

namespace SyncPairing

open SyncStore Maps

/-! ## Ids, times and texts -/

/-- `DbId` and `Ulid`: sixteen bytes. -/
abbrev DbId := { b : List UInt8 // b.length = 16 }

def DbId.ofBytes? (b : List UInt8) : Option DbId := if h : b.length = 16 then some ⟨b, h⟩ else none

theorem length_sixteen (n : UInt8) : (List.replicate 16 n).length = 16 := List.length_replicate

def DbId.text (env : Env) (id : DbId) : String := env.ulidText id.val

theorem DbId.text_injective (env : Env) {a b : DbId} (h : a.text env = b.text env) : a = b := by
  have ha := env.ulidParse_text a.val a.property
  have hb := env.ulidParse_text b.val b.property
  rw [DbId.text, DbId.text] at h
  rw [h, hb] at ha
  exact Subtype.ext (Option.some.inj ha).symm

/-- `parse_id`: ULID text, else hex. -/
def parseId (env : Env) (raw : String) : Option DbId :=
  ((env.ulidParse raw).or (fromHex raw)).bind DbId.ofBytes?

/-- Nanoseconds of the monotonic clock. -/
abbrev Instant := Nat

def pairDecisionTtl : Nat := 300 * 10 ^ 9
def pairDecisionCap : Nat := 256

/-- The `White_Space` characters of Unicode. -/
def isWhitespace (c : Char) : Bool :=
  (9 ≤ c.toNat && c.toNat ≤ 13) || (0x2000 ≤ c.toNat && c.toNat ≤ 0x200A)
    || [0x20, 0x85, 0xA0, 0x1680, 0x2028, 0x2029, 0x202F, 0x205F, 0x3000].contains c.toNat

/-- `str::trim`. -/
def trim (s : String) : String :=
  String.ofList ((s.toList.dropWhile isWhitespace).reverse.dropWhile isWhitespace).reverse

theorem isAlphanum_iff {c : Char} : c.isAlphanum = true ↔
    (65 ≤ c.val.toNat ∧ c.val.toNat ≤ 90) ∨ (97 ≤ c.val.toNat ∧ c.val.toNat ≤ 122) ∨
      48 ≤ c.val.toNat ∧ c.val.toNat ≤ 57 := by
  have hrange : ∀ low high : UInt32, (decide (c.val ≥ low) && decide (c.val ≤ high)) = true ↔
      low.toNat ≤ c.val.toNat ∧ c.val.toNat ≤ high.toNat := by
    intro low high
    rw [Bool.and_eq_true, decide_eq_true_eq, decide_eq_true_eq]
    rfl
  have hupper : c.isUpper = true ↔ 65 ≤ c.val.toNat ∧ c.val.toNat ≤ 90 := decide_eq_true_iff
  have hlower : c.isLower = true ↔ 97 ≤ c.val.toNat ∧ c.val.toNat ≤ 122 := hrange 97 122
  have hdigit : c.isDigit = true ↔ 48 ≤ c.val.toNat ∧ c.val.toNat ≤ 57 := hrange 48 57
  show ((c.isUpper || c.isLower) || c.isDigit) = true ↔ _
  rw [Bool.or_eq_true, Bool.or_eq_true, or_assoc, hupper, hlower, hdigit]

/-- A capital is shifted to its small letter, and no other character is changed. -/
theorem toLower_cases (c : Char) : c.toLower = c ∨
    65 ≤ c.val.toNat ∧ c.val.toNat ≤ 90 ∧ c.toLower.val.toNat = c.val.toNat + 32 := by
  by_cases hupper : 'A'.val ≤ c.val ∧ c.val ≤ 'Z'.val
  · have hlow : 65 ≤ c.val.toNat := hupper.1
    have hhigh : c.val.toNat ≤ 90 := hupper.2
    have hval : c.toLower.val = c.val + 32 := congrArg Char.val (dif_pos hupper)
    have hshift : (32 : UInt32).toNat = 32 := rfl
    rw [hval, UInt32.toNat_add]
    omega
  · exact Or.inl (dif_neg hupper)

theorem isWhitespace_of_isAlphanum {c : Char} (h : c.isAlphanum = true) :
    isWhitespace c = false := by
  have hrange : (65 ≤ c.toNat ∧ c.toNat ≤ 90) ∨ (97 ≤ c.toNat ∧ c.toNat ≤ 122) ∨
      48 ≤ c.toNat ∧ c.toNat ≤ 57 := isAlphanum_iff.1 h
  have hlist : c.toNat ∉ [0x20, 0x85, 0xA0, 0x1680, 0x2028, 0x2029, 0x202F, 0x205F, 0x3000] := by
    simp only [List.mem_cons, List.not_mem_nil, or_false]
    omega
  simp only [isWhitespace, List.contains_eq_mem, hlist, decide_false, Bool.or_false,
    Bool.or_eq_false_iff, Bool.and_eq_false_iff, decide_eq_false_iff_not]
  omega

theorem trim_eq_self {s : String} (h : ∀ c ∈ s.toList, isWhitespace c = false) : trim s = s := by
  have hdrop : ∀ cs : List Char, (∀ c ∈ cs, isWhitespace c = false) →
      cs.dropWhile isWhitespace = cs := by
    intro cs hcs
    cases cs with
    | nil => rfl
    | cons c cs => rw [List.dropWhile_cons, hcs c List.mem_cons_self]; rfl
  rw [trim, hdrop _ h, hdrop _ fun c hc => h c (List.mem_reverse.1 hc), List.reverse_reverse,
    String.ofList_toList]

/-- A text with nothing but letters and digits has nothing to trim. -/
theorem trim_of_alphanum {s : String} (hs : ∀ c ∈ s.toList, c.isAlphanum = true) : trim s = s :=
  trim_eq_self fun c hc => isWhitespace_of_isAlphanum (hs c hc)

/-! ## The tables and maps of a claim -/

inductive PairingStatus
  | pending
  | approved
  | rejected
deriving DecidableEq, Repr

/-- A row of `pending_pairings`, whose key is the claimant's node id. -/
structure PendingPairing where
  statusId : Option PairingStatus
  deviceName : Option String
  deviceId : Option DbId

/-- A row of `paired_devices`, whose key is the device id. `sessionToken` is the token
    this installation issued, `peerSessionToken` the one the peer issued to it. -/
structure PairedDevice where
  name : Option String
  outbound : Bool
  sessionToken : Option String
  peerSessionToken : Option String
  nodeId : Option String

/-- `paired_devices`, under `uq_paired_devices_session_token`. -/
structure PairedDevices where
  rows : Map DbId PairedDevice
  tokens : ∀ a b d e token, rows.lookup a = some d → rows.lookup b = some e →
    d.sessionToken = some token → e.sessionToken = some token → a = b

namespace PairedDevices

def empty : PairedDevices := ⟨∅, fun _ _ _ _ _ h => by cases h⟩

/-- A row of the table, or the fresh row an insert would add. -/
def row (t : PairedDevices) (id : DbId) : PairedDevice :=
  (t.rows.lookup id).getD
    { name := none, outbound := false, sessionToken := none, peerSessionToken := none
      nodeId := none }

/-- `INSERT .. ON CONFLICT (device_id) DO UPDATE` of the columns that an approval and a
    claim describe alike; the tokens and the node id of an old row stay. -/
def upsert (t : PairedDevices) (id : DbId) (name : Option String) : PairedDevices where
  rows := t.rows.insert id { t.row id with name, outbound := true }
  tokens := by
    have hold : ∀ a d token,
        (t.rows.insert id { t.row id with name, outbound := true }).lookup a = some d →
        d.sessionToken = some token →
        ∃ d', t.rows.lookup a = some d' ∧ d'.sessionToken = some token := by
      intro a d token ha hd
      rcases lookup_insert.1 ha with ⟨rfl, rfl⟩ | ⟨_, ha⟩
      · have hd : (t.row a).sessionToken = some token := hd
        rw [row] at hd
        cases hrow : t.rows.lookup a with
        | none =>
            rw [hrow] at hd
            cases hd
        | some d' =>
            rw [hrow] at hd
            exact ⟨d', rfl, hd⟩
      · exact ⟨d, ha, hd⟩
    intro a b d e token ha hb hd he
    obtain ⟨d', ha', hd'⟩ := hold a d token ha hd
    obtain ⟨e', hb', he'⟩ := hold b e token hb he
    exact t.tokens a b d' e' token ha' hb' hd' he'

/-- No other row has the token. -/
def Free (t : PairedDevices) (id : DbId) (token : String) : Prop :=
  ∀ e ∈ t.rows.entries, e.2.sessionToken = some token → e.1 = id

instance (t : PairedDevices) (id : DbId) (token : String) : Decidable (t.Free id token) := by
  unfold Free
  infer_instance

/-- `UPDATE paired_devices SET session_token = ?, node_id = ? WHERE device_id = ?`. -/
def setToken (t : PairedDevices) (id : DbId) (token nodeId : String) : Except String PairedDevices :=
  if h : t.Free id token then
    .ok {
      rows := t.rows.insert id { t.row id with sessionToken := some token, nodeId := some nodeId }
      tokens := by
        have hfree : ∀ a d, t.rows.lookup a = some d → d.sessionToken = some token → a = id :=
          fun a d ha hd => h ⟨a, d⟩ (AList.mem_lookup_iff.1 ha) hd
        intro a b d e tok ha hb hd he
        rcases lookup_insert.1 ha with ⟨rfl, rfl⟩ | ⟨_, ha'⟩
        · rcases lookup_insert.1 hb with ⟨rfl, _⟩ | ⟨_, hb'⟩
          · rfl
          · cases Option.some.inj hd
            exact (hfree b e hb' he).symm
        · rcases lookup_insert.1 hb with ⟨rfl, rfl⟩ | ⟨_, hb'⟩
          · cases Option.some.inj he
            exact hfree a d ha' hd
          · exact t.tokens a b d e tok ha' hb' hd he }
  else .error "UNIQUE constraint failed: paired_devices.session_token"

/-- `DELETE FROM paired_devices WHERE device_id = ?`. -/
def delete (t : PairedDevices) (id : DbId) : PairedDevices where
  rows := t.rows.erase id
  tokens := fun a b d e token ha hb hd he =>
    t.tokens a b d e token (lookup_erase.1 ha).2 (lookup_erase.1 hb).2 hd he

/-- The old row of the device with the name of the upsert, marked outbound. -/
theorem lookup_upsert {t : PairedDevices} {id id' : DbId} {name : Option String}
    {row : PairedDevice} :
    (t.upsert id name).rows.lookup id' = some row ↔
      (id' = id ∧ row = { t.row id with name, outbound := true }) ∨
      (id' ≠ id ∧ t.rows.lookup id' = some row) :=
  lookup_insert

theorem lookup_upsert_ne {t : PairedDevices} {id id' : DbId} {name : Option String}
    (h : id' ≠ id) : (t.upsert id name).rows.lookup id' = t.rows.lookup id' :=
  AList.lookup_insert_ne h

theorem lookup_setToken {t t' : PairedDevices} {id id' : DbId} {token nodeId : String}
    {row : PairedDevice} (h : t.setToken id token nodeId = .ok t') :
    t'.rows.lookup id' = some row ↔
      (id' = id ∧ row = { t.row id with sessionToken := some token, nodeId := some nodeId }) ∨
      (id' ≠ id ∧ t.rows.lookup id' = some row) := by
  rw [setToken] at h
  split at h
  · cases Except.ok.inj h
    exact lookup_insert
  · cases h

theorem lookup_delete {t : PairedDevices} {id id' : DbId} {row : PairedDevice} :
    (t.delete id).rows.lookup id' = some row ↔ id' ≠ id ∧ t.rows.lookup id' = some row :=
  lookup_erase

/-- The device's row has the token that this installation issued, and the node. -/
def Holds (t : PairedDevices) (id : DbId) (token nodeId : String) : Prop :=
  ∃ row, t.rows.lookup id = some row ∧ row.sessionToken = some token ∧ row.nodeId = some nodeId

theorem holds_upsert {t : PairedDevices} {id id' : DbId} {name : Option String}
    {token nodeId : String} :
    (t.upsert id name).Holds id' token nodeId ↔ t.Holds id' token nodeId := by
  by_cases hid : id' = id
  · subst hid
    cases hrow : t.rows.lookup id' with
    | none =>
        constructor
        · rintro ⟨row, hlookup, htoken, _⟩
          rcases lookup_upsert.1 hlookup with ⟨_, rfl⟩ | ⟨hne, _⟩
          · simp [row, hrow] at htoken
          · exact absurd rfl hne
        · rintro ⟨row, hlookup, _⟩
          cases hrow.symm.trans hlookup
    | some old =>
        have hnew : (t.upsert id' name).rows.lookup id' =
            some { old with name, outbound := true } :=
          lookup_upsert.2 (Or.inl ⟨rfl, by rw [row, hrow]; rfl⟩)
        constructor
        · rintro ⟨row, hlookup, htoken, hnode⟩
          cases Option.some.inj (hnew.symm.trans hlookup)
          exact ⟨old, hrow, htoken, hnode⟩
        · rintro ⟨row, hlookup, htoken, hnode⟩
          cases Option.some.inj (hrow.symm.trans hlookup)
          exact ⟨_, hnew, htoken, hnode⟩
  · simp only [Holds, show (t.upsert id name).rows.lookup id' = t.rows.lookup id' from
      AList.lookup_insert_ne hid]

theorem holds_setToken {t t' : PairedDevices} {id id' : DbId} {token nodeId token' node' : String}
    (h : t.setToken id token nodeId = .ok t') :
    t'.Holds id' token' node' ↔
      (id' = id ∧ token' = token ∧ node' = nodeId) ∨ (id' ≠ id ∧ t.Holds id' token' node') := by
  constructor
  · rintro ⟨row, hlookup, htoken, hnode⟩
    rcases (lookup_setToken h).1 hlookup with ⟨hid, rfl⟩ | ⟨hne, hlookup⟩
    · exact Or.inl ⟨hid, (Option.some.inj htoken).symm, (Option.some.inj hnode).symm⟩
    · exact Or.inr ⟨hne, row, hlookup, htoken, hnode⟩
  · rintro (⟨rfl, rfl, rfl⟩ | ⟨hne, row, hlookup, hrow⟩)
    · exact ⟨_, (lookup_setToken h).2 (Or.inl ⟨rfl, rfl⟩), rfl, rfl⟩
    · exact ⟨row, (lookup_setToken h).2 (Or.inr ⟨hne, hlookup⟩), hrow⟩

theorem holds_delete {t : PairedDevices} {id id' : DbId} {token nodeId : String} :
    (t.delete id).Holds id' token nodeId ↔ id' ≠ id ∧ t.Holds id' token nodeId := by
  constructor
  · rintro ⟨row, hlookup, hrow⟩
    exact ⟨(lookup_delete.1 hlookup).1, row, (lookup_delete.1 hlookup).2, hrow⟩
  · rintro ⟨hne, row, hlookup, hrow⟩
    exact ⟨row, lookup_delete.2 ⟨hne, hlookup⟩, hrow⟩

/-- The row of the device has the token and the node, and no other row changed. -/
theorem setToken_eq_ok {t t' : PairedDevices} {id : DbId} {token nodeId : String}
    (h : t.setToken id token nodeId = .ok t') :
    (∃ row, t'.rows.lookup id = some row ∧ row.sessionToken = some token ∧
      row.nodeId = some nodeId) ∧
    ∀ id', id' ≠ id → t'.rows.lookup id' = t.rows.lookup id' := by
  rw [setToken] at h
  split at h
  · cases Except.ok.inj h
    exact ⟨⟨_, AList.lookup_insert _, rfl, rfl⟩, fun _ hne => AList.lookup_insert_ne hne⟩
  · cases h

end PairedDevices

/-- What a poll of an answered claim is told. -/
structure DecidedPairing where
  nodeId : String
  approved : Bool
  deviceId : Option String
  sessionToken : String
  decidedAt : Instant
deriving DecidableEq, Repr

structure PairingWaiter where
  claim : String
deriving DecidableEq, Repr

/-- The order in which a hash map is iterated. -/
structure MapOrder where
  visit : Map String DecidedPairing → List (Sigma fun _ : String => DecidedPairing)
  perm : ∀ m, (visit m).Perm m.entries

structure WireState where
  /-- This device's id, as text. -/
  deviceId : String
  selfNode : String
  /-- The claims of each node in its current window: since when, and how many. -/
  windows : Map String (Instant × Nat)
  pending : Map String PendingPairing
  paired : PairedDevices
  waiters : Map String PairingWaiter
  decisions : Map String DecidedPairing

inductive Response
  | pairingPending (claim : String)
  | paired (deviceId sessionToken : String)
  | refused (reason : String)
deriving DecidableEq, Repr

inductive ErrorCode
  | badRequest
  | unauthorized
  | notFound
  | tooManyRequests
  | internal
deriving DecidableEq, Repr

abbrev Answer := Except (ErrorCode × String) Response

inductive ClaimError
  | unknownClaim (nodeId : String)
  | db (message : String)
deriving DecidableEq, Repr

structure ClaimApproval where
  deviceId : String
  sessionToken : String
deriving DecidableEq, Repr

/-! ## Decisions -/

section Decisions

variable (order : MapOrder) (now : Instant)

/-- `prune`: drop decisions whose window has closed. -/
def prune (m : Map String DecidedPairing) : Map String DecidedPairing :=
  retain (fun _ d => decide (now - d.decidedAt < pairDecisionTtl)) m

/-- The first entry with the least time, in iteration order. -/
def oldest (m : Map String DecidedPairing) : Option String :=
  ((order.visit m).argmin fun e => e.2.decidedAt).map Sigma.fst

def recordDecision (claim : String) (decision : DecidedPairing) (m : Map String DecidedPairing) :
    Map String DecidedPairing :=
  let m := prune now m
  (evict (oldest order) pairDecisionCap m.entries.length m).insert claim decision

/-- Among entries there is an oldest one. -/
theorem exists_oldest {m : Map String DecidedPairing} (h : m.entries ≠ []) :
    ∃ k ∈ m, oldest order m = some k := by
  have hne : order.visit m ≠ [] := by
    intro hnil
    have hperm := order.perm m
    rw [hnil] at hperm
    exact h hperm.nil_eq.symm
  cases hmin : (order.visit m).argmin fun e => e.2.decidedAt with
  | none => exact absurd (List.argmin_eq_none.1 hmin) hne
  | some e =>
      have hmem : e ∈ m.entries := (order.perm m).mem_iff.1 (List.argmin_mem hmin)
      refine ⟨e.1, AList.mem_keys.2 (List.mem_map_of_mem hmem), ?_⟩
      rw [oldest, hmin]
      rfl

/-- The answered claims stay within the cap. -/
theorem length_recordDecision_le (claim : String) (decision : DecidedPairing)
    (m : Map String DecidedPairing) :
    (recordDecision order now claim decision m).entries.length ≤ pairDecisionCap := by
  have hroom : (evict (oldest order) pairDecisionCap (prune now m).entries.length
      (prune now m)).entries.length < pairDecisionCap :=
    length_evict_lt (by decide) (fun _ h => exists_oldest order h) (le_refl _)
  rw [recordDecision, AList.entries_insert, List.length_cons]
  exact Nat.lt_of_le_of_lt (List.kerase_sublist _ _).length_le hroom

/-- Pruning drops an entry for its age only. -/
theorem lookup_prune_or {m : Map String DecidedPairing} {claim : String} {d : DecidedPairing}
    (hd : m.lookup claim = some d) :
    (prune now m).lookup claim = some d ∨
      (prune now m).lookup claim = none ∧ pairDecisionTtl ≤ now - d.decidedAt := by
  by_cases hlive : now - d.decidedAt < pairDecisionTtl
  · exact Or.inl (lookup_retain.2 ⟨hd, by simpa using hlive⟩)
  · refine Or.inr ⟨?_, Nat.not_lt.1 hlive⟩
    refine Option.eq_none_iff_forall_ne_some.2 fun d' hd' => ?_
    obtain ⟨hsame, htest⟩ := lookup_retain.1 hd'
    cases Option.some.inj (hd.symm.trans hsame)
    exact hlive (by simpa using htest)

/-- Recording another decision drops an entry for its age or for lack of room. -/
theorem lookup_recordDecision_or {m : Map String DecidedPairing} {claim key : String}
    {d new : DecidedPairing} (hd : m.lookup claim = some d) (hne : claim ≠ key) :
    (recordDecision order now key new m).lookup claim = some d ∨
      (recordDecision order now key new m).lookup claim = none ∧
        (pairDecisionTtl ≤ now - d.decidedAt ∨ pairDecisionCap ≤ (prune now m).entries.length) := by
  rw [recordDecision, AList.lookup_insert_ne hne]
  rcases lookup_prune_or now hd with hkept | ⟨hgone, hold⟩
  · cases hafter : (evict (oldest order) pairDecisionCap (prune now m).entries.length
        (prune now m)).lookup claim with
    | some d' => exact Or.inl (hkept ▸ (lookup_of_lookup_evict hafter).symm)
    | none =>
        refine Or.inr ⟨rfl, Or.inr ?_⟩
        by_contra hroom
        rw [evict_of_lt (Nat.not_le.1 hroom)] at hafter
        cases hafter.symm.trans hkept
  · refine Or.inr ⟨?_, Or.inl hold⟩
    refine Option.eq_none_iff_forall_ne_some.2 fun d' hd' => ?_
    cases hgone.symm.trans (lookup_of_lookup_evict hd')

def DecidedPairing.response (d : DecidedPairing) : Response :=
  if d.approved then .paired (d.deviceId.getD "") d.sessionToken
  else .refused "the pairing was rejected"

/-- `decided`: the remembered answer of a claim, and the pruned map. -/
def decided (claim nodeId : String) (m : Map String DecidedPairing) :
    Option DecidedPairing × Map String DecidedPairing :=
  let m := prune now m
  ((m.lookup claim).filter fun d => d.nodeId == nodeId, m)

/-- Answer the node's outstanding claim; `false` where it has none. -/
def applyPairingDecision (nodeId : String) (approved : Bool) (sessionToken : String)
    (deviceId : Option String) (s : WireState) : Bool × WireState :=
  match s.waiters.lookup nodeId with
  | none => (false, s)
  | some waiter =>
      (true, { s with
        waiters := s.waiters.erase nodeId
        decisions := recordDecision order now waiter.claim
          { nodeId, approved, deviceId, sessionToken, decidedAt := now } s.decisions })

end Decisions

/-! ## Requests

    `refuse i` is the error with which the database refuses the operation's `i`-th
    statement, if it does. Each statement commits on its own. -/

section Requests

variable (env : Env) (order : MapOrder) (now : Instant) (refuse : Nat → Option String)

/-- `ClaimRateLimiter::allow_at`: ten claims a minute for each node. -/
def allowAt (nodeId : String) (windows : Map String (Instant × Nat)) :
    Bool × Map String (Instant × Nat) :=
  let windows := retain (fun _ w => decide (now - w.1 < 60 * 10 ^ 9)) windows
  let entry := (windows.lookup nodeId).getD (now, 0)
  if 10 ≤ entry.2 then (false, windows.insert nodeId entry)
  else (true, windows.insert nodeId (entry.1, entry.2 + 1))

/-- File a claim under the connection's node id; `secret` is the generated ULID. -/
def pair (secret : DbId) (remote deviceId name : String) (s : WireState) : Answer × WireState :=
  match parseId env deviceId, env.ulidParse s.deviceId with
  | none, _ => (.error (.badRequest, "not a device id: " ++ deviceId), s)
  | _, none => (.error (.internal, "this device has no valid id"), s)
  | some peerDeviceId, some _ =>
      match refuse 0 with
      | some e => (.error (.internal, "pairing table: " ++ e), s)
      | none =>
          -- A decided ticket is final: replaying the claim must not reopen it.
          if (s.pending.lookup remote).any fun row => row.statusId != some .pending then
            (.ok (.refused "this pairing was already decided"), s)
          else match refuse 1 with
            | some e => (.error (.internal, "could not record the claim: " ++ e), s)
            | none =>
                (.ok (.pairingPending (secret.text env)),
                  { s with
                    pending := s.pending.insert remote
                      { statusId := some .pending, deviceName := some name
                        deviceId := some peerDeviceId }
                    waiters := s.waiters.insert remote { claim := secret.text env } })

/-- The paired device's row of an approval, token and node id included. -/
def recordApproval (deviceId : DbId) (name : Option String) (token nodeId : String)
    (s : WireState) : Except ClaimError Unit × WireState :=
  match refuse 1 with
  | some e => (.error (.db e), s)
  | none =>
      let s := { s with paired := s.paired.upsert deviceId name }
      match refuse 2 with
      | some e => (.error (.db e), s)
      | none =>
          match s.paired.setToken deviceId token nodeId with
          | .error e => (.error (.db e), s)
          | .ok paired => (.ok (), { s with paired })

/-- The pending row's new status. -/
def decidePending (statement : Nat) (nodeId : String) (row : PendingPairing)
    (status : PairingStatus) (s : WireState) : Except ClaimError Unit × WireState :=
  match refuse statement with
  | some e => (.error (.db e), s)
  | none =>
      (.ok (), { s with pending := s.pending.insert nodeId { row with statusId := some status } })

/-- The device an approval is for: the one the claim named, else a generated one. -/
def PendingPairing.device (row : PendingPairing) (newId : DbId) : DbId := row.deviceId.getD newId

/-- `approve_claim`; `newId` and `token` are the generated ids. -/
def approveClaim (newId token : DbId) (nodeId : String) (s : WireState) :
    Except ClaimError ClaimApproval × WireState :=
  match refuse 0, s.pending.lookup nodeId with
  | some e, _ => (.error (.db e), s)
  | none, none => (.error (.unknownClaim nodeId), s)
  | none, some row =>
      let id := row.device newId
      match recordApproval refuse id row.deviceName (token.text env) nodeId s with
      | (.error e, s) => (.error e, s)
      | (.ok (), s) =>
          match decidePending refuse 3 nodeId row .approved s with
          | (.error e, s) => (.error e, s)
          | (.ok (), s) =>
              (.ok { deviceId := id.text env, sessionToken := token.text env },
                (applyPairingDecision order now nodeId true (token.text env)
                  (some (id.text env)) s).2)

def rejectClaim (nodeId : String) (s : WireState) : Except ClaimError Unit × WireState :=
  match refuse 0, s.pending.lookup nodeId with
  | some e, _ => (.error (.db e), s)
  | none, none => (.error (.unknownClaim nodeId), s)
  | none, some row =>
      match decidePending refuse 1 nodeId row .rejected s with
      | (.error e, s) => (.error e, s)
      | (.ok (), s) =>
          (.ok (), (applyPairingDecision order now nodeId false ""
            (row.deviceId.map (DbId.text env)) s).2)

/-- Report what became of a claim this connection's node filed. -/
def pairStatus (remote claim : String) (s : WireState) : Answer × WireState :=
  if (s.waiters.lookup remote).any fun waiter => waiter.claim == claim then
    (.ok (.pairingPending claim), s)
  else
    let (found, decisions) := decided now claim remote s.decisions
    match found with
    | some d => (.ok d.response, { s with decisions })
    | none => (.error (.notFound, "no pairing claim with that id"), { s with decisions })

/-- The `Pair` branch of `dispatch`. -/
def dispatchPair (secret : DbId) (remote deviceId name : String) (s : WireState) :
    Answer × WireState :=
  if remote = s.selfNode then (.error (.badRequest, "a device cannot sync with itself"), s)
  else
    let (allowed, windows) := allowAt now remote s.windows
    let s := { s with windows }
    if allowed then pair env refuse secret remote deviceId name s
    else (.error (.tooManyRequests, "too many pairing attempts; try again in a minute"), s)

/-- The `PairStatus` branch of `dispatch`. -/
def dispatchPairStatus (remote claim : String) (s : WireState) : Answer × WireState :=
  if remote = s.selfNode then (.error (.badRequest, "a device cannot sync with itself"), s)
  else pairStatus now remote claim s

/-- Resolve a session token to the device it was issued to. -/
def authorize (s : WireState) (token remote : String) : Except (ErrorCode × String) String :=
  let token := trim token
  let row := s.paired.rows.entries.find? fun e =>
    e.2.sessionToken == some token && e.2.nodeId == some remote
  if token = "" then .error (.unauthorized, "the session token is not recognised")
  else match row with
    | some e => .ok (e.1.text env)
    | none => .error (.unauthorized, "the session token is not recognised")

/-- `devices.revoke`: the device it removes, when the id parses. -/
def revoke (deviceId : String) (s : WireState) : Option DbId × WireState :=
  match parseId env deviceId with
  | none => (none, s)
  | some id => (some id, { s with paired := s.paired.delete id })

end Requests

/-! ## Everything a decision can do -/

section Cases

variable {env : Env} {order : MapOrder} {now : Instant} {refuse : Nat → Option String}
variable {newId token : DbId} {nodeId : String} {s s' : WireState}

/-- An approval that found the claim's row stops before its first write, after the
    device is described, after the token is set, or runs to its end. -/
inductive ApproveRun (env : Env) (order : MapOrder) (now : Instant) (newId token : DbId)
    (nodeId : String) (s : WireState) (row : PendingPairing) :
    Except ClaimError ClaimApproval → WireState → Prop
  | refused (e : ClaimError) : ApproveRun env order now newId token nodeId s row (.error e) s
  | described (e : ClaimError) : ApproveRun env order now newId token nodeId s row (.error e)
      { s with paired := s.paired.upsert (row.device newId) row.deviceName }
  | tokenSet (e : ClaimError) (paired : PairedDevices)
      (hset : (s.paired.upsert (row.device newId) row.deviceName).setToken (row.device newId)
        (token.text env) nodeId = .ok paired) :
      ApproveRun env order now newId token nodeId s row (.error e) { s with paired }
  | decided (paired : PairedDevices)
      (hset : (s.paired.upsert (row.device newId) row.deviceName).setToken (row.device newId)
        (token.text env) nodeId = .ok paired) :
      ApproveRun env order now newId token nodeId s row
        (.ok { deviceId := (row.device newId).text env, sessionToken := token.text env })
        (applyPairingDecision order now nodeId true (token.text env)
          (some ((row.device newId).text env))
          { s with
            paired
            pending := s.pending.insert nodeId { row with statusId := some .approved } }).2

theorem approveRun_of_approveClaim {r : Except ClaimError ClaimApproval}
    (h : approveClaim env order now refuse newId token nodeId s = (r, s')) :
    (s' = s ∧ ∃ e, r = .error e) ∨ ∃ row, s.pending.lookup nodeId = some row ∧
      ApproveRun env order now newId token nodeId s row r s' := by
  rw [approveClaim] at h
  split at h
  · cases h
    exact Or.inl ⟨rfl, _, rfl⟩
  · cases h
    exact Or.inl ⟨rfl, _, rfl⟩
  next row _ hrow =>
    refine Or.inr ⟨row, hrow, ?_⟩
    -- three statements, each of which can be refused
    dsimp only [recordApproval, decidePending] at h
    cases h1 : refuse 1 with
    | some e =>
        rw [h1] at h
        cases h
        exact .refused _
    | none =>
        cases h2 : refuse 2 with
        | some e =>
            rw [h1, h2] at h
            cases h
            exact .described _
        | none =>
            cases hset : (s.paired.upsert (row.device newId) row.deviceName).setToken
                (row.device newId) (token.text env) nodeId with
            | error e =>
                rw [h1, h2] at h
                simp only [hset] at h
                cases h
                exact .described _
            | ok paired =>
                rw [h1, h2] at h
                simp only [hset] at h
                cases h3 : refuse 3 with
                | some e =>
                    rw [h3] at h
                    cases h
                    exact .tokenSet _ paired hset
                | none =>
                    rw [h3] at h
                    cases h
                    exact .decided paired hset

theorem applyPairingDecision_tables {approved : Bool} {sessionToken : String}
    {deviceId : Option String} :
    (applyPairingDecision order now nodeId approved sessionToken deviceId s).2.pending =
      s.pending ∧
    (applyPairingDecision order now nodeId approved sessionToken deviceId s).2.paired =
      s.paired := by
  rw [applyPairingDecision]
  split
  · exact ⟨rfl, rfl⟩
  · exact ⟨rfl, rfl⟩

/-- What is on a row after an approval was there before, or is the minted token with
    the node of the claim. -/
theorem ApproveRun.holds {row : PendingPairing} {r : Except ClaimError ClaimApproval} {id : DbId}
    {tok node : String} (h : ApproveRun env order now newId token nodeId s row r s')
    (hheld : s'.paired.Holds id tok node) :
    s.paired.Holds id tok node ∨ (tok = token.text env ∧ node = nodeId) := by
  have hset : ∀ paired : PairedDevices,
      (s.paired.upsert (row.device newId) row.deviceName).setToken (row.device newId)
        (token.text env) nodeId = .ok paired → paired.Holds id tok node →
      s.paired.Holds id tok node ∨ (tok = token.text env ∧ node = nodeId) := by
    intro paired hok hheld
    rcases (PairedDevices.holds_setToken hok).1 hheld with ⟨_, htok, hnode⟩ | ⟨_, hheld⟩
    · exact Or.inr ⟨htok, hnode⟩
    · exact Or.inl (PairedDevices.holds_upsert.1 hheld)
  cases h with
  | refused e => exact Or.inl hheld
  | described e => exact Or.inl (PairedDevices.holds_upsert.1 hheld)
  | tokenSet e paired hok => exact hset paired hok hheld
  | decided paired hok =>
      rw [applyPairingDecision_tables.2] at hheld
      exact hset paired hok hheld

/-- The claim's row is approved by an approval that runs to its end; no other row of
    `pending_pairings` changes. -/
theorem ApproveRun.pending {row old : PendingPairing} {r : Except ClaimError ClaimApproval}
    {node : String} (h : ApproveRun env order now newId token nodeId s row r s')
    (hold : s'.pending.lookup node = some old) :
    s.pending.lookup node = some old ∨ (node = nodeId ∧ old.statusId = some .approved) := by
  cases h with
  | refused e => exact Or.inl hold
  | described e => exact Or.inl hold
  | tokenSet e paired hok => exact Or.inl hold
  | decided paired hok =>
      rw [applyPairingDecision_tables.1] at hold
      rcases lookup_insert.1 hold with ⟨hnode, rfl⟩ | ⟨_, hold⟩
      · exact Or.inr ⟨hnode, rfl⟩
      · exact Or.inl hold

/-- A rejection writes the row and answers the claim, or does nothing. -/
theorem rejectClaim_run {r : Except ClaimError Unit}
    (h : rejectClaim env order now refuse nodeId s = (r, s')) :
    (s' = s ∧ ∃ e, r = .error e) ∨ ∃ row, s.pending.lookup nodeId = some row ∧ r = .ok () ∧
      s' = (applyPairingDecision order now nodeId false "" (row.deviceId.map (DbId.text env))
        { s with
          pending := s.pending.insert nodeId { row with statusId := some .rejected } }).2 := by
  rw [rejectClaim] at h
  split at h
  · cases h
    exact Or.inl ⟨rfl, _, rfl⟩
  · cases h
    exact Or.inl ⟨rfl, _, rfl⟩
  next row _ hrow =>
    dsimp only [decidePending] at h
    cases h1 : refuse 1 with
    | some e =>
        rw [h1] at h
        cases h
        exact Or.inl ⟨rfl, _, rfl⟩
    | none =>
        rw [h1] at h
        cases h
        exact Or.inr ⟨row, hrow, rfl, rfl⟩

/-- `pair` writes a pending row of the connection's node. -/
theorem dispatchPair_pending {secret : DbId} {remote deviceId name node : String}
    {row : PendingPairing}
    (h : (dispatchPair env now refuse secret remote deviceId name s).2.pending.lookup node =
      some row) :
    s.pending.lookup node = some row ∨ (node = remote ∧ row.statusId = some .pending) := by
  rw [dispatchPair] at h
  split at h
  · exact Or.inl h
  dsimp only at h
  split at h
  · rw [pair] at h
    split at h
    · exact Or.inl h
    · exact Or.inl h
    split at h
    · exact Or.inl h
    split at h
    · exact Or.inl h
    split at h
    · exact Or.inl h
    · rcases lookup_insert.1 h with ⟨hnode, rfl⟩ | ⟨_, h⟩
      · exact Or.inr ⟨hnode, rfl⟩
      · exact Or.inl h
  · exact Or.inl h

/-- A token is accepted from a node exactly if it is not blank and on a row of the node. -/
theorem authorize_iff {token remote : String} :
    (∃ device, authorize env s token remote = .ok device) ↔
      trim token ≠ "" ∧ ∃ id, s.paired.Holds id (trim token) remote := by
  rw [authorize]
  by_cases hblank : trim token = ""
  · simp only [hblank, if_true]
    exact ⟨fun h => (by cases h.choose_spec), fun h => absurd rfl h.1⟩
  simp only [if_neg hblank]
  cases hfind : s.paired.rows.entries.find? fun e =>
      e.2.sessionToken == some (trim token) && e.2.nodeId == some remote with
  | some e =>
      have hmem := List.mem_of_find?_eq_some hfind
      have hprop := List.find?_some hfind
      simp only [Bool.and_eq_true, beq_iff_eq] at hprop
      exact ⟨fun _ => ⟨hblank, e.1, e.2, AList.mem_lookup_iff.2 hmem, hprop.1, hprop.2⟩,
        fun _ => ⟨_, rfl⟩⟩
  | none =>
      refine ⟨fun h => (by cases h.choose_spec), ?_⟩
      rintro ⟨_, id, row, hrow, htoken, hnode⟩
      have hnot := List.find?_eq_none.1 hfind ⟨id, row⟩ (AList.mem_lookup_iff.1 hrow)
      simp [htoken, hnode] at hnot

end Cases

end SyncPairing

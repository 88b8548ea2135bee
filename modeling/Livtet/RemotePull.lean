import Livtet.Calls
import Livtet.PullLoop
import Livtet.Strangers

/-! # Remote pulls — the pull loop over the wire

    The loop of `pull_device_once` asks for its pages by a typed call. The peer goes on
    in the meantime: it answers others, edits its library, decides claims and revokes
    devices. Page after page the loop takes what the peer's log shows the device that its
    token belongs to, at that moment; or it stops, at a page that it is not served. -/

namespace SyncRemotePull

open JsonText SyncMessages SyncEnvelopes SyncFraming SyncCalls SyncPullLoop Unwinding
open SyncBodies (Ending)
open SyncEndpoint (Action Endpoint Moment authorize changeToWire ofWire pullToWire)
open SyncOffers (changesFor)
open SyncPeers (NodeIds)
open SyncStore (Env ChangeLog minI64 maxI64)

/-! ## The loop -/

inductive PassError
  | peer (e : ClientError)
  | page (e : PullError)

/-- One page of a pass: what the peer goes through before it, and what the request
    meets. -/
structure Visit where
  meanwhile : List Action
  m : Moment

/-- A page as the engine takes it. -/
def pullOfWire (r : PullResponse) : SyncEngine.PullResponse where
  changes := r.changes.map ofWire
  hasMore := r.hasMore
  latestVersion := r.latestVersion.toInt

/-- What the loop does with a page, and whether it asks for another. -/
def takePage (env : Env) (now deviceId : String) (page : SyncEngine.PullResponse) (s : PullState) :
    Except PullError (PullState × Bool) :=
  if page.changes.isEmpty then
    if page.hasMore then
      .ok ({ s with cursor := page.latestVersion, stored := some page.latestVersion }, true)
    else .ok (s, false)
  else (pullPage env now deviceId page s).map fun p => (p.2, page.hasMore)

/-- A turn of the loop against a log takes what the log shows the device. -/
theorem turn_eq (env : Env) (now : String) (log : ChangeLog) (deviceId : String) (s : PullState) :
    turn env now log deviceId s = takePage env now deviceId (changesFor env log s.cursor deviceId) s :=
  rfl

section Loop

variable (env : Env) (q : SyncPrivacy.LogQueries env) (lib : SerdeJson)
variable (sqlText : SqlRows.SqlError → String) (order : SyncPairing.MapOrder) (ids : NodeIds)
variable (remote : String) (reach : String → Except String Unit)
variable (files : String → Option (List UInt8)) (dropped : Ending) (debug : Response → String)
variable (now deviceId : String) (client : Client)

/-- The loop of `pull_device_once`, stopped where the visits are over; `none` where it was
    still going. -/
def pass : List Visit → PullState → Endpoint → Option (Except PassError PullState)
  | [], _, _ => none
  | v :: rest, s, peer =>
      let peer := final (SyncEndpoint.step env q lib sqlText order ids) peer v.meanwhile
      let fetched := (Operation.changes (Int64.ofInt s.cursor) (some 100)).perform lib
        (endpointLink env q lib sqlText v.m remote ids reach files dropped) debug client peer
      match fetched.1 with
      | .error e => some (.error (.peer e))
      | .ok page =>
          match takePage env now deviceId (pullOfWire page) s with
          | .error e => some (.error (.page e))
          | .ok (s, false) => some (.ok s)
          | .ok (s, true) => pass rest s fetched.2

/-- The peer serves the page above a cursor, for the device: the loop has a token which
    the peer issued to the device for this node, and the page fits a message. -/
def Serves (m : Moment) (peer : Endpoint) (cursor : Int) (device : String) : Prop :=
  ∃ token, client.token = some token ∧
    Asks lib (endpointLink env q lib sqlText m remote ids reach files dropped) client
      (.changes token (Int64.ofInt cursor) (some 100)) ∧
    remote ≠ peer.wire.selfNode ∧ authorize env m peer.wire token remote = .ok device ∧
    m.refuse 1 = none ∧ Fits lib (Response.changes (pullToWire (changesFor env peer.db.log cursor device)))

/-- The pass takes, visit by visit, what the log of the peer shows the device it is served
    for, and stops with the peer's error where it is not served. -/
def Follows : List Visit → PullState → Endpoint → Option (Except PassError PullState) → Prop
  | [], _, _, result => result = none
  | v :: rest, s, peer, result =>
      let peer := final (SyncEndpoint.step env q lib sqlText order ids) peer v.meanwhile
      (∃ device, Serves env q lib sqlText ids remote reach files dropped client v.m peer s.cursor device ∧
        match takePage env now deviceId (changesFor env peer.db.log s.cursor device) s with
        | .error e => result = some (.error (.page e))
        | .ok (s, false) => result = some (.ok s)
        | .ok (s, true) => Follows rest s peer result) ∨
      (∀ device, ¬ Serves env q lib sqlText ids remote reach files dropped client v.m peer s.cursor
        device) ∧ ∃ e, result = some (.error (.peer e))

/-- The logs of the peer at the visits. -/
def logsAt : List Visit → Endpoint → List ChangeLog
  | [], _ => []
  | v :: rest, peer =>
      let peer := final (SyncEndpoint.step env q lib sqlText order ids) peer v.meanwhile
      peer.db.log :: logsAt rest peer

end Loop

/-! ## A page on the wire -/

section Wire

theorem toInt_ofInt {i : Int} (h : minI64 ≤ i ∧ i ≤ maxI64) : (Int64.ofInt i).toInt = i :=
  Int64.toInt_ofInt_of_le h.1 (Int.lt_of_le_sub_one h.2)

/-- A change whose id fits its column comes back as it was. -/
theorem ofWire_changeToWire {c : SyncEngine.SyncChange} (h : minI64 ≤ c.id ∧ c.id ≤ maxI64) :
    ofWire (changeToWire c) = c := by
  have hid := toInt_ofInt h
  have hversion := toInt_ofInt c.version_i64
  obtain ⟨id, entityType, entityId, operation, version, payload, changedAt, deviceId, _⟩ := c
  simp only [ofWire, changeToWire, SyncEngine.SyncChange.mk.injEq, true_and, and_true]
  exact ⟨hid, hversion⟩

theorem pullOfWire_pullToWire {page : SyncEngine.PullResponse}
    (hids : ∀ c ∈ page.changes, minI64 ≤ c.id ∧ c.id ≤ maxI64)
    (hlatest : minI64 ≤ page.latestVersion ∧ page.latestVersion ≤ maxI64) :
    pullOfWire (pullToWire page) = page := by
  have hchanges : (page.changes.map changeToWire).map ofWire = page.changes := by
    rw [List.map_map]
    exact (List.map_congr_left fun c hc => ofWire_changeToWire (hids c hc)).trans (List.map_id _)
  obtain ⟨changes, hasMore, latestVersion⟩ := page
  simp only [pullOfWire, pullToWire, SyncEngine.PullResponse.mk.injEq, true_and]
  exact ⟨hchanges, toInt_ofInt hlatest⟩

variable {env : Env} {log : ChangeLog} {since : Int} {device : String}

theorem latestVersion_i64 (hsince : minI64 ≤ since ∧ since ≤ maxI64) :
    minI64 ≤ (changesFor env log since device).latestVersion ∧
      (changesFor env log since device).latestVersion ≤ maxI64 := by
  show minI64 ≤ (SyncEngine.pullChanges env log since 100).latestVersion ∧
    (SyncEngine.pullChanges env log since 100).latestVersion ≤ maxI64
  rcases SyncPaging.latestVersion_cases env 100 log since with ⟨_, hlatest⟩ | ⟨c, _, hlatest, _, _⟩
  · rw [hlatest]
    exact hsince
  · rw [hlatest]
    exact c.version_i64

theorem id_of_toSyncChange {r : SyncStore.ChangeRow} {c : SyncEngine.SyncChange}
    (h : SyncEngine.toSyncChange r = some c) : c.id = r.id := by
  rw [SyncEngine.toSyncChange] at h
  split at h
  · cases h
  split at h
  · cases h
    rfl
  · cases h

/-- What a log shows a device comes back from the wire as it was. -/
theorem pullOfWire_changesFor (hseq : log.seq < 2 ^ 63) (hsince : minI64 ≤ since ∧ since ≤ maxI64) :
    pullOfWire (pullToWire (changesFor env log since device)) = changesFor env log since device := by
  refine pullOfWire_pullToWire ?_ (latestVersion_i64 hsince)
  intro c hc
  obtain ⟨r, hr, hrc⟩ := List.mem_filterMap.1 (List.mem_of_mem_filter hc)
  have habove : r ∈ SyncEngine.rowsAbove log since :=
    (env.asc.perm _ _).mem_iff.1 (SortedPages.mem_of_mem_limited hr)
  have hle := log.ids_le r (List.mem_of_mem_filter habove)
  rw [id_of_toSyncChange hrc]
  constructor
  · exact le_trans (by decide : minI64 ≤ 0) (Int.natCast_nonneg r.id)
  · rw [maxI64]
    omega

/-- A loop that goes on does so from the end of its page. -/
theorem cursor_takePage {now deviceId : String} {page : SyncEngine.PullResponse} {s s' : PullState}
    (h : takePage env now deviceId page s = .ok (s', true)) : s'.cursor = page.latestVersion := by
  rw [takePage] at h
  split at h
  · split at h
    · cases h
      rfl
    · cases h
  · obtain ⟨⟨passed, next⟩, hpage, heq⟩ := Outcomes.map_eq_ok.1 h
    cases (Prod.mk.inj heq).1
    exact (pullPage_ok hpage).2.1

end Wire

/-! ## A page of the loop -/

section Page

variable {env : Env} {q : SyncPrivacy.LogQueries env} {lib : SerdeJson}
variable {sqlText : SqlRows.SqlError → String} {order : SyncPairing.MapOrder} {ids : NodeIds}
variable {remote : String} {reach : String → Except String Unit}
variable {files : String → Option (List UInt8)} {dropped : Ending} {debug : Response → String}
variable {client : Client} {m : Moment} {peer peer' : Endpoint}

/-- What an action does to the pairing state and the database depends on these alone. -/
theorem state_step_congr (a : Action) (hwire : peer.wire = peer'.wire) (hdb : peer.db = peer'.db) :
    (SyncEndpoint.step env q lib sqlText order ids peer a).2.wire =
      (SyncEndpoint.step env q lib sqlText order ids peer' a).2.wire ∧
    (SyncEndpoint.step env q lib sqlText order ids peer a).2.db =
      (SyncEndpoint.step env q lib sqlText order ids peer' a).2.db := by
  cases a with
  | request m remote request => exact SyncEndpoint.dispatch_state_congr hwire hdb
  | own w => exact ⟨hwire, congrArg (fun db => SyncConflictList.write env db w) hdb⟩
  | decide decision =>
      exact ⟨congrArg (fun wire => SyncEndpoint.settle env order ids wire decision) hwire, hdb⟩

theorem state_final_congr : ∀ (run : List Action) {peer peer' : Endpoint},
    peer.wire = peer'.wire → peer.db = peer'.db →
    (final (SyncEndpoint.step env q lib sqlText order ids) peer run).wire =
      (final (SyncEndpoint.step env q lib sqlText order ids) peer' run).wire ∧
    (final (SyncEndpoint.step env q lib sqlText order ids) peer run).db =
      (final (SyncEndpoint.step env q lib sqlText order ids) peer' run).db := by
  intro run
  induction run with
  | nil => exact fun hwire hdb => ⟨hwire, hdb⟩
  | cons a rest ih =>
      intro peer peer' hwire hdb
      obtain ⟨hwire, hdb⟩ := state_step_congr (q := q) a hwire hdb
      exact ih hwire hdb

/-- A request for changes is a read. -/
theorem state_changes {token : String} {sinceVersion : Int64} {limit : Option Int64} :
    (SyncEndpoint.dispatch env q lib sqlText m remote (.changes token sinceVersion limit) peer).2.wire =
      peer.wire ∧
    (SyncEndpoint.dispatch env q lib sqlText m remote (.changes token sinceVersion limit) peer).2.db =
      peer.db := by
  cases haccepted : SyncEndpoint.accepted env m remote peer.wire (.changes token sinceVersion limit) with
  | true => exact SyncEndpoint.dispatch_of_accepted haccepted
  | false =>
      obtain ⟨_, hwire, hdb⟩ := SyncEndpoint.dispatch_of_not_accepted (q := q) haccepted
      refine ⟨hwire.trans (SyncEndpoint.atDoor_of_turnedAway ?_), hdb⟩
      rw [SyncEndpoint.turnedAway, haccepted]
      rfl

theorem dispatch_changes {token : String} {sinceVersion : Int64} {limit : Option Int64}
    (hself : remote ≠ peer.wire.selfNode) :
    (SyncEndpoint.dispatch env q lib sqlText m remote (.changes token sinceVersion limit) peer).1 =
      match authorize env m peer.wire token remote with
      | .error e => .failure e
      | .ok device => SyncEndpoint.changes env m device sinceVersion limit peer.db := by
  rw [SyncEndpoint.dispatch, if_neg hself, SyncEndpoint.withDevice]
  cases authorize env m peer.wire token remote <;> rfl

variable {cursor : Int} {device : String}

theorem serves_congr (hwire : peer.wire = peer'.wire) (hdb : peer.db = peer'.db)
    (h : Serves env q lib sqlText ids remote reach files dropped client m peer' cursor device) :
    Serves env q lib sqlText ids remote reach files dropped client m peer cursor device := by
  rw [Serves, hwire, hdb]
  exact h

/-- The call of a page, with its request. -/
theorem request_changes {token : String} (htoken : client.token = some token) :
    (Operation.changes (Int64.ofInt cursor) (some 100)).request client.token =
      .ok (.changes token (Int64.ofInt cursor) (some 100)) := by
  rw [htoken]
  rfl

/-- An operation whose request is answered with an error fails. -/
theorem error_of_response {token : String} (htoken : client.token = some token)
    (hasks : Asks lib (endpointLink env q lib sqlText m remote ids reach files dropped) client
      (.changes token (Int64.ofInt cursor) (some 100)))
    (herror : ∃ code message, (SyncEndpoint.dispatch env q lib sqlText m remote
      (.changes token (Int64.ofInt cursor) (some 100)) peer).1.outcome.response =
        .error code message) :
    ∃ e, ((Operation.changes (Int64.ofInt cursor) (some 100)).perform lib
      (endpointLink env q lib sqlText m remote ids reach files dropped) debug client peer).1 =
        .error e := by
  obtain ⟨code, message, hresponse⟩ := herror
  obtain ⟨_, harrived, hlost⟩ := (carried lib (endpointLink env q lib sqlText m remote ids reach
    files dropped) debug client _ peer).asked _ (request_changes htoken) hasks
  have hresponse : ((endpointLink env q lib sqlText m remote ids reach files dropped).answer
      (.changes token (Int64.ofInt cursor) (some 100)) peer).1.response = .error code message :=
    hresponse
  rw [hresponse] at harrived hlost
  by_cases harrives : Arrives lib (.error code message)
  · exact ⟨_, harrived harrives⟩
  · obtain ⟨e, he⟩ := hlost harrives
    exact ⟨_, he⟩

/-- The page that is served is what the log shows the device. -/
theorem response_of_authorized {token : String} (hcursor : minI64 ≤ cursor ∧ cursor ≤ maxI64)
    (hself : remote ≠ peer.wire.selfNode) (hauth : authorize env m peer.wire token remote = .ok device)
    (hreads : m.refuse 1 = none) :
    (SyncEndpoint.dispatch env q lib sqlText m remote
      (.changes token (Int64.ofInt cursor) (some 100)) peer).1.outcome.response =
        .changes (pullToWire (changesFor env peer.db.log cursor device)) := by
  have hlimit : ((some (100 : Int64)).getD 100).toInt = 100 := by decide
  rw [dispatch_changes hself, hauth]
  show (SyncEndpoint.changes env m device (Int64.ofInt cursor) (some 100) peer.db).outcome.response = _
  rw [SyncEndpoint.changes, hreads, toInt_ofInt hcursor, hlimit]
  rfl

theorem fetch_of_serves (hcursor : minI64 ≤ cursor ∧ cursor ≤ maxI64)
    (h : Serves env q lib sqlText ids remote reach files dropped client m peer cursor device) :
    ((Operation.changes (Int64.ofInt cursor) (some 100)).perform lib
      (endpointLink env q lib sqlText m remote ids reach files dropped) debug client peer).1 =
        .ok (pullToWire (changesFor env peer.db.log cursor device)) := by
  obtain ⟨token, htoken, hasks, hself, hauth, hreads, hfits⟩ := h
  obtain ⟨_, harrived, _⟩ := (carried lib (endpointLink env q lib sqlText m remote ids reach
    files dropped) debug client _ peer).asked _ (request_changes htoken) hasks
  have hresponse : ((endpointLink env q lib sqlText m remote ids reach files dropped).answer
      (.changes token (Int64.ofInt cursor) (some 100)) peer).1.response =
        .changes (pullToWire (changesFor env peer.db.log cursor device)) :=
    response_of_authorized hcursor hself hauth hreads
  rw [hresponse] at harrived
  exact harrived ⟨hfits, trivial⟩

theorem fetch_of_not_serves (debug : Response → String)
    (hcursor : minI64 ≤ cursor ∧ cursor ≤ maxI64)
    (h : ∀ device, ¬ Serves env q lib sqlText ids remote reach files dropped client m peer cursor
      device) :
    ∃ e, ((Operation.changes (Int64.ofInt cursor) (some 100)).perform lib
      (endpointLink env q lib sqlText m remote ids reach files dropped) debug client peer).1 =
        .error e := by
  cases htoken : client.token with
  | none =>
      refine ⟨.protocol "this client holds no session token", ?_⟩
      rw [Operation.perform, htoken]
      rfl
  | some token =>
      by_cases hasks : Asks lib (endpointLink env q lib sqlText m remote ids reach files dropped)
          client (.changes token (Int64.ofInt cursor) (some 100))
      · by_cases hself : remote = peer.wire.selfNode
        · refine error_of_response htoken hasks ?_
          rw [SyncEndpoint.dispatch_self hself]
          exact ⟨_, _, rfl⟩
        cases hauth : authorize env m peer.wire token remote with
        | error e =>
            refine error_of_response htoken hasks ?_
            rw [dispatch_changes hself, hauth]
            exact ⟨_, _, rfl⟩
        | ok device =>
            cases hreads : m.refuse 1 with
            | some e =>
                refine error_of_response htoken hasks ?_
                rw [dispatch_changes hself, hauth]
                show ∃ code message, (SyncEndpoint.changes env m device (Int64.ofInt cursor)
                  (some 100) peer.db).outcome.response = .error code message
                rw [SyncEndpoint.changes, hreads]
                exact ⟨_, _, rfl⟩
            | none =>
                obtain ⟨_, _, hlost⟩ := (carried lib (endpointLink env q lib sqlText m remote ids
                  reach files dropped) debug client _ peer).asked _ (request_changes htoken) hasks
                have hresponse : ((endpointLink env q lib sqlText m remote ids reach files
                    dropped).answer (.changes token (Int64.ofInt cursor) (some 100)) peer).1.response =
                      .changes (pullToWire (changesFor env peer.db.log cursor device)) :=
                  response_of_authorized hcursor hself hauth hreads
                rw [hresponse] at hlost
                obtain ⟨e, he⟩ := hlost fun harrives =>
                  h device ⟨token, htoken, hasks, hself, hauth, hreads, harrives.1⟩
                exact ⟨_, he⟩
      · obtain ⟨e, he⟩ := (carried lib (endpointLink env q lib sqlText m remote ids reach files
          dropped) debug client (Operation.changes (Int64.ofInt cursor) (some 100)) peer).unasked
            fun request hrequest => by
              cases Except.ok.inj ((request_changes htoken).symm.trans hrequest)
              exact hasks
        exact ⟨e, congrArg Prod.fst he⟩

/-- A page leaves the pairing state and the database of the peer alone. -/
theorem state_fetch :
    ((Operation.changes (Int64.ofInt cursor) (some 100)).perform lib
      (endpointLink env q lib sqlText m remote ids reach files dropped) debug client peer).2.wire =
        peer.wire ∧
    ((Operation.changes (Int64.ofInt cursor) (some 100)).perform lib
      (endpointLink env q lib sqlText m remote ids reach files dropped) debug client peer).2.db =
        peer.db := by
  have hcarried := carried lib (endpointLink env q lib sqlText m remote ids reach files dropped)
    debug client (Operation.changes (Int64.ofInt cursor) (some 100)) peer
  by_cases hasks : ∃ request,
      (Operation.changes (Int64.ofInt cursor) (some 100)).request client.token = .ok request ∧
      Asks lib (endpointLink env q lib sqlText m remote ids reach files dropped) client request
  · obtain ⟨request, hrequest, hasks⟩ := hasks
    cases htoken : client.token with
    | none =>
        rw [htoken] at hrequest
        cases hrequest
    | some token =>
        cases Except.ok.inj ((request_changes htoken).symm.trans hrequest)
        rw [(hcarried.asked _ hrequest hasks).1]
        exact state_changes
  · obtain ⟨e, he⟩ := hcarried.unasked fun request hrequest h => hasks ⟨request, hrequest, h⟩
    rw [he]
    exact ⟨rfl, rfl⟩

end Page

/-! ## The pass -/

section Pass

variable (env : Env) (q : SyncPrivacy.LogQueries env) (lib : SerdeJson)
variable (sqlText : SqlRows.SqlError → String) (order : SyncPairing.MapOrder) (ids : NodeIds)
variable (remote : String) (reach : String → Except String Unit)
variable (files : String → Option (List UInt8)) (dropped : Ending) (debug : Response → String)
variable (now deviceId : String) (client : Client)

/-- The peer of the loop has answered its pages; the other one has not, and knows as much. -/
theorem follows_pass : ∀ (visits : List Visit) (s : PullState) (peer peer' : Endpoint),
    peer.wire = peer'.wire → peer.db = peer'.db → minI64 ≤ s.cursor ∧ s.cursor ≤ maxI64 →
    (∀ log ∈ logsAt env q lib sqlText order ids visits peer', log.seq < 2 ^ 63) →
    Follows env q lib sqlText order ids remote reach files dropped now deviceId client visits s peer'
      (pass env q lib sqlText order ids remote reach files dropped debug now deviceId client visits s
        peer) := by
  intro visits
  induction visits with
  | nil => exact fun _ _ _ _ _ _ _ => rfl
  | cons v rest ih =>
      intro s peer peer' hwire hdb hcursor hlogs
      obtain ⟨hwire, hdb⟩ := state_final_congr (q := q) v.meanwhile hwire hdb
      obtain ⟨hseq, hlogs⟩ := List.forall_mem_cons.1 hlogs
      rw [pass, Follows]
      by_cases hserved : ∃ device, Serves env q lib sqlText ids remote reach files dropped client v.m
          (final (SyncEndpoint.step env q lib sqlText order ids) peer' v.meanwhile) s.cursor device
      · obtain ⟨device, hserves⟩ := hserved
        refine Or.inl ⟨device, hserves, ?_⟩
        rw [fetch_of_serves hcursor (serves_congr hwire hdb hserves), hdb]
        dsimp only
        rw [pullOfWire_changesFor hseq hcursor]
        cases htake : takePage env now deviceId (changesFor env (final (SyncEndpoint.step env q lib
            sqlText order ids) peer' v.meanwhile).db.log s.cursor device) s with
        | error e => rfl
        | ok next =>
            obtain ⟨s', more⟩ := next
            cases more with
            | false => rfl
            | true =>
                refine ih s' _ _ (state_fetch.1.trans hwire) (state_fetch.2.trans hdb) ?_ hlogs
                rw [cursor_takePage htake]
                exact latestVersion_i64 hcursor
      · have hnever : ∀ device, ¬ Serves env q lib sqlText ids remote reach files dropped client v.m
            (final (SyncEndpoint.step env q lib sqlText order ids) peer' v.meanwhile) s.cursor device :=
          fun device hserves => hserved ⟨device, hserves⟩
        obtain ⟨e, he⟩ := fetch_of_not_serves debug hcursor fun device hserves =>
          hnever device (serves_congr hwire.symm hdb.symm hserves)
        refine Or.inr ⟨hnever, e, ?_⟩
        rw [he]

/-- A pass that follows a log that nobody writes is the loop against the log, as long as
    it is served. -/
theorem pullLoop_of_follows {peer : Endpoint} : ∀ (visits : List Visit) (s : PullState)
    (result : Option (Except PassError PullState)), (∀ v ∈ visits, v.meanwhile = []) →
    (∀ v ∈ visits, ∀ token device,
      authorize env v.m peer.wire token remote = .ok device → device = deviceId) →
    Follows env q lib sqlText order ids remote reach files dropped now deviceId client visits s peer
      result →
    result = (pullLoop env now peer.db.log deviceId visits.length s).map (Except.mapError .page) ∨
      ∃ e, result = some (.error (.peer e)) := by
  intro visits
  induction visits with
  | nil => exact fun _ _ _ _ h => Or.inl h
  | cons v rest ih =>
      intro s result hquiet hown hfollows
      obtain ⟨hv, hquiet⟩ := List.forall_mem_cons.1 hquiet
      obtain ⟨hdevice, hown⟩ := List.forall_mem_cons.1 hown
      rw [Follows, hv, final_nil] at hfollows
      rcases hfollows with ⟨device, hserves, hpage⟩ | ⟨_, hstopped⟩
      · obtain ⟨token, _, _, _, hauth, _⟩ := hserves
        cases hdevice token device hauth
        rw [List.length_cons, pullLoop, turn_eq]
        cases htake : takePage env now deviceId (changesFor env peer.db.log s.cursor deviceId) s with
        | error e =>
            rw [htake] at hpage
            exact Or.inl hpage
        | ok next =>
            obtain ⟨s', more⟩ := next
            rw [htake] at hpage
            cases more with
            | false => exact Or.inl hpage
            | true => exact ih s' result hquiet hown hpage
      · exact Or.inr hstopped

end Pass

/-- **PULLS FOLLOW THE LOG.** -/
structure PullsTheLog (env : Env) (q : SyncPrivacy.LogQueries env) (lib : SerdeJson)
    (sqlText : SqlRows.SqlError → String) (order : SyncPairing.MapOrder) (ids : NodeIds)
    (remote : String) (reach : String → Except String Unit) (files : String → Option (List UInt8))
    (dropped : Ending) (debug : Response → String) (now deviceId : String) (client : Client)
    (visits : List Visit) (s : PullState) (peer : Endpoint) : Prop where
  follows : Follows env q lib sqlText order ids remote reach files dropped now deviceId client visits s
    peer (pass env q lib sqlText order ids remote reach files dropped debug now deviceId client visits
      s peer)
  /-- Where nothing happens between the pages, and the peer knows this node as this device
      alone, the pass is the pull loop. -/
  uninterrupted : (∀ v ∈ visits, v.meanwhile = []) →
    (∀ v ∈ visits, ∀ token device,
      authorize env v.m peer.wire token remote = .ok device → device = deviceId) →
    pass env q lib sqlText order ids remote reach files dropped debug now deviceId client visits s peer =
        (pullLoop env now peer.db.log deviceId visits.length s).map (Except.mapError .page) ∨
      ∃ e, pass env q lib sqlText order ids remote reach files dropped debug now deviceId client visits
        s peer = some (.error (.peer e))

/-- Over the wire, a pull takes what the peer's log shows its device, page by page, while
    the peer goes on. -/
theorem pulls_follow_the_log (env : Env) (q : SyncPrivacy.LogQueries env) (lib : SerdeJson)
    (sqlText : SqlRows.SqlError → String) (order : SyncPairing.MapOrder) (ids : NodeIds)
    (remote : String) (reach : String → Except String Unit) (files : String → Option (List UInt8))
    (dropped : Ending) (debug : Response → String) (now deviceId : String) (client : Client)
    (visits : List Visit) (s : PullState) (peer : Endpoint)
    (hcursor : minI64 ≤ s.cursor ∧ s.cursor ≤ maxI64)
    (hlogs : ∀ log ∈ logsAt env q lib sqlText order ids visits peer, log.seq < 2 ^ 63) :
    PullsTheLog env q lib sqlText order ids remote reach files dropped debug now deviceId client
      visits s peer := by
  have hfollows := follows_pass env q lib sqlText order ids remote reach files dropped debug now
    deviceId client visits s peer peer rfl rfl hcursor hlogs
  exact ⟨hfollows, fun hquiet hown => pullLoop_of_follows env q lib sqlText order ids remote reach
    files dropped now deviceId client visits s _ hquiet hown hfollows⟩

/-! ## A peer that offered one book -/

def quietMoment : Moment where
  now := 0
  stamp := ""
  elapsedMs := 0
  secret := SyncTokens.sampleId 2
  refuse _ := none
  disk _ := none
  desktop := none

def offeringPeer : Endpoint where
  wire := SyncTokens.startState.wire
  db := { SyncStore.Db.empty true with log := oneOffer }
  requestLog := []
  served := 0
  lastAt := none
  told := []

theorem pulls_follow_the_log_one_offer :
    PullsTheLog Env.reference SyncPrivacy.LogQueries.reference .exact (fun _ => "")
      SyncTokens.listOrder SyncPeers.hexNodeIds "node" (fun _ => .ok ()) (fun _ => none) .finished
      (fun _ => "") "" "x" { nodeId := SyncPeers.sampleNode '1', token := some "t" }
      [{ meanwhile := [], m := quietMoment }] firstPull offeringPeer := by
  refine pulls_follow_the_log _ _ _ _ _ _ _ _ _ _ _ _ _ _ _ _ _ ⟨by decide, by decide⟩ ?_
  intro log hlog
  cases List.mem_singleton.1 hlog
  decide

end SyncRemotePull

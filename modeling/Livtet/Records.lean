import Livtet.Strangers

/-! # Records — what an endpoint keeps of its requests

    Two things outlive a request. The library keeps what accepted requests wrote, in
    their order, among the owner's own writes. The log keeps that there was a request:
    the last two hundred, newest first, each under the device it was accepted for. -/

namespace SyncEndpoint

open SyncMessages SyncEnvelopes SyncConflictList Unwinding
open JsonText (SerdeJson)
open SqlRows (SqlError)
open SyncStore (Env)
open SyncPrivacy (LogQueries)

section Statement

variable (env : Env) (q : LogQueries env) (lib : SerdeJson) (sqlText : SqlError → String)
variable (m : Moment) (remote : String)

/-- The device whose token lets the request in. -/
def presenter (s : Endpoint) (request : Request) : Option String :=
  if remote = s.wire.selfNode then none
  else match credential request with
    | .token token => (authorize env m s.wire token remote).toOption
    | _ => none

/-- What a step writes to the library, and the peer device for which it does. -/
def effect (s : Endpoint) : Action → Option (Option String × Write)
  | .request m remote request =>
      (presenter env m remote s request).bind fun device =>
        (writeOf m request).map fun w => (some device, w)
  | .own w => some (none, w)
  | .decide _ => none

/-- The requests the parent process was told of. -/
def toldOf (s : Endpoint) : List RequestRecord := s.told.filterMap requestIn

/-- The record of a step that is a request. -/
def recorded (s : Endpoint) : Action → Option RequestRecord
  | .request m remote request =>
      some (recordOf m remote request (dispatch env q lib sqlText m remote request s).1)
  | _ => none

end Statement

section Steps

variable {env : Env} {q : LogQueries env} {lib : SerdeJson} {sqlText : SqlError → String}
variable {order : SyncPairing.MapOrder} {ids : SyncPeers.NodeIds}
variable {m : Moment} {remote : String} {request : Request}

/-- A request writes if it is let in by a device's token. -/
theorem writeOf_of_presenter_none {s : Endpoint} (haccepted : accepted env m remote s.wire request = true)
    (h : presenter env m remote s request = none) : writeOf m request = none := by
  have hself : remote ≠ s.wire.selfNode := by
    rw [accepted, Bool.and_eq_true] at haccepted
    exact of_decide_eq_true haccepted.1
  rw [presenter, if_neg hself] at h
  cases hcred : credential request with
  | none =>
      rw [accepted, hcred, Bool.and_false] at haccepted
      cases haccepted
  | token token =>
      rw [accepted_token hself hcred] at haccepted
      rw [hcred] at h
      have h : (authorize env m s.wire token remote).toOption = none := h
      cases hauth : authorize env m s.wire token remote with
      | ok device =>
          rw [hauth] at h
          cases h
      | error e =>
          rw [hauth] at haccepted
          cases haccepted
  | node =>
      cases request with
      | opds method path headers body => rfl
      | _ => cases hcred

theorem accepted_of_presenter {s : Endpoint} {device : String}
    (h : presenter env m remote s request = some device) :
    ∃ token, credential request = .token token ∧
      authorize env m s.wire token remote = .ok device ∧
      accepted env m remote s.wire request = true := by
  rw [presenter] at h
  split at h
  · cases h
  next hself =>
    split at h
    · next token hcred =>
        cases hauth : authorize env m s.wire token remote with
        | error e =>
            rw [hauth] at h
            cases h
        | ok device' =>
            rw [hauth] at h
            cases Option.some.inj h
            refine ⟨token, hcred, hauth, ?_⟩
            rw [accepted_token hself hcred, hauth]
            rfl
    · cases h

/-- The database after a step is what its write makes of it. -/
theorem db_step (s : Endpoint) (a : Action) :
    (step env q lib sqlText order ids s a).2.db =
      (effect env s a).elim s.db fun w => write env s.db w.2 := by
  cases a with
  | own w => rfl
  | decide decision => rfl
  | request m remote request =>
      show (dispatch env q lib sqlText m remote request s).2.db = _
      rw [effect]
      cases hpresenter : presenter env m remote s request with
      | some device =>
          obtain ⟨_, _, _, haccepted⟩ := accepted_of_presenter hpresenter
          rw [(dispatch_of_accepted haccepted).2]
          cases writeOf m request <;> rfl
      | none =>
          cases haccepted : accepted env m remote s.wire request with
          | false => exact (dispatch_of_not_accepted haccepted).2.2
          | true =>
              rw [(dispatch_of_accepted haccepted).2,
                writeOf_of_presenter_none haccepted hpresenter]
              rfl

theorem requestLog_step (s : Endpoint) (a : Action) :
    (step env q lib sqlText order ids s a).2.requestLog =
      (recorded env q lib sqlText s a).elim s.requestLog (Rings.push requestLogCap s.requestLog) := by
  cases a with
  | own w => rfl
  | decide decision => rfl
  | request m remote request =>
      show Rings.push requestLogCap (dispatch env q lib sqlText m remote request s).2.requestLog _ = _
      rw [sameReport_dispatch.requestLog]
      rfl

theorem served_step (s : Endpoint) (a : Action) :
    (step env q lib sqlText order ids s a).2.served =
      (recorded env q lib sqlText s a).elim s.served fun _ => s.served + 1 := by
  cases a with
  | own w => rfl
  | decide decision => rfl
  | request m remote request =>
      show (dispatch env q lib sqlText m remote request s).2.served + 1 = _
      rw [sameReport_dispatch.served]
      rfl

theorem told_step (s : Endpoint) (a : Action) :
    toldOf (step env q lib sqlText order ids s a).2 =
      (recorded env q lib sqlText s a).elim (toldOf s) fun record => toldOf s ++ [record] := by
  cases a with
  | own w => rfl
  | decide decision => rfl
  | request m remote request =>
      have hcompleted : ∀ completed : Option Completed,
          (completed.toList.map Notice.syncCompleted).filterMap requestIn = [] := by
        intro completed
        cases completed <;> rfl
      show (_ ++ _ :: _).filterMap requestIn = _
      rw [List.filterMap_append, sameReport_dispatch.told, List.filterMap_cons, hcompleted]
      rfl

end Steps

/-! ## Runs -/

section Runs

variable (env : Env) (q : LogQueries env) (lib : SerdeJson) (sqlText : SqlError → String)
variable (order : SyncPairing.MapOrder) (ids : SyncPeers.NodeIds)

/-- **THE LIBRARY IS WHAT WAS LET IN.** After a run the database is what the writes make
    of it, one after the other, and those that are not the owner's were asked for by a
    request whose token was issued to the device, for the node it came from. -/
theorem library_is_what_was_let_in (s : Endpoint) (run : List Action) :
    (final (step env q lib sqlText order ids) s run).db =
      ((effects (step env q lib sqlText order ids) (effect env) s run).map Prod.snd).foldl
        (write env) s.db ∧
    ∀ device w, (some device, w) ∈ effects (step env q lib sqlText order ids) (effect env) s run →
      ∃ pre m remote request post token,
        run = pre ++ .request m remote request :: post ∧ writeOf m request = some w ∧
        credential request = .token token ∧
        authorize env m (final (step env q lib sqlText order ids) s pre).wire token remote =
          .ok device := by
  constructor
  · rw [List.foldl_map]
    exact store_eq_foldl db_step run s
  · intro device w hw
    obtain ⟨pre, a, post, rfl, heffect⟩ := (mem_effects run).1 hw
    cases a with
    | own w' => cases heffect
    | decide decision => cases heffect
    | request m remote request =>
        obtain ⟨device', hpresenter, hwrite⟩ := Option.bind_eq_some_iff.1 heffect
        obtain ⟨w', hw', hpair⟩ := Option.map_eq_some_iff.1 hwrite
        obtain ⟨hdevice, rfl⟩ := Prod.mk.inj hpair
        cases Option.some.inj hdevice
        obtain ⟨token, hcred, hauth, _⟩ := accepted_of_presenter hpresenter
        exact ⟨pre, m, remote, request, post, token, rfl, hw', hcred, hauth⟩

/-- An endpoint that has answered nothing yet. -/
def unasked (s : Endpoint) : Endpoint := { s with requestLog := [], served := 0, told := [] }

/-- The counter goes up by one for each record. -/
theorem foldl_served (records : List RequestRecord) (n : Nat) :
    records.foldl (fun served _ => served + 1) (UInt64.ofNat n) =
      UInt64.ofNat (n + records.length) := by
  induction records generalizing n with
  | nil => rfl
  | cons record rest ih =>
      rw [List.foldl_cons, List.length_cons, ← Nat.add_assoc, Nat.add_right_comm, ← ih,
        UInt64.ofNat_add]
      rfl

theorem foldl_told (records seen : List RequestRecord) :
    records.foldl (fun seen record => seen ++ [record]) seen = seen ++ records := by
  induction records generalizing seen with
  | nil => exact (List.append_nil seen).symm
  | cons record rest ih => rw [List.foldl_cons, ih, List.append_assoc, List.singleton_append]

/-- **THE LOG KEEPS THE LAST REQUESTS.** Each request is on record once, with what came of
    it; `requests.recent` lists the last of them, newest first; the counter counts them
    all, and the parent process was told of them all. A record names a device only where
    the request's token was issued to it. -/
theorem log_keeps_the_last_requests (s : Endpoint) (run : List Action) (limit : Option UInt64) :
    let all := effects (step env q lib sqlText order ids) (recorded env q lib sqlText) (unasked s) run
    let stop := final (step env q lib sqlText order ids) (unasked s) run
    recent limit stop = all.reverse.take (min (limit.getD 50).toNat requestLogCap) ∧
    stop.served = UInt64.ofNat all.length ∧
    toldOf stop = all ∧
    ∀ record ∈ all, ∀ device, record.deviceId = some device →
      ∃ pre m remote request post token,
        run = pre ++ .request m remote request :: post ∧
        record.op = opName request ∧ record.nodeId = remote ∧
        credential request = .token token ∧
        authorize env m (final (step env q lib sqlText order ids) (unasked s) pre).wire token
          remote = .ok device := by
  intro all stop
  have hlog : stop.requestLog = all.rtake requestLogCap := by
    have hfold : stop.requestLog = all.foldl (Rings.push requestLogCap) [] :=
      store_eq_foldl requestLog_step run (unasked s)
    rw [hfold, ← List.rtake_nil requestLogCap, Rings.foldl_push (by decide), List.nil_append]
  refine ⟨?_, ?_, ?_, ?_⟩
  · rw [recent, hlog, Rings.newest_rtake, Nat.min_assoc, Nat.min_self]
  · have hfold : stop.served = all.foldl (fun n _ => n + 1) 0 :=
      store_eq_foldl served_step run (unasked s)
    rw [hfold]
    exact (foldl_served all 0).trans (congrArg UInt64.ofNat (Nat.zero_add _))
  · have hfold : toldOf stop = all.foldl (fun seen record => seen ++ [record]) [] :=
      store_eq_foldl told_step run (unasked s)
    rw [hfold, foldl_told, List.nil_append]
  · intro record hrecord device hdevice
    obtain ⟨pre, a, post, rfl, heffect⟩ := (mem_effects run).1 hrecord
    cases a with
    | own w => cases heffect
    | decide decision => cases heffect
    | request m remote request =>
        cases Option.some.inj heffect
        obtain ⟨token, hcred, hauth⟩ := authorize_of_named hdevice
        exact ⟨pre, m, remote, request, post, token, rfl, rfl, rfl, hcred, hauth⟩

end Runs

end SyncEndpoint

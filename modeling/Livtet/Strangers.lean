import Livtet.Dispatch
import Livtet.Lib.Unwinding

/-! # Strangers — what the endpoint keeps to itself

    Those who are not let in are told who this device is and what became of their own
    claims, and nothing that stands in the library. Over any run the door might as well
    be all there is: the answers at the door are those of a device with another library
    and without accepted requests. To everybody else, those who were turned away might
    as well not have asked. -/

namespace SyncEndpoint

open SyncMessages SyncEnvelopes SyncConflictList Unwinding
open JsonText (SerdeJson)
open SqlRows (SqlError)
open SyncStore (Env)
open SyncPairing (WireState)
open SyncPrivacy (LogQueries)

section Statement

variable (env : Env)

/-- The requests that are not let in, and the reader's decisions. -/
def outside (s : Endpoint) : Action → Bool
  | .request m remote request => !accepted env m remote s.wire request
  | .own _ => false
  | .decide _ => true

/-- The request has a credential, which is not accepted. -/
def turnedAway (m : Moment) (remote : String) (wire : WireState) (request : Request) : Bool :=
  match credential request with
  | .none => false
  | _ => !accepted env m remote wire request

/-- All but the requests that are turned away. -/
def heard (s : Endpoint) : Action → Bool
  | .request m remote request => !turnedAway env m remote s.wire request
  | _ => true

end Statement

section Steps

variable {env : Env} {q : LogQueries env} {lib : SerdeJson} {sqlText : SqlError → String}
variable {order : SyncPairing.MapOrder} {ids : SyncPeers.NodeIds}
variable {m : Moment} {remote : String} {request : Request}

theorem step_request (s : Endpoint) :
    step env q lib sqlText order ids s (.request m remote request) =
      (some (dispatch env q lib sqlText m remote request s).1,
        report m remote request (dispatch env q lib sqlText m remote request s).1
          (dispatch env q lib sqlText m remote request s).2) := rfl

/-- Whoever is turned away leaves the pairing state as it was. -/
theorem atDoor_of_turnedAway {wire : WireState} (h : turnedAway env m remote wire request = true) :
    (atDoor env m remote wire request).2 = wire := by
  rw [atDoor]
  by_cases hself : remote = wire.selfNode
  · rw [if_pos hself]
  rw [if_neg hself]
  rw [turnedAway] at h
  cases hletIn : letIn env m remote wire (credential request) with
  | error e => rfl
  | ok device =>
      exfalso
      split at h
      · cases h
      next hcred =>
        rw [accepted, decide_eq_true hself, Bool.true_and] at h
        split at h
        · next hnone => exact hcred hnone
        · rw [hletIn] at h
          cases h

theorem unwinds_outside (env : Env) (q : LogQueries env) (lib : SerdeJson)
    (sqlText : SqlError → String) (order : SyncPairing.MapOrder) (ids : SyncPeers.NodeIds) :
    Unwinds (step env q lib sqlText order ids) (outside env) Endpoint.wire where
  visible_eq := by
    intro s t a hview
    cases a with
    | request m remote request =>
        show (!accepted env m remote s.wire request) = (!accepted env m remote t.wire request)
        rw [hview]
    | _ => rfl
  hidden := by
    intro s a hhidden
    cases a with
    | request m remote request =>
        have haccepted : accepted env m remote s.wire request = true := by
          simpa only [outside, Bool.not_eq_false'] using hhidden
        exact (dispatch_of_accepted haccepted).1
    | own w => rfl
    | decide decision => cases hhidden
  answer_eq := by
    intro s t a hview hvisible
    cases a with
    | request m remote request =>
        have hs : accepted env m remote s.wire request = false := by
          simpa only [outside, Bool.not_eq_true'] using hvisible
        have ht : accepted env m remote t.wire request = false := hview ▸ hs
        rw [step_request, step_request]
        dsimp only
        rw [(dispatch_of_not_accepted hs).1, (dispatch_of_not_accepted ht).1, hview]
    | _ => rfl
  view_eq := by
    intro s t a hview hvisible
    cases a with
    | request m remote request =>
        have hs : accepted env m remote s.wire request = false := by
          simpa only [outside, Bool.not_eq_true'] using hvisible
        have ht : accepted env m remote t.wire request = false := hview ▸ hs
        show (dispatch env q lib sqlText m remote request s).2.wire =
          (dispatch env q lib sqlText m remote request t).2.wire
        rw [(dispatch_of_not_accepted hs).2.1, (dispatch_of_not_accepted ht).2.1, hview]
    | own w => exact hview
    | decide decision => exact congrArg (fun wire => settle env order ids wire decision) hview

theorem unwinds_heard (env : Env) (q : LogQueries env) (lib : SerdeJson)
    (sqlText : SqlError → String) (order : SyncPairing.MapOrder) (ids : SyncPeers.NodeIds) :
    Unwinds (step env q lib sqlText order ids) (heard env) fun s => (s.wire, s.db) where
  visible_eq := by
    intro s t a hview
    cases a with
    | request m remote request =>
        show (!turnedAway env m remote s.wire request) = (!turnedAway env m remote t.wire request)
        rw [(Prod.mk.inj hview).1]
    | _ => rfl
  hidden := by
    intro s a hhidden
    cases a with
    | request m remote request =>
        have haway : turnedAway env m remote s.wire request = true := by
          simpa only [heard, Bool.not_eq_false'] using hhidden
        have hrefused : accepted env m remote s.wire request = false := by
          rw [turnedAway] at haway
          split at haway
          · cases haway
          · simpa only [Bool.not_eq_true'] using haway
        have hwire : (dispatch env q lib sqlText m remote request s).2.wire =
            (atDoor env m remote s.wire request).2 := (dispatch_of_not_accepted hrefused).2.1
        have hdb : (dispatch env q lib sqlText m remote request s).2.db = s.db :=
          (dispatch_of_not_accepted hrefused).2.2
        exact Prod.ext (hwire.trans (atDoor_of_turnedAway haway)) hdb
    | _ => cases hhidden
  answer_eq := by
    intro s t a hview _
    cases a with
    | request m remote request =>
        exact congrArg some (dispatch_congr (Prod.mk.inj hview).1 (Prod.mk.inj hview).2)
    | _ => rfl
  view_eq := by
    intro s t a hview _
    obtain ⟨hwire, hdb⟩ := Prod.mk.inj hview
    cases a with
    | request m remote request =>
        exact Prod.ext (dispatch_state_congr hwire hdb).1 (dispatch_state_congr hwire hdb).2
    | own w => exact Prod.ext hwire (congrArg (fun db => write env db w) hdb)
    | decide decision =>
        exact Prod.ext (congrArg (fun wire => settle env order ids wire decision) hwire) hdb

end Steps

/-! ## Runs -/

section Runs

variable (env : Env) (q : LogQueries env) (lib : SerdeJson) (sqlText : SqlError → String)
variable (order : SyncPairing.MapOrder) (ids : SyncPeers.NodeIds)

/-- **STRANGERS LEARN NOTHING OF THE LIBRARY.** The answers at the door, and the pairing
    state, are those of an endpoint with any other library and record, which accepts
    nobody and whose owner writes nothing. -/
theorem strangers_learn_nothing (s other : Endpoint) (run : List Action) :
    observations (step env q lib sqlText order ids) (outside env) s run =
      observations (step env q lib sqlText order ids) (outside env) { other with wire := s.wire }
        (purge (step env q lib sqlText order ids) (outside env) s run) ∧
    (final (step env q lib sqlText order ids) s run).wire =
      (final (step env q lib sqlText order ids) { other with wire := s.wire }
        (purge (step env q lib sqlText order ids) (outside env) s run)).wire :=
  (unwinds_outside env q lib sqlText order ids).observations_purge run rfl

/-- **A REFUSED REQUEST LEAVES NO TRACE.** All other requests are answered as if the ones
    that are turned away were not made, and so the pairing state and the database end. -/
theorem refusals_leave_no_trace (s other : Endpoint) (run : List Action) :
    observations (step env q lib sqlText order ids) (heard env) s run =
      observations (step env q lib sqlText order ids) (heard env)
        { other with wire := s.wire, db := s.db }
        (purge (step env q lib sqlText order ids) (heard env) s run) ∧
    ((final (step env q lib sqlText order ids) s run).wire,
        (final (step env q lib sqlText order ids) s run).db) =
      ((final (step env q lib sqlText order ids) { other with wire := s.wire, db := s.db }
          (purge (step env q lib sqlText order ids) (heard env) s run)).wire,
        (final (step env q lib sqlText order ids) { other with wire := s.wire, db := s.db }
          (purge (step env q lib sqlText order ids) (heard env) s run)).db) :=
  (unwinds_heard env q lib sqlText order ids).observations_purge run rfl

end Runs

end SyncEndpoint

import Livtet.HostBridge
import Livtet.Lib.Unwinding
import Livtet.Lib.Utf8Text
import Livtet.Pairing

/-! # The control loop — requests that are answered while others run

    The daemon reads one line after the other from the desktop. Most requests are handled
    beside the loop and answered when they are done, in any order; `health` and
    `shutdown` are answered before the next line is read, and a response is handed to the
    bridge that waits for it.

    So each request that was read is answered once or still being handled, whatever the
    order. What is no message is answered with a null id; what is not even text ends the
    loop, as the end of the input does. -/

namespace SyncControl

open JsonText (SerdeJson)
open SyncRpc TaggedJson Unwinding
open JsonText.Json (Node)
open SyncPairing (trim)

/-! ## Answering -/

def parseError : Int64 := -32700

def methodNotFound : Int64 := -32601

/-- The methods that have a handler. -/
def methods : List String :=
  ["health", "status", "pairing.begin", "pairing.list", "discovery.nearby", "discovery.rename",
    "pairing.approve", "pairing.reject", "pairing.claim", "devices.list", "devices.offer_book",
    "devices.pull", "offers.list", "offers.cover", "offers.decide", "devices.revoke",
    "conflicts.list", "conflicts.resolve", "requests.recent", "server.rebind", "shutdown"]

/-- The methods that are answered before the next line is read. -/
def inlineMethods : List String := ["shutdown", "health"]

/-- A dispatch failure carrying the JSON-RPC error code to report. -/
structure RpcFailure where
  code : Int64
  message : String

def finish (request : RpcRequest) : Except RpcFailure Node → RpcResponse
  | .ok value => .ok request.id value
  | .error failure => .failed request.id failure.code failure.message

/-- `dispatch`, where the handler of the method ended in this way. -/
def dispatch (request : RpcRequest) (outcome : Except RpcFailure Node) : RpcResponse :=
  if request.method ∈ methods then finish request outcome
  else .failed request.id methodNotFound ("method not found: " ++ request.method)

/-! ## The loop -/

inductive Phase
  | reading
  | inline (request : RpcRequest)
  | ended (result : Except String Unit)

/-- The loop, the requests that are handled beside it, and the bridge for the requests
    that go the other way. -/
structure State where
  phase : Phase
  running : List RpcRequest
  host : HostBridge.State

def start : State where
  phase := .reading
  running := []
  host := HostBridge.start

inductive Action
  | line (bytes : List UInt8)
  | eof
  | settle (outcome : Except RpcFailure Node)
  | finish (i : Nat) (outcome : Except RpcFailure Node)
  | bridge (a : HostBridge.Action)

/-- What a line is, without the blanks around it. -/
inductive Incoming
  | unreadable
  | blank
  | message (m : Except String RpcMessage)

/-- What is owed an answer. -/
inductive Asked
  | request (r : RpcRequest)
  | malformed (message : String)

section Loop

variable (lib : SerdeJson)

def incoming (line : List UInt8) : Incoming :=
  match line.toByteArray.utf8Decode? with
  | none => .unreadable
  | some text =>
      let trimmed := trim (String.ofList text.toList)
      if trimmed = "" then .blank
      else .message (parseMessage lib (Utf8Text.bytes trimmed.toList))

/-- One line of `read_loop`. -/
def State.read (s : State) (line : List UInt8) : Option RpcResponse × State :=
  match incoming lib line with
  | .unreadable =>
      (none, { s with phase := .ended (.error "io error: stream did not contain valid UTF-8") })
  | .blank => (none, s)
  | .message (.error message) => (some (.failed none parseError message), s)
  | .message (.ok (.request request)) =>
      if request.method ∈ inlineMethods then (none, { s with phase := .inline request })
      else (none, { s with running := s.running ++ [request] })
  | .message (.ok (.response response)) => (none, { s with host := s.host.answer response })
  | .message (.ok (.notification _)) => (none, s)

/-- The answer to a request that is handled by the loop itself. -/
def State.settle (s : State) (request : RpcRequest) (outcome : Except RpcFailure Node) :
    Option RpcResponse × State :=
  (some (dispatch request outcome),
    { s with phase := if request.method = "shutdown" then .ended (.ok ()) else .reading })

/-- The answer to a request that was handled beside the loop. -/
def State.finish (s : State) (i : Nat) (outcome : Except RpcFailure Node) :
    Option RpcResponse × State :=
  match s.running[i]? with
  | none => (none, s)
  | some request =>
      (some (dispatch request outcome), { s with running := s.running.eraseIdx i })

/-- Handlers use the bridge in any way; that a response came is for the loop to tell. -/
def State.bridge (s : State) : HostBridge.Action → State
  | .answer _ => s
  | a => { s with host := HostBridge.step lib s.host a }

/-- The loop reads only between its own requests. -/
def step (s : State) : Action → Option RpcResponse × State
  | .line line =>
      match s.phase with
      | .reading => s.read lib line
      | _ => (none, s)
  | .eof =>
      match s.phase with
      | .reading => (none, { s with phase := .ended (.ok ()) })
      | _ => (none, s)
  | .settle outcome =>
      match s.phase with
      | .inline request => s.settle request outcome
      | _ => (none, s)
  | .finish i outcome => s.finish i outcome
  | .bridge a => (none, s.bridge lib a)

/-! ## What a run is held to -/

/-- What the step reads that is owed an answer. -/
def asks (s : State) : Action → Option Asked
  | .line line =>
      match s.phase, incoming lib line with
      | .reading, .message (.error message) => some (.malformed message)
      | .reading, .message (.ok (.request request)) => some (.request request)
      | _, _ => none
  | .eof | .settle _ | .finish _ _ | .bridge _ => none

/-- What the step answers. -/
def settles (s : State) : Action → Option Asked
  | .line line =>
      match s.phase, incoming lib line with
      | .reading, .message (.error message) => some (.malformed message)
      | _, _ => none
  | .settle _ =>
      match s.phase with
      | .inline request => some (.request request)
      | _ => none
  | .finish i _ => s.running[i]?.map .request
  | .eof | .bridge _ => none

/-- The requests that are being handled. -/
def State.owed (s : State) : List Asked :=
  (match s.phase with
    | .inline request => [.request request]
    | _ => []) ++ s.running.map .request

/-- The step of the bridge. -/
def bridged (s : State) : Action → Option HostBridge.Action
  | .line line =>
      match s.phase, incoming lib line with
      | .reading, .message (.ok (.response response)) => some (.answer response)
      | _, _ => none
  | .bridge (.answer _) => none
  | .bridge a => some a
  | .eof | .settle _ | .finish _ _ => none

/-- An answer carries the id of its request, and a result or an error; a method without
    a handler is reported. -/
def Answers : Asked → RpcResponse → Prop
  | .malformed message, response => response = .failed none parseError message
  | .request r, response =>
      response.id = r.id ∧ (response.result.isSome ↔ response.error.isNone) ∧
        (r.method ∉ methods →
          response = .failed r.id methodNotFound ("method not found: " ++ r.method))

/-- What is asked, and what is answered, in their orders. -/
def askedIn (s : State) (run : List Action) : List Asked := effects (step lib) (asks lib) s run

def answersIn (s : State) (run : List Action) : List RpcResponse :=
  effects (step lib) (fun s a => (step lib s a).1) s run

structure Conversation (run : List Action) : Prop where
  /-- Each request that was read, and each line that is no message, is answered once or
      still being handled, and there is no other answer. -/
  paired : ∃ settled : List Asked, List.Forall₂ Answers settled (answersIn lib start run) ∧
    (settled ++ (final (step lib) start run).owed).Perm (askedIn lib start run)
  /-- When a line is read, no `health` and no `shutdown` waits for its answer. -/
  prompt : ∀ pre line post, run = pre ++ .line line :: post →
    (final (step lib) start pre).phase = .reading →
    ∀ r, .request r ∈ (final (step lib) start pre).owed → r.method ∉ inlineMethods
  /-- What is asked after a `shutdown` is not read. -/
  last : ∀ pre r post, askedIn lib start run = pre ++ .request r :: post →
    r.method = "shutdown" → post = []
  /-- The bridge is told of the responses that were read, in their order. -/
  bridge : (final (step lib) start run).host = Runs.exec (HostBridge.step lib) HostBridge.start
    (effects (step lib) (bridged lib) start run)

end Loop

/-! ## One step -/

section Steps

variable {lib : SerdeJson} {s : State}

theorem answers_dispatch (request : RpcRequest) (outcome : Except RpcFailure Node) :
    Answers (.request request) (dispatch request outcome) := by
  rw [dispatch]
  split
  next hknown =>
    cases outcome with
    | ok value => exact ⟨rfl, Iff.rfl, fun h => absurd hknown h⟩
    | error failure => exact ⟨rfl, iff_of_false (by simp [finish, RpcResponse.failed]) (by
        simp [finish, RpcResponse.failed]), fun h => absurd hknown h⟩
  next => exact ⟨rfl, iff_of_false (by simp [RpcResponse.failed]) (by
      simp [RpcResponse.failed]), fun _ => rfl⟩

/-- A step answers what it settles, and nothing else. -/
theorem rel_answers (s : State) (a : Action) :
    Option.Rel Answers (settles lib s a) (step lib s a).1 := by
  cases a with
  | line line =>
      rw [settles, step]
      cases s.phase with
      | reading =>
          show Option.Rel Answers _ (s.read lib line).1
          rw [State.read]
          cases incoming lib line with
          | unreadable => exact .none
          | blank => exact .none
          | message m =>
              cases m with
              | error message => exact .some rfl
              | ok message =>
                  cases message with
                  | request r =>
                      dsimp only
                      split <;> exact .none
                  | response r => exact .none
                  | notification n => exact .none
      | inline r => exact .none
      | ended result => exact .none
  | eof =>
      rw [settles, step]
      cases s.phase <;> exact .none
  | settle outcome =>
      rw [settles, step]
      cases s.phase with
      | inline r => exact .some (answers_dispatch r outcome)
      | _ => exact .none
  | finish i outcome =>
      rw [settles, step, State.finish]
      cases s.running[i]? with
      | none => exact .none
      | some r => exact .some (answers_dispatch r outcome)
  | bridge a => exact .none

/-- A request of the loop's own is the one it handles. -/
theorem owed_inline {r : RpcRequest} (h : s.phase = .inline r) :
    s.owed = .request r :: s.running.map .request := by
  rw [State.owed, h]
  rfl

theorem owed_reading (h : s.phase = .reading) : s.owed = s.running.map .request := by
  rw [State.owed, h]
  rfl

theorem phase_bridge (s : State) (a : HostBridge.Action) : (s.bridge lib a).phase = s.phase := by
  cases a <;> rfl

theorem running_bridge (s : State) (a : HostBridge.Action) :
    (s.bridge lib a).running = s.running := by
  cases a <;> rfl

/-- A step accounts for what it reads. -/
theorem perm_owed (s : State) (a : Action) :
    ((settles lib s a).toList ++ (step lib s a).2.owed).Perm (s.owed ++ (asks lib s a).toList) := by
  cases a with
  | line line =>
      rw [settles, asks, step]
      cases hphase : s.phase with
      | reading =>
          dsimp only
          rw [State.read]
          cases incoming lib line with
          | unreadable => simp [State.owed, hphase]
          | blank => simp
          | message m =>
              cases m with
              | error message => exact List.perm_append_comm
              | ok message =>
                  cases message with
                  | request r =>
                      dsimp only
                      split
                      · -- the loop handles the request itself, before those beside it
                        rw [owed_reading hphase]
                        exact (List.perm_append_singleton _ _).symm
                      · simp [State.owed, hphase]
                  | response r => simp [State.owed, hphase]
                  | notification n => simp
      | inline r => simp
      | ended result => simp
  | eof =>
      rw [settles, asks, step]
      cases hphase : s.phase <;> simp [State.owed, hphase]
  | settle outcome =>
      rw [settles, asks, step]
      cases hphase : s.phase with
      | inline r =>
          dsimp only
          rw [owed_inline hphase, State.settle]
          split <;> simp [State.owed]
      | reading => simp
      | ended result => simp
  | finish i outcome =>
      rw [settles, asks, step, State.finish]
      cases hrunning : s.running[i]? with
      | none => simp
      | some r =>
          obtain ⟨hi, hr⟩ := List.getElem?_eq_some_iff.1 hrunning
          have hperm : (r :: s.running.eraseIdx i).Perm s.running := by
            rw [← hr]
            exact List.getElem_cons_eraseIdx_perm hi
          have hmap := hperm.map Asked.request
          simp only [Option.map_some, Option.toList_some, Option.toList_none, List.append_nil]
          show (Asked.request r :: (_ ++ (s.running.eraseIdx i).map Asked.request)).Perm
            (_ ++ s.running.map Asked.request)
          exact List.perm_middle.symm.trans (hmap.append_left _)
  | bridge a =>
      have howed : (s.bridge lib a).owed = s.owed := by
        rw [State.owed, State.owed, phase_bridge, running_bridge]
      show ((s.bridge lib a).owed).Perm (s.owed ++ [])
      rw [howed, List.append_nil]

/-- What runs beside the loop is not for the loop itself to answer. -/
theorem running_step (a : Action) (h : ∀ r ∈ s.running, r.method ∉ inlineMethods) :
    ∀ r ∈ (step lib s a).2.running, r.method ∉ inlineMethods := by
  cases a with
  | line line =>
      rw [step]
      cases s.phase with
      | reading =>
          dsimp only
          rw [State.read]
          cases incoming lib line with
          | unreadable => exact h
          | blank => exact h
          | message m =>
              cases m with
              | error message => exact h
              | ok message =>
                  cases message with
                  | request r =>
                      dsimp only
                      split
                      · exact h
                      next hbeside =>
                        exact List.forall_mem_append.2 ⟨h, List.forall_mem_singleton.2 hbeside⟩
                  | response r => exact h
                  | notification n => exact h
      | inline r => exact h
      | ended result => exact h
  | eof =>
      rw [step]
      cases s.phase <;> exact h
  | settle outcome =>
      rw [step]
      cases s.phase <;> exact h
  | finish i outcome =>
      rw [step, State.finish]
      cases s.running[i]? with
      | none => exact h
      | some r => exact fun r' hr' => h r' (List.mem_of_mem_eraseIdx hr')
  | bridge a =>
      show ∀ r ∈ (s.bridge lib a).running, _
      rw [running_bridge]
      exact h

/-- The loop is over, or about to be. -/
def Closing (s : State) : Prop :=
  match s.phase with
  | .reading => False
  | .inline r => r.method = "shutdown"
  | .ended _ => True

theorem closing_congr {s' : State} (hphase : s'.phase = s.phase) (h : Closing s) : Closing s' := by
  rw [Closing, hphase]
  exact h

/-- A loop that is about to end reads nothing, and goes on to end. -/
theorem closing_step (a : Action) (h : Closing s) :
    asks lib s a = none ∧ Closing (step lib s a).2 := by
  cases a with
  | line line =>
      rw [asks, step]
      cases hphase : s.phase with
      | reading =>
          rw [Closing, hphase] at h
          exact h.elim
      | inline r => exact ⟨rfl, h⟩
      | ended result => exact ⟨rfl, h⟩
  | eof =>
      rw [asks, step]
      cases s.phase with
      | reading => exact ⟨rfl, trivial⟩
      | inline r => exact ⟨rfl, h⟩
      | ended result => exact ⟨rfl, h⟩
  | settle outcome =>
      rw [asks, step]
      cases hphase : s.phase with
      | inline r =>
          rw [Closing, hphase] at h
          dsimp only
          rw [State.settle, if_pos h]
          exact ⟨rfl, trivial⟩
      | reading => exact ⟨rfl, h⟩
      | ended result => exact ⟨rfl, h⟩
  | finish i outcome =>
      rw [asks, step, State.finish]
      cases s.running[i]? with
      | none => exact ⟨rfl, h⟩
      | some r => exact ⟨rfl, h⟩
  | bridge a => exact ⟨rfl, closing_congr (phase_bridge s a) h⟩

/-- The loop is about to end when a `shutdown` was read. -/
theorem closing_of_asks {a : Action} {r : RpcRequest} (h : asks lib s a = some (.request r))
    (hshutdown : r.method = "shutdown") : Closing (step lib s a).2 := by
  cases a with
  | line line =>
      rw [asks] at h
      rw [step]
      cases hphase : s.phase with
      | reading =>
          rw [hphase] at h
          dsimp only at h ⊢
          rw [State.read]
          cases hincoming : incoming lib line with
          | unreadable => trivial
          | blank =>
              rw [hincoming] at h
              cases h
          | message m =>
              rw [hincoming] at h
              cases m with
              | error message => cases h
              | ok message =>
                  cases message with
                  | request r' =>
                      cases h
                      have hinline : r.method ∈ inlineMethods := by
                        rw [hshutdown]
                        decide
                      dsimp only
                      rw [if_pos hinline]
                      exact hshutdown
                  | response r' => cases h
                  | notification n => cases h
      | inline r' =>
          rw [hphase] at h
          cases h
      | ended result =>
          rw [hphase] at h
          cases h
  | _ => cases h

/-- The bridge moves by the steps that are its own. -/
theorem host_step (s : State) (a : Action) :
    (step lib s a).2.host = (bridged lib s a).elim s.host (HostBridge.step lib s.host) := by
  cases a with
  | line line =>
      rw [bridged, step]
      cases s.phase with
      | reading =>
          dsimp only
          rw [State.read]
          cases incoming lib line with
          | unreadable => rfl
          | blank => rfl
          | message m =>
              cases m with
              | error message => rfl
              | ok message =>
                  cases message with
                  | request r =>
                      dsimp only
                      split <;> rfl
                  | response r => rfl
                  | notification n => rfl
      | inline r => rfl
      | ended result => rfl
  | eof =>
      rw [bridged, step]
      cases s.phase <;> rfl
  | settle outcome =>
      rw [bridged, step]
      cases s.phase <;> rfl
  | finish i outcome =>
      rw [bridged, step, State.finish]
      cases s.running[i]? <;> rfl
  | bridge a => cases a <;> rfl

end Steps

/-! ## Runs -/

section Runs

variable {lib : SerdeJson}

theorem asked_of_closing : ∀ (run : List Action) {s : State}, Closing s → askedIn lib s run = [] := by
  intro run
  induction run with
  | nil => exact fun _ => rfl
  | cons a rest ih =>
      intro s h
      have hstep : asks lib s a = none ∧ Closing (step lib s a).2 := closing_step a h
      obtain ⟨hasks, hnext⟩ := hstep
      show (asks lib s a).toList ++ askedIn lib (step lib s a).2 rest = []
      rw [hasks, ih hnext]
      rfl

theorem running_final (run : List Action) :
    ∀ r ∈ (final (step lib) start run).running, r.method ∉ inlineMethods :=
  @Runs.preserved _ _ (fun s a => (step lib s a).2) (fun s => ∀ r ∈ s.running, r.method ∉ inlineMethods)
    (fun _ a => running_step a) start run fun _ h => by cases h

end Runs

/-- **EVERY REQUEST IS ANSWERED ONCE.** -/
theorem requests_answered_once (lib : SerdeJson) (run : List Action) : Conversation lib run where
  paired :=
    ⟨effects (step lib) (settles lib) start run, forall₂_effects rel_answers run start,
      perm_effects perm_owed run start⟩
  prompt := by
    intro pre line post _ hphase r hr
    rw [owed_reading hphase, List.mem_map] at hr
    obtain ⟨r', hr', hsame⟩ := hr
    cases hsame
    exact running_final pre r hr'
  last := by
    intro pre r post hasked hshutdown
    obtain ⟨before, a, after, _, _, hasks, rfl⟩ := effects_eq_append_cons run hasked
    exact asked_of_closing after (closing_of_asks hasks hshutdown)
  bridge := store_eq_foldl host_step run start

end SyncControl

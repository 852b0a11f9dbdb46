import VoiceCampaign.Model.Runs

/-!
# The mock provider

`app/provider/mock.py`, and the service of `app/main.py` with its events coming from there: `event_sink` hands
each of them to webhook ingest. The provider lives in the process of the service and is gone with it.
-/

namespace VoiceCampaign

open Concurrency

/-! ### Settings -/

/-- The fields of `app/config.py` the provider reads. Rates are exact, and so is their sum. -/
structure MockSettings where
  mockCallDurationSeconds : ℚ := 3
  mockFailureRate : ℚ := 1 / 10
  mockNoAnswerRate : ℚ := 1 / 10
  demoMode : Bool := false

def MockSettings.mockCallDurationEffective (settings : MockSettings) : ℚ :=
  if settings.demoMode then 15 else settings.mockCallDurationSeconds

def MockSettings.mockFailureRateEffective (settings : MockSettings) : ℚ :=
  if settings.demoMode then 35 / 100 else settings.mockFailureRate

/-! ### `_simulate` -/

/-- What a simulation asks of the world around it. -/
inductive SimOp where
  /-- `random.random()`. -/
  | random
  /-- `state.status = status`. -/
  | setStatus (status : CallStatus)
  /-- `self._event_seq += 1`, read back. -/
  | nextSeq
  /-- `await self._event_sink(payload)`. -/
  | sink (payload : Payload)
  | sleep (seconds : ℚ)

def SimReply : SimOp → Type
  | .random => ℚ
  | .nextSeq => Nat
  | .sink _ => Except Err Unit
  | .setStatus _ | .sleep _ => Unit

abbrev SimCo := Program SimOp SimReply Err

namespace MockProvider

def perform (op : SimOp) : SimCo (SimReply op) := Program.perform op

/-- `f"{call_id}:{self._event_seq}"`. -/
def eventId (callId : Handle) (seq : Nat) : String := s!"{callId}:{seq}"

def eventPayload (callId : Handle) (seq : Nat) (status : CallStatus) : Payload :=
  [("provider_event_id", .str (eventId callId seq)), ("provider_call_id", .str callId),
    ("status", .str status.value)]

def emit (callId : Handle) (status : CallStatus) : SimCo Unit := do
  let seq : Nat ← perform .nextSeq
  let delivered : Except Err Unit ← perform (.sink (eventPayload callId seq status))
  match delivered with
  | .ok () => pure ()
  | .error error => .fail error

/-- The outcome a roll stands for. -/
def outcomeOf (settings : MockSettings) (roll : ℚ) : CallStatus :=
  if roll < settings.mockFailureRateEffective then .failed
  else if roll < settings.mockFailureRateEffective + settings.mockNoAnswerRate then .noAnswer
  else .completed

/-- The `try` body, once the outcome is drawn. -/
def course (settings : MockSettings) (callId : Handle) (terminal : CallStatus) : SimCo Unit := do
  let duration := settings.mockCallDurationEffective
  perform (.setStatus .dialing)
  emit callId .dialing
  perform (.sleep (duration / 2))
  if terminal = .completed then
    perform (.setStatus .inProgress)
    emit callId .inProgress
    perform (.sleep (duration / 2))
  perform (.setStatus terminal)
  emit callId terminal

/-- An exception ends the simulation where it stands. -/
def simulate (settings : MockSettings) (callId : Handle) : SimCo Unit := do
  let roll : ℚ ← perform .random
  (course settings callId (outcomeOf settings roll)).catching fun _ => pure ()

end MockProvider

/-! ### The provider -/

/-- `_MockCallState`. -/
structure MockCallState where
  providerCallId : Handle
  phone : String
  idempotencyKey : IdempotencyKey
  status : CallStatus := .dialing

/-- A task of `_tasks`. -/
structure Simulation where
  callId : Handle
  code : SimCo Unit

structure MockProvider where
  tasks : List Simulation := []
  byIdem : List (IdempotencyKey × Handle) := []
  states : List MockCallState := []
  eventSeq : Nat := 0

namespace MockProvider

/-- `self._by_idem.get(idempotency_key)`. -/
def known? (provider : MockProvider) (key : IdempotencyKey) : Option Handle :=
  (provider.byIdem.find? fun entry => entry.1 = key).map Prod.snd

/-- `self._states.get(call_id)`. -/
def state? (provider : MockProvider) (callId : Handle) : Option MockCallState :=
  lookup MockCallState.providerCallId provider.states callId

/-- `place_call`, where `callId` is the new `f"mock-{secrets.token_hex(8)}"`, if one is needed. -/
def placeCall (settings : MockSettings) (provider : MockProvider) (callId : Handle) (idempotencyKey : IdempotencyKey)
    (phone : String) : Handle × MockProvider :=
  match provider.known? idempotencyKey with
  | some existing => (existing, provider)
  | none => (callId, { provider with
      tasks := provider.tasks ++ [{ callId, code := simulate settings callId }]
      byIdem := (idempotencyKey, callId) :: provider.byIdem
      states := { providerCallId := callId, phone, idempotencyKey } :: provider.states })

/-- `get_status`: a `KeyError` for a handle it does not know. -/
def getStatus (provider : MockProvider) (callId : Handle) : StatusOutcome :=
  match provider.state? callId with
  | some state => .reported state.status
  | none => .raised

/-- `self._states[call_id].status = status`. -/
def setStatus (provider : MockProvider) (callId : Handle) (status : CallStatus) : MockProvider :=
  { provider with states := provider.states.map fun state =>
      if state.providerCallId = callId then { state with status } else state }

end MockProvider

/-! ### The service and its provider -/

/-- One process of the service, on its database. -/
structure Deployment where
  sys : Sys := {}
  provider : MockProvider := {}

/-- How one step of a simulation turns out. -/
structure SimChoice where
  roll : ℚ := 0
  /-- What ingest raises. -/
  fault : Option Err := none
  receivedAt : Time := 0
  inboxId : InboxId := 0

inductive DeploymentAction where
  /-- An action of the service that concerns neither the provider nor its events. -/
  | serve (action : Action)
  /-- Coroutine `index` runs its next statement; `token` is what `secrets.token_hex` draws. -/
  | run (index : Nat) (pick : Nat) (jitter : Jitter) (token : String)
  /-- Simulation `index` goes on. -/
  | simulate (index : Nat) (choice : SimChoice)
  /-- The process ends, and another one starts. -/
  | restart

/-- The process goes on. -/
def DeploymentAction.keepsProcess : DeploymentAction → Bool
  | .restart => false
  | _ => true

/-- The actions of the service that the provider has no part in. Its events are the only ones there are. -/
def Action.aside : Action → Bool
  | .run _ _ | .ingest _ _ _ => false
  | _ => true

namespace Deployment

/-- What the provider answers to a statement, and what becomes of it. -/
def answer (mock : MockSettings) (d : Deployment) (pick : Nat) (jitter : Jitter) (callId : Handle) :
    Stmt → Choice × MockProvider
  | .placeCall key phone =>
      let (handle, provider) := d.provider.placeCall mock callId key phone
      ({ pick, jitter, place := .handle handle }, provider)
  | .getStatus handle => ({ pick, jitter, status := d.provider.getStatus handle }, d.provider)
  | _ => ({ pick, jitter }, d.provider)

/-- `place_call` would draw the handle of an earlier call. -/
def redraws (d : Deployment) (callId : Handle) : Stmt → Bool
  | .placeCall _ _ => d.sys.shared.issued.any fun dial => dial.handle = callId
  | _ => false

/-- One operation of the simulation of `callId`. `none`: it cannot go on now. -/
def execSim (deps : Deps) (d : Deployment) (callId : Handle) (choice : SimChoice) :
    (op : SimOp) → Option (SimReply op × Sys × MockProvider)
  | .random => some (choice.roll, d.sys, d.provider)
  | .setStatus status => some ((), d.sys, d.provider.setStatus callId status)
  | .nextSeq => some (d.provider.eventSeq + 1, d.sys, { d.provider with eventSeq := d.provider.eventSeq + 1 })
  | .sink payload =>
      match choice.fault with
      | some error => some (.error error, d.sys, d.provider)
      | none => (d.sys.step deps (.ingest payload choice.receivedAt choice.inboxId)).map fun sys =>
          (.ok (), sys, d.provider)
  | .sleep _ => some ((), d.sys, d.provider)

/-- The next operation of simulation `index`. -/
def runSimulation (deps : Deps) (d : Deployment) (index : Nat) (choice : SimChoice) : Option Deployment :=
  match d.provider.tasks[index]? with
  | some ⟨callId, .call op next⟩ =>
      match d.execSim deps callId choice op with
      | some (reply, sys, provider) =>
          some ⟨sys, { provider with tasks := provider.tasks.set index ⟨callId, next reply⟩ }⟩
      | none => none
  | _ => none

/-- All coroutines die, and so does the provider. -/
def restart (d : Deployment) : Deployment where
  sys := { d.sys with procs := d.sys.procs.map fun process => { task := process.task, code := .done () } }
  provider := {}

/-- The handles drawn are new: 64 random bits. -/
def step (deps : Deps) (mock : MockSettings) (d : Deployment) : DeploymentAction → Option Deployment
  | .serve action =>
      if action.aside = true then (d.sys.step deps action).map fun sys => { d with sys } else none
  | .run index pick jitter token =>
      match d.sys.procs[index]? with
      | some ⟨_, .call stmt _, _⟩ =>
          if d.redraws ("mock-" ++ token) stmt = true then none
          else
            let (choice, provider) := d.answer mock pick jitter ("mock-" ++ token) stmt
            (d.sys.step deps (.run index choice)).map fun sys => { sys, provider }
      | _ => none
  | .simulate index choice => d.runSimulation deps index choice
  | .restart => some d.restart

/-- A sequence of actions. -/
def run (deps : Deps) (mock : MockSettings) (d : Deployment) : List DeploymentAction → Option Deployment
  | [] => some d
  | action :: rest => (d.step deps mock action).bind fun d' => d'.run deps mock rest

end Deployment

/-- The states of the runs that start on an empty database and meet `allowed` at every step. -/
inductive DeployedBy (deps : Deps) (mock : MockSettings) (allowed : DeploymentAction → Prop) : Deployment → Prop
  | init (now : Time) : DeployedBy deps mock allowed { sys := { shared := { now } } }
  | step {d d' : Deployment} (action : DeploymentAction) (hd : DeployedBy deps mock allowed d) (hallowed : allowed action)
      (hstep : d.step deps mock action = some d') : DeployedBy deps mock allowed d'

theorem DeployedBy.of_run {deps : Deps} {mock : MockSettings} {allowed : DeploymentAction → Prop} {d d' : Deployment}
    {actions : List DeploymentAction} (h : DeployedBy deps mock allowed d) (hallowed : ∀ action ∈ actions, allowed action)
    (hrun : d.run deps mock actions = some d') : DeployedBy deps mock allowed d' := by
  induction actions generalizing d with
  | nil =>
      cases hrun
      exact h
  | cons action rest ih =>
      obtain ⟨mid, hstep, hrest⟩ := Option.bind_eq_some_iff.mp hrun
      rw [List.forall_mem_cons] at hallowed
      exact ih (.step action h hallowed.1 hstep) hallowed.2 hrest

/-- Every state of every run. -/
def Deployed (deps : Deps) (mock : MockSettings) : Deployment → Prop := DeployedBy deps mock fun _ => True

/-- A run that ends in a state with a property reaches such a state. -/
theorem DeployedBy.of_any (deps : Deps) (mock : MockSettings) (allowed : DeploymentAction → Prop)
    (actions : List DeploymentAction) (hallowed : ∀ action ∈ actions, allowed action) (p : Deployment → Bool)
    (h : (Deployment.run deps mock {} actions).any p = true) : ∃ d, DeployedBy deps mock allowed d ∧ p d = true := by
  obtain ⟨d, hrun, hp⟩ := (Option.any_eq_true _ _).mp h
  exact ⟨d, DeployedBy.of_run (.init 0) hallowed hrun, hp⟩

/-- Coroutine `index` runs `count` statements. -/
def goes (index count : Nat) : List DeploymentAction := List.replicate count (.run index 0 ⟨0, zero_jitter⟩ "a")

theorem Deployed.of_any (deps : Deps) (mock : MockSettings) (actions : List DeploymentAction) (p : Deployment → Bool)
    (h : (Deployment.run deps mock {} actions).any p = true) : ∃ d, Deployed deps mock d ∧ p d = true :=
  DeployedBy.of_any deps mock _ actions (fun _ _ => trivial) p h

/-- The one call is dialed. -/
def deployOne : List DeploymentAction := [.serve (.post oneCall 0 0 [0]), .serve .tick] ++ goes 0 20

/-- The first simulation does `count` operations; its roll makes it `NO_ANSWER`, its event inbox row `inboxId`. -/
def simulates (count : Nat) (inboxId : InboxId) : List DeploymentAction :=
  List.replicate count (.simulate 0 { roll := 1 / 7, inboxId })

/-- The call is dialed and goes unanswered, and the provider has said so. -/
def deployUnanswered : List DeploymentAction := deployOne ++ simulates 4 0 ++ simulates 4 1

end VoiceCampaign

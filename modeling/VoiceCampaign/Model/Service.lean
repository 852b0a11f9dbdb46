import VoiceCampaign.Model.System

/-!
# The service process

`app/main.py` starts, on one event loop, the scheduler loop, the reclaim sweep and the inbox safety net, next
to the API. They share one wake flag (`app/scheduler/wake.py`). Unlike in `System.lean`, somebody waits for
what a coroutine returns: the scheduler loop for its tick, and a sweep for the tasks it has started.
-/

namespace VoiceCampaign

open Concurrency

/-- What a coroutine returns to whoever awaits it. -/
inductive Outcome where
  | ticked (decision : TickDecision)
  | drained (processed : Nat)
  | reclaimed (outcome : ReclaimOutcome)

def Task.coroutine (deps : Deps) : Task → Co Outcome
  | tick => do
      let decision ← VoiceCampaign.tick deps
      pure (.ticked decision)
  | drain => do
      let processed ← processPendingInbox deps
      pure (.drained processed)
  | reclaim row => do
      let outcome ← reclaimOne row
      pure (.reclaimed outcome)

structure Coroutine where
  task : Task
  code : Co Outcome
  txn : Option Txn := none

/-- Where `scheduler_loop` stands. -/
inductive LoopAt where
  /-- In `wake.wait(timeout=safety_net)`. -/
  | waiting
  /-- Before `wake.clear()`. -/
  | resumed
  /-- Before `tick(deps)`. -/
  | cleared
  /-- In the tick that coroutine `index` runs. -/
  | ticking (index : Nat)
  /-- In `asyncio.sleep(safety_net)`, after a tick that raised. -/
  | sleeping
  deriving DecidableEq, Repr

/-- `sweeps` are the task groups under way: the coroutines each of them awaits. -/
structure Service where
  shared : Shared := {}
  procs : List Coroutine := []
  loop : LoopAt := .waiting
  sweeps : List (List Nat) := []

inductive Event where
  /-- Time passes. -/
  | elapse (micros : Nat)
  /-- `POST /campaigns` runs its transaction, and notifies. -/
  | post (body : CampaignCreate) (createdAt : Time) (campaignId : CampaignId) (callIds : List CallId)
  /-- Webhook ingest commits an event and spawns a drain. -/
  | ingest (payload : Payload) (receivedAt : Time) (inboxId : InboxId)
  /-- The safety net starts a drain. -/
  | drain
  /-- `stuck_reclaim_sweep` finds the stuck rows and starts one task for each. -/
  | sweep
  /-- Coroutine `index` runs its next statement. -/
  | run (index : Nat) (choice : Choice)
  /-- Task group `index` is done, and its sweep returns. -/
  | join (index : Nat)
  /-- `wake.wait` returns. -/
  | resume (timedOut : Bool)
  | clear
  /-- The loop starts a tick. -/
  | tick
  /-- The tick of the loop has returned or raised. -/
  | ticked
  /-- The loop has slept. -/
  | slept

/-- `o.kind in {ReclaimKind.EXECUTED, ReclaimKind.TERMINAL_APPLIED}`. -/
def ReclaimOutcome.freed (outcome : ReclaimOutcome) : Bool :=
  outcome.kind = .executed || outcome.kind = .terminalApplied

namespace Service

def txns (s : Service) : List Txn := s.procs.filterMap Coroutine.txn

/-- The open transactions of every coroutine but one. -/
def othersOf (s : Service) (index : Nat) : List Txn := (s.procs.eraseIdx index).filterMap Coroutine.txn

def spawn (deps : Deps) (s : Service) (tasks : List Task) : Service :=
  { s with procs := s.procs ++ tasks.map fun task => { task, code := task.coroutine deps } }

def notify (s : Service) : Service := { s with shared := { s.shared with wake := true } }

/-- The next statement of coroutine `index`. -/
def runCoroutine (s : Service) (index : Nat) (choice : Choice) : Option Service :=
  match s.procs[index]? with
  | some { task, code := .call stmt next, txn } =>
      match exec (s.othersOf index) choice s.shared txn stmt with
      | some (reply, shared, txn') =>
          some { s with shared, procs := s.procs.set index { task, code := next reply, txn := txn' } }
      | none => none
  | _ => none

/-- What the reclaim task `index` has returned. -/
def outcome? (s : Service) (index : Nat) : Option ReclaimOutcome :=
  match s.procs[index]? with
  | some { code := .done (.reclaimed outcome), .. } => some outcome
  | _ => none

/-- The sweep starts its tasks, if there are any. -/
def startSweep (deps : Deps) (s : Service) : List CallRow → Service
  | [] => s
  | rows => { s.spawn deps (rows.map .reclaim) with
      sweeps := s.sweeps ++ [List.range' s.procs.length rows.length] }

/-- All tasks of the group have returned, and the sweep notifies if one of them freed a slot. -/
def join (s : Service) (index : Nat) : Option Service :=
  match s.sweeps[index]? with
  | none => none
  | some tasks =>
      if tasks.all fun task => (s.outcome? task).isSome then
        if tasks.any fun task => (s.outcome? task).any ReclaimOutcome.freed then
          some { s.notify with sweeps := s.sweeps.eraseIdx index }
        else
          some { s with sweeps := s.sweeps.eraseIdx index }
      else none

def step (deps : Deps) (s : Service) : Event → Option Service
  | .elapse micros => some { s with shared := { s.shared with now := s.shared.now + micros } }
  | .post body createdAt campaignId callIds =>
      match createCampaign deps.settings s.txns s.shared.db body createdAt campaignId callIds with
      | some (.ok db) => some { s with shared := { s.shared with db, wake := true } }
      | some (.error _) => some s
      | none => none
  | .ingest payload receivedAt inboxId =>
      match ingestEventId payload with
      | none => some s
      | some eventId =>
          match insertInbox s.txns s.shared.db "mock" eventId payload receivedAt inboxId with
          | some db => some ({ s with shared := { s.shared with db } }.spawn deps [.drain])
          | none => none
  | .drain => some (s.spawn deps [.drain])
  | .sweep => some (s.startSweep deps
      (s.shared.db.findStuckDialing deps.settings.stuckReclaimSeconds s.shared.now))
  | .run index choice => s.runCoroutine index choice
  | .join index => s.join index
  | .resume timedOut =>
      if s.loop = .waiting ∧ (s.shared.wake = true ∨ timedOut = true) then some { s with loop := .resumed }
      else none
  | .clear =>
      if s.loop = .resumed then some { s with shared := { s.shared with wake := false }, loop := .cleared }
      else none
  | .tick =>
      if s.loop = .cleared then some { s.spawn deps [.tick] with loop := .ticking s.procs.length } else none
  | .ticked =>
      match s.loop with
      | .ticking index =>
          match s.procs[index]? with
          | some { code := .done _, .. } => some { s with loop := .waiting }
          | some { code := .fail _, .. } => some { s with loop := .sleeping }
          | _ => none
      | _ => none
  | .slept => if s.loop = .sleeping then some { s with loop := .waiting } else none

/-- A sequence of events. -/
def runEvents (deps : Deps) (s : Service) : List Event → Option Service
  | [] => some s
  | event :: rest => (s.step deps event).bind fun s' => s'.runEvents deps rest

/-- Every state of every run of the process, on the tables that earlier ones left: the transactions that they
had open are rolled back. -/
inductive Reached (deps : Deps) : Service → Prop
  | start {sys : Sys} (hsys : Reachable deps sys) (hidle : sys.txns = []) :
      Reached deps { shared := { sys.shared with wake := false } }
  | step {s s' : Service} (event : Event) (hs : Reached deps s) (hstep : s.step deps event = some s') :
      Reached deps s'

end Service

end VoiceCampaign

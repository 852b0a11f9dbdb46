import VoiceCampaign.Model.Tick
import VoiceCampaign.Model.Reclaim
import VoiceCampaign.Model.Api

/-!
# The running system

Any number of coroutines of any number of replicas over one database: ticks, inbox drains and
reclaim tasks, each advancing one statement at a time in any order, next to HTTP requests, the
passing of time and crashes. A crash of a coroutine rolls its open transaction back.
-/

namespace VoiceCampaign

open Concurrency

inductive Task where
  | tick
  | drain
  | reclaim (row : CallRow)

structure Process where
  task : Task
  code : Co Unit
  txn : Option Txn := none

def Task.code (deps : Deps) : Task → Co Unit
  | tick => do
      let _ ← VoiceCampaign.tick deps
      pure ()
  | drain => do
      let _ ← processPendingInbox deps
      pure ()
  | reclaim row => do
      let _ ← reclaimOne row
      pure ()

structure Sys where
  shared : Shared := {}
  procs : List Process := []

inductive Action where
  /-- Time passes. -/
  | elapse (micros : Nat)
  /-- `POST /campaigns` runs its transaction. -/
  | post (body : CampaignCreate) (createdAt : Time) (campaignId : CampaignId) (callIds : List CallId)
  /-- Webhook ingest commits an event and spawns a drain. -/
  | ingest (payload : Payload) (receivedAt : Time) (inboxId : InboxId)
  /-- The scheduler loop of some replica starts a tick. -/
  | tick
  /-- The safety net of some replica starts a drain. -/
  | drain
  /-- A sweep finds the stuck rows and starts one task for each. -/
  | sweep
  /-- Process `index` runs its next statement. -/
  | run (index : Nat) (choice : Choice)
  /-- Process `index` dies. -/
  | crash (index : Nat)

namespace Sys

def txns (s : Sys) : List Txn := s.procs.filterMap Process.txn

/-- The open transactions of every process but one. -/
def othersOf (s : Sys) (index : Nat) : List Txn := (s.procs.eraseIdx index).filterMap Process.txn

def spawn (deps : Deps) (s : Sys) (tasks : List Task) : Sys :=
  { s with procs := s.procs ++ tasks.map fun task => { task, code := task.code deps } }

/-- The next statement of process `index`. -/
def runProcess (s : Sys) (index : Nat) (choice : Choice) : Option Sys :=
  match s.procs[index]? with
  | some { task, code := .call stmt next, txn } =>
      match exec (s.othersOf index) choice s.shared txn stmt with
      | some (reply, shared, txn') =>
          some { shared, procs := s.procs.set index { task, code := next reply, txn := txn' } }
      | none => none
  | _ => none

def step (deps : Deps) (s : Sys) : Action → Option Sys
  | .elapse micros => some { s with shared := { s.shared with now := s.shared.now + micros } }
  | .post body createdAt campaignId callIds =>
      match createCampaign deps.settings s.txns s.shared.db body createdAt campaignId callIds with
      | some (.ok db) => some { s with shared := { s.shared with db, wake := true } }
      | some (.error _) => some s
      | none => none
  | .ingest payload receivedAt inboxId =>
      match ingestEventId payload with
      | none => some s
      | some eventId =>
          match insertInbox s.txns s.shared.db "mock" eventId payload receivedAt inboxId with
          | some db => some ({ s with shared := { s.shared with db } }.spawn deps [.drain])
          | none => none
  | .tick => some (s.spawn deps [.tick])
  | .drain => some (s.spawn deps [.drain])
  | .sweep => some (s.spawn deps
      ((s.shared.db.findStuckDialing deps.settings.stuckReclaimSeconds s.shared.now).map .reclaim))
  | .run index choice => s.runProcess index choice
  | .crash index =>
      match s.procs[index]? with
      | some process =>
          some { s with procs := s.procs.set index { task := process.task, code := .done () } }
      | none => none

/-- A sequence of actions. -/
def run (deps : Deps) (s : Sys) : List Action → Option Sys
  | [] => some s
  | action :: rest => (s.step deps action).bind fun s' => s'.run deps rest

end Sys

/-- The states of the runs that start on an empty database and meet `allowed` at every step. -/
inductive ReachableBy (deps : Deps) (allowed : Sys → Action → Prop) : Sys → Prop
  | init (now : Time) : ReachableBy deps allowed { shared := { now } }
  | step {s s' : Sys} (action : Action) (hs : ReachableBy deps allowed s)
      (hallowed : allowed s action) (hstep : s.step deps action = some s') :
      ReachableBy deps allowed s'

/-- Every state of every run. -/
def Reachable (deps : Deps) : Sys → Prop := ReachableBy deps fun _ _ => True

end VoiceCampaign

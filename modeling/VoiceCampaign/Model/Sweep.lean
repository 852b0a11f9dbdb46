import VoiceCampaign.Model.Service

/-!
# A sweep by itself

`stuck_reclaim_sweep` with no other component running: one task for each stuck row, each advancing one statement
at a time in any order. What the provider answers for a row, and the exception that comes to its task, if one
does, are given.
-/

namespace VoiceCampaign

open Concurrency

/-! ### Exceptions -/

/-- An exception that comes to a coroutine instead of its statement number `after`, or of its first `COMMIT`. -/
structure Fault where
  after : Nat
  error : Err

namespace Stmt

def isCommit : Stmt → Bool
  | commit => true
  | _ => false

/-- Whether a transaction is open after the statement. -/
def opens (opened : Bool) : Stmt → Bool
  | begin => true
  | commit | rollback => false
  | _ => opened

end Stmt

/-- The exception comes: an open `conn.transaction()` rolls back and lets it on. -/
def abort {α : Type} (error : Err) (opened : Bool) : Co α :=
  if opened = true then do
    perform .rollback
    raise error
  else raise error

/-- A coroutine up to the exception. A `COMMIT` that raises has not committed. -/
def interrupted {α : Type} (error : Err) : Co α → (opened : Bool) → (after : Nat) → Co α
  | .call stmt next, opened, after + 1 =>
      if stmt.isCommit = true then abort error opened
      else .call stmt fun reply => interrupted error (next reply) (stmt.opens opened) after
  | _, opened, _ => abort error opened

/-! ### Tasks -/

/-- A row the sweep has found, and what its task will meet. -/
structure SweepRow where
  row : CallRow
  /-- What `get_status` answers, if it is asked. -/
  status : StatusOutcome
  fault : Option Fault := none

/-- `_reclaim_one`. -/
def SweepRow.reclaimOne (r : SweepRow) : Co ReclaimOutcome :=
  match r.fault with
  | none => VoiceCampaign.reclaimOne r.row
  | some fault => (interrupted fault.error (reclaimOneInner r.row) false fault.after).catching fun _ =>
      pure ⟨r.row.id, .failed⟩

structure SweepTask where
  stuck : SweepRow
  code : Co ReclaimOutcome
  txn : Option Txn := none

/-- What the task has returned. -/
def SweepTask.outcome? (task : SweepTask) : Option ReclaimOutcome :=
  match task.code with
  | .done outcome => some outcome
  | _ => none

structure Sweep where
  shared : Shared
  tasks : List SweepTask

inductive SweepEvent where
  /-- Time passes. -/
  | elapse (micros : Nat)
  /-- Task `index` runs its next statement. -/
  | run (index : Nat)
  deriving DecidableEq

namespace Sweep

/-- The task group starts. -/
def start (shared : Shared) (rows : List SweepRow) : Sweep where
  shared := shared
  tasks := rows.map fun r => { stuck := r, code := r.reclaimOne }

/-- The open transactions of every task but one. -/
def othersOf (s : Sweep) (index : Nat) : List Txn := (s.tasks.eraseIdx index).filterMap SweepTask.txn

def step (s : Sweep) : SweepEvent → Option Sweep
  | .elapse micros => some { s with shared := { s.shared with now := s.shared.now + micros } }
  | .run index =>
      match s.tasks[index]? with
      | some { stuck, code := .call stmt next, txn } =>
          match exec (s.othersOf index) { status := stuck.status } s.shared txn stmt with
          | some (reply, shared, txn') =>
              some { shared, tasks := s.tasks.set index { stuck, code := next reply, txn := txn' } }
          | none => none
      | _ => none

/-- A sequence of events. -/
def run (s : Sweep) : List SweepEvent → Option Sweep
  | [] => some s
  | event :: rest => (s.step event).bind fun s' => s'.run rest

/-- `[t.result() for t in tasks]`, once all of them have returned. -/
def outcomes? (s : Sweep) : Option (List ReclaimOutcome) :=
  if s.tasks.all fun task => task.outcome?.isSome then some (s.tasks.filterMap SweepTask.outcome?) else none

/-- What `stuck_reclaim_sweep` returns, and what it leaves. -/
def finish (s : Sweep) : Option (List ReclaimOutcome × Shared) :=
  s.outcomes?.map fun outcomes =>
    (outcomes, if outcomes.any ReclaimOutcome.freed then { s.shared with wake := true } else s.shared)

end Sweep

end VoiceCampaign

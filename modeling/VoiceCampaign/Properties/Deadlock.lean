import VoiceCampaign.Protocol.Locks

/-!
# No deadlock

However many of the state-changing transactions run, on whatever rows, none waits for itself.
-/

namespace VoiceCampaign

open Concurrency

/-- A transaction has at most one row of each table, waits only for a row of a later table than all it has, and
is in no cycle of transactions that wait for each other. -/
theorem no_deadlock {pool : List Session} (h : rowLocking.Reachable StateChanging pool) :
    (∀ locker ∈ pool, ∀ a ∈ locker.held, ∀ b ∈ locker.held, a.rank = b.rank → a = b) ∧
    (∀ locker ∈ pool, ∀ lock, locker.todo.head? = some (.wait lock) → lock ∉ locker.held →
      ∀ other ∈ locker.held, other.rank < lock.rank) ∧
    ∀ i, ¬ Relation.TransGen (Locking.WaitsFor pool) i i := by
  have hclimbing : ∀ locker ∈ pool, rowLocking.Climbing locker := h.climbing fun _ => StateChanging.climbing
  refine ⟨fun locker hlocker => (hclimbing locker hlocker).one, fun locker hlocker lock hwaits hnot => ?_, ?_⟩
  · exact (hclimbing locker hlocker).above hwaits hnot
  · exact Locking.waitsFor_acyclic hclimbing

/-- A call of campaign 0 that a sweep has found. -/
def stuckRow (id : CallId) (phone : String) : CallRow where
  id := id
  campaignId := 0
  phone := phone
  status := .dialing
  attemptEpoch := 1
  retriesRemaining := 0
  nextAttemptAt := none
  providerCallId := some "h"
  createdAt := 0
  updatedAt := 0

section

variable {pool : List Session} (h : rowLocking.Reachable StateChanging pool) (index : Nat)

include h

theorem operated (stmt : Stmt) (reply : Reply stmt) (requests : List (Request Resource))
    {next : Reply stmt → Co Unit} {held : List Resource} (hlocker : pool[index]? = some ⟨.call stmt next, held, []⟩)
    (hasks : stmt.asks reply requests) : rowLocking.Reachable StateChanging
      (pool.set index ⟨next reply, rowLocking.before stmt held, requests⟩) :=
  h.step (.operate index stmt next held reply requests hlocker hasks)

theorem acquired {code : Co Unit} {held : List Resource} {request : Request Resource}
    {rest : List (Request Resource)} (hlocker : pool[index]? = some ⟨code, held, request :: rest⟩)
    (hfree : ∀ other ∈ pool.eraseIdx index, request.lock ∉ other.held) :
    rowLocking.Reachable StateChanging (pool.set index ⟨code, request.lock :: held, rest⟩) := by
  refine h.step (.acquire index code held request rest hlocker ?_)
  have hothers : ∀ (other : Nat) (locker : Session), other ≠ index → pool[other]? = some locker →
      request.lock ∉ locker.held := fun other locker hne hget =>
    hfree locker (List.mem_eraseIdx_iff_getElem?.mpr ⟨other, hne, hget⟩)
  cases request with
  | wait lock => exact Or.inr hothers
  | skip lock => exact Or.inr hothers
  | mark lock => trivial

end

/-- Two reclaim tasks fold the last calls of a campaign, and the second waits for the first to fold the
campaign. -/
theorem no_deadlock_two_rollups : ∃ pool : List Session, rowLocking.Reachable StateChanging pool ∧
    Locking.WaitsFor pool 1 0 ∧ ∀ i, ¬ Relation.TransGen (Locking.WaitsFor pool) i i := by
  have h : rowLocking.Reachable StateChanging [] := .init
  have h := h.step (.start _ (.applyTerminal (stuckRow 0 "a") .failed))
  have h := h.step (.start _ (.applyTerminal (stuckRow 1 "b") .failed))
  have h := operated h 0 .begin () [] rfl rfl
  have h := operated h 1 .begin () [] rfl rfl
  have h := operated h 0 (.updateCall _) (.ok (some (stuckRow 0 "a"))) _ rfl rfl
  have h := acquired h 0 rfl (by decide)
  have h := acquired h 0 rfl (by decide)
  have h := operated h 1 (.updateCall _) (.ok (some (stuckRow 1 "b"))) _ rfl rfl
  have h := acquired h 1 rfl (by decide)
  have h := acquired h 1 rfl (by decide)
  have h := operated h 0 (.emitAudit _) () [] rfl rfl
  have h := operated h 1 (.emitAudit _) () [] rfl rfl
  have h := operated h 0 (.lockCampaign 0) () _ rfl rfl
  have h := operated h 1 (.lockCampaign 0) () _ rfl rfl
  have h := acquired h 0 rfl (by decide)
  exact ⟨_, h, ⟨_, _, .row (.campaign 0), by decide, rfl, rfl, rfl, by decide, by decide⟩, (no_deadlock h).2.2⟩

end VoiceCampaign

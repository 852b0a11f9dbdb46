import VoiceCampaign.Model.Runs
import VoiceCampaign.Protocol.Reachable

/-!
# Attempts

A call row never carries the handle of another attempt, and a webhook only ever changes a row on behalf
of the attempt the row is at.
-/

namespace VoiceCampaign

open Concurrency

/-- The provider issues distinct handles for distinct idempotency keys. -/
def DistinctHandles (issued : List Dial) : Prop :=
  ∀ a ∈ issued, ∀ b ∈ issued, a.handle = b.handle → a.key = b.key

instance (issued : List Dial) : Decidable (DistinctHandles issued) :=
  inferInstanceAs (Decidable (∀ a ∈ issued, ∀ b ∈ issued, a.handle = b.handle → a.key = b.key))

/-- `place_call` returned the handle for the key. -/
def Returned (issued : List Dial) (key : IdempotencyKey) (handle : Handle) : Prop :=
  ⟨key, handle, true⟩ ∈ issued

/-- The handle was issued for the attempt `row` is at, and for no other. -/
def Current (issued : List Dial) (row : CallRow) (handle : Handle) : Prop :=
  Returned issued ⟨row.id, row.attemptEpoch⟩ handle ∧
    ∀ dial ∈ issued, dial.handle = handle → dial.key = ⟨row.id, row.attemptEpoch⟩

theorem Current.of_returned {issued : List Dial} (hdistinct : DistinctHandles issued) {row : CallRow}
    {handle : Handle} (h : Returned issued ⟨row.id, row.attemptEpoch⟩ handle) :
    Current issued row handle :=
  ⟨h, fun dial hdial hhandle => hdistinct dial hdial _ h hhandle⟩

/-- An update of a drain is caused by an event of the attempt the row is at. -/
theorem Cause.drain_current {s : Shared} (hdistinct : DistinctHandles s.issued) {inbox : Option InboxRow}
    {now : Time} {before after : CallRow} {note : AuditEvent}
    (h : Cause s (some .drain) inbox now before after note) :
    ∃ row event handle, inbox = some row ∧ parseEvent row.payload = .ok event ∧
      event.providerCallId = .str handle ∧ Current s.issued before handle ∧
        after.attemptEpoch = before.attemptEpoch := by
  cases h with
  | claim campaign inFlight pending cursor htask => cases htask
  | cas args hasks hhits hregresses =>
      obtain ⟨hid, -, hepoch⟩ := CallUpdate.hits_iff.mp hhits
      cases hasks with
      | webhook row event snap handle args hsnap hparse hevent hhandle hnew hargs =>
          have hreturned := hsnap.sound.handle handle hhandle
          have hcall : args.callId = snap.id ∧ args.expectedEpoch = snap.attemptEpoch ∧
              args.newEpoch = none := by cases hargs <;> exact ⟨rfl, rfl, rfl⟩
          rw [← hcall.1, ← hid, ← hcall.2.1, ← hepoch] at hreturned
          refine ⟨row, event, handle, rfl, hparse, hevent, .of_returned hdistinct hreturned, ?_⟩
          show args.newEpoch.getD before.attemptEpoch = _
          rw [hcall.2.2]
          rfl

/-- What a step of a drain changes in the call table, it changes because of an unprocessed inbox row,
which it marks, about the attempt the call is at. -/
theorem Guar.drain_current {s s' : Shared} {txn : Option Txn} (hdistinct : DistinctHandles s.issued)
    (h : Guar ⟨some .drain, txn⟩ s s') {id : CallId} {before after : CallRow}
    (hbefore : s.db.call? id = some before) (hafter : s'.db.call? id = some after)
    (hchanged : after ≠ before) :
    ∃ row event handle, s.db.inbox? row.id = some row ∧ row.processedAt = none ∧
      (∃ row', s'.db.inbox? row.id = some row' ∧ row'.processedAt ≠ none) ∧
      parseEvent row.payload = .ok event ∧ event.providerCallId = .str handle ∧
      Current s.issued before handle ∧ after.attemptEpoch = before.attemptEpoch := by
  cases h with
  | quiet hdb hnow hissued =>
      rw [hdb, hbefore] at hafter
      exact absurd (Option.some.inj hafter).symm hchanged
  | commit t htxn hready =>
      obtain ⟨inbox, note, folds, hmoves, -, hmarks, -⟩ := hready.call_changed hbefore hafter hchanged
      obtain ⟨row, event, handle, rfl, hparse, hevent, hcurrent, hepoch⟩ :=
        hmoves.cause.drain_current hdistinct
      have hrow := hmarks.marked_commit
      cases hmarks with
      | marked _ htask hcurrentRow hunprocessed hlock hinbox =>
          exact ⟨row, event, handle, hcurrentRow, hunprocessed, ⟨_, hrow, nofun⟩, hparse, hevent,
            hcurrent, hepoch⟩

/-- What holds of the handles in every reachable state. -/
structure AttemptsIsolated (deps : Deps) (s : Sys) : Prop where
  current : ∀ row ∈ s.shared.db.calls, ∀ handle, row.providerCallId = some handle →
    Current s.shared.issued row handle
  unique : ∀ a ∈ s.shared.db.calls, ∀ b ∈ s.shared.db.calls, ∀ handle, a.providerCallId = some handle →
    b.providerCallId = some handle → a = b
  /-- A step of a drain that changes a call. -/
  caused : ∀ index choice s' process, s.step deps (.run index choice) = some s' →
    s.procs[index]? = some process → process.task = .drain → ∀ id before after,
      s.shared.db.call? id = some before → s'.shared.db.call? id = some after → after ≠ before →
      ∃ row event handle, s.shared.db.inbox? row.id = some row ∧ row.processedAt = none ∧
        (∃ row', s'.shared.db.inbox? row.id = some row' ∧ row'.processedAt ≠ none) ∧
        parseEvent row.payload = .ok event ∧ event.providerCallId = .str handle ∧
        Current s.shared.issued before handle ∧ after.attemptEpoch = before.attemptEpoch

theorem attempts_isolated {deps : Deps} {s : Sys} (h : Reachable deps s)
    (hdistinct : DistinctHandles s.shared.issued) : AttemptsIsolated deps s where
  current row hrow handle hhandle :=
    .of_returned hdistinct ((h.consistent.sound row hrow).handle handle hhandle)
  unique a ha b hb handle hahandle hbhandle := by
    have hakey := (h.consistent.sound a ha).handle handle hahandle
    have hbkey := (h.consistent.sound b hb).handle handle hbhandle
    have hkey := hdistinct _ hakey _ hbkey rfl
    exact eq_of_key_eq h.consistent.callIds ha hb (congrArg IdempotencyKey.callId hkey)
  caused index choice s' process hstep hprocess htask id before after hbefore hafter hchanged := by
    obtain ⟨found, hfound, hguar⟩ := h.guar hstep
    obtain rfl := Option.some.inj (hprocess.symm.trans hfound)
    rw [htask] at hguar
    exact hguar.drain_current hdistinct hbefore hafter hchanged

/-- A drain is about to commit `IN_PROGRESS` for the one call. -/
theorem attempts_isolated_one_call : ∃ s, Reachable noonDeps s ∧ DistinctHandles s.shared.issued ∧
    (s.shared.db.calls.any fun row => row.providerCallId = some "h") = true ∧ AttemptsIsolated noonDeps s := by
  obtain ⟨s, hs, hp⟩ := Reachable.of_any noonDeps
    (dialOne ++ [.ingest (webhook "e" "h" .inProgress) 0 0] ++ runs 1 6)
    (fun s => decide (DistinctHandles s.shared.issued) &&
      s.shared.db.calls.any fun row => row.providerCallId = some "h") (by decide +kernel)
  rw [Bool.and_eq_true, decide_eq_true_eq] at hp
  exact ⟨s, hs, hp.1, hp.2, attempts_isolated hs hp.1⟩

end VoiceCampaign

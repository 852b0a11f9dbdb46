import Mathlib.Data.Finset.Card
import VoiceCampaign.Properties.Keys
import VoiceCampaign.Properties.Redials

/-!
# Retries

Each retry spent is recorded for the attempt that spent it, and the retries left are the budget less the
attempts recorded, as long as no drain commits `NO_ANSWER` or `BUSY` for an attempt that has spent its
retry already.
-/

namespace VoiceCampaign

open Concurrency

/-! ### The attempts that spent a retry -/

/-- The attempts of a call for which a retry was recorded. -/
def Db.retryEpochs (db : Db) (id : CallId) : Finset Nat :=
  (db.audit.filterMap fun row =>
    if row.event.callId = some id ∧ row.event.stateAfter = some CallStatus.retryPending.value then
      row.event.attemptEpoch
    else
      none).toFinset

theorem Db.mem_retryEpochs {db : Db} {id : CallId} {attemptEpoch : Nat} :
    attemptEpoch ∈ db.retryEpochs id ↔ db.RetryRecorded id attemptEpoch := by
  rw [retryEpochs, List.mem_toFinset, List.mem_filterMap]
  refine exists_congr fun row => and_congr_right fun _ => ?_
  split
  · next hrow => simp [hrow]
  · next hrow => exact ⟨nofun, fun h => absurd ⟨h.1, h.2.2⟩ hrow⟩

/-- An outcome that another attempt will follow is a retry. -/
theorem Db.outcomeEpochs_subset (db : Db) (id : CallId) : db.outcomeEpochs id ⊆ db.retryEpochs id := by
  intro attemptEpoch hmem
  obtain ⟨row, hrow, hcall, hepoch, hschedules⟩ := mem_outcomeEpochs.mp hmem
  rw [AuditEvent.schedulesRetry, Bool.and_eq_true, decide_eq_true_eq] at hschedules
  exact mem_retryEpochs.mpr ⟨row, hrow, hcall, hepoch, hschedules.1⟩

/-- The row carries `NO_ANSWER` or `BUSY`. -/
def InboxRow.asksRetry (row : InboxRow) : Bool :=
  match parseEvent row.payload with
  | .ok event => event.statusEnum = .noAnswer || event.statusEnum = .busy
  | .error _ => false

/-- The calls that a drain is about to commit a move of on behalf of `NO_ANSWER` or `BUSY`, as they are. -/
def retriedCalls (db : Db) (task : Task) (t : Txn) : List CallRow :=
  match task with
  | .drain =>
      if t.inbox.any InboxRow.asksRetry = true then
        t.calls.filterMap fun version => db.call? version.id
      else
        []
  | _ => []

theorem mem_retriedCalls {db : Db} {task : Task} {t : Txn} {call : CallRow} (h : call ∈ retriedCalls db task t) :
    task = .drain ∧ t.inbox.any InboxRow.asksRetry = true ∧ db.call? call.id = some call := by
  cases task with
  | drain =>
      rw [retriedCalls] at h
      split at h
      · next hasked =>
        obtain ⟨version, -, hrow⟩ := List.mem_filterMap.mp h
        rw [(lookup_some hrow).2]
        exact ⟨rfl, hasked, hrow⟩
      · cases h
  | _ => cases h

def Sys.retried (s : Sys) : Action → List CallRow
  | .run index _ =>
      match s.procs[index]? with
      | some ⟨task, .call .commit _, some t⟩ => retriedCalls s.shared.db task t
      | _ => []
  | _ => []

/-- No drain commits `NO_ANSWER` or `BUSY` for an attempt that has spent its retry. -/
def RetriesOnce (s : Sys) (action : Action) : Prop :=
  ∀ call ∈ s.retried action, call.attemptEpoch ∉ s.shared.db.retryEpochs call.id

instance (s : Sys) (action : Action) : Decidable (RetriesOnce s action) :=
  inferInstanceAs (Decidable (∀ call ∈ s.retried action, _))

/-! ### Why a retry is spent -/

section

variable {s s' : Shared} {task : Option Task} {t : Txn} {inbox : Option InboxRow} {now : Time}
  {before after : CallRow} {event : AuditEvent} {folds : List AuditEvent} {key : IdempotencyKey}

theorem CallStatus.value_ne_retryPending {status : CallStatus} (h : status ≠ .retryPending) :
    some status.value ≠ some CallStatus.retryPending.value := by
  cases status with
  | retryPending => exact absurd rfl h
  | _ => simp [CallStatus.value]

/-- A retry is taken off the budget that was read, for an attempt that has a handle or whose dial failed. -/
structure SpendsRetry (s : Shared) (task : Option Task) (inbox : Option InboxRow) (before after : CallRow)
    (event : AuditEvent) (snap : CallRow) : Prop where
  seen : Seen s snap
  key : snap.key = before.key
  stays : after.key = before.key
  budget : after.retriesRemaining + 1 = snap.retriesRemaining
  attemptEpoch : event.attemptEpoch = some before.attemptEpoch
  stateAfter : event.stateAfter = some CallStatus.retryPending.value
  reached : event.settles before.key = true ∨
    (snap.providerCallId ≠ none ∧ task = some .drain ∧ ∃ row, inbox = some row ∧ row.asksRetry = true)

/-- A move records a retry and spends it, or does neither. -/
theorem Cause.spends (h : Cause s task inbox now before after event) (hsix : s.db.SixStatuses)
    (hinbox : ∀ row ∈ inbox, row ∈ s.db.inbox) :
    (event.stateAfter ≠ some CallStatus.retryPending.value ∧
      after.retriesRemaining = before.retriesRemaining) ∨
      ∃ snap, SpendsRetry s task inbox before after event snap := by
  cases h with
  | claim campaign inFlight pending cursor htask hnone hclaimable =>
      exact Or.inl ⟨by simp [claimedEvent, CallStatus.value], rfl⟩
  | cas args hasks hhits hregresses =>
      obtain ⟨hid, -, hepoch⟩ := CallUpdate.hits_iff.mp hhits
      have hkeeps : args.newStatus ≠ .retryPending → args.columnUpdates.retriesRemaining = none →
          (args.auditEvent (args.set now before)).stateAfter ≠ some CallStatus.retryPending.value ∧
            (args.set now before).retriesRemaining = before.retriesRemaining := by
        intro hstatus hcolumn
        refine ⟨CallStatus.value_ne_retryPending hstatus, ?_⟩
        rw [CallUpdate.set, hcolumn]
        rfl
      cases hasks with
      | retryDue snap hsnap => exact Or.inl (hkeeps (by rintro ⟨⟩) rfl)
      | dispatch claimed handle hsnap hissued => exact Or.inl (hkeeps (by rintro ⟨⟩) rfl)
      | rejected claimed reasonCode hsnap => exact Or.inl (hkeeps (by rintro ⟨⟩) rfl)
      | unavailableExhausted claimed hsnap hbudget => exact Or.inl (hkeeps (by rintro ⟨⟩) rfl)
      | reclaim row hsnap => exact Or.inl (hkeeps (by rintro ⟨⟩) rfl)
      | reclaimTerminal row reported hsnap hreported =>
          refine Or.inl (hkeeps (fun he => ?_) rfl)
          rw [show reported = .retryPending from he] at hreported
          cases hreported
      | unavailable claimed nextAttempt hsnap hbudget =>
          have hkey : claimed.key = before.key := by rw [CallRow.key, CallRow.key, hid, hepoch]; rfl
          refine Or.inr ⟨claimed, hsnap, hkey, rfl, Nat.sub_add_cancel hbudget, rfl, rfl, Or.inl ?_⟩
          rw [AuditEvent.settles_iff, ← hkey]
          exact ⟨rfl, by rw [CallRow.key, show claimed.attemptEpoch = before.attemptEpoch from hepoch.symm]; rfl⟩
      | webhook row asked snap handle args hsnap hparse hevent hhandle hnew hargs =>
          cases hargs with
          | writeThrough hlive =>
              exact Or.inl (hkeeps (hsix row (hinbox row rfl) asked hparse).2 rfl)
          | asIs hterminal =>
              refine Or.inl (hkeeps (fun he => ?_) rfl)
              rw [show asked.statusEnum = .retryPending from he] at hterminal
              rcases hterminal with h | h <;> cases h
          | exhausted hretry hbudget => exact Or.inl (hkeeps (by rintro ⟨⟩) rfl)
          | retry nextAttempt hretry hbudget =>
              have hkey : snap.key = before.key := by rw [CallRow.key, CallRow.key, hid, hepoch]; rfl
              have hasked : row.asksRetry = true := by
                rw [InboxRow.asksRetry, hparse]
                rcases hretry with h | h <;> simp [h]
              exact Or.inr ⟨snap, hsnap, hkey, rfl, Nat.sub_add_cancel hbudget, rfl, rfl,
                Or.inr ⟨by rw [hhandle]; exact Option.some_ne_none _, rfl, row, rfl, hasked⟩⟩

/-- A handle comes with the record of its dial. -/
theorem Cause.dispatches (h : Cause s task inbox now before after event)
    (hhandle : after.providerCallId ≠ none) :
    (before.providerCallId ≠ none ∧ after.key = before.key) ∨ event.settles after.key = true := by
  cases h with
  | claim campaign inFlight pending cursor htask hnone hclaimable => exact absurd rfl hhandle
  | cas args hasks hhits hregresses =>
      obtain ⟨hid, -, hepoch⟩ := CallUpdate.hits_iff.mp hhits
      cases hasks with
      | dispatch claimed handle hsnap hissued =>
          refine Or.inr (AuditEvent.settles_iff.mpr ⟨rfl, ?_⟩)
          rw [CallRow.key, show (CallUpdate.set _ now before).id = claimed.id from hid]
          rfl
      | reclaim row hsnap => exact absurd rfl hhandle
      | webhook row asked snap handle args hsnap hparse hevent hsnapHandle hnew hargs =>
          cases hargs <;> exact Or.inl ⟨hhandle, rfl⟩
      | _ => exact Or.inl ⟨hhandle, rfl⟩

/-! ### The account -/

/-- Every attempt that has a handle or a retry was dialed, and the retries left and those recorded make
up the budget. -/
structure Accounted (db : Db) : Prop where
  dispatched : ∀ row ∈ db.calls, row.providerCallId ≠ none → 0 < db.settledCount row.key
  recorded : ∀ id attemptEpoch, attemptEpoch ∈ db.retryEpochs id → 0 < db.settledCount ⟨id, attemptEpoch⟩
  budget : ∀ row ∈ db.calls, ∀ campaign ∈ db.campaigns, campaign.id = row.campaignId →
    row.retriesRemaining + (db.retryEpochs row.id).card = campaign.retryConfig.maxAttempts

theorem Accounted.of_same {db db' : Db} (h : Accounted db) (hcalls : db'.calls = db.calls)
    (hcampaigns : db'.campaigns = db.campaigns) (hcount : ∀ key, db.settledCount key ≤ db'.settledCount key)
    (hepochs : ∀ id, db'.retryEpochs id = db.retryEpochs id) : Accounted db' where
  dispatched row hrow hhandle := (h.dispatched row (hcalls ▸ hrow) hhandle).trans_le (hcount _)
  recorded id attemptEpoch hmem := (h.recorded id attemptEpoch (hepochs id ▸ hmem)).trans_le (hcount _)
  budget row hrow campaign hcampaign howner := by
    rw [hepochs]
    exact h.budget row (hcalls ▸ hrow) campaign (hcampaigns ▸ hcampaign) howner

theorem settledCount_le_commit (key : IdempotencyKey) :
    s.db.settledCount key ≤ (s.commit t).db.settledCount key := by
  rw [settledCount_commit]
  exact Nat.le_add_right _ _

theorem settledCount_pos {row : AuditRow} (hrow : row ∈ t.audit) (hsettles : row.event.settles key = true) :
    0 < (s.commit t).db.settledCount key := by
  rw [settledCount_commit]
  exact Nat.add_pos_right _ (List.countP_pos_iff.mpr ⟨row, hrow, hsettles⟩)

theorem mem_retryEpochs_commit {id : CallId} {attemptEpoch : Nat} :
    attemptEpoch ∈ (s.commit t).db.retryEpochs id ↔ attemptEpoch ∈ s.db.retryEpochs id ∨
      ∃ event ∈ t.audit.map AuditRow.event, event.callId = some id ∧
        event.attemptEpoch = some attemptEpoch ∧ event.stateAfter = some CallStatus.retryPending.value := by
  rw [Db.mem_retryEpochs, Db.mem_retryEpochs]
  constructor
  · rintro ⟨row, hrow, hrecords⟩
    rcases mem_audit_commit.mp hrow with hold | hnew
    · exact Or.inl ⟨row, hold, hrecords⟩
    · exact Or.inr ⟨row.event, List.mem_map_of_mem hnew, hrecords⟩
  · rintro (⟨row, hrow, hrecords⟩ | ⟨_, hevent, hrecords⟩)
    · exact ⟨row, mem_audit_commit.mpr (Or.inl hrow), hrecords⟩
    · obtain ⟨row, hrow, rfl⟩ := List.mem_map.mp hevent
      exact ⟨row, mem_audit_commit.mpr (Or.inr hrow), hrecords⟩

/-- Notes record no retry. -/
theorem retryEpochs_commit_notes (hnotes : ∀ row ∈ t.audit, row.event.isNote = true) (id : CallId) :
    (s.commit t).db.retryEpochs id = s.db.retryEpochs id := by
  ext attemptEpoch
  rw [mem_retryEpochs_commit, or_iff_left]
  rintro ⟨event, hevent, -, -, hstate⟩
  obtain ⟨row, hrow, rfl⟩ := List.mem_map.mp hevent
  have hnote := hnotes row hrow
  rw [AuditEvent.isNote, hstate] at hnote
  simp at hnote

/-- Only the row of the call says that a retry was spent. -/
theorem Folds.mem_retryEpochs (h : Folds s t after folds) (haudit : t.audit.map AuditRow.event = event :: folds)
    {id : CallId} {attemptEpoch : Nat} :
    attemptEpoch ∈ (s.commit t).db.retryEpochs id ↔ attemptEpoch ∈ s.db.retryEpochs id ∨
      (event.callId = some id ∧ event.attemptEpoch = some attemptEpoch ∧
        event.stateAfter = some CallStatus.retryPending.value) := by
  rw [mem_retryEpochs_commit, haudit]
  refine or_congr_right ⟨?_, fun hevent => ⟨event, List.mem_cons_self .., hevent⟩⟩
  rintro ⟨other, hother, hcall, hrecords⟩
  rcases List.mem_cons.mp hother with rfl | hfold
  · exact ⟨hcall, hrecords⟩
  · rw [(h.events other hfold).2] at hcall
    cases hcall

theorem Grows.campaign_of (h : Grows s s') (hinv : Consistent s) (hinv' : Consistent s') {row : CallRow}
    (hrow : row ∈ s.db.calls) {campaign : CampaignRow} (hcampaign : campaign ∈ s'.db.campaigns)
    (howner : campaign.id = row.campaignId) :
    ∃ old ∈ s.db.campaigns, old.id = row.campaignId ∧ old.retryConfig = campaign.retryConfig := by
  obtain ⟨old, hold, hmem, hid⟩ := hinv.campaign_of_call hrow
  obtain ⟨new, hnew, hevolves⟩ := h.campaign _ old hold
  rw [← howner, hinv'.campaign?_iff.mpr ⟨hcampaign, rfl⟩] at hnew
  obtain rfl := Option.some.inj hnew
  exact ⟨old, hmem, hid, by rw [hevolves.config]⟩

/-- The budget that was read is the one the attempt still has, until its retry is spent. -/
theorem Seen.retriesRemaining (h : Seen s snap) (hbefore : s.db.call? before.id = some before)
    (hkey : snap.key = before.key) (honce : before.attemptEpoch ∉ s.db.retryEpochs before.id) :
    snap.retriesRemaining = before.retriesRemaining := by
  obtain ⟨s₀, hinv, hgrows, hmem⟩ := h
  have hid : snap.id = before.id := congrArg IdempotencyKey.callId hkey
  have hepoch : snap.attemptEpoch = before.attemptEpoch := congrArg IdempotencyKey.attemptEpoch hkey
  rcases hgrows.retries snap.id snap before (hinv.call?_of_mem hmem) (hid ▸ hbefore) hepoch.symm with
    hsame | hrecorded
  · exact hsame.symm
  · rw [hid, hepoch] at hrecorded
    exact absurd (Db.outcomeEpochs_subset _ _ hrecorded) honce

theorem Seen.providerCallId (h : Seen s snap) (hbefore : s.db.call? before.id = some before)
    (hkey : snap.key = before.key) (hhandle : snap.providerCallId ≠ none) : before.providerCallId ≠ none := by
  obtain ⟨s₀, hinv, hgrows, hmem⟩ := h
  have hid : snap.id = before.id := congrArg IdempotencyKey.callId hkey
  obtain ⟨row, hrow, hevolves⟩ := hgrows.call _ snap (hinv.call?_of_mem hmem)
  rw [hid, hbefore] at hrow
  obtain rfl := Option.some.inj hrow
  exact hevolves.handle (congrArg IdempotencyKey.attemptEpoch hkey).symm hhandle

end

section

variable {s s' : Shared} {task : Task} {t : Txn} {inbox : Option InboxRow} {before after : CallRow}
  {event : AuditEvent} {folds : List AuditEvent}

/-- What a commit records for the first time. -/
structure NewRecords (db : Db) (task : Task) (t : Txn) : Prop where
  settles : ∀ row ∈ t.audit, ∀ key, row.event.settles key = true → db.settledCount key = 0
  retries : ∀ call ∈ retriedCalls db task t, call.attemptEpoch ∉ db.retryEpochs call.id

/-- A move records a retry for the first time and spends it, or does neither. -/
theorem Accounted.spends (h : Accounted s.db) (hsix : s.db.SixStatuses) (hnews : NewRecords s.db task t)
    (hmoves : Moves s (some task) t inbox before after event) (hmarks : Marks s (some task) t inbox)
    (hevent : ∃ row ∈ t.audit, row.event = event) :
    (event.stateAfter ≠ some CallStatus.retryPending.value ∧
      after.retriesRemaining = before.retriesRemaining) ∨
      (after.retriesRemaining + 1 = before.retriesRemaining ∧ event.attemptEpoch = some before.attemptEpoch ∧
        event.stateAfter = some CallStatus.retryPending.value ∧
        before.attemptEpoch ∉ s.db.retryEpochs before.id ∧ 0 < (s.commit t).db.settledCount before.key) := by
  have hbefore : s.db.call? before.id = some before := hmoves.before_id ▸ hmoves.row
  have hinbox : ∀ row ∈ inbox, row ∈ s.db.inbox := by
    rintro row rfl
    cases hmarks with
    | marked _ htask hrow hunprocessed hlock hwrites => exact (lookup_some hrow).1
  rcases hmoves.cause.spends hsix hinbox with hkeeps | ⟨snap, hspends⟩
  · exact Or.inl hkeeps
  have hnew : before.attemptEpoch ∉ s.db.retryEpochs before.id ∧
      0 < (s.commit t).db.settledCount before.key := by
    rcases hspends.reached with hsettles | ⟨hhandle, htask, row, hrow, hasks⟩
    · obtain ⟨entry, hentry, rfl⟩ := hevent
      refine ⟨fun hrecorded => ?_, settledCount_pos hentry hsettles⟩
      have hpos := h.recorded _ _ hrecorded
      exact absurd (hnews.settles entry hentry _ hsettles) hpos.ne'
    · have hdialed := hspends.seen.providerCallId hbefore hspends.key hhandle
      refine ⟨hnews.retries before ?_,
        (h.dispatched before hmoves.before_mem hdialed).trans_le (settledCount_le_commit _)⟩
      obtain rfl := Option.some.inj htask
      subst hrow
      cases hmarks with
      | marked _ htask hrow hunprocessed hlock hwrites =>
          have hasked : t.inbox.any InboxRow.asksRetry = true := by
            rw [hwrites]
            simpa [InboxRow.asksRetry] using hasks
          rw [retriedCalls, if_pos hasked, hmoves.calls]
          simp [hmoves.row]
  have hbudget := hspends.seen.retriesRemaining hbefore hspends.key hnew.1
  exact Or.inr ⟨hbudget ▸ hspends.budget, hspends.attemptEpoch, hspends.stateAfter, hnew⟩

/-- A commit that moves a call keeps the account, if what it records is new. -/
theorem Accounted.moves (h : Accounted s.db) (hinv : Consistent s) (hready : Ready s (some task) t)
    (hsix : s.db.SixStatuses) (hnews : NewRecords s.db task t)
    (hmoves : Moves s (some task) t inbox before after event) (hfolds : Folds s t after folds)
    (hmarks : Marks s (some task) t inbox) (haudit : t.audit.map AuditRow.event = event :: folds) :
    Accounted (s.commit t).db := by
  have hevent : ∃ row ∈ t.audit, row.event = event :=
    List.mem_map.mp (haudit ▸ List.mem_cons_self ..)
  have hspends := h.spends hsix hnews hmoves hmarks hevent
  have hcallId : event.callId = some after.id := hmoves.before_id ▸ hmoves.cause.eventType.2.2
  have hconfig : ∀ row ∈ s.db.calls, ∀ campaign ∈ (s.commit t).db.campaigns,
      campaign.id = row.campaignId →
        row.retriesRemaining + (s.db.retryEpochs row.id).card = campaign.retryConfig.maxAttempts := by
    intro row hrow campaign hcampaign howner
    obtain ⟨old, hmem, hid, hsame⟩ :=
      hready.grows.campaign_of hinv (hready.consistent hinv) hrow hcampaign howner
    rw [← hsame]
    exact h.budget row hrow old hmem hid
  constructor
  · intro row hrow hhandle
    rcases hmoves.mem_commit.mp hrow with rfl | ⟨hold, -⟩
    · rcases hmoves.cause.dispatches hhandle with ⟨hkept, hkey⟩ | hsettles
      · rw [hkey]
        exact (h.dispatched before hmoves.before_mem hkept).trans_le (settledCount_le_commit _)
      · obtain ⟨entry, hentry, rfl⟩ := hevent
        exact settledCount_pos hentry hsettles
    · exact (h.dispatched row hold hhandle).trans_le (settledCount_le_commit _)
  · intro id attemptEpoch hmem
    rcases (hfolds.mem_retryEpochs haudit).mp hmem with hold | ⟨hcall, hepoch, hstate⟩
    · exact (h.recorded id attemptEpoch hold).trans_le (settledCount_le_commit _)
    · rcases hspends with ⟨hnot, -⟩ | ⟨-, hattempt, -, -, hpos⟩
      · exact absurd hstate hnot
      · rw [hcallId, ← hmoves.before_id] at hcall
        rw [hattempt] at hepoch
        rw [← Option.some.inj hcall, ← Option.some.inj hepoch]
        exact hpos
  · intro row hrow campaign hcampaign howner
    rcases hmoves.mem_commit.mp hrow with rfl | ⟨hold, hid⟩
    · rw [← hconfig before hmoves.before_mem campaign hcampaign (howner.trans hmoves.campaignId),
        ← hmoves.before_id]
      rcases hspends with ⟨hnot, hsame⟩ | ⟨hspent, hattempt, hstate, hnew, -⟩
      · have hepochs : (s.commit t).db.retryEpochs before.id = s.db.retryEpochs before.id := by
          ext attemptEpoch
          rw [hfolds.mem_retryEpochs haudit, or_iff_left fun hrecords => hnot hrecords.2.2]
        rw [hsame, hepochs]
      · have hepochs : (s.commit t).db.retryEpochs before.id =
            insert before.attemptEpoch (s.db.retryEpochs before.id) := by
          ext attemptEpoch
          rw [hfolds.mem_retryEpochs haudit, Finset.mem_insert, hcallId, hattempt, hstate, hmoves.before_id]
          simp only [Option.some.injEq, true_and, and_true, eq_comm, or_comm]
        rw [hepochs, Finset.card_insert_of_notMem hnew]
        omega
    · have hepochs : (s.commit t).db.retryEpochs row.id = s.db.retryEpochs row.id := by
        ext attemptEpoch
        rw [hfolds.mem_retryEpochs haudit, or_iff_left]
        rintro ⟨hcall, -⟩
        rw [hcallId] at hcall
        exact hid (Option.some.inj hcall).symm
      rw [hepochs]
      exact hconfig row hold campaign hcampaign howner

theorem Accounted.commit (h : Accounted s.db) (hinv : Consistent s) (hready : Ready s (some task) t)
    (hsix : s.db.SixStatuses) (hnews : NewRecords s.db task t) : Accounted (s.commit t).db := by
  cases hready with
  | quiet inbox hcalls hcampaigns hmarks hnotes =>
      exact h.of_same (Shared.calls_commit_nil hcalls) (Shared.campaigns_commit_nil hcampaigns)
        settledCount_le_commit (retryEpochs_commit_notes hnotes)
  | moves inbox before after event folds hmoves hfolds hmarks haudit =>
      exact h.moves hinv (.moves inbox before after event folds hmoves hfolds hmarks haudit) hsix hnews
        hmoves hfolds hmarks haudit

end

/-! ### Every run -/

section

variable {deps : Deps} {s s' : Sys} {action : Action}

theorem Accounted.posted {others : List Txn} {s s' : Shared} {campaign : CampaignRow} {rows : List CallRow}
    (h : Accounted s.db) (hposted : Posted others s.db s'.db campaign rows) (hinv : Consistent s) :
    Accounted s'.db := by
  have hcount : ∀ key, s'.db.settledCount key = s.db.settledCount key := by
    intro key
    rw [Db.settledCount, hposted.audit]
    rfl
  have hepochs : ∀ id, s'.db.retryEpochs id = s.db.retryEpochs id := by
    intro id
    rw [Db.retryEpochs, hposted.audit]
    rfl
  constructor
  · intro row hrow hhandle
    rcases hposted.mem_calls.mp hrow with hold | hnew
    · exact hcount row.key ▸ h.dispatched row hold hhandle
    · exact absurd (hposted.queued row hnew).2.2.2.1 hhandle
  · intro id attemptEpoch hmem
    rw [hcount]
    exact h.recorded id attemptEpoch (hepochs id ▸ hmem)
  · intro row hrow owner howner hid
    rw [hepochs]
    rcases hposted.mem_calls.mp hrow with hold | hnew
    · obtain ⟨old, hmem, hid'⟩ := hinv.owner row hold
      rcases hposted.mem_campaigns.mp howner with hold' | rfl
      · exact h.budget row hold owner hold' hid
      · exact absurd (hid'.trans hid.symm) (hposted.freshCampaign old hmem)
    · obtain ⟨hcampaign, -, -, -, hretries⟩ := hposted.queued row hnew
      have hnone : s.db.retryEpochs row.id = ∅ := by
        rw [Finset.eq_empty_iff_forall_notMem]
        intro attemptEpoch hmem
        obtain ⟨note, hnote, hcall, -, hstate⟩ := Db.mem_retryEpochs.mp hmem
        have hloud : note.event.isNote = false := by
          rw [AuditEvent.isNote, hstate]
          simp
        obtain ⟨old, hold, he⟩ := hinv.auditCall note hnote hloud _ hcall
        exact hposted.freshCalls old hold row hnew he
      rcases hposted.mem_campaigns.mp howner with hold' | rfl
      · exact absurd (hid.trans hcampaign) (hposted.freshCampaign owner hold')
      · rw [hnone, hretries]
        rfl

theorem Sys.World.accounted {shared : Shared} (h : Sys.World deps s action shared)
    (hinv : Consistent s.shared) (hold : Accounted s.shared.db) : Accounted shared.db := by
  cases h with
  | elapse micros => exact hold
  | posted body createdAt campaignId callIds db hposted => exact hold.posted hposted.at_wake hinv
  | ingested payload receivedAt inboxId db hingested =>
      rw [hingested.rest]
      exact hold.of_same rfl rfl (fun _ => le_rfl) fun _ => rfl
  | still action hrun hcrash => exact hold

/-- What a process commits is new, by the condition and because each dial comes to one end. -/
theorem Reachable.newRecords (hs : Reachable deps s) {index : Nat} {choice : Choice} {task : Task}
    {next : Unit → Co Unit} {t : Txn} (hprocess : s.procs[index]? = some ⟨task, .call .commit next, some t⟩)
    (honce : RetriesOnce s (.run index choice)) : NewRecords s.shared.db task t where
  settles _ hrow _ hsettles := hs.settles hprocess hrow hsettles
  retries := by
    rw [RetriesOnce, Sys.retried, hprocess] at honce
    exact honce

theorem Reachable.accounted_step (hs : Reachable deps s) (hstep : s.step deps action = some s')
    (honce : RetriesOnce s action) (hsix : s.shared.db.SixStatuses) (hold : Accounted s.shared.db) :
    Accounted s'.shared.db := by
  rcases Sys.step_cases hstep with ⟨shared, hworld, rfl⟩ |
    ⟨index, choice, task, stmt, next, txn, reply, shared, txn', rfl, hprocess, hexec, rfl⟩ |
    ⟨index, process, rfl, hprocess, rfl⟩
  · exact hworld.accounted hs.consistent hold
  · by_cases hcommit : stmt = .commit
    · subst hcommit
      obtain ⟨t, rfl, rfl, rfl⟩ := exec_commit hexec
      have hnews := hs.newRecords hprocess honce
      have hguar := (hs.run hprocess hexec).2.2
      generalize hshared : s.shared.commit t = shared at hguar
      cases hguar with
      | quiet hdb hnow hissued =>
          show Accounted shared.db
          rw [hdb]
          exact hold
      | commit u htxn hready =>
          obtain rfl := Option.some.inj htxn
          exact hold.commit hs.consistent hready hsix hnews
    · show Accounted shared.db
      rw [(exec_quiet hcommit hexec).1]
      exact hold
  · exact hold

theorem ReachableBy.accounted (h : ReachableBy deps RetriesOnce s) (hsix : s.shared.db.SixStatuses) :
    Accounted s.shared.db := by
  induction h with
  | init now => exact ⟨nofun, nofun, nofun⟩
  | step action hs honce hstep ih =>
      replace hs := hs.reachable
      have hsix' := (hs.grows hstep).sixStatuses hs.consistent hsix
      exact hs.accounted_step hstep honce hsix' (ih hsix')

/-- `NO_ANSWER` or `BUSY` ends a call only when its budget is spent. -/
theorem Moves.exhausted {s : Shared} {t : Txn} {inbox : Option InboxRow} {before after : CallRow}
    {event : AuditEvent} (h : Moves s (some .drain) t inbox before after event)
    (hmarks : Marks s (some .drain) t inbox) (hasked : t.inbox.any InboxRow.asksRetry = true)
    (honce : before.attemptEpoch ∉ s.db.retryEpochs before.id) (hfailed : after.status = .failed) :
    before.retriesRemaining = 0 := by
  have hbefore : s.db.call? before.id = some before := h.before_id ▸ h.row
  cases h.cause with
  | claim campaign inFlight pending cursor htask => cases htask
  | cas args hasks hhits hregresses =>
      obtain ⟨hid, -, hepoch⟩ := CallUpdate.hits_iff.mp hhits
      cases hasks with
      | webhook row asked snap handle args hsnap hparse hevent hhandle hnew hargs =>
          have hretry : asked.statusEnum = .noAnswer ∨ asked.statusEnum = .busy := by
            cases hmarks with
            | marked _ htask hrow hunprocessed hlock hwrites =>
                rw [hwrites] at hasked
                simpa [InboxRow.asksRetry, hparse] using hasked
          cases hargs with
          | writeThrough hlive => rcases hretry with h | h <;> rw [h] at hlive <;> cases hlive
          | asIs hterminal => rcases hretry with h | h <;> rw [h] at hterminal <;> simp at hterminal
          | retry nextAttempt _ hbudget => cases hfailed
          | exhausted _ hbudget =>
              have hkey : snap.key = before.key := by rw [CallRow.key, CallRow.key, hid, hepoch]; rfl
              rw [← hsnap.retriesRemaining hbefore hkey honce, hbudget]

theorem Reachable.exhausted (hs : Reachable deps s) (hstep : s.step deps action = some s')
    (honce : RetriesOnce s action) {call after : CallRow} (hcall : call ∈ s.retried action)
    (hafter : s'.shared.db.call? call.id = some after) (hlive : call.status ≠ .failed)
    (hfailed : after.status = .failed) : call.retriesRemaining = 0 := by
  have hchanged : after ≠ call := fun he => hlive (he ▸ hfailed)
  rcases Sys.step_cases hstep with ⟨shared, hworld, rfl⟩ |
    ⟨index, choice, task, stmt, next, txn, reply, shared, txn', rfl, hprocess, hexec, rfl⟩ |
    ⟨index, process, rfl, hprocess, rfl⟩
  · cases hworld with
    | still action hrun hcrash =>
        cases action with
        | run index choice => exact absurd rfl (hrun index choice)
        | _ => cases hcall
    | _ => cases hcall
  · have hnew := honce call hcall
    rw [Sys.retried, hprocess] at hcall
    cases stmt with
    | commit =>
        obtain ⟨t, rfl, rfl, rfl⟩ := exec_commit hexec
        obtain ⟨htask, hasked, hrow⟩ := mem_retriedCalls hcall
        subst htask
        have hguar := (hs.run hprocess hexec).2.2
        rcases hguar.call_changed rfl rfl hrow hafter hchanged with
          ⟨inbox, event, folds, hmoves, -, hmarks, -⟩
        exact hmoves.exhausted hmarks hasked hnew hfailed
    | _ => cases hcall
  · cases hcall

/-- What holds of the retries of every call, and of what the next step does to them. -/
structure RetriesAccounted (deps : Deps) (s : Sys) : Prop where
  spent : ∀ call ∈ s.shared.db.calls, ∀ campaign ∈ s.shared.db.campaigns, campaign.id = call.campaignId →
    call.retriesRemaining + (s.shared.db.retryEpochs call.id).card = campaign.retryConfig.maxAttempts
  exhausted : ∀ action s', RetriesOnce s action → s.step deps action = some s' → ∀ call ∈ s.retried action,
    ∀ after, s'.shared.db.call? call.id = some after → call.status ≠ .failed → after.status = .failed →
      call.retriesRemaining = 0

end

end VoiceCampaign

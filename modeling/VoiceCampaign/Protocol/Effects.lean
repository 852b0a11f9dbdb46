import Mathlib.Data.Finset.Card
import VoiceCampaign.Model.System

/-!
# What a transaction may do

The abstract side of the service: which rows may follow which, what every committed state satisfies,
why a transaction rewrites a call row, and what it may commit. Nothing here runs; `Guarantee.lean`
shows that the pieces fit together, and the rest of `Protocol` that the coroutines keep to them.
-/

namespace VoiceCampaign

open Concurrency

/-- A coroutine as the others see it: its task, until it is over, and its open transaction. -/
structure Party where
  task : Option Task
  txn : Option Txn := none

def Db.inbox? (db : Db) (id : InboxId) : Option InboxRow := lookup InboxRow.id db.inbox id

/-! ### How rows evolve -/

structure CallRow.Evolves (old new : CallRow) : Prop where
  id : new.id = old.id
  campaignId : new.campaignId = old.campaignId
  phone : new.phone = old.phone
  createdAt : new.createdAt = old.createdAt
  attemptEpoch : old.attemptEpoch ≤ new.attemptEpoch
  terminal : old.status.isTerminal = true → new = { old with updatedAt := new.updatedAt }
  /-- Only a new attempt forgets the handle. -/
  handle : new.attemptEpoch = old.attemptEpoch → old.providerCallId ≠ none → new.providerCallId ≠ none

structure CampaignRow.Evolves (old new : CampaignRow) : Prop where
  config : new = { old with status := new.status, updatedAt := new.updatedAt }
  pending : new.status = .pending → old.status = .pending
  terminal : old.status.isTerminal = true → new.status = old.status

structure InboxRow.Evolves (old new : InboxRow) : Prop where
  content : new = { old with processedAt := new.processedAt }
  processed : old.processedAt ≠ none → new = old

/-- A retry was recorded for an attempt. -/
def Db.RetryRecorded (db : Db) (id : CallId) (attemptEpoch : Nat) : Prop :=
  ∃ row ∈ db.audit, row.event.callId = some id ∧ row.event.attemptEpoch = some attemptEpoch ∧
    row.event.stateAfter = some CallStatus.retryPending.value

/-- A retryable outcome that another attempt will follow: a move to `RETRY_PENDING`, unless it writes an
event that says so through. -/
def AuditEvent.schedulesRetry (event : AuditEvent) : Bool :=
  event.stateAfter = some CallStatus.retryPending.value &&
    event.reason ≠ s!"webhook {CallStatus.retryPending.value}"

/-- The attempts of a call with such an outcome. -/
def Db.outcomeEpochs (db : Db) (id : CallId) : Finset Nat :=
  (db.audit.filterMap fun row =>
    if row.event.callId = some id ∧ row.event.schedulesRetry = true then row.event.attemptEpoch
    else none).toFinset

/-- What no one takes back. -/
structure Grows (s s' : Shared) : Prop where
  now : s.now ≤ s'.now
  issued : ∀ entry ∈ s.issued, entry ∈ s'.issued
  audit : s.db.audit <+: s'.db.audit
  call : ∀ id row, s.db.call? id = some row →
    ∃ row', s'.db.call? id = some row' ∧ row.Evolves row'
  newCall : ∀ id row', s'.db.call? id = some row' → s.db.call? id = none →
    s.db.campaign? row'.campaignId = none
  campaign : ∀ id row, s.db.campaign? id = some row →
    ∃ row', s'.db.campaign? id = some row' ∧ row.Evolves row'
  inbox : ∀ id row, s.db.inbox? id = some row → ∃ row', s'.db.inbox? id = some row' ∧ row.Evolves row'
  /-- Within an attempt the budget is left alone, or its outcome has been recorded. -/
  retries : ∀ id row row', s.db.call? id = some row → s'.db.call? id = some row' →
    row'.attemptEpoch = row.attemptEpoch → row'.retriesRemaining = row.retriesRemaining ∨
      row.attemptEpoch ∈ s'.db.outcomeEpochs id
  /-- Within an attempt no other attempt's outcome is recorded. -/
  outcomes : ∀ id row row', s.db.call? id = some row → s'.db.call? id = some row' →
    row'.attemptEpoch = row.attemptEpoch → ∀ attemptEpoch ∈ s'.db.outcomeEpochs id,
      attemptEpoch = row.attemptEpoch ∨ attemptEpoch ∈ s.db.outcomeEpochs id

/-- What a coroutine can count on while the others run: its row locks are respected, and no row
enters the phone index next to a version of its own. -/
structure Rely (l : Party) (s s' : Shared) : Prop extends Grows s s' where
  keepCall : ∀ t ∈ l.txn, ∀ id, .call id ∈ t.locks → ∀ row, s.db.call? id = some row →
    s'.db.call? id = some row
  keepCampaign : ∀ t ∈ l.txn, ∀ id, .campaign id ∈ t.locks → ∀ row, s.db.campaign? id = some row →
    s'.db.campaign? id = some row
  keepLive : ∀ t ∈ l.txn, ∀ id, .campaign id ∈ t.locks → ∀ callId row row',
    s.db.call? callId = some row → row.campaignId = id → s'.db.call? callId = some row' →
    row'.status.isTerminal = row.status.isTerminal
  keepInbox : ∀ t ∈ l.txn, ∀ id, .inbox id ∈ t.locks → ∀ row, s.db.inbox? id = some row →
    s'.db.inbox? id = some row
  keepPhone : ∀ t ∈ l.txn, ∀ version ∈ t.calls, version.status.holdsPhone = true → ∀ id row',
    id ≠ version.id → s'.db.call? id = some row' → row'.status.holdsPhone = true →
    row'.phone = version.phone → ∃ row, s.db.call? id = some row ∧ row.status.holdsPhone = true

/-! ### What every committed state satisfies -/

def EventType.isNote : EventType → Bool
  | skipBusinessHour | skipConcurrency | webhookIgnoredStale => true
  | _ => false

/-- An audit row that records a decision and no change of state. -/
def AuditEvent.isNote (event : AuditEvent) : Bool :=
  event.eventType.isNote && event.stateBefore.isNone && event.stateAfter.isNone

/-- A handle was issued for the attempt the row is at, and only a row that has been claimed has left
`QUEUED` or carries a handle. -/
structure CallRow.Sound (issued : List Dial) (row : CallRow) : Prop where
  handle : ∀ handle, row.providerCallId = some handle →
    ⟨⟨row.id, row.attemptEpoch⟩, handle, true⟩ ∈ issued
  dialed : row.status ≠ .queued ∨ row.providerCallId ≠ none → 0 < row.attemptEpoch

/-- Not to be dialed before its next claim. -/
def CallStatus.waiting : CallStatus → Bool
  | queued | retryPending => true
  | _ => false

namespace Db

/-- A `CLAIMED` row of the call is in the audit log. -/
def everClaimed (db : Db) (id : CallId) : Prop :=
  ∃ row ∈ db.audit, row.event.eventType = .claimed ∧ row.event.callId = some id

def allTerminal (db : Db) (campaignId : CampaignId) : Prop :=
  ∀ row ∈ db.calls, row.campaignId = campaignId → row.status.isTerminal = true

def someCompleted (db : Db) (campaignId : CampaignId) : Prop :=
  ∃ row ∈ db.calls, row.campaignId = campaignId ∧ row.status = .completed

/-- How many audit rows of a type a campaign has. -/
def auditCount (db : Db) (eventType : EventType) (campaignId : CampaignId) : Nat :=
  db.audit.countP fun row => row.event.eventType = eventType && row.event.campaignId = some campaignId

/-- How many audit rows of a type a call has. -/
def callAuditCount (db : Db) (eventType : EventType) (callId : CallId) : Nat :=
  db.audit.countP fun row => row.event.eventType = eventType && row.event.callId = some callId

/-- No provider event says `QUEUED` or `RETRY_PENDING`. -/
def SixStatuses (db : Db) : Prop :=
  ∀ row ∈ db.inbox, ∀ event, parseEvent row.payload = .ok event →
    event.statusEnum ≠ .queued ∧ event.statusEnum ≠ .retryPending

/-- Each attempt is a claim or a reclaim, and each claim beyond the first is paid for by a retry or by a
reclaim: a call that waits for its next dial has one claim less to its account. -/
structure Budgeted (db : Db) (row : CallRow) (maxAttempts : Nat) : Prop where
  epoch : row.attemptEpoch =
    db.callAuditCount .claimed row.id + db.callAuditCount .reclaimExecuted row.id
  retries : row.retriesRemaining ≤ maxAttempts
  redials : db.SixStatuses → db.callAuditCount .claimed row.id + row.retriesRemaining ≤
    (if row.status.waiting = true then 0 else 1) + maxAttempts +
      db.callAuditCount .reclaimExecuted row.id

/-- The outcomes recorded are of attempts up to now, and each has been paid for. -/
structure Paced (db : Db) (row : CallRow) (maxAttempts : Nat) : Prop where
  reached : ∀ attemptEpoch ∈ db.outcomeEpochs row.id, 0 < attemptEpoch ∧ attemptEpoch ≤ row.attemptEpoch
  spent : row.retriesRemaining + (db.outcomeEpochs row.id).card ≤ maxAttempts

/-- The status of a campaign is the fold of its calls. -/
structure StatusFolds (db : Db) (campaign : CampaignRow) : Prop where
  pending : campaign.status = .pending ↔
    ∀ row ∈ db.calls, row.campaignId = campaign.id → row.attemptEpoch = 0
  completed : campaign.status = .completed ↔
    db.allTerminal campaign.id ∧ db.someCompleted campaign.id
  failed : campaign.status = .failed ↔ db.allTerminal campaign.id ∧ ¬ db.someCompleted campaign.id

end Db

structure Consistent (s : Shared) : Prop where
  callIds : (s.db.calls.map CallRow.id).Nodup
  campaignIds : (s.db.campaigns.map CampaignRow.id).Nodup
  inboxIds : (s.db.inbox.map InboxRow.id).Nodup
  /-- `calls_phone_in_flight_uk`. -/
  phones : ∀ a ∈ s.db.calls, ∀ b ∈ s.db.calls, a.status.holdsPhone = true →
    b.status.holdsPhone = true → a.phone = b.phone → a.id = b.id
  sound : ∀ row ∈ s.db.calls, row.Sound s.issued
  claimed : ∀ row ∈ s.db.calls, 0 < row.attemptEpoch ↔ s.db.everClaimed row.id
  owner : ∀ row ∈ s.db.calls, ∃ campaign ∈ s.db.campaigns, campaign.id = row.campaignId
  staffed : ∀ campaign ∈ s.db.campaigns, ∃ row ∈ s.db.calls, row.campaignId = campaign.id
  status : ∀ campaign ∈ s.db.campaigns, s.db.StatusFolds campaign
  promoted : ∀ campaign ∈ s.db.campaigns, s.db.auditCount .campaignPromotedActive campaign.id =
    if campaign.status = .pending then 0 else 1
  rolledUp : ∀ campaign ∈ s.db.campaigns, s.db.auditCount .campaignCompleted campaign.id =
    if campaign.status.isTerminal = true then 1 else 0
  budget : ∀ row ∈ s.db.calls, ∀ campaign ∈ s.db.campaigns, campaign.id = row.campaignId →
    s.db.Budgeted row campaign.retryConfig.maxAttempts
  paced : ∀ row ∈ s.db.calls, ∀ campaign ∈ s.db.campaigns, campaign.id = row.campaignId →
    s.db.Paced row campaign.retryConfig.maxAttempts
  /-- Audit rows are about rows that exist. -/
  auditCall : ∀ row ∈ s.db.audit, row.event.isNote = false → ∀ id, row.event.callId = some id →
    ∃ call ∈ s.db.calls, call.id = id
  auditCampaign : ∀ row ∈ s.db.audit,
    row.event.eventType = .campaignPromotedActive ∨ row.event.eventType = .campaignCompleted →
    ∀ id, row.event.campaignId = some id → ∃ campaign ∈ s.db.campaigns, campaign.id = id

/-! ### Why a call row is rewritten -/

/-- A row that was in the table at some time up to now. -/
def Seen (s : Shared) (snap : CallRow) : Prop :=
  ∃ s₀, Consistent s₀ ∧ Grows s₀ s ∧ snap ∈ s₀.db.calls

/-- What a webhook event asks of the call row that was read. -/
inductive WebhookAsks (event : ProviderEvent) (snap : CallRow) : Transition → Prop
  | writeThrough (hevent : event.statusEnum.isTerminal = false) :
      WebhookAsks event snap (webhookTransition event snap)
  | asIs (hevent : event.statusEnum = .completed ∨ event.statusEnum = .failed) :
      WebhookAsks event snap (webhookOutcome event snap).terminalTransition
  | retry (nextAttempt : Time) (hevent : event.statusEnum = .noAnswer ∨ event.statusEnum = .busy)
      (hbudget : 0 < snap.retriesRemaining) :
      WebhookAsks event snap ((webhookOutcome event snap).retryTransition nextAttempt)
  | exhausted (hevent : event.statusEnum = .noAnswer ∨ event.statusEnum = .busy)
      (hbudget : snap.retriesRemaining = 0) :
      WebhookAsks event snap (webhookOutcome event snap).exhaustedTransition

/-- The instant a retry is put off to: a reading of the clock and the backoff of the campaign. -/
def PutOff (s : Shared) (snap : CallRow) (nextAttempt : Time) : Prop :=
  ∃ campaign u now delta, s.db.campaign? snap.campaignId = some campaign ∧ now ≤ s.now ∧
    backoffDelta snap.attemptEpoch campaign.retryConfig.backoffBaseSeconds u = .ok delta ∧
    addTimedelta now delta = .ok nextAttempt

/-- The compare-and-set updates each task asks for, and the inbox row it asks on behalf of. -/
inductive Asks (s : Shared) : Option Task → Option InboxRow → Transition → Prop
  | retryDue (snap : CallRow) (hsnap : Seen s snap) : Asks s (some .tick) none (retryDueTransition snap)
  | dispatch (claimed : CallRow) (handle : Handle) (hsnap : Seen s claimed)
      (hissued : ⟨⟨claimed.id, claimed.attemptEpoch⟩, handle, true⟩ ∈ s.issued) :
      Asks s (some .tick) none (dispatchTransition claimed handle)
  | rejected (claimed : CallRow) (reasonCode : String) (hsnap : Seen s claimed) :
      Asks s (some .tick) none (rejectedTransition claimed reasonCode)
  | unavailable (claimed : CallRow) (nextAttempt : Time) (hsnap : Seen s claimed)
      (hbudget : 0 < claimed.retriesRemaining) (hputOff : PutOff s claimed nextAttempt) :
      Asks s (some .tick) none (unavailableTransition claimed nextAttempt)
  | unavailableExhausted (claimed : CallRow) (hsnap : Seen s claimed)
      (hbudget : claimed.retriesRemaining = 0) :
      Asks s (some .tick) none (unavailableExhaustedTransition claimed)
  | webhook (row : InboxRow) (event : ProviderEvent) (snap : CallRow) (handle : Handle)
      (args : Transition) (hsnap : Seen s snap) (hparse : parseEvent row.payload = .ok event)
      (hevent : event.providerCallId = .str handle) (hhandle : snap.providerCallId = some handle)
      (hnew : event.statusEnum ≠ snap.status) (hargs : WebhookAsks event snap args)
      (hputOff : ∀ nextAttempt, args.columnUpdates.nextAttemptAt = some nextAttempt →
        PutOff s snap nextAttempt) :
      Asks s (some .drain) (some row) args
  | reclaimTerminal (row : CallRow) (reported : CallStatus) (hsnap : Seen s row)
      (hreported : reported.isTerminal = true) :
      Asks s (some (.reclaim row)) none (reclaimTerminalTransition row reported)
  | reclaim (row : CallRow) (hsnap : Seen s row) :
      Asks s (some (.reclaim row)) none (reclaimTransition row)

/-- Why the row `before` becomes `after`, and the audit row that says so. -/
inductive Cause (s : Shared) (task : Option Task) (inbox : Option InboxRow) (now : Time)
    (before : CallRow) : CallRow → AuditEvent → Prop
  | claim (campaign : CampaignRow) (inFlight pending : Nat) (cursor : Option Time)
      (htask : task = some .tick) (hinbox : inbox = none)
      (hclaimable : before.claimable campaign.id now = true) :
      Cause s task inbox now before (before.claim now)
        (claimedEvent campaign (before.claim now) inFlight pending cursor)
  | cas (args : Transition) (hasks : Asks s task inbox args)
      (hhits : args.hits before = true) (hregresses : args.regresses = false) :
      Cause s task inbox now before (args.set now before) (args.auditEvent (args.set now before))

/-! ### What a transaction may commit -/

/-- Nothing has been written to the calls, the campaigns or the audit log. -/
structure Txn.Fresh (t : Txn) : Prop where
  calls : t.calls = []
  campaigns : t.campaigns = []
  audit : t.audit = []

/-- The transaction has one new row version, the index has room for it, and there is a cause. -/
structure Moves (s : Shared) (task : Option Task) (t : Txn) (inbox : Option InboxRow)
    (before after : CallRow) (event : AuditEvent) : Prop where
  cause : Cause s task inbox t.startedAt before after event
  row : s.db.call? after.id = some before
  lock : .call after.id ∈ t.locks
  calls : t.calls = [after]
  phone : after.status.holdsPhone = true → ∀ id other, s.db.call? id = some other →
    id ≠ after.id → other.status.holdsPhone = true → other.phone ≠ after.phone

/-- Under the lock of its campaign, every other call of it is terminal. -/
structure LastOne (s : Shared) (t : Txn) (after : CallRow) : Prop where
  lock : .campaign after.campaignId ∈ t.locks
  campaign : ∃ campaign, s.db.campaign? after.campaignId = some campaign
  others : ∀ id other, s.db.call? id = some other → other.campaignId = after.campaignId →
    id ≠ after.id → other.status.isTerminal = true

/-- Some call of the campaign is `COMPLETED`. -/
def CompletedIn (s : Shared) (after : CallRow) : Prop :=
  after.status = .completed ∨ ∃ id other, s.db.call? id = some other ∧
    other.campaignId = after.campaignId ∧ id ≠ after.id ∧ other.status = .completed

/-- What the transaction does to the campaign of the call it moves to `after`, and the audit rows
that say so. -/
inductive Folds (s : Shared) (t : Txn) (after : CallRow) : List AuditEvent → Prop
  | still (hcampaigns : t.campaigns = [])
      (hstarted : ∃ campaign, s.db.campaign? after.campaignId = some campaign ∧
        campaign.status ≠ .pending)
      (hlive : after.status.isTerminal = true → .campaign after.campaignId ∈ t.locks ∧
        ((∃ campaign, s.db.campaign? after.campaignId = some campaign ∧
            campaign.status.isTerminal = true) ∨
          ∃ id other, s.db.call? id = some other ∧ other.campaignId = after.campaignId ∧
            id ≠ after.id ∧ other.status.isTerminal = false)) :
      Folds s t after []
  | promoted (campaign : CampaignRow) (hrow : s.db.campaign? after.campaignId = some campaign)
      (hpending : campaign.status = .pending) (hlock : .campaign after.campaignId ∈ t.locks)
      (hlive : after.status.isTerminal = false)
      (hcampaigns : t.campaigns = [{ campaign with status := .active, updatedAt := t.startedAt }]) :
      Folds s t after [campaignPromoted after.campaignId]
  | rolledUp (campaign : CampaignRow) (counts : TerminalAggregate)
      (hrow : s.db.campaign? after.campaignId = some campaign) (hactive : campaign.status = .active)
      (hterminal : after.status.isTerminal = true) (hlast : LastOne s t after)
      (hcounts : 0 < counts.completed ↔ CompletedIn s after)
      (hcampaigns : t.campaigns =
        [{ campaign with status := counts.target, updatedAt := t.startedAt }]) :
      Folds s t after [campaignCompleted after.campaignId counts counts.target]

/-- The inbox row the transaction consumes. -/
inductive Marks (s : Shared) (task : Option Task) (t : Txn) : Option InboxRow → Prop
  | unmarked (hinbox : t.inbox = []) : Marks s task t none
  | marked (row : InboxRow) (htask : task = some .drain) (hrow : s.db.inbox? row.id = some row)
      (hunprocessed : row.processedAt = none) (hlock : .inbox row.id ∈ t.locks)
      (hinbox : t.inbox = [{ row with processedAt := some t.startedAt }]) :
      Marks s task t (some row)

/-- The transaction `t` of a coroutine at `task` is fit to commit. -/
inductive Ready (s : Shared) (task : Option Task) (t : Txn) : Prop
  | quiet (inbox : Option InboxRow) (hcalls : t.calls = []) (hcampaigns : t.campaigns = [])
      (hmarks : Marks s task t inbox) (hnotes : ∀ row ∈ t.audit, row.event.isNote = true) :
      Ready s task t
  | moves (inbox : Option InboxRow) (before after : CallRow) (event : AuditEvent)
      (folds : List AuditEvent) (hmoves : Moves s task t inbox before after event)
      (hfolds : Folds s t after folds) (hmarks : Marks s task t inbox)
      (haudit : t.audit.map AuditRow.event = event :: folds) :
      Ready s task t

/-- The state after `t` commits. -/
def Shared.commit (s : Shared) (t : Txn) : Shared := { s with db := s.db.apply t }

/-- A step of a coroutine leaves the tables alone or commits a transaction that is fit to. -/
inductive Guar (l : Party) (s : Shared) : Shared → Prop
  | quiet {s' : Shared} (hdb : s'.db = s.db) (hnow : s'.now = s.now)
      (hissued : ∀ entry ∈ s.issued, entry ∈ s'.issued) : Guar l s s'
  | commit (t : Txn) (htxn : l.txn = some t) (hready : Ready s l.task t) : Guar l s (s.commit t)

/-- Two open transactions get along: no common row lock, no two versions that want one phone. -/
structure Compat (a b : Party) : Prop where
  locks : ∀ t ∈ a.txn, ∀ u ∈ b.txn, ∀ lock ∈ t.locks, lock ∉ u.locks
  phones : ∀ t ∈ a.txn, ∀ u ∈ b.txn, ∀ v ∈ t.calls, ∀ w ∈ u.calls, v.id ≠ w.id →
    v.status.holdsPhone = true → w.status.holdsPhone = true → v.phone ≠ w.phone

end VoiceCampaign

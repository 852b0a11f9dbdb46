import VoiceCampaign.Model.Runs
import VoiceCampaign.Protocol.Inbox

/-!
# Deliveries

However often the provider repeats an event, one processing transaction commits for it, on the payload
that came first; what is rolled back leaves no trace and is there to be claimed again; and a repetition
does nothing that the safety net's next drain would not do.
-/

namespace VoiceCampaign

open Concurrency

/-! ### What happens to events on the way -/

inductive Delivery where
  /-- Ingest accepted a body with this event id. -/
  | accepted (eventId : String) (payload : Payload)
  /-- A transaction that had claimed the inbox row committed. -/
  | processed (row : InboxRow)

def Sys.deliveries (s : Sys) : Action → List Delivery
  | .ingest payload _ _ =>
      match ingestEventId payload with
      | some eventId => [.accepted eventId payload]
      | none => []
  | .run index _ =>
      match s.procs[index]? with
      | some ⟨_, .call .commit _, some t⟩ =>
          (s.shared.db.inbox.filter fun row => .inbox row.id ∈ t.locks).map .processed
      | _ => []
  | _ => []

/-- `(provider, provider_event_id)`. -/
def InboxRow.event (row : InboxRow) : String × String := (row.provider, row.providerEventId)

/-- The inbox rows that were processed. -/
def processedRows (seen : List Delivery) : List InboxRow :=
  seen.filterMap fun
    | .processed row => some row
    | .accepted _ _ => none

/-- The body that was accepted first under an event id. -/
def firstPayload (seen : List Delivery) (eventId : String) : Option Payload :=
  seen.findSome? fun
    | .accepted id payload => if id = eventId then some payload else none
    | .processed _ => none

@[simp] theorem processedRows_append (seen more : List Delivery) :
    processedRows (seen ++ more) = processedRows seen ++ processedRows more := List.filterMap_append

theorem firstPayload_append (seen more : List Delivery) (eventId : String) :
    firstPayload (seen ++ more) eventId = (firstPayload seen eventId).or (firstPayload more eventId) :=
  List.findSome?_append

@[simp] theorem firstPayload_accepted (id eventId : String) (payload : Payload) :
    firstPayload [.accepted id payload] eventId = if id = eventId then some payload else none := by
  by_cases h : id = eventId <;> simp [firstPayload, h]

@[simp] theorem firstPayload_processed (row : InboxRow) (eventId : String) :
    firstPayload [.processed row] eventId = none := rfl

/-! ### The inbox keeps the first delivery -/

/-- What the inbox says of the deliveries up to now. -/
structure Delivered (inbox : List InboxRow) (seen : List Delivery) : Prop where
  events : ∀ a ∈ inbox, ∀ b ∈ inbox, a.event = b.event → a = b
  provider : ∀ row ∈ inbox, row.provider = "mock"
  payload : ∀ row ∈ inbox, firstPayload seen row.providerEventId = some row.payload
  accepted : ∀ eventId payload, firstPayload seen eventId = some payload →
    ∃ row ∈ inbox, row.providerEventId = eventId
  once : ((processedRows seen).map InboxRow.id).Nodup
  processed : ∀ row ∈ processedRows seen,
    ∃ new ∈ inbox, new = { row with processedAt := new.processedAt } ∧ new.processedAt ≠ none

section

variable {inbox : List InboxRow} {seen : List Delivery}

theorem Delivered.empty : Delivered [] [] where
  events _ h := by cases h
  provider _ h := by cases h
  payload _ h := by cases h
  accepted _ _ h := by cases h
  once := .nil
  processed _ h := by cases h

/-- A repetition. -/
theorem Delivered.again (h : Delivered inbox seen) {row : InboxRow} (hrow : row ∈ inbox) (payload : Payload) :
    Delivered inbox (seen ++ [.accepted row.providerEventId payload]) where
  events := h.events
  provider := h.provider
  payload other hother := by rw [firstPayload_append, h.payload other hother, Option.some_or]
  accepted eventId first hfirst := by
    rw [firstPayload_append, firstPayload_accepted] at hfirst
    by_cases hid : row.providerEventId = eventId
    · exact ⟨row, hrow, hid⟩
    · rw [if_neg hid, Option.or_none] at hfirst
      exact h.accepted eventId first hfirst
  once := by simpa [processedRows] using h.once
  processed other hother := h.processed other (by simpa [processedRows] using hother)

/-- The first delivery of an event. -/
theorem Delivered.first (h : Delivered inbox seen) {row : InboxRow}
    (hfresh : ∀ other ∈ inbox, other.providerEventId ≠ row.providerEventId)
    (hprovider : row.provider = "mock") :
    Delivered (inbox ++ [row]) (seen ++ [.accepted row.providerEventId row.payload]) where
  events a ha b hb hevent := by
    obtain ⟨-, hid⟩ := Prod.mk.inj hevent
    rw [List.mem_append, List.mem_singleton] at ha hb
    rcases ha with ha | rfl <;> rcases hb with hb | rfl
    · exact h.events a ha b hb hevent
    · exact absurd hid (hfresh a ha)
    · exact absurd hid.symm (hfresh b hb)
    · rfl
  provider other hother := by
    rcases List.mem_append.mp hother with hold | hnew
    · exact h.provider other hold
    · rw [List.mem_singleton.mp hnew, hprovider]
  payload other hother := by
    rw [firstPayload_append]
    rcases List.mem_append.mp hother with hold | hnew
    · rw [h.payload other hold, Option.some_or]
    · rw [List.mem_singleton.mp hnew, firstPayload_accepted, if_pos rfl]
      cases hseen : firstPayload seen row.providerEventId with
      | none => rfl
      | some old =>
          obtain ⟨found, hfound, hid⟩ := h.accepted _ old hseen
          exact absurd hid (hfresh found hfound)
  accepted eventId first hfirst := by
    rw [firstPayload_append, firstPayload_accepted] at hfirst
    by_cases hid : row.providerEventId = eventId
    · exact ⟨row, List.mem_append_right _ (List.mem_singleton_self _), hid⟩
    · rw [if_neg hid, Option.or_none] at hfirst
      obtain ⟨found, hfound, he⟩ := h.accepted eventId first hfirst
      exact ⟨found, List.mem_append_left _ hfound, he⟩
  once := by simpa [processedRows] using h.once
  processed other hother := by
    obtain ⟨new, hnew, hsame⟩ := h.processed other (by simpa [processedRows] using hother)
    exact ⟨new, List.mem_append_left _ hnew, hsame⟩

/-- A row is processed: it was not before, and it keeps its content. -/
theorem Delivered.process (h : Delivered inbox seen) {inbox' : List InboxRow} {row : InboxRow} {now : Time}
    (hids : (inbox.map InboxRow.id).Nodup) (hrow : row ∈ inbox) (hunprocessed : row.processedAt = none)
    (hinbox : inbox' = overlay InboxRow.id [{ row with processedAt := some now }] inbox) :
    Delivered inbox' (seen ++ [.processed row]) := by
  have hmem : ∀ {other}, other ∈ inbox' ↔
      (other ∈ inbox ∧ other.id ≠ row.id) ∨ other = { row with processedAt := some now } := by
    intro other
    rw [hinbox, mem_overlay_singleton]
    exact or_congr_right ⟨fun h => h.1, fun h => ⟨h, row, hrow, rfl⟩⟩
  have hback : ∀ other ∈ inbox', ∃ old ∈ inbox, old.id = other.id ∧ other.event = old.event ∧
      other.payload = old.payload := by
    intro other hother
    rcases hmem.mp hother with ⟨hold, -⟩ | rfl
    · exact ⟨other, hold, rfl, rfl, rfl⟩
    · exact ⟨row, hrow, rfl, rfl, rfl⟩
  have hids' : (inbox'.map InboxRow.id).Nodup := by rw [hinbox, map_key_overlay]; exact hids
  constructor
  · intro a ha b hb hevent
    obtain ⟨a', ha', haid, hae, -⟩ := hback a ha
    obtain ⟨b', hb', hbid, hbe, -⟩ := hback b hb
    have hsame := h.events a' ha' b' hb' (hae.symm.trans (hevent.trans hbe))
    exact eq_of_key_eq hids' ha hb (haid.symm.trans ((congrArg InboxRow.id hsame).trans hbid))
  · intro other hother
    obtain ⟨old, hold, -, hevent, -⟩ := hback other hother
    exact (congrArg Prod.fst hevent).trans (h.provider old hold)
  · intro other hother
    obtain ⟨old, hold, -, hevent, hpayload⟩ := hback other hother
    have hid : other.providerEventId = old.providerEventId := congrArg Prod.snd hevent
    rw [firstPayload_append, hid, h.payload old hold, hpayload, Option.some_or]
  · intro eventId payload hfirst
    rw [firstPayload_append, firstPayload_processed, Option.or_none] at hfirst
    obtain ⟨found, hfound, hid⟩ := h.accepted eventId payload hfirst
    by_cases hsame : found.id = row.id
    · obtain rfl := eq_of_key_eq hids hfound hrow hsame
      exact ⟨_, hmem.mpr (Or.inr rfl), hid⟩
    · exact ⟨found, hmem.mpr (Or.inl ⟨hfound, hsame⟩), hid⟩
  · rw [processedRows_append, List.map_append, List.nodup_append]
    refine ⟨h.once, List.nodup_singleton _, fun id hid other hother he => ?_⟩
    obtain ⟨old, hold, rfl⟩ := List.mem_map.mp hid
    obtain rfl : other = row.id := List.mem_singleton.mp hother
    obtain ⟨new, hnew, hcontent, hprocessed⟩ := h.processed old hold
    have hid' : new.id = row.id := by rw [hcontent, he]
    obtain rfl := eq_of_key_eq hids hnew hrow hid'
    exact hprocessed hunprocessed
  · intro other hother
    rw [processedRows_append, List.mem_append] at hother
    rcases hother with hold | hnew
    · obtain ⟨new, hnew, hcontent, hprocessed⟩ := h.processed other hold
      refine ⟨new, hmem.mpr (Or.inl ⟨hnew, fun hid => ?_⟩), hcontent, hprocessed⟩
      obtain rfl := eq_of_key_eq hids hnew hrow hid
      exact hprocessed hunprocessed
    · rw [List.mem_singleton.mp hnew]
      exact ⟨_, hmem.mpr (Or.inr rfl), rfl, nofun⟩

end

/-! ### Ingest -/

/-- The body is not accepted, or is a repetition, or comes as a new row. -/
inductive IngestStep (deps : Deps) (s : Sys) (payload : Payload) (receivedAt : Time) (inboxId : InboxId) :
    Sys → Prop
  | refused (hid : ingestEventId payload = none) : IngestStep deps s payload receivedAt inboxId s
  | again (eventId : String) (row : InboxRow) (hid : ingestEventId payload = some eventId)
      (hrow : row ∈ s.shared.db.inbox) (hevent : row.event = ("mock", eventId)) :
      IngestStep deps s payload receivedAt inboxId (s.spawn deps [.drain])
  | first (eventId : String) (row : InboxRow) (hid : ingestEventId payload = some eventId)
      (hfresh : ∀ other ∈ s.shared.db.inbox, other.event ≠ ("mock", eventId))
      (hrow : row = ⟨inboxId, "mock", eventId, payload, receivedAt, none⟩) :
      IngestStep deps s payload receivedAt inboxId
        (({ s with shared := { s.shared with
          db := { s.shared.db with inbox := s.shared.db.inbox ++ [row] } } } : Sys).spawn deps [.drain])

theorem InboxRow.event_eq {row : InboxRow} {provider eventId : String} :
    (row.provider = provider && row.providerEventId = eventId) = true ↔ row.event = (provider, eventId) := by
  simp [InboxRow.event]

theorem Sys.ingest_cases {deps : Deps} {s s' : Sys} {payload : Payload} {receivedAt : Time}
    {inboxId : InboxId} (h : s.step deps (.ingest payload receivedAt inboxId) = some s') :
    IngestStep deps s payload receivedAt inboxId s' := by
  rw [Sys.step] at h
  cases hid : ingestEventId payload with
  | none =>
      simp only [hid] at h
      cases h
      exact .refused hid
  | some eventId =>
      simp only [hid] at h
      split at h
      · next db hinsert =>
          cases h
          rw [insertInbox] at hinsert
          split at hinsert
          · next row hfound =>
              split at hinsert
              · cases hinsert
              · cases hinsert
                rw [Db.inboxRow?] at hfound
                have hevent := List.find?_some hfound
                exact .again eventId row hid (List.mem_of_find?_eq_some hfound) (InboxRow.event_eq.mp hevent)
          · next hnone =>
              split at hinsert
              · cases hinsert
              · cases hinsert
                refine .first eventId _ hid (fun other hother hevent => ?_) rfl
                exact List.find?_eq_none.mp hnone other hother (InboxRow.event_eq.mpr hevent)
      · cases h

/-! ### Every run -/

section

variable {deps : Deps} {s s' : Sys} {seen : List Delivery} {action : Action}

theorem Delivered.ingest (h : Delivered s.shared.db.inbox seen) {payload : Payload} {receivedAt : Time}
    {inboxId : InboxId} (hstep : s.step deps (.ingest payload receivedAt inboxId) = some s') :
    Delivered s'.shared.db.inbox (seen ++ s.deliveries (.ingest payload receivedAt inboxId)) := by
  rw [Sys.deliveries]
  cases Sys.ingest_cases hstep with
  | refused hid =>
      rw [hid, List.append_nil]
      exact h
  | again eventId row hid hrow hevent =>
      obtain rfl : row.providerEventId = eventId := congrArg Prod.snd hevent
      rw [hid]
      exact h.again hrow payload
  | first eventId row hid hfresh hrow =>
      subst hrow
      rw [hid]
      refine h.first (fun other hother he => hfresh other hother ?_) rfl
      rw [InboxRow.event, h.provider other hother, he]

/-- The inbox changes by ingest and by the commits of the drains only. -/
theorem Sys.World.inbox {shared : Shared} (h : Sys.World deps s action shared)
    (hingest : ∀ payload receivedAt inboxId, action ≠ .ingest payload receivedAt inboxId) :
    shared.db.inbox = s.shared.db.inbox ∧ s.deliveries action = [] := by
  cases h with
  | elapse micros => exact ⟨rfl, rfl⟩
  | posted body createdAt campaignId callIds db hposted => exact ⟨hposted.inbox, rfl⟩
  | ingested payload receivedAt inboxId db hingested => exact absurd rfl (hingest payload receivedAt inboxId)
  | still action hrun hcrash =>
      cases action with
      | ingest payload receivedAt inboxId => exact absurd rfl (hingest payload receivedAt inboxId)
      | run index choice => exact absurd rfl (hrun index choice)
      | _ => exact ⟨rfl, rfl⟩

/-- A commit of a transaction that has marked a row processes that row. -/
theorem Delivered.commit {shared : Shared} (h : Delivered shared.db.inbox seen) (hinv : Consistent shared)
    {mode : InboxMode} {t : Txn} (hheld : InboxHeld shared mode t) (hallows : ∀ id, mode ≠ .claimed id) :
    Delivered (shared.commit t).db.inbox
      (seen ++ (shared.db.inbox.filter fun row => .inbox row.id ∈ t.locks).map .processed) := by
  simp only [hheld.locks]
  have hinbox : (shared.commit t).db.inbox = overlay InboxRow.id t.inbox shared.db.inbox := rfl
  cases mode with
  | idle =>
      rw [hinbox, hheld.unmarked nofun, overlay_nil]
      simpa [InboxMode.row] using h
  | claimed id => exact absurd rfl (hallows id)
  | marked id =>
      obtain ⟨row, hrow, hmarks⟩ := hheld.marked id rfl
      obtain ⟨found, hfound, hunprocessed⟩ := hheld.unprocessed id rfl
      obtain rfl := Option.some.inj (hrow.symm.trans hfound)
      obtain ⟨hmem, rfl⟩ := lookup_some hrow
      have hone : (shared.db.inbox.filter fun other => InboxMode.row (.marked row.id) = some other.id) = [row] := by
        rw [← filter_key_eq hinv.inboxIds hrow]
        apply List.filter_congr
        intro other _
        simp [InboxMode.row, eq_comm]
      rw [hone, List.map_singleton]
      exact h.process hinv.inboxIds hmem hunprocessed (hinbox.trans (by rw [hmarks]))

theorem Observed.delivered (h : Observed deps Sys.deliveries s seen) :
    (∃ modes, InboxWatched s modes) ∧ Delivered s.shared.db.inbox seen := by
  induction h with
  | init now => exact ⟨⟨_, .init inboxMonitor now, fun _ _ h => by simp at h⟩, .empty⟩
  | @step s s' seen action hs hstep ih =>
      obtain ⟨⟨modes, hmodes⟩, hdelivered⟩ := ih
      obtain ⟨modes', hmodes', hwatched⟩ := hmodes.step hs.reachable hstep
      refine ⟨⟨modes', hmodes'⟩, ?_⟩
      cases hwatched with
      | world action shared hworld =>
          by_cases hingest : ∃ payload receivedAt inboxId, action = .ingest payload receivedAt inboxId
          · obtain ⟨payload, receivedAt, inboxId, rfl⟩ := hingest
            exact hdelivered.ingest hstep
          · obtain ⟨hinbox, hnothing⟩ := hworld.inbox fun payload receivedAt inboxId he =>
              hingest ⟨payload, receivedAt, inboxId, he⟩
            rw [hnothing, List.append_nil]
            exact hinbox.symm ▸ hdelivered
      | run index choice task stmt next txn reply shared txn' hprocess hexec hallows =>
          by_cases hcommit : stmt = .commit
          · subst hcommit
            obtain ⟨t, rfl, rfl, rfl⟩ := exec_commit hexec
            rw [Sys.deliveries, hprocess]
            exact hdelivered.commit hs.reachable.consistent (hmodes.txns index _ hprocess t rfl) hallows
          · have hnothing : s.deliveries (.run index choice) = [] := by
              rw [Sys.deliveries, hprocess]
              cases stmt with
              | commit => exact absurd rfl hcommit
              | _ => rfl
            rw [hnothing, List.append_nil]
            exact (exec_quiet hcommit hexec).1.symm ▸ hdelivered
      | crash index process hprocess =>
          have hnothing : s.deliveries (.crash index) = [] := rfl
          rw [hnothing, List.append_nil]
          exact hdelivered

end

/-! ### Exactly once -/

/-- The transaction that an action rolls back. -/
def Sys.rolledBack (s : Sys) : Action → Option Txn
  | .run index _ =>
      match s.procs[index]? with
      | some ⟨_, .call .rollback _, txn⟩ => txn
      | _ => none
  | .crash index => s.procs[index]?.bind Process.txn
  | _ => none

/-- The event has been accepted before. -/
def Sys.repeats (s : Sys) : Action → Bool
  | .ingest payload _ _ => (ingestEventId payload).any fun eventId => (s.shared.db.inboxRow? "mock" eventId).isSome
  | _ => false

/-- No event is accepted twice. -/
def SingleDelivery (s : Sys) (action : Action) : Prop := s.repeats action = false

/-- The processing of one inbox row, as its payload asks for it. -/
def AppliesEvent (row : InboxRow) (before after : CallRow) : Prop :=
  ∃ event snap args now, parseEvent row.payload = .ok event ∧ WebhookAsks event snap args ∧
    args.hits before = true ∧ after = args.set now before

/-- What holds of the deliveries at the end of a run. -/
structure ExactlyOnce (deps : Deps) (s : Sys) (seen : List Delivery) : Prop where
  once : ((processedRows seen).map InboxRow.event).Nodup
  payload : ∀ row ∈ processedRows seen, row.provider = "mock" ∧
    firstPayload seen row.providerEventId = some row.payload
  /-- Drains change calls by processing a row only, and as its payload says. -/
  uses : ∀ index choice s' process, s.step deps (.run index choice) = some s' →
    s.procs[index]? = some process → process.task = .drain → ∀ id before after,
      s.shared.db.call? id = some before → s'.shared.db.call? id = some after → after ≠ before →
      ∃ row ∈ processedRows (s.deliveries (.run index choice)), AppliesEvent row before after
  /-- Nothing is left of a transaction that rolls back, and the row it had claimed can be claimed again. -/
  rolledBack : ∀ action s', s.step deps action = some s' → ∀ t ∈ s.rolledBack action,
    s'.shared.db = s.shared.db ∧ ∀ id, .inbox id ∈ t.locks → held s'.txns (.inbox id) = false ∧
      ∃ row, s'.shared.db.inbox? id = some row ∧ row.processedAt = none
  /-- A repetition does what a drain of the safety net does, and so nothing that a run without
  repetitions does not do. -/
  replayed : ∀ action s', s.repeats action = true → s.step deps action = some s' →
    s'.shared = s.shared ∧ s.step deps .drain = some s'
  single : ReachableBy deps SingleDelivery s

section

variable {deps : Deps} {s s' : Sys} {seen : List Delivery} {action : Action}

theorem Delivered.processed_once (h : Delivered s.shared.db.inbox seen) :
    ((processedRows seen).map InboxRow.event).Nodup := by
  have hkept : ∀ row ∈ processedRows seen, ∃ new ∈ s.shared.db.inbox, new.id = row.id ∧ new.event = row.event := by
    intro row hrow
    obtain ⟨new, hnew, hcontent, -⟩ := h.processed row hrow
    exact ⟨new, hnew, by rw [hcontent], by rw [hcontent]; rfl⟩
  have hids := h.once
  rw [List.Nodup, List.pairwise_map] at hids ⊢
  refine hids.imp_of_mem fun {a b} ha hb hne hevent => hne ?_
  obtain ⟨a', ha', haid, haevent⟩ := hkept a ha
  obtain ⟨b', hb', hbid, hbevent⟩ := hkept b hb
  have hsame := h.events a' ha' b' hb' (haevent.trans (hevent.trans hbevent.symm))
  rw [← haid, ← hbid, hsame]

theorem Delivered.processed_payload (h : Delivered s.shared.db.inbox seen) {row : InboxRow}
    (hrow : row ∈ processedRows seen) :
    row.provider = "mock" ∧ firstPayload seen row.providerEventId = some row.payload := by
  obtain ⟨new, hnew, hcontent, -⟩ := h.processed row hrow
  have hprovider := h.provider new hnew
  have hpayload := h.payload new hnew
  rw [hcontent] at hprovider hpayload
  exact ⟨hprovider, hpayload⟩

theorem Cause.appliesEvent {inbox : Option InboxRow} {now : Time} {before after : CallRow} {note : AuditEvent}
    {shared : Shared} (h : Cause shared (some .drain) inbox now before after note) :
    ∃ row, inbox = some row ∧ AppliesEvent row before after := by
  cases h with
  | claim campaign inFlight pending cursor htask => cases htask
  | cas args hasks hhits hregresses =>
      cases hasks with
      | webhook row event snap handle args hsnap hparse hevent hhandle hnew hargs =>
          exact ⟨row, rfl, event, snap, args, now, hparse, hargs, hhits, rfl⟩

theorem processedRows_map (rows : List InboxRow) : processedRows (rows.map .processed) = rows := by
  induction rows with
  | nil => rfl
  | cons row rest ih => exact congrArg (row :: ·) ih

theorem Guar.uses {shared shared' : Shared} {txn : Option Txn} (h : Guar ⟨some .drain, txn⟩ shared shared')
    {id : CallId} {before after : CallRow} (hbefore : shared.db.call? id = some before)
    (hafter : shared'.db.call? id = some after) (hchanged : after ≠ before) :
    ∃ t ∈ txn, ∃ row ∈ shared.db.inbox, .inbox row.id ∈ t.locks ∧ AppliesEvent row before after := by
  cases h with
  | quiet hdb hnow hissued =>
      rw [hdb, hbefore] at hafter
      exact absurd (Option.some.inj hafter).symm hchanged
  | commit t htxn hready =>
      obtain ⟨inbox, note, folds, hmoves, -, hmarks, -⟩ := hready.call_changed hbefore hafter hchanged
      obtain ⟨row, rfl, happlies⟩ := hmoves.cause.appliesEvent
      cases hmarks with
      | marked _ _ hrow hunprocessed hlock hinbox =>
          exact ⟨t, htxn, row, (lookup_some hrow).1, hlock, happlies⟩

theorem Reachable.uses (hs : Reachable deps s) {index : Nat} {choice : Choice} {process : Process}
    (hstep : s.step deps (.run index choice) = some s') (hprocess : s.procs[index]? = some process)
    (htask : process.task = .drain) {id : CallId} {before after : CallRow}
    (hbefore : s.shared.db.call? id = some before) (hafter : s'.shared.db.call? id = some after)
    (hchanged : after ≠ before) :
    ∃ row ∈ processedRows (s.deliveries (.run index choice)), AppliesEvent row before after := by
  rcases Sys.step_cases hstep with ⟨shared, hworld, rfl⟩ |
    ⟨_, _, task, stmt, next, txn, reply, shared, txn', ⟨⟩, hfound, hexec, rfl⟩ |
    ⟨_, _, ⟨⟩, -, rfl⟩
  · exact absurd (Option.some.inj ((hworld.call? hbefore).symm.trans hafter)) (Ne.symm hchanged)
  · obtain rfl := Option.some.inj (hprocess.symm.trans hfound)
    obtain rfl : task = .drain := htask
    by_cases hcommit : stmt = .commit
    · subst hcommit
      obtain ⟨t, rfl, row, hrow, hlock, happlies⟩ := (hs.run hprocess hexec).2.2.uses hbefore hafter hchanged
      refine ⟨row, ?_, happlies⟩
      rw [Sys.deliveries, hprocess]
      dsimp only
      rw [processedRows_map]
      exact List.mem_filter.mpr ⟨hrow, decide_eq_true hlock⟩
    · rw [(exec_quiet hcommit hexec).1, hbefore] at hafter
      exact absurd (Option.some.inj hafter).symm hchanged

/-- The process gives up its transaction, and nothing else happens. -/
theorem Sys.rolledBack_step (hstep : s.step deps action = some s') {t : Txn} (ht : t ∈ s.rolledBack action) :
    s'.shared = s.shared ∧ ∃ index process process', s.procs[index]? = some process ∧ process.txn = some t ∧
      s'.procs = s.procs.set index process' ∧ process'.txn = none := by
  cases action with
  | run index choice =>
      rcases Sys.step_cases hstep with ⟨shared, hworld, rfl⟩ |
        ⟨_, _, task, stmt, next, txn, reply, shared, txn', ⟨⟩, hprocess, hexec, rfl⟩ |
        ⟨_, _, ⟨⟩, -, rfl⟩
      · cases hworld with
        | still _ hrun _ => exact absurd rfl (hrun index choice)
      · rw [Sys.rolledBack, hprocess] at ht
        cases stmt with
        | rollback =>
            obtain ⟨rfl, rfl⟩ := exec_rollback hexec
            exact ⟨rfl, index, _, _, hprocess, ht, rfl, rfl⟩
        | _ => cases ht
  | crash index =>
      obtain ⟨process, hprocess, hopen⟩ := Option.bind_eq_some_iff.mp ht
      rw [Sys.step, hprocess] at hstep
      cases hstep
      exact ⟨rfl, index, process, _, hprocess, hopen, rfl, rfl⟩
  | _ => cases ht

theorem InboxWatched.rolledBack {modes : Nat → InboxMode} (h : InboxWatched s modes) (hs : Reachable deps s)
    (hstep : s.step deps action = some s') {t : Txn} (ht : t ∈ s.rolledBack action) :
    s'.shared.db = s.shared.db ∧ ∀ id, .inbox id ∈ t.locks → held s'.txns (.inbox id) = false ∧
      ∃ row, s'.shared.db.inbox? id = some row ∧ row.processedAt = none := by
  obtain ⟨hshared, index, process, process', hprocess, hopen, hprocs, hclosed⟩ := Sys.rolledBack_step hstep ht
  rw [hshared]
  refine ⟨rfl, fun id hlock => ⟨?_, ?_⟩⟩
  · rw [held, List.any_eq_false]
    intro u hu hheld
    obtain ⟨other, hother, hopen'⟩ := List.mem_filterMap.mp hu
    obtain ⟨j, hj⟩ := List.mem_iff_getElem?.mp hother
    rw [hprocs] at hj
    by_cases hsame : j = index
    · rw [hsame, List.getElem?_set_self (List.getElem?_eq_some_iff.mp hprocess).1] at hj
      rw [← Option.some.inj hj, hclosed] at hopen'
      cases hopen'
    · rw [List.getElem?_set_ne (Ne.symm hsame)] at hj
      exact hs.locks_apart hprocess hj hsame hopen hopen' _ hlock (of_decide_eq_true hheld)
  · have hheld := h.txns index process hprocess t hopen
    exact hheld.unprocessed id ((hheld.locks id).mp hlock)

/-- A repetition starts a drain, and leaves everything as it is. -/
theorem Sys.repeats_step (hrepeats : s.repeats action = true) (hstep : s.step deps action = some s') :
    s'.shared = s.shared ∧ s.step deps .drain = some s' := by
  cases action with
  | ingest payload receivedAt inboxId =>
      obtain ⟨eventId, hid, hfound⟩ := (Option.any_eq_true _ _).mp hrepeats
      obtain ⟨row, hrow⟩ := Option.isSome_iff_exists.mp hfound
      rw [Sys.step] at hstep
      simp only [hid, insertInbox, hrow] at hstep
      split at hstep
      · next db hinsert =>
          split at hinsert
          · cases hinsert
          · cases hinsert
            cases hstep
            exact ⟨rfl, rfl⟩
      · cases hstep
  | _ => cases hrepeats

/-- Without the repetitions the run comes to the same state. -/
theorem Reachable.single (h : Reachable deps s) : ReachableBy deps SingleDelivery s := by
  induction h with
  | init now => exact .init now
  | @step s s' action hs _ hstep ih =>
      cases hrepeats : s.repeats action with
      | false => exact .step action ih hrepeats hstep
      | true => exact .step .drain ih rfl (Sys.repeats_step hrepeats hstep).2

theorem exactly_once (h : Observed deps Sys.deliveries s seen) : ExactlyOnce deps s seen := by
  obtain ⟨⟨modes, hmodes⟩, hdelivered⟩ := h.delivered
  have hs := h.reachable
  exact {
    once := hdelivered.processed_once
    payload := fun _ hrow => hdelivered.processed_payload hrow
    uses := fun _ _ _ _ hstep hprocess htask _ _ _ hbefore hafter hchanged =>
      hs.uses hstep hprocess htask hbefore hafter hchanged
    rolledBack := fun _ _ hstep _ ht => hmodes.rolledBack hs hstep ht
    replayed := fun _ _ hrepeats hstep => Sys.repeats_step hrepeats hstep
    single := hs.single }

end

/-- An event is delivered twice with different payloads, and both drains run. -/
theorem exactly_once_one_call : ∃ s seen, Observed noonDeps Sys.deliveries s seen ∧
    (processedRows seen).length = 1 ∧ seen.length = 3 ∧ ExactlyOnce noonDeps s seen := by
  have hrun : ((Sys.runSeeing noonDeps Sys.deliveries {} [] (dialOne ++ deliver 0 "e" .inProgress 1 1 ++
      deliver 1 "e" .completed 2 0 ++ runs 1 6 ++ runs 2 3)).any fun r =>
        decide ((processedRows r.2).length = 1) && decide (r.2.length = 3)) = true := by decide +kernel
  obtain ⟨⟨s, seen⟩, hend, hp⟩ := (Option.any_eq_true _ _).mp hrun
  rw [Bool.and_eq_true, decide_eq_true_eq, decide_eq_true_eq] at hp
  have hseen := (Observed.init 0).of_run hend
  exact ⟨s, seen, hseen, hp.1, hp.2, exactly_once hseen⟩

end VoiceCampaign

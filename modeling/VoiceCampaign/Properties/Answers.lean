import VoiceCampaign.Properties.Provider
import VoiceCampaign.Properties.Retries

/-!
# Calls that nobody answers

A provider that says `NO_ANSWER` or `BUSY` at most once of a call makes no attempt spend two retries, so that the
retries left and those recorded make up the budget. The mock provider is one.
-/

namespace VoiceCampaign

open Concurrency

/-- The call of the provider that the row says `NO_ANSWER` or `BUSY` of. -/
def InboxRow.unanswered (row : InboxRow) : Option Handle :=
  match parseEvent row.payload with
  | .ok ⟨_, .str handle, status⟩ => if status = .noAnswer ∨ status = .busy then some handle else none
  | _ => none

/-- Of no call it is said twice. -/
def Db.UnansweredOnce (db : Db) : Prop :=
  ∀ a ∈ db.inbox, ∀ b ∈ db.inbox, a.unanswered ≠ none → a.unanswered = b.unanswered → a.id = b.id

instance (db : Db) : Decidable db.UnansweredOnce :=
  inferInstanceAs (Decidable (∀ a ∈ db.inbox, ∀ b ∈ db.inbox, _))

theorem InboxRow.unanswered_of {row : InboxRow} {event : ProviderEvent} {handle : Handle}
    (hparse : parseEvent row.payload = .ok event) (hevent : event.providerCallId = .str handle)
    (hasks : row.asksRetry = true) : row.unanswered = some handle := by
  obtain ⟨id, _, status⟩ := event
  obtain rfl : _ = Json.str handle := hevent
  rw [asksRetry, hparse] at hasks
  rw [unanswered, hparse]
  exact if_pos (by simpa using hasks)

section

variable {s s' : Shared} {task : Option Task} {inbox : Option InboxRow} {now : Time} {before after : CallRow}
  {note : AuditEvent} {key : IdempotencyKey}

theorem Grows.unansweredOnce (h : Grows s s') (hinv : Consistent s) (honce : s'.db.UnansweredOnce) :
    s.db.UnansweredOnce := by
  intro a ha b hb hnone hsame
  obtain ⟨a', ha', hevolves⟩ := h.inbox a.id a (lookup_of_mem hinv.inboxIds ha)
  obtain ⟨b', hb', hevolves'⟩ := h.inbox b.id b (lookup_of_mem hinv.inboxIds hb)
  obtain ⟨hmem, hid⟩ := lookup_some ha'
  obtain ⟨hmem', hid'⟩ := lookup_some hb'
  have hkept : a'.unanswered = a.unanswered := by rw [hevolves.content]; rfl
  have hkept' : b'.unanswered = b.unanswered := by rw [hevolves'.content]; rfl
  rw [← hid, ← hid']
  exact honce a' hmem b' hmem' (hkept ▸ hnone) (hkept.trans (hsame.trans hkept'.symm))

/-! ### What a retry goes back to -/

/-- A move that a drain makes on behalf of an event is about the attempt the event is about. -/
theorem Cause.webhook_returned (h : Cause s (some .drain) inbox now before after note)
    (hrow : s.db.call? before.id = some before) : ∃ row event handle, inbox = some row ∧
      parseEvent row.payload = .ok event ∧ event.providerCallId = .str handle ∧
      Returned s.issued before.key handle ∧ before.providerCallId ≠ none := by
  cases h with
  | claim campaign inFlight pending cursor htask => cases htask
  | cas args hasks hhits hregresses =>
      obtain ⟨hid, -, hepoch⟩ := CallUpdate.hits_iff.mp hhits
      cases hasks with
      | webhook row event snap handle args hsnap hparse hevent hhandle hnew hargs =>
          have hkey : snap.key = before.key := by
            rw [CallRow.key, CallRow.key, hid, hepoch]
            cases hargs <;> rfl
          refine ⟨row, event, handle, rfl, hparse, hevent, hkey ▸ hsnap.sound.handle handle hhandle, ?_⟩
          exact hsnap.providerCallId hrow hkey (by rw [hhandle]; exact Option.some_ne_none _)

/-- The record of a dial that was accepted. -/
theorem Cause.dispatch_recorded (h : Cause s task inbox now before after note)
    (hhandle : after.providerCallId ≠ none) :
    (before.providerCallId ≠ none ∧ after.key = before.key) ∨ note.records .dispatch after.key = true := by
  cases h with
  | claim campaign inFlight pending cursor htask hnone hclaimable => exact absurd rfl hhandle
  | cas args hasks hhits hregresses =>
      obtain ⟨hid, -, hepoch⟩ := CallUpdate.hits_iff.mp hhits
      cases hasks with
      | dispatch claimed handle hsnap hissued =>
          refine Or.inr (AuditEvent.records_iff.mpr ⟨rfl, ?_⟩)
          rw [CallRow.key, show (CallUpdate.set _ now before).id = claimed.id from hid]
          rfl
      | reclaim row hsnap => exact absurd rfl hhandle
      | webhook row asked snap handle args hsnap hparse hevent hsnapHandle hnew hargs =>
          cases hargs <;> exact Or.inl ⟨hhandle, rfl⟩
      | _ => exact Or.inl ⟨hhandle, rfl⟩

/-- The record of a dial does not say that a retry was spent. -/
theorem Cause.dispatch_state (h : Cause s task inbox now before after note)
    (hretry : note.stateAfter = some CallStatus.retryPending.value) : note.eventType ≠ .dispatch := by
  cases h with
  | claim campaign inFlight pending cursor htask hnone hclaimable => exact nofun
  | cas args hasks hhits hregresses =>
      cases hasks with
      | dispatch claimed handle hsnap hissued =>
          exact absurd hretry (CallStatus.value_ne_retryPending (show CallStatus.dialing ≠ .retryPending by decide))
      | webhook row event snap handle args hsnap hparse hevent hhandle hnew hargs => cases hargs <;> exact nofun
      | _ => exact nofun

/-- A retry that was recorded for a key goes back to a dial that failed, or to an event of the call it was dialed as. -/
inductive RetryFrom (s : Shared) (key : IdempotencyKey) : Prop
  | unavailable (entry : AuditRow) (hentry : entry ∈ s.db.audit) (hsettles : entry.event.settles key = true)
      (htype : entry.event.eventType ≠ .dispatch)
  | unanswered (row : InboxRow) (handle : Handle) (hrow : row ∈ s.db.inbox) (hprocessed : row.processedAt ≠ none)
      (hasks : row.unanswered = some handle) (hreturned : Returned s.issued key handle)

/-- Each row with a handle has the record of its dial, and each retry has its reason. -/
structure RetriesFounded (s : Shared) : Prop where
  dispatched : ∀ row ∈ s.db.calls, row.providerCallId ≠ none → 0 < s.db.keyAuditCount .dispatch row.key
  founded : s.db.SixStatuses → ∀ id attemptEpoch, attemptEpoch ∈ s.db.retryEpochs id → RetryFrom s ⟨id, attemptEpoch⟩

theorem RetryFrom.grows (h : RetryFrom s key) (hinv : Consistent s) (hgrows : Grows s s') : RetryFrom s' key := by
  cases h with
  | unavailable entry hentry hsettles htype =>
      exact .unavailable entry (hgrows.audit.subset hentry) hsettles htype
  | unanswered row handle hrow hprocessed hasks hreturned =>
      obtain ⟨row', hrow', hevolves⟩ := hgrows.inbox row.id row (lookup_of_mem hinv.inboxIds hrow)
      obtain rfl := hevolves.processed hprocessed
      exact .unanswered row' handle (lookup_some hrow').1 hprocessed hasks (hgrows.issued _ hreturned)

end

section

variable {s s' : Shared} {task : Option Task} {t : Txn} {inbox : Option InboxRow} {before after : CallRow}
  {note : AuditEvent} {folds : List AuditEvent} {key : IdempotencyKey}

theorem Db.keyAuditCount_pos {db : Db} {eventType : EventType} : 0 < db.keyAuditCount eventType key ↔
    ∃ entry ∈ db.audit, entry.event.records eventType key = true := List.countP_pos_iff

/-- The retry of a move. -/
theorem Moves.retryFrom (hmoves : Moves s task t inbox before after note) (hmarks : Marks s task t inbox)
    (hgrows : Grows s (s.commit t)) (hsix : s.db.SixStatuses) (hnote : ∃ entry ∈ t.audit, entry.event = note)
    (hretry : note.stateAfter = some CallStatus.retryPending.value) :
    note.attemptEpoch = some before.attemptEpoch ∧ RetryFrom (s.commit t) before.key := by
  have hinbox : ∀ row ∈ inbox, row ∈ s.db.inbox := by
    rintro row rfl
    cases hmarks with
    | marked _ htask hrow hunprocessed hlock hwrites => exact (lookup_some hrow).1
  rcases hmoves.cause.spends hsix hinbox with ⟨hnot, -⟩ | ⟨snap, hspends⟩
  · exact absurd hretry hnot
  refine ⟨hspends.attemptEpoch, ?_⟩
  rcases hspends.reached with hsettles | ⟨-, rfl, row, rfl, hasks⟩
  · obtain ⟨entry, hentry, rfl⟩ := hnote
    exact .unavailable entry (mem_audit_commit.mpr (Or.inr hentry)) hsettles (hmoves.cause.dispatch_state hretry)
  · obtain ⟨_, event, handle, ⟨⟩, hparse, hevent, hreturned, -⟩ :=
      hmoves.cause.webhook_returned (hmoves.before_id ▸ hmoves.row)
    have hrow := hmarks.marked_commit
    have hunanswered := InboxRow.unanswered_of hparse hevent hasks
    exact .unanswered _ handle (lookup_some hrow).1 (Option.some_ne_none _) hunanswered
      (hgrows.issued _ hreturned)

theorem RetriesFounded.commit (h : RetriesFounded s) (hinv : Consistent s) (hready : Ready s task t) :
    RetriesFounded (s.commit t) := by
  have hgrows := hready.grows
  have hcount : ∀ key, s.db.keyAuditCount .dispatch key ≤ (s.commit t).db.keyAuditCount .dispatch key := fun key => by
    rw [keyAuditCount_commit]
    exact Nat.le_add_right _ _
  cases hready with
  | quiet inbox hcalls hcampaigns hmarks hnotes =>
      refine ⟨fun row hrow hhandle => ?_, fun hsix id attemptEpoch hmem => ?_⟩
      · exact (h.dispatched row (Shared.calls_commit_nil hcalls ▸ hrow) hhandle).trans_le (hcount _)
      · rw [retryEpochs_commit_notes hnotes] at hmem
        exact (h.founded (hgrows.sixStatuses hinv hsix) id attemptEpoch hmem).grows hinv hgrows
  | moves inbox before after note folds hmoves hfolds hmarks haudit =>
      have hnote : ∃ entry ∈ t.audit, entry.event = note := List.mem_map.mp (haudit ▸ List.mem_cons_self ..)
      refine ⟨fun row hrow hhandle => ?_, fun hsix id attemptEpoch hmem => ?_⟩
      · rcases hmoves.mem_commit.mp hrow with rfl | ⟨hold, -⟩
        · rcases hmoves.cause.dispatch_recorded hhandle with ⟨hkept, hkey⟩ | hrecords
          · rw [hkey]
            exact (h.dispatched before hmoves.before_mem hkept).trans_le (hcount _)
          · obtain ⟨entry, hentry, rfl⟩ := hnote
            exact Db.keyAuditCount_pos.mpr ⟨entry, mem_audit_commit.mpr (Or.inr hentry), hrecords⟩
        · exact (h.dispatched row hold hhandle).trans_le (hcount _)
      · replace hsix := hgrows.sixStatuses hinv hsix
        rcases (hfolds.mem_retryEpochs haudit).mp hmem with hold | ⟨hcall, hepoch, hretry⟩
        · exact (h.founded hsix id attemptEpoch hold).grows hinv hgrows
        · obtain ⟨hattempt, hfrom⟩ := hmoves.retryFrom hmarks hgrows hsix hnote hretry
          rw [hmoves.cause.eventType.2.2] at hcall
          rw [hattempt] at hepoch
          rw [← Option.some.inj hcall, ← Option.some.inj hepoch]
          exact hfrom

end

/-! ### Every run -/

theorem eq_of_countP_le_one {α : Type} {p : α → Bool} {l : List α} (h : l.countP p ≤ 1) {a b : α} (ha : a ∈ l)
    (hb : b ∈ l) (hpa : p a = true) (hpb : p b = true) : a = b := by
  have hmem : a ∈ l.filter p := List.mem_filter.mpr ⟨ha, hpa⟩
  have hmem' : b ∈ l.filter p := List.mem_filter.mpr ⟨hb, hpb⟩
  rw [List.countP_eq_length_filter] at h
  generalize l.filter p = kept at h hmem hmem'
  cases kept with
  | nil => cases hmem
  | cons first rest =>
      have hrest : rest = [] := List.length_eq_zero_iff.mp (by simpa using h)
      rw [hrest, List.mem_singleton] at hmem hmem'
      exact hmem.trans hmem'.symm

section

variable {deps : Deps} {s s' : Sys} {action : Action}

theorem Reachable.retriesFounded (h : Reachable deps s) : RetriesFounded s.shared := by
  refine h.invariant (fun now => ⟨List.forall_mem_nil _, fun _ _ _ h => by cases h⟩) ?_ ?_
  · intro s action shared hs ih hworld
    refine ⟨fun row hrow hhandle => ?_, fun hsix id attemptEpoch hmem => ?_⟩
    · rw [Db.keyAuditCount, hworld.audit]
      cases hworld with
      | posted body createdAt campaignId callIds db hposted =>
          rcases hposted.mem_calls.mp hrow with hold | hnew
          · exact ih.dispatched row hold hhandle
          · exact absurd (hposted.queued row hnew).2.2.2.1 hhandle
      | ingested payload receivedAt inboxId db hingested =>
          rw [hingested.rest] at hrow
          exact ih.dispatched row hrow hhandle
      | _ => exact ih.dispatched row hrow hhandle
    · rw [Db.retryEpochs, hworld.audit] at hmem
      have hsix' := hworld.grows.sixStatuses hs.consistent hsix
      exact (ih.founded hsix' id attemptEpoch hmem).grows hs.consistent hworld.grows
  · intro l s s' hinv ih hguar
    cases hguar with
    | quiet hdb hnow hissued =>
        have hgrows := (Guar.quiet (l := l) hdb hnow hissued).grows
        refine ⟨fun row hrow hhandle => ?_, fun hsix id attemptEpoch hmem => ?_⟩
        · rw [hdb] at hrow ⊢
          exact ih.dispatched row hrow hhandle
        · rw [hdb] at hsix hmem
          exact (ih.founded hsix id attemptEpoch hmem).grows hinv hgrows
    | commit t htxn hready => exact ih.commit hinv hready

/-- What came of a dial is recorded at most once. -/
theorem Reachable.settledOnce (hs : Reachable deps s) (key : IdempotencyKey) : s.shared.db.settledCount key ≤ 1 := by
  obtain ⟨seen, hseen⟩ := hs.observed Sys.dialing
  obtain ⟨modes, -, -, hdialers⟩ := hseen.dialWatched
  refine (hdialers.settledRows key).trans ?_
  split <;> omega

/-- A retry that a drain is about to record is the first of its attempt. -/
theorem Reachable.unspent (hs : Reachable deps s) (hsix : s.shared.db.SixStatuses) (honce : s.shared.db.UnansweredOnce)
    {t : Txn} {row : InboxRow} {before after : CallRow} {note : AuditEvent}
    (hmoves : Moves s.shared (some .drain) t (some row) before after note)
    (hmarks : Marks s.shared (some .drain) t (some row)) (hasks : row.asksRetry = true) :
    before.attemptEpoch ∉ s.shared.db.retryEpochs before.id := by
  intro hrecorded
  have hinv := hs.consistent
  have hfounded := hs.retriesFounded
  obtain ⟨_, event, handle, ⟨⟩, hparse, hevent, hreturned, hhandle⟩ :=
    hmoves.cause.webhook_returned (hmoves.before_id ▸ hmoves.row)
  have hunanswered := InboxRow.unanswered_of hparse hevent hasks
  cases hmarks with
  | marked _ htask hfound hunprocessed hlock hwrites =>
      cases hfounded.founded hsix _ _ hrecorded with
      | unavailable entry hentry hsettles htype =>
          -- the dial was accepted, and what came of it is recorded once
          obtain ⟨other, hother, hrecords⟩ :=
            Db.keyAuditCount_pos.mp (hfounded.dispatched before hmoves.before_mem hhandle)
          obtain rfl := eq_of_countP_le_one (hs.settledOnce before.key) hentry hother hsettles
            (AuditEvent.records_dispatch hrecords)
          exact htype (AuditEvent.records_iff.mp hrecords).1
      | unanswered row' handle' hrow' hprocessed hasks' hreturned' =>
          -- the call has said so already
          have hdial := eq_of_key_eq hs.dialedOnce hreturned hreturned' rfl
          obtain rfl : handle = handle' := congrArg Dial.handle hdial
          have hid := honce row (lookup_some hfound).1 row' hrow' (by rw [hunanswered]; exact Option.some_ne_none _)
            (hunanswered.trans hasks'.symm)
          obtain rfl := eq_of_key_eq hinv.inboxIds (lookup_some hfound).1 hrow' hid
          exact hprocessed hunprocessed

theorem Reachable.newRecords_ready (hs : Reachable deps s) (hsix : s.shared.db.SixStatuses)
    (honce : s.shared.db.UnansweredOnce) {index : Nat} {task : Task} {next : Unit → Co Unit} {t : Txn}
    (hprocess : s.procs[index]? = some ⟨task, .call .commit next, some t⟩) (hready : Ready s.shared (some task) t) :
    NewRecords s.shared.db task t where
  settles _ hrow _ hsettles := hs.settles hprocess hrow hsettles
  retries call hcall := by
    obtain ⟨rfl, hasked, hrow⟩ := mem_retriedCalls hcall
    rw [retriedCalls, if_pos hasked] at hcall
    cases hready with
    | quiet inbox hcalls hcampaigns hmarks hnotes =>
        rw [hcalls] at hcall
        cases hcall
    | moves inbox before after note folds hmoves hfolds hmarks haudit =>
        obtain rfl : before = call := by
          rw [hmoves.calls] at hcall
          simpa [hmoves.row, eq_comm] using hcall
        have hmarked := hmarks
        cases hmarks with
        | unmarked hnone =>
            rw [hnone] at hasked
            cases hasked
        | marked row htask hfound hunprocessed hlock hwrites =>
            rw [hwrites] at hasked
            exact hs.unspent hsix honce hmoves hmarked (by simpa [InboxRow.asksRetry] using hasked)

/-- The retries left and those recorded make up the budget. -/
theorem Reachable.accounted (h : Reachable deps s) (hsix : s.shared.db.SixStatuses)
    (honce : s.shared.db.UnansweredOnce) : Accounted s.shared.db := by
  induction h with
  | init now => exact ⟨nofun, nofun, nofun⟩
  | @step s s' action hs _ hstep ih =>
      replace hs : Reachable deps s := hs
      have hgrows := hs.grows hstep
      replace hsix := hgrows.sixStatuses hs.consistent hsix
      replace honce := hgrows.unansweredOnce hs.consistent honce
      replace ih := ih hsix honce
      rcases Sys.step_cases hstep with ⟨shared, hworld, rfl⟩ |
        ⟨index, choice, task, stmt, next, txn, reply, shared, txn', rfl, hprocess, hexec, rfl⟩ |
        ⟨index, process, rfl, hprocess, rfl⟩
      · exact hworld.accounted hs.consistent ih
      · show Accounted shared.db
        by_cases hcommit : stmt = .commit
        · subst hcommit
          have hguar := (hs.run hprocess hexec).2.2
          obtain ⟨t, rfl, rfl, rfl⟩ := exec_commit hexec
          generalize hshared : s.shared.commit t = shared at hguar
          cases hguar with
          | quiet hdb hnow hissued => exact hdb ▸ ih
          | commit u htxn hready =>
              obtain rfl := Option.some.inj htxn
              exact ih.commit hs.consistent hready hsix (hs.newRecords_ready hsix honce hprocess hready)
        · rw [(exec_quiet hcommit hexec).1]
          exact ih
      · exact ih

/-- What holds of the budgets: they add up, and each retry recorded was dialed, and has its reason. -/
structure BudgetsAddUp (s : Shared) : Prop where
  spent : ∀ call ∈ s.db.calls, ∀ campaign ∈ s.db.campaigns, campaign.id = call.campaignId →
    call.retriesRemaining + (s.db.retryEpochs call.id).card = campaign.retryConfig.maxAttempts
  settled : ∀ id attemptEpoch, attemptEpoch ∈ s.db.retryEpochs id → s.db.settledCount ⟨id, attemptEpoch⟩ = 1
  founded : ∀ id attemptEpoch, attemptEpoch ∈ s.db.retryEpochs id → RetryFrom s ⟨id, attemptEpoch⟩

theorem Reachable.addUp (h : Reachable deps s) (hsix : s.shared.db.SixStatuses) (honce : s.shared.db.UnansweredOnce) :
    BudgetsAddUp s.shared where
  spent := (h.accounted hsix honce).budget
  settled id attemptEpoch hmem :=
    (h.settledOnce _).antisymm ((h.accounted hsix honce).recorded id attemptEpoch hmem)
  founded := h.retriesFounded.founded hsix

/-- Where no call of the provider goes unanswered twice, each attempt spends at most one retry. -/
theorem budgets_add_up (h : Reachable deps s) (hsix : s.shared.db.SixStatuses) (honce : s.shared.db.UnansweredOnce) :
    BudgetsAddUp s.shared := h.addUp hsix honce

end

/-- The one call is dialed, nobody answers, and its first retry is spent. -/
theorem budgets_add_up_one_call : ∃ s, Reachable noonDeps s ∧ s.shared.db.SixStatuses ∧ s.shared.db.UnansweredOnce ∧
    (∃ call ∈ s.shared.db.calls, (s.shared.db.retryEpochs call.id).card = 1) ∧ BudgetsAddUp s.shared := by
  obtain ⟨s, hs, hp⟩ := Reachable.of_any noonDeps (dialOne ++ deliver 0 "e" .noAnswer 1 13)
    (fun s => decide s.shared.db.SixStatuses && decide s.shared.db.UnansweredOnce && s.shared.db.calls.any fun call =>
      decide ((s.shared.db.retryEpochs call.id).card = 1)) (by decide +kernel)
  simp only [Bool.and_eq_true, List.any_eq_true, decide_eq_true_eq] at hp
  obtain ⟨⟨hsix, honce⟩, hspent⟩ := hp
  exact ⟨s, hs, hsix, honce, hspent, budgets_add_up hs hsix honce⟩

/-! ### The mock provider -/

/-- A simulated call goes unanswered at most once, and is not busy. -/
theorem OnCourse.unanswered {told : List CallStatus} {status : CallStatus} (h : OnCourse told status) :
    told.countP (fun status => status = .noAnswer || status = .busy) ≤ 1 := by
  obtain ⟨outcome, houtcome, hstart, -⟩ := h
  have hcases : ∀ outcome ∈ simulatedOutcomes,
      (trajectory outcome).countP (fun status => status = .noAnswer || status = .busy) ≤ 1 := by decide
  exact (hstart.sublist.countP_le).trans (hcases outcome houtcome)

/-- The event of a simulated call. -/
theorem InboxRow.unanswered_event {row : InboxRow} {callId handle : Handle} {seq : Nat} {status : CallStatus}
    (hbody : row.payload = MockProvider.eventPayload callId seq status) (hasks : row.unanswered = some handle) :
    callId = handle ∧ (status = .noAnswer ∨ status = .busy) := by
  rw [unanswered, hbody, MockProvider.parseEvent_eventPayload] at hasks
  by_cases hstatus : status = .noAnswer ∨ status = .busy
  · exact ⟨Option.some.inj ((if_pos hstatus).symm.trans hasks), hstatus⟩
  · cases (if_neg hstatus).symm.trans hasks

/-- The mock provider says at most once of a call that nobody answered. -/
theorem Attuned.unansweredOnce {provider : MockProvider} {issued : List Dial} {db : Db}
    (h : Attuned provider issued db.arrivals) : db.UnansweredOnce := by
  intro a ha b hb hnone hsame
  obtain ⟨handle, hasks⟩ := Option.ne_none_iff_exists'.mp hnone
  obtain ⟨dial, hdial, seq, status, -, hbody, -⟩ := h.event _ (List.mem_map_of_mem ha)
  obtain ⟨dial', -, seq', status', -, hbody', -⟩ := h.event _ (List.mem_map_of_mem hb)
  obtain ⟨rfl, hstatus⟩ := InboxRow.unanswered_event hbody hasks
  obtain ⟨hhandle, hstatus'⟩ := InboxRow.unanswered_event hbody' (hsame ▸ hasks)
  obtain ⟨standing, hcourse⟩ := h.past dial hdial
  have hcount := hcourse.unanswered
  rw [told, List.countP_filterMap, Db.arrivals, List.countP_map] at hcount
  refine congrArg InboxRow.id (eq_of_countP_le_one hcount ha hb ?_ ?_)
  · rw [Function.comp_apply, show a.payload = _ from hbody, statusFor_eventPayload, if_pos rfl]
    simpa using hstatus
  · rw [Function.comp_apply, show b.payload = _ from hbody', statusFor_eventPayload, if_pos hhandle]
    simpa using hstatus'

theorem Attuned.sixStatuses {provider : MockProvider} {issued : List Dial} {db : Db}
    (h : Attuned provider issued db.arrivals) : db.SixStatuses := by
  intro row hrow event hparse
  obtain ⟨dial, hdial, seq, status, -, hbody, -⟩ := h.event _ (List.mem_map_of_mem hrow)
  rw [show row.payload = _ from hbody, MockProvider.parseEvent_eventPayload] at hparse
  obtain ⟨standing, outcome, houtcome, hstart, -⟩ := h.past dial hdial
  have hmem : status ∈ told db.arrivals dial.handle := by
    refine List.mem_filterMap.mpr ⟨_, List.mem_map_of_mem hrow, ?_⟩
    rw [show row.payload = _ from hbody, statusFor_eventPayload, if_pos rfl]
  have hcases : ∀ outcome ∈ simulatedOutcomes, ∀ status ∈ trajectory outcome,
      status ≠ .queued ∧ status ≠ .retryPending := by decide
  obtain rfl := Except.ok.inj hparse
  exact hcases outcome houtcome status (hstart.subset hmem)

end VoiceCampaign

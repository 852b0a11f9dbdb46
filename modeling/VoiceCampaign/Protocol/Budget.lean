import VoiceCampaign.Protocol.Guarantee

/-!
# The budget of a call

What a consistent state says about its rows, and the account of claims, retries and reclaims that every
move of a call keeps: a retry is scheduled from a row that was read earlier, but at the attempt the row
is still at, so the account was the same then.
-/

namespace VoiceCampaign

open Concurrency

namespace Consistent

variable {s : Shared} (h : Consistent s)

include h

theorem call?_iff {id : CallId} {row : CallRow} :
    s.db.call? id = some row ↔ row ∈ s.db.calls ∧ row.id = id := lookup_eq_some_iff h.callIds

theorem call?_of_mem {row : CallRow} (hrow : row ∈ s.db.calls) : s.db.call? row.id = some row :=
  h.call?_iff.mpr ⟨hrow, rfl⟩

theorem campaign?_iff {id : CampaignId} {row : CampaignRow} :
    s.db.campaign? id = some row ↔ row ∈ s.db.campaigns ∧ row.id = id :=
  lookup_eq_some_iff h.campaignIds

theorem inbox?_iff {id : InboxId} {row : InboxRow} :
    s.db.inbox? id = some row ↔ row ∈ s.db.inbox ∧ row.id = id := lookup_eq_some_iff h.inboxIds

/-- The campaign of a call. -/
theorem campaign_of_call {row : CallRow} (hrow : row ∈ s.db.calls) :
    ∃ campaign, s.db.campaign? row.campaignId = some campaign ∧ campaign ∈ s.db.campaigns ∧
      campaign.id = row.campaignId := by
  obtain ⟨campaign, hmem, hid⟩ := h.owner row hrow
  exact ⟨campaign, h.campaign?_iff.mpr ⟨hmem, hid⟩, hmem, hid⟩

theorem seen_of_mem {row : CallRow} (hrow : row ∈ s.db.calls) : Seen s row :=
  ⟨s, h, .refl s, hrow⟩

/-- The campaign of a call that was claimed is not pending. -/
theorem not_pending {row : CallRow} (hrow : row ∈ s.db.calls) (hstarted : 0 < row.attemptEpoch)
    {campaign : CampaignRow} (hcampaign : campaign ∈ s.db.campaigns)
    (hid : campaign.id = row.campaignId) : campaign.status ≠ .pending := by
  intro hpending
  have hzero := (h.status campaign hcampaign).pending.mp hpending row hrow hid.symm
  omega

/-- A call that is not terminal keeps its campaign from folding. -/
theorem not_terminal {row : CallRow} (hrow : row ∈ s.db.calls)
    (hlive : row.status.isTerminal = false) {campaign : CampaignRow}
    (hcampaign : campaign ∈ s.db.campaigns) (hid : campaign.id = row.campaignId) :
    campaign.status.isTerminal = false := by
  have hstatus := h.status campaign hcampaign
  have hnot : ¬ s.db.allTerminal campaign.id := fun hall => by
    have := hall row hrow hid.symm
    rw [hlive] at this
    cases this
  cases hcase : campaign.status with
  | pending => rfl
  | active => rfl
  | completed => exact absurd (hstatus.completed.mp hcase).1 hnot
  | failed => exact absurd (hstatus.failed.mp hcase).1 hnot

/-- All calls of a folded campaign are terminal. -/
theorem all_terminal {campaign : CampaignRow} (hcampaign : campaign ∈ s.db.campaigns)
    (hterminal : campaign.status.isTerminal = true) : s.db.allTerminal campaign.id := by
  intro row hrow hid
  by_contra hlive
  rw [Bool.not_eq_true] at hlive
  rw [h.not_terminal hrow hlive hcampaign hid.symm] at hterminal
  cases hterminal

end Consistent

/-! ### The audit log after a commit -/

section

variable {s : Shared} {t : Txn}

theorem auditCount_commit (eventType : EventType) (id : CampaignId) :
    (s.commit t).db.auditCount eventType id = s.db.auditCount eventType id +
      (t.audit.map AuditRow.event).countP fun event =>
        event.eventType = eventType && event.campaignId = some id := by
  rw [Db.auditCount, show (s.commit t).db.audit = s.db.audit ++ t.audit from rfl, List.countP_append,
    List.countP_map]
  rfl

theorem everClaimed_commit (id : CallId) : (s.commit t).db.everClaimed id ↔ s.db.everClaimed id ∨
    ∃ event ∈ t.audit.map AuditRow.event, event.eventType = .claimed ∧ event.callId = some id := by
  simp only [Db.everClaimed, show (s.commit t).db.audit = s.db.audit ++ t.audit from rfl,
    List.mem_append, List.mem_map]
  constructor
  · rintro ⟨row, hrow | hrow, hclaimed⟩
    · exact Or.inl ⟨row, hrow, hclaimed⟩
    · exact Or.inr ⟨row.event, ⟨row, hrow, rfl⟩, hclaimed⟩
  · rintro (⟨row, hrow, hclaimed⟩ | ⟨_, ⟨row, hrow, rfl⟩, hclaimed⟩)
    · exact ⟨row, Or.inl hrow, hclaimed⟩
    · exact ⟨row, Or.inr hrow, hclaimed⟩

theorem mem_audit_commit {row : AuditRow} :
    row ∈ (s.commit t).db.audit ↔ row ∈ s.db.audit ∨ row ∈ t.audit := List.mem_append

theorem callAuditCount_commit (eventType : EventType) (id : CallId) :
    (s.commit t).db.callAuditCount eventType id = s.db.callAuditCount eventType id +
      (t.audit.map AuditRow.event).countP fun event =>
        event.eventType = eventType && event.callId = some id := by
  rw [Db.callAuditCount, show (s.commit t).db.audit = s.db.audit ++ t.audit from rfl, List.countP_append,
    List.countP_map]
  rfl

theorem AuditEvent.eventType_ne {event : AuditEvent} (h : event.isNote = true) {eventType : EventType}
    (htype : eventType.isNote = false) : event.eventType ≠ eventType := by
  intro he
  rw [AuditEvent.isNote, he, htype] at h
  cases h

theorem AuditEvent.isNote_eq_false {event : AuditEvent} {eventType : EventType}
    (h : event.eventType = eventType) (htype : eventType.isNote = false) : event.isNote = false := by
  rw [AuditEvent.isNote, h, htype]
  rfl

theorem countP_notes (hnotes : ∀ row ∈ t.audit, row.event.isNote = true) {eventType : EventType}
    (htype : eventType.isNote = false) (p : AuditEvent → Bool) :
    (t.audit.map AuditRow.event).countP (fun event => event.eventType = eventType && p event) = 0 := by
  rw [List.countP_eq_zero]
  intro event hevent
  obtain ⟨row, hrow, rfl⟩ := List.mem_map.mp hevent
  simp [AuditEvent.eventType_ne (hnotes row hrow) htype]

theorem auditCount_commit_notes (hnotes : ∀ row ∈ t.audit, row.event.isNote = true)
    {eventType : EventType} (htype : eventType.isNote = false) (id : CampaignId) :
    (s.commit t).db.auditCount eventType id = s.db.auditCount eventType id := by
  rw [auditCount_commit, countP_notes hnotes htype, Nat.add_zero]

theorem callAuditCount_commit_notes (hnotes : ∀ row ∈ t.audit, row.event.isNote = true)
    {eventType : EventType} (htype : eventType.isNote = false) (id : CallId) :
    (s.commit t).db.callAuditCount eventType id = s.db.callAuditCount eventType id := by
  rw [callAuditCount_commit, countP_notes hnotes htype, Nat.add_zero]

theorem everClaimed_commit_notes (hnotes : ∀ row ∈ t.audit, row.event.isNote = true)
    (id : CallId) : (s.commit t).db.everClaimed id ↔ s.db.everClaimed id := by
  rw [everClaimed_commit, or_iff_left]
  rintro ⟨event, hevent, hclaimed, -⟩
  obtain ⟨row, hrow, rfl⟩ := List.mem_map.mp hevent
  exact AuditEvent.eventType_ne (hnotes row hrow) rfl hclaimed

/-- A move is counted for its call. -/
theorem Folds.callAuditCount_commit {after : CallRow} {event : AuditEvent} {folds : List AuditEvent}
    (h : Folds s t after folds) (haudit : t.audit.map AuditRow.event = event :: folds)
    (eventType : EventType) (id : CallId) :
    (s.commit t).db.callAuditCount eventType id = s.db.callAuditCount eventType id +
      (if event.callId = some id then if event.eventType = eventType then 1 else 0 else 0) := by
  have hfolds : (folds.countP fun e => e.eventType = eventType && e.callId = some id) = 0 := by
    rw [List.countP_eq_zero]
    intro e he
    simp [(h.events e he).2]
  rw [VoiceCampaign.callAuditCount_commit, haudit, List.countP_cons, hfolds, Nat.zero_add]
  by_cases hcall : event.callId = some id <;> simp [hcall]

theorem Db.Budgeted.of_counts {db db' : Db} {row : CallRow} {maxAttempts : Nat}
    (h : db.Budgeted row maxAttempts)
    (hclaims : db'.callAuditCount .claimed row.id = db.callAuditCount .claimed row.id)
    (hreclaims : db'.callAuditCount .reclaimExecuted row.id = db.callAuditCount .reclaimExecuted row.id)
    (hsix : db'.SixStatuses → db.SixStatuses) : db'.Budgeted row maxAttempts where
  epoch := by rw [hclaims, hreclaims, h.epoch]
  retries := h.retries
  redials h' := by
    rw [hclaims, hreclaims]
    exact h.redials (hsix h')

end

/-! ### Earlier states -/

section

variable {s s' : Shared} {snap : CallRow}

theorem Grows.callAuditCount (h : Grows s s') (eventType : EventType) (id : CallId) :
    s.db.callAuditCount eventType id ≤ s'.db.callAuditCount eventType id := by
  obtain ⟨more, hmore⟩ := h.audit
  rw [Db.callAuditCount, Db.callAuditCount, ← hmore, List.countP_append]
  exact Nat.le_add_right _ _

theorem Grows.sixStatuses (h : Grows s s') (hinv : Consistent s) (hsix : s'.db.SixStatuses) :
    s.db.SixStatuses := by
  intro row hrow event hparse
  obtain ⟨row', hrow', hevolves⟩ := h.inbox row.id row (lookup_of_mem hinv.inboxIds hrow)
  have hpayload : row'.payload = row.payload := by rw [hevolves.content]
  exact hsix row' (lookup_some hrow').1 event (hpayload ▸ hparse)

/-- The campaign of a row that was read earlier, as it was then. -/
theorem Seen.owner (h : Seen s snap) (hinv : Consistent s) {row : CallRow} (hrow : row ∈ s.db.calls)
    (hid : row.id = snap.id) {campaign : CampaignRow} (hcampaign : campaign ∈ s.db.campaigns)
    (howner : campaign.id = row.campaignId) :
    ∃ s₀, Consistent s₀ ∧ Grows s₀ s ∧ snap ∈ s₀.db.calls ∧ ∃ owner ∈ s₀.db.campaigns,
      owner.id = snap.campaignId ∧ owner.retryConfig = campaign.retryConfig := by
  obtain ⟨s₀, hinv₀, hgrows, hmem⟩ := h
  obtain ⟨owner, howner₀, hownerMem, hownerId⟩ := hinv₀.campaign_of_call hmem
  obtain ⟨row', hrow', hevolves⟩ := hgrows.call _ snap (hinv₀.call?_of_mem hmem)
  rw [← hid, hinv.call?_of_mem hrow] at hrow'
  obtain rfl := Option.some.inj hrow'
  obtain ⟨campaign', hcampaign', hconfig⟩ := hgrows.campaign _ owner howner₀
  rw [← hevolves.campaignId, ← howner, hinv.campaign?_iff.mpr ⟨hcampaign, rfl⟩] at hcampaign'
  obtain rfl := Option.some.inj hcampaign'
  exact ⟨s₀, hinv₀, hgrows, hmem, owner, hownerMem, hownerId, by rw [hconfig.config]⟩

/-- A row that was read earlier, where the row is still at that attempt. -/
theorem Seen.budgeted (h : Seen s snap) (hinv : Consistent s) {row : CallRow} (hrow : row ∈ s.db.calls)
    (hid : row.id = snap.id) (hepoch : row.attemptEpoch = snap.attemptEpoch) {campaign : CampaignRow}
    (hcampaign : campaign ∈ s.db.campaigns) (howner : campaign.id = row.campaignId) :
    s.db.Budgeted snap campaign.retryConfig.maxAttempts := by
  obtain ⟨s₀, hinv₀, hgrows, hmem, owner, hownerMem, hownerId, hmax⟩ :=
    h.owner hinv hrow hid hcampaign howner
  have hbudget₀ := hinv₀.budget snap hmem owner hownerMem hownerId
  have hbudget := hinv.budget row hrow campaign hcampaign howner
  rw [hmax] at hbudget₀
  -- the same account
  have hclaims := hgrows.callAuditCount .claimed snap.id
  have hreclaims := hgrows.callAuditCount .reclaimExecuted snap.id
  have hthen := hbudget₀.epoch
  have hnow := hbudget.epoch
  rw [hid, hepoch] at hnow
  refine ⟨hnow, hbudget₀.retries, fun hsix => ?_⟩
  have hredials := hbudget₀.redials (hgrows.sixStatuses hinv₀ hsix)
  omega

/-- The budget that was read had been paid out of for earlier attempts only. -/
theorem Seen.paced (h : Seen s snap) (hinv : Consistent s) {row : CallRow} (hrow : row ∈ s.db.calls)
    (hid : row.id = snap.id) (hepoch : row.attemptEpoch = snap.attemptEpoch) {campaign : CampaignRow}
    (hcampaign : campaign ∈ s.db.campaigns) (howner : campaign.id = row.campaignId) :
    snap.retriesRemaining + ((s.db.outcomeEpochs row.id).erase row.attemptEpoch).card ≤
      campaign.retryConfig.maxAttempts := by
  obtain ⟨s₀, hinv₀, hgrows, hmem, owner, hownerMem, hownerId, hmax⟩ :=
    h.owner hinv hrow hid hcampaign howner
  have hspent := (hinv₀.paced snap hmem owner hownerMem hownerId).spent
  have hsubset : (s.db.outcomeEpochs row.id).erase row.attemptEpoch ⊆ s₀.db.outcomeEpochs snap.id := by
    intro attemptEpoch hother
    obtain ⟨hne, hrecorded⟩ := Finset.mem_erase.mp hother
    rw [hid] at hrecorded
    have hfound : s.db.call? snap.id = some row := hid ▸ hinv.call?_of_mem hrow
    rcases hgrows.outcomes snap.id snap row (hinv₀.call?_of_mem hmem) hfound hepoch attemptEpoch hrecorded with
      he | hold
    · exact absurd (he.trans hepoch.symm) hne
    · exact hold
  have hcard := Finset.card_le_card hsubset
  rw [hmax] at hspent
  omega

end

/-! ### Moves -/

section

variable {s : Shared} {task : Option Task} {inbox : Option InboxRow} {now : Time} {before after : CallRow}
  {event : AuditEvent} {args : Transition} {campaign : CampaignRow}

theorem CallStatus.waiting_not_terminal {status : CallStatus} (h : status.waiting = true) :
    status.isTerminal = false := by
  cases status <;> first | rfl | cases h

/-- Only a claim and a reclaim start an attempt. -/
theorem Cause.attemptEpoch (h : Cause s task inbox now before after event) :
    after.attemptEpoch = before.attemptEpoch + (if event.eventType = .claimed then 1 else 0) +
      (if event.eventType = .reclaimExecuted then 1 else 0) := by
  cases h with
  | claim campaign inFlight pending cursor htask hinbox hclaimable => rfl
  | cas args hasks hhits hregresses =>
      obtain ⟨-, -, hepoch⟩ := CallUpdate.hits_iff.mp hhits
      cases hasks with
      | reclaim row hsnap =>
          show row.attemptEpoch + 1 = before.attemptEpoch + 0 + 1
          rw [hepoch]
          rfl
      | webhook row event snap handle args hsnap hparse hevent hhandle hnew hargs => cases hargs <;> rfl
      | _ => rfl

/-- The row an update asks about is the row it finds, at the attempt that was read. -/
theorem Asks.seen (h : Asks s task inbox args) (hhits : args.hits before = true) :
    ∃ snap, Seen s snap ∧ before.id = snap.id ∧ before.status = args.expectedStatus ∧
      before.attemptEpoch = snap.attemptEpoch ∧
      (args.columnUpdates.retriesRemaining = none ∨ (args.newStatus = .retryPending ∧
        0 < snap.retriesRemaining ∧
        args.columnUpdates.retriesRemaining = some (snap.retriesRemaining - 1))) := by
  obtain ⟨hid, hstatus, hepoch⟩ := CallUpdate.hits_iff.mp hhits
  cases h with
  | retryDue snap hsnap => exact ⟨snap, hsnap, hid, hstatus, hepoch, Or.inl rfl⟩
  | dispatch claimed handle hsnap hissued => exact ⟨claimed, hsnap, hid, hstatus, hepoch, Or.inl rfl⟩
  | rejected claimed reasonCode hsnap => exact ⟨claimed, hsnap, hid, hstatus, hepoch, Or.inl rfl⟩
  | unavailable claimed nextAttempt hsnap hbudget =>
      exact ⟨claimed, hsnap, hid, hstatus, hepoch, Or.inr ⟨rfl, hbudget, rfl⟩⟩
  | unavailableExhausted claimed hsnap hbudget =>
      exact ⟨claimed, hsnap, hid, hstatus, hepoch, Or.inl rfl⟩
  | webhook row event snap handle args hsnap hparse hevent hhandle hnew hargs =>
      cases hargs with
      | writeThrough hevent => exact ⟨snap, hsnap, hid, hstatus, hepoch, Or.inl rfl⟩
      | asIs hevent => exact ⟨snap, hsnap, hid, hstatus, hepoch, Or.inl rfl⟩
      | retry nextAttempt hevent hbudget =>
          exact ⟨snap, hsnap, hid, hstatus, hepoch, Or.inr ⟨rfl, hbudget, rfl⟩⟩
      | exhausted hevent hbudget => exact ⟨snap, hsnap, hid, hstatus, hepoch, Or.inl rfl⟩
  | reclaimTerminal row reported hsnap hreported => exact ⟨row, hsnap, hid, hstatus, hepoch, Or.inl rfl⟩
  | reclaim row hsnap => exact ⟨row, hsnap, hid, hstatus, hepoch, Or.inl rfl⟩

/-- A row is put back to wait by a retry that pays for it, by the requeue of one that waits already, or
by a reclaim. -/
theorem Asks.waits (h : Asks s task inbox args) (hinbox : ∀ row ∈ inbox, row ∈ s.db.inbox)
    (hsix : s.db.SixStatuses) (hwaits : args.newStatus.waiting = true) :
    args.columnUpdates.retriesRemaining ≠ none ∨ args.expectedStatus.waiting = true ∨
      args.eventType = .reclaimExecuted := by
  cases h with
  | webhook row event snap handle args hsnap hparse hevent hhandle hnew hargs =>
      obtain ⟨hqueued, hpending⟩ := hsix row (hinbox row rfl) event hparse
      cases hargs with
      | writeThrough hlive =>
          replace hwaits : event.statusEnum.waiting = true := hwaits
          cases hstatus : event.statusEnum <;> rw [hstatus] at hwaits hqueued hpending <;>
            first | exact absurd rfl hqueued | exact absurd rfl hpending | cases hwaits
      | asIs hterminal =>
          replace hwaits : event.statusEnum.waiting = true := hwaits
          rcases hterminal with h | h <;> rw [h] at hwaits <;> cases hwaits
      | retry nextAttempt hevent hbudget => exact Or.inl nofun
      | exhausted hevent hbudget => cases hwaits
  | retryDue snap hsnap => exact Or.inr (Or.inl rfl)
  | unavailable claimed nextAttempt hsnap hbudget => exact Or.inl nofun
  | reclaimTerminal row reported hsnap hreported =>
      have hlive : reported.isTerminal = false := CallStatus.waiting_not_terminal hwaits
      rw [hlive] at hreported
      cases hreported
  | reclaim row hsnap => exact Or.inr (Or.inr rfl)
  | _ => cases hwaits

/-- A move keeps to the budget. -/
theorem Cause.redials (h : Cause s task inbox now before after event) (hinv : Consistent s)
    (hbefore : before ∈ s.db.calls) (hcampaign : campaign ∈ s.db.campaigns)
    (howner : campaign.id = before.campaignId) (hinbox : ∀ row ∈ inbox, row ∈ s.db.inbox) :
    after.retriesRemaining ≤ campaign.retryConfig.maxAttempts ∧
      (s.db.SixStatuses → s.db.callAuditCount .claimed before.id +
          (if event.eventType = .claimed then 1 else 0) + after.retriesRemaining ≤
        (if after.status.waiting = true then 0 else 1) + campaign.retryConfig.maxAttempts +
          (s.db.callAuditCount .reclaimExecuted before.id +
            if event.eventType = .reclaimExecuted then 1 else 0)) := by
  have hbudget := hinv.budget before hbefore campaign hcampaign howner
  cases h with
  | claim campaign inFlight pending cursor htask hinbox hclaimable =>
      refine ⟨hbudget.retries, fun hsix => ?_⟩
      have hredials := hbudget.redials hsix
      rw [(Cause.claimable_queued hclaimable).2.1, if_pos (by rfl)] at hredials
      rw [if_pos (by rfl), if_neg (by nofun), if_neg (by nofun)]
      show _ + 1 + before.retriesRemaining ≤ _
      omega
  | cas args hasks hhits hregresses =>
      obtain ⟨snap, hsnap, hid, hstatus, hepoch, hretries⟩ := hasks.seen hhits
      have hsnapBudget := hsnap.budgeted hinv hbefore hid hepoch hcampaign howner
      have hclaimed : (args.auditEvent (args.set now before)).eventType ≠ .claimed := fun he => by
        have htype := hasks.shape.eventType
        rw [show args.eventType = .claimed from he] at htype
        exact absurd htype (by decide)
      rw [if_neg hclaimed]
      rcases hretries with hsame | ⟨hpending, hpositive, hless⟩
      · have hafter : (args.set now before).retriesRemaining = before.retriesRemaining := by
          simp [CallUpdate.set, hsame]
        rw [hafter]
        refine ⟨hbudget.retries, fun hsix => ?_⟩
        have hredials := hbudget.redials hsix
        by_cases hwaits : args.newStatus.waiting = true
        · rcases hasks.waits hinbox hsix hwaits with hpaid | hwaited | hreclaimed
          · exact absurd hsame hpaid
          · rw [hstatus, if_pos hwaited] at hredials
            omega
          · rw [if_pos (show (args.auditEvent (args.set now before)).eventType = .reclaimExecuted
              from hreclaimed)]
            split at hredials <;> omega
        · rw [if_neg (show ¬ (args.set now before).status.waiting = true from hwaits)]
          split at hredials <;> omega
      · have hafter : (args.set now before).retriesRemaining = snap.retriesRemaining - 1 := by
          simp [CallUpdate.set, hless]
        rw [hafter]
        refine ⟨(Nat.sub_le _ _).trans hsnapBudget.retries, fun hsix => ?_⟩
        have hredials := hsnapBudget.redials hsix
        rw [← hid] at hredials
        split at hredials <;> omega

/-- Why a retry is scheduled: the attempt has its outcome, and the budget that was read pays for another. -/
structure Schedules (s : Shared) (before after : CallRow) (snap : CallRow) (nextAttempt : Time) : Prop where
  seen : Seen s snap
  id : before.id = snap.id
  attemptEpoch : before.attemptEpoch = snap.attemptEpoch
  stays : after.attemptEpoch = before.attemptEpoch
  budget : after.retriesRemaining + 1 = snap.retriesRemaining
  next : after.nextAttemptAt = some nextAttempt
  putOff : PutOff s snap nextAttempt

/-- A move schedules a retry and pays for it, or does neither. -/
theorem Cause.schedules (h : Cause s task inbox now before after event) :
    (event.schedulesRetry = false ∧ after.retriesRemaining = before.retriesRemaining) ∨
      (event.schedulesRetry = true ∧ ∃ snap nextAttempt, Schedules s before after snap nextAttempt) := by
  cases h with
  | claim campaign inFlight pending cursor htask hinbox hclaimable => exact Or.inl ⟨rfl, rfl⟩
  | cas args hasks hhits hregresses =>
      obtain ⟨hid, hstatus, hepoch⟩ := CallUpdate.hits_iff.mp hhits
      have hkeeps : args.newStatus ≠ .retryPending → args.columnUpdates.retriesRemaining = none →
          (args.auditEvent (args.set now before)).schedulesRetry = false ∧
            (args.set now before).retriesRemaining = before.retriesRemaining := by
        intro hstatus hcolumn
        have hvalue : args.newStatus.value ≠ CallStatus.retryPending.value := by
          cases hnew : args.newStatus <;> first | exact absurd hnew hstatus | decide
        refine ⟨by simp [AuditEvent.schedulesRetry, Transition.auditEvent, hvalue], ?_⟩
        rw [CallUpdate.set, hcolumn]
        rfl
      cases hasks with
      | retryDue snap hsnap => exact Or.inl (hkeeps (by rintro ⟨⟩) rfl)
      | dispatch claimed handle hsnap hissued => exact Or.inl (hkeeps (by rintro ⟨⟩) rfl)
      | rejected claimed reasonCode hsnap => exact Or.inl (hkeeps (by rintro ⟨⟩) rfl)
      | unavailableExhausted claimed hsnap hbudget => exact Or.inl (hkeeps (by rintro ⟨⟩) rfl)
      | reclaim row hsnap => exact Or.inl (hkeeps (by rintro ⟨⟩) rfl)
      | reclaimTerminal row reported hsnap hreported =>
          refine Or.inl (hkeeps (fun he => ?_) rfl)
          rw [show reported = .retryPending from he] at hreported
          cases hreported
      | unavailable claimed nextAttempt hsnap hbudget hputOff =>
          exact Or.inr ⟨rfl, claimed, nextAttempt, hsnap, hid, hepoch, rfl, Nat.sub_add_cancel hbudget, rfl,
            hputOff⟩
      | webhook row asked snap handle args hsnap hparse hevent hhandle hnew hargs hputOff =>
          cases hargs with
          | writeThrough hlive =>
              by_cases hpending : asked.statusEnum = .retryPending
              · -- the event itself says `RETRY_PENDING`
                refine Or.inl ⟨?_, rfl⟩
                simp [AuditEvent.schedulesRetry, Transition.auditEvent, webhookTransition, hpending]
              · exact Or.inl (hkeeps hpending rfl)
          | asIs hterminal =>
              refine Or.inl (hkeeps (fun he => ?_) rfl)
              rw [show asked.statusEnum = .retryPending from he] at hterminal
              rcases hterminal with h | h <;> cases h
          | exhausted hretry hbudget => exact Or.inl (hkeeps (by rintro ⟨⟩) rfl)
          | retry nextAttempt hretry hbudget =>
              refine Or.inr ⟨?_, snap, nextAttempt, hsnap, hid, hepoch, rfl, Nat.sub_add_cancel hbudget, rfl,
                hputOff nextAttempt rfl⟩
              have hreason := @webhookOutcome_reason asked snap nextAttempt hretry
              simp [AuditEvent.schedulesRetry, Transition.auditEvent, hreason]
              rfl

theorem Db.Paced.of_same {db db' : Db} {row : CallRow} {maxAttempts : Nat} (h : db.Paced row maxAttempts)
    (hsame : db'.outcomeEpochs row.id = db.outcomeEpochs row.id) : db'.Paced row maxAttempts where
  reached := by
    rw [hsame]
    exact h.reached
  spent := by
    rw [hsame]
    exact h.spent

/-- A row that is moved has paid for every outcome. -/
theorem Moves.paced {t : Txn} {folds : List AuditEvent} (h : Moves s task t inbox before after event)
    (hfolds : Folds s t after folds) (haudit : t.audit.map AuditRow.event = event :: folds)
    (hinv : Consistent s) (hcampaign : campaign ∈ s.db.campaigns) (howner : campaign.id = before.campaignId) :
    (s.commit t).db.Paced after campaign.retryConfig.maxAttempts := by
  have hold := hinv.paced before h.before_mem campaign hcampaign howner
  have hmem : ∀ attemptEpoch, attemptEpoch ∈ (s.commit t).db.outcomeEpochs before.id ↔ _ :=
    fun _ => h.mem_outcomeEpochs hfolds haudit
  constructor
  · intro attemptEpoch hrecorded
    rw [← h.before_id] at hrecorded
    rcases (hmem attemptEpoch).mp hrecorded with hold' | ⟨-, rfl, -⟩
    · obtain ⟨hpos, hle⟩ := hold.reached attemptEpoch hold'
      exact ⟨hpos, hle.trans h.evolves.attemptEpoch⟩
    · exact ⟨h.cause.started (hinv.sound before h.before_mem), le_rfl⟩
  · rw [← h.before_id]
    rcases h.cause.schedules with ⟨hnot, hsame⟩ | ⟨hschedules, snap, nextAttempt, hwhy⟩
    · have hepochs : (s.commit t).db.outcomeEpochs before.id = s.db.outcomeEpochs before.id := by
        ext attemptEpoch
        rw [hmem, or_iff_left]
        rintro ⟨-, -, hyes⟩
        rw [hnot] at hyes
        cases hyes
      rw [hepochs, hsame]
      exact hold.spent
    · have hepochs : (s.commit t).db.outcomeEpochs before.id =
          insert before.attemptEpoch ((s.db.outcomeEpochs before.id).erase before.attemptEpoch) := by
        ext attemptEpoch
        rw [hmem, Finset.mem_insert, Finset.mem_erase, hwhy.stays, hschedules]
        simp only [true_and, and_true]
        tauto
      rw [hepochs, Finset.card_insert_of_notMem (Finset.notMem_erase _ _)]
      have hspent := hwhy.seen.paced hinv h.before_mem hwhy.id hwhy.attemptEpoch hcampaign howner
      have hbudget := hwhy.budget
      omega

end

end VoiceCampaign

import VoiceCampaign.Protocol.Effects

/-!
# How the shared state evolves

Rows only move on, so what a coroutine has read stays true of some earlier state, and every cause of a
row change keeps the row sound.
-/

namespace VoiceCampaign

open Concurrency

/-! ### Rows -/

theorem CallRow.Evolves.refl (row : CallRow) : row.Evolves row where
  id := rfl
  campaignId := rfl
  phone := rfl
  createdAt := rfl
  attemptEpoch := le_rfl
  terminal _ := rfl
  handle _ h := h

theorem CallRow.Evolves.isTerminal {a b : CallRow} (h : a.Evolves b)
    (ha : a.status.isTerminal = true) : b.status = a.status := by
  rw [h.terminal ha]

theorem CallRow.Evolves.trans {a b c : CallRow} (hab : a.Evolves b) (hbc : b.Evolves c) :
    a.Evolves c where
  id := hbc.id.trans hab.id
  campaignId := hbc.campaignId.trans hab.campaignId
  phone := hbc.phone.trans hab.phone
  createdAt := hbc.createdAt.trans hab.createdAt
  attemptEpoch := hab.attemptEpoch.trans hbc.attemptEpoch
  terminal ha := by
    have hb : b.status.isTerminal = true := by rw [hab.isTerminal ha, ha]
    have hc := hbc.terminal hb
    rw [hab.terminal ha] at hc
    rw [hc]
  handle hepoch hhandle := by
    have hmid := le_antisymm (hepoch ▸ hbc.attemptEpoch) hab.attemptEpoch
    exact hbc.handle (hepoch.trans hmid.symm) (hab.handle hmid hhandle)

theorem CampaignRow.Evolves.refl (row : CampaignRow) : row.Evolves row where
  config := rfl
  pending h := h
  terminal _ := rfl

theorem CampaignRow.Evolves.trans {a b c : CampaignRow} (hab : a.Evolves b) (hbc : b.Evolves c) :
    a.Evolves c where
  config := by
    have h := hbc.config
    rw [hab.config] at h
    rw [h]
  pending h := hab.pending (hbc.pending h)
  terminal ha := by
    have hb : b.status.isTerminal = true := by rw [hab.terminal ha, ha]
    rw [hbc.terminal hb, hab.terminal ha]

theorem CampaignRow.Evolves.id {a b : CampaignRow} (h : a.Evolves b) : b.id = a.id := by
  rw [h.config]

theorem InboxRow.Evolves.refl (row : InboxRow) : row.Evolves row where
  content := rfl
  processed _ := rfl

theorem InboxRow.Evolves.trans {a b c : InboxRow} (hab : a.Evolves b) (hbc : b.Evolves c) :
    a.Evolves c where
  content := by
    have h := hbc.content
    rw [hab.content] at h
    rw [h]
  processed ha := by
    have hb := hab.processed ha
    subst hb
    exact hbc.processed ha

theorem CallRow.Sound.mono {issued issued' : List Dial} {row : CallRow}
    (h : row.Sound issued) (hissued : ∀ entry ∈ issued, entry ∈ issued') : row.Sound issued' where
  handle handle hhandle := hissued _ (h.handle handle hhandle)
  dialed := h.dialed

/-! ### The rely is a preorder -/

theorem Grows.refl (s : Shared) : Grows s s where
  now := le_rfl
  issued _ h := h
  audit := List.prefix_rfl
  call _ row h := ⟨row, h, .refl row⟩
  newCall _ _ h hnone := by rw [hnone] at h; cases h
  campaign _ row h := ⟨row, h, .refl row⟩
  inbox _ row h := ⟨row, h, .refl row⟩
  retries _ _ _ h h' _ := by
    rw [h] at h'
    rw [Option.some.inj h']
    exact Or.inl rfl
  outcomes _ _ _ _ _ _ _ hmem := Or.inr hmem

theorem Db.mem_outcomeEpochs {db : Db} {id : CallId} {attemptEpoch : Nat} :
    attemptEpoch ∈ db.outcomeEpochs id ↔ ∃ row ∈ db.audit, row.event.callId = some id ∧
      row.event.attemptEpoch = some attemptEpoch ∧ row.event.schedulesRetry = true := by
  rw [outcomeEpochs, List.mem_toFinset, List.mem_filterMap]
  refine exists_congr fun row => and_congr_right fun _ => ?_
  split
  · next hrow => simp [hrow]
  · next hrow => exact ⟨nofun, fun h => absurd ⟨h.1, h.2.2⟩ hrow⟩

theorem Db.outcomeEpochs_mono {db db' : Db} (haudit : db.audit <+: db'.audit) {id : CallId}
    {attemptEpoch : Nat} (h : attemptEpoch ∈ db.outcomeEpochs id) : attemptEpoch ∈ db'.outcomeEpochs id := by
  obtain ⟨row, hrow, hrecords⟩ := mem_outcomeEpochs.mp h
  exact mem_outcomeEpochs.mpr ⟨row, haudit.subset hrow, hrecords⟩

theorem Grows.trans {a b c : Shared} (hab : Grows a b) (hbc : Grows b c) : Grows a c where
  now := hab.now.trans hbc.now
  issued entry h := hbc.issued entry (hab.issued entry h)
  audit := hab.audit.trans hbc.audit
  call id row h := by
    obtain ⟨row', h', hrow'⟩ := hab.call id row h
    obtain ⟨row'', h'', hrow''⟩ := hbc.call id row' h'
    exact ⟨row'', h'', hrow'.trans hrow''⟩
  newCall id row'' h'' hnone := by
    cases h' : b.db.call? id with
    | some row' =>
        obtain ⟨found, hfound, hevolves⟩ := hbc.call id row' h'
        rw [h''] at hfound
        obtain rfl := Option.some.inj hfound
        rw [hevolves.campaignId]
        exact hab.newCall id row' h' hnone
    | none =>
        have hb := hbc.newCall id row'' h'' h'
        cases ha : a.db.campaign? row''.campaignId with
        | none => rfl
        | some campaign =>
            obtain ⟨_, hcampaign, _⟩ := hab.campaign _ campaign ha
            rw [hb] at hcampaign
            cases hcampaign
  campaign id row h := by
    obtain ⟨row', h', hrow'⟩ := hab.campaign id row h
    obtain ⟨row'', h'', hrow''⟩ := hbc.campaign id row' h'
    exact ⟨row'', h'', hrow'.trans hrow''⟩
  inbox id row h := by
    obtain ⟨row', h', hrow'⟩ := hab.inbox id row h
    obtain ⟨row'', h'', hrow''⟩ := hbc.inbox id row' h'
    exact ⟨row'', h'', hrow'.trans hrow''⟩
  retries id row row'' h h'' hepoch := by
    obtain ⟨row', h', hrow'⟩ := hab.call id row h
    obtain ⟨found, hfound, hrow''⟩ := hbc.call id row' h'
    obtain rfl := Option.some.inj (hfound.symm.trans h'')
    have hmid := le_antisymm (hepoch ▸ hrow''.attemptEpoch) hrow'.attemptEpoch
    rcases hab.retries id row row' h h' hmid with hsame | hrecorded
    · rcases hbc.retries id row' found h' h'' (hepoch.trans hmid.symm) with hsame' | hrecorded
      · exact Or.inl (hsame'.trans hsame)
      · exact Or.inr (hmid ▸ hrecorded)
    · exact Or.inr (Db.outcomeEpochs_mono hbc.audit hrecorded)
  outcomes id row row'' h h'' hepoch attemptEpoch hmem := by
    obtain ⟨row', h', hrow'⟩ := hab.call id row h
    obtain ⟨found, hfound, hrow''⟩ := hbc.call id row' h'
    obtain rfl := Option.some.inj (hfound.symm.trans h'')
    have hmid := le_antisymm (hepoch ▸ hrow''.attemptEpoch) hrow'.attemptEpoch
    rcases hbc.outcomes id row' found h' h'' (hepoch.trans hmid.symm) attemptEpoch hmem with rfl | hold
    · exact Or.inl hmid
    · exact hab.outcomes id row row' h h' hmid attemptEpoch hold

theorem Rely.refl (l : Party) (s : Shared) : Rely l s s where
  toGrows := .refl s
  keepCall _ _ _ _ _ h := h
  keepCampaign _ _ _ _ _ h := h
  keepLive _ _ _ _ _ _ _ h _ h' := by
    rw [h] at h'
    rw [Option.some.inj h']
  keepInbox _ _ _ _ _ h := h
  keepPhone _ _ _ _ _ _ row' _ h hholds _ := ⟨row', h, hholds⟩

theorem Rely.trans {l : Party} {a b c : Shared} (hab : Rely l a b) (hbc : Rely l b c) :
    Rely l a c where
  toGrows := hab.toGrows.trans hbc.toGrows
  keepCall t ht id hlock row h := hbc.keepCall t ht id hlock row (hab.keepCall t ht id hlock row h)
  keepCampaign t ht id hlock row h :=
    hbc.keepCampaign t ht id hlock row (hab.keepCampaign t ht id hlock row h)
  keepLive t ht id hlock callId row row'' h hid h'' := by
    obtain ⟨row', h', hrow'⟩ := hab.call callId row h
    have hleft := hab.keepLive t ht id hlock callId row row' h hid h'
    exact (hbc.keepLive t ht id hlock callId row' row'' h' (hrow'.campaignId.trans hid) h'').trans hleft
  keepInbox t ht id hlock row h :=
    hbc.keepInbox t ht id hlock row (hab.keepInbox t ht id hlock row h)
  keepPhone t ht version hversion hholds id row'' hne h'' hholds'' hphone := by
    obtain ⟨row', h', hholds'⟩ :=
      hbc.keepPhone t ht version hversion hholds id row'' hne h'' hholds'' hphone
    obtain ⟨found, hfound, hevolves⟩ := hbc.call id row' h'
    rw [h''] at hfound
    obtain rfl := Option.some.inj hfound
    exact hab.keepPhone t ht version hversion hholds id row' hne h' hholds'
      (hevolves.phone.symm.trans hphone)

theorem Compat.symm {a b : Party} (h : Compat a b) : Compat b a where
  locks t ht u hu lock hlock hlock' := h.locks u hu t ht lock hlock' hlock
  phones t ht u hu v hv w hw hne hvholds hwholds hphone :=
    h.phones u hu t ht w hw v hv (Ne.symm hne) hwholds hvholds hphone.symm

/-! ### Snapshots -/

theorem Seen.mono {s s' : Shared} {snap : CallRow} (h : Seen s snap) (hgrows : Grows s s') :
    Seen s' snap := by
  obtain ⟨s₀, hinv, hgrows₀, hmem⟩ := h
  exact ⟨s₀, hinv, hgrows₀.trans hgrows, hmem⟩

theorem Seen.sound {s : Shared} {snap : CallRow} (h : Seen s snap) : snap.Sound s.issued := by
  obtain ⟨s₀, hinv, hgrows, hmem⟩ := h
  exact (hinv.sound snap hmem).mono hgrows.issued

theorem PutOff.mono {s s' : Shared} {snap : CallRow} {nextAttempt : Time} (h : PutOff s snap nextAttempt)
    (hgrows : Grows s s') : PutOff s' snap nextAttempt := by
  obtain ⟨campaign, u, now, delta, hcampaign, hnow, hdelta, hnext⟩ := h
  obtain ⟨campaign', hcampaign', hevolves⟩ := hgrows.campaign _ campaign hcampaign
  have hconfig : campaign'.retryConfig = campaign.retryConfig := by rw [hevolves.config]
  exact ⟨campaign', u, now, delta, hcampaign', hnow.trans hgrows.now, hconfig ▸ hdelta, hnext⟩

theorem Asks.mono {s s' : Shared} {task : Option Task} {inbox : Option InboxRow} {args : Transition}
    (h : Asks s task inbox args) (hgrows : Grows s s') : Asks s' task inbox args := by
  cases h with
  | retryDue snap hsnap => exact .retryDue snap (hsnap.mono hgrows)
  | dispatch claimed handle hsnap hissued =>
      exact .dispatch claimed handle (hsnap.mono hgrows) (hgrows.issued _ hissued)
  | rejected claimed reasonCode hsnap => exact .rejected claimed reasonCode (hsnap.mono hgrows)
  | unavailable claimed nextAttempt hsnap hbudget hputOff =>
      exact .unavailable claimed nextAttempt (hsnap.mono hgrows) hbudget (hputOff.mono hgrows)
  | unavailableExhausted claimed hsnap hbudget =>
      exact .unavailableExhausted claimed (hsnap.mono hgrows) hbudget
  | webhook row event snap handle args hsnap hparse hevent hhandle hnew hargs hputOff =>
      exact .webhook row event snap handle args (hsnap.mono hgrows) hparse hevent hhandle hnew hargs
        fun nextAttempt hnext => (hputOff nextAttempt hnext).mono hgrows
  | reclaimTerminal row reported hsnap hreported =>
      exact .reclaimTerminal row reported (hsnap.mono hgrows) hreported
  | reclaim row hsnap => exact .reclaim row (hsnap.mono hgrows)

theorem Cause.mono {s s' : Shared} {task : Option Task} {inbox : Option InboxRow} {now : Time}
    {before after : CallRow} {event : AuditEvent} (h : Cause s task inbox now before after event)
    (hgrows : Grows s s') : Cause s' task inbox now before after event := by
  cases h with
  | claim campaign inFlight pending cursor htask hinbox hclaimable =>
      exact .claim campaign inFlight pending cursor htask hinbox hclaimable
  | cas args hasks hhits hregresses =>
      exact .cas args (hasks.mono hgrows) hhits hregresses

/-! ### What a cause tells about the row -/

theorem CallUpdate.hits_iff {update : CallUpdate} {row : CallRow} :
    update.hits row = true ↔ row.id = update.callId ∧ row.status = update.expectedStatus ∧
      row.attemptEpoch = update.expectedEpoch := by
  simp [CallUpdate.hits, and_assoc]

/-- Which columns an update may touch, by the statuses it goes between. -/
structure Transition.Shape (args : Transition) : Prop where
  epoch : args.newEpoch = none ∨ args.newEpoch = some (args.expectedEpoch + 1)
  same : args.expectedStatus.isTerminal = true → args.newStatus = args.expectedStatus →
    args.newEpoch = none ∧ args.columnUpdates = {}
  handle : args.newEpoch = none → args.columnUpdates.providerCallId ≠ some none
  retries : args.columnUpdates.retriesRemaining = none ∨ (args.newEpoch = none ∧
    args.newStatus = .retryPending ∧ args.reason ≠ s!"webhook {CallStatus.retryPending.value}")
  eventType : args.eventType ∈ [EventType.retryDue, .dispatch, .transition, .reclaimSkippedTerminal,
    .reclaimExecuted]

theorem webhookOutcome_reason {event : ProviderEvent} {snap : CallRow} {nextAttempt : Time}
    (h : event.statusEnum = .noAnswer ∨ event.statusEnum = .busy) :
    ((webhookOutcome event snap).retryTransition nextAttempt).reason ≠
      s!"webhook {CallStatus.retryPending.value}" := by
  have hreason : ((webhookOutcome event snap).retryTransition nextAttempt).reason =
      s!"webhook {event.statusEnum.value}; backoff scheduled" := rfl
  rw [hreason]
  rcases h with h | h <;> rw [h] <;> decide

theorem WebhookAsks.shape {event : ProviderEvent} {snap : CallRow} {args : Transition}
    (h : WebhookAsks event snap args) : args.Shape := by
  cases h with
  | writeThrough hevent =>
      exact ⟨Or.inl rfl, fun _ _ => ⟨rfl, rfl⟩, nofun, Or.inl rfl, by simp [webhookTransition]⟩
  | asIs hevent =>
      exact ⟨Or.inl rfl, fun _ _ => ⟨rfl, rfl⟩, nofun, Or.inl rfl,
        by simp [RetryableOutcome.terminalTransition]⟩
  | retry nextAttempt hevent hbudget =>
      refine ⟨Or.inl rfl, fun hterminal hsame => ?_, nofun, Or.inr ⟨rfl, rfl, ?_⟩,
        by simp [RetryableOutcome.retryTransition]⟩
      · rw [← hsame] at hterminal
        cases hterminal
      · exact webhookOutcome_reason hevent
  | exhausted hevent hbudget =>
      exact ⟨Or.inl rfl, fun _ _ => ⟨rfl, rfl⟩, nofun, Or.inl rfl,
        by simp [RetryableOutcome.exhaustedTransition]⟩

theorem Asks.shape {s : Shared} {task : Option Task} {inbox : Option InboxRow} {args : Transition}
    (h : Asks s task inbox args) : args.Shape := by
  cases h with
  | retryDue snap hsnap => exact ⟨Or.inl rfl, nofun, nofun, Or.inl rfl, by simp [retryDueTransition]⟩
  | dispatch claimed handle hsnap hissued =>
      exact ⟨Or.inl rfl, nofun, nofun, Or.inl rfl, by simp [dispatchTransition]⟩
  | rejected claimed reasonCode hsnap =>
      exact ⟨Or.inl rfl, nofun, nofun, Or.inl rfl, by simp [rejectedTransition]⟩
  | unavailable claimed nextAttempt hsnap hbudget =>
      have hreason : "provider_unavailable" ≠ s!"webhook {CallStatus.retryPending.value}" := by decide
      exact ⟨Or.inl rfl, nofun, nofun, Or.inr ⟨rfl, rfl, hreason⟩, by simp [unavailableTransition]⟩
  | unavailableExhausted claimed hsnap hbudget =>
      exact ⟨Or.inl rfl, nofun, nofun, Or.inl rfl, by simp [unavailableExhaustedTransition]⟩
  | webhook row event snap handle args hsnap hparse hevent hhandle hnew hargs => exact hargs.shape
  | reclaimTerminal row reported hsnap hreported =>
      exact ⟨Or.inl rfl, nofun, nofun, Or.inl rfl, by simp [reclaimTerminalTransition]⟩
  | reclaim row hsnap => exact ⟨Or.inr rfl, nofun, nofun, Or.inl rfl, by simp [reclaimTransition]⟩

theorem Transition.regresses_eq_false {args : Transition} :
    args.regresses = false ↔
      (args.expectedStatus.isTerminal = true → args.newStatus = args.expectedStatus) := by
  simp [Transition.regresses]

theorem Transition.Shape.evolves {args : Transition} (hshape : args.Shape) {before : CallRow}
    (now : Time) (hhits : args.hits before = true) (hregresses : args.regresses = false) :
    before.Evolves (args.set now before) where
  id := rfl
  campaignId := rfl
  phone := rfl
  createdAt := rfl
  attemptEpoch := by
    obtain ⟨-, -, hepoch⟩ := CallUpdate.hits_iff.mp hhits
    rcases hshape.epoch with h | h
    · simp [CallUpdate.set, h]
    · simp [CallUpdate.set, h, hepoch]
  terminal hterminal := by
    obtain ⟨-, hstatus, -⟩ := CallUpdate.hits_iff.mp hhits
    rw [hstatus] at hterminal
    have hsame := Transition.regresses_eq_false.mp hregresses hterminal
    obtain ⟨hepoch, hcolumns⟩ := hshape.same hterminal hsame
    simp [CallUpdate.set, hepoch, hcolumns, hsame, ← hstatus]
  handle hsame hhandle := by
    obtain ⟨-, -, hepoch⟩ := CallUpdate.hits_iff.mp hhits
    have hstay : args.newEpoch = none := by
      rcases hshape.epoch with h | h
      · exact h
      · simp [CallUpdate.set, h, hepoch] at hsame
    have hkeeps := hshape.handle hstay
    rw [CallUpdate.set]
    cases hcolumn : args.columnUpdates.providerCallId with
    | none => exact hhandle
    | some new =>
        rintro rfl
        exact hkeeps hcolumn

/-- Only a row that has been claimed is ever moved by an update. -/
theorem Asks.started {s : Shared} {task : Option Task} {inbox : Option InboxRow} {args : Transition}
    (h : Asks s task inbox args) {row : CallRow} (hrow : row.Sound s.issued)
    (hhits : args.hits row = true) : 0 < row.attemptEpoch := by
  obtain ⟨-, hstatus, hepoch⟩ := CallUpdate.hits_iff.mp hhits
  have hleft : args.expectedStatus ≠ .queued → 0 < row.attemptEpoch := fun hne =>
    hrow.dialed (Or.inl (by rw [hstatus]; exact hne))
  cases h with
  | retryDue snap hsnap => exact hleft nofun
  | dispatch claimed handle hsnap hissued => exact hleft nofun
  | rejected claimed reasonCode hsnap => exact hleft nofun
  | unavailable claimed nextAttempt hsnap hbudget => exact hleft nofun
  | unavailableExhausted claimed hsnap hbudget => exact hleft nofun
  | webhook row' event snap handle args hsnap hparse hevent hhandle hnew hargs =>
      have hsnap := hsnap.sound.dialed (Or.inr (by rw [hhandle]; nofun))
      cases hargs <;> exact hepoch ▸ hsnap
  | reclaimTerminal row' reported hsnap hreported => exact hleft nofun
  | reclaim row' hsnap => exact hleft nofun

theorem Asks.sound {s : Shared} {task : Option Task} {inbox : Option InboxRow} {args : Transition}
    (h : Asks s task inbox args) {row : CallRow} (now : Time) (hrow : row.Sound s.issued)
    (hhits : args.hits row = true) : (args.set now row).Sound s.issued := by
  have hstarted := h.started hrow hhits
  obtain ⟨hid, -, hepoch⟩ := CallUpdate.hits_iff.mp hhits
  refine ⟨?_, fun _ => hstarted.trans_le ?_⟩
  · cases h with
    | dispatch claimed handle hsnap hissued =>
        rintro _ ⟨⟩
        exact hid ▸ hepoch ▸ hissued
    | reclaim row' hsnap => nofun
    | webhook row' event snap handle args hsnap hparse hevent hhandle hnew hargs =>
        cases hargs <;> exact hrow.handle
    | _ => exact hrow.handle
  · rcases h.shape.epoch with he | he
    · simp [CallUpdate.set, he]
    · simp [CallUpdate.set, he, hepoch]

namespace Cause

variable {s : Shared} {task : Option Task} {inbox : Option InboxRow} {now : Time}
  {before after : CallRow} {event : AuditEvent}

theorem claimable_queued {campaignId : CampaignId} {row : CallRow}
    (h : row.claimable campaignId now = true) :
    row.campaignId = campaignId ∧ row.status = .queued ∧ row.dueOrUnset now = true := by
  simpa [CallRow.claimable, and_assoc] using h

theorem evolves (h : Cause s task inbox now before after event) : before.Evolves after := by
  cases h with
  | claim campaign inFlight pending cursor htask hinbox hclaimable =>
      refine ⟨rfl, rfl, rfl, rfl, Nat.le_succ _, fun hterminal => ?_,
        fun hepoch => absurd hepoch (Nat.succ_ne_self _)⟩
      rw [(claimable_queued hclaimable).2.1] at hterminal
      cases hterminal
  | cas args hasks hhits hregresses => exact hasks.shape.evolves now hhits hregresses

theorem sound (h : Cause s task inbox now before after event) (hbefore : before.Sound s.issued) :
    after.Sound s.issued := by
  cases h with
  | claim campaign inFlight pending cursor htask hinbox hclaimable =>
      exact ⟨nofun, fun _ => Nat.succ_pos _⟩
  | cas args hasks hhits hregresses => exact hasks.sound now hbefore hhits

/-- A row that has changed has been claimed. -/
theorem started (h : Cause s task inbox now before after event) (hbefore : before.Sound s.issued) :
    0 < after.attemptEpoch := by
  cases h with
  | claim campaign inFlight pending cursor htask hinbox hclaimable => exact Nat.succ_pos _
  | cas args hasks hhits hregresses =>
      exact (hasks.started hbefore hhits).trans_le (hasks.shape.evolves now hhits hregresses).attemptEpoch

/-- The audit row is about the call, and is never one of its campaign's. -/
theorem eventType (h : Cause s task inbox now before after event) :
    event.eventType ≠ .campaignPromotedActive ∧ event.eventType ≠ .campaignCompleted ∧
      event.callId = some before.id := by
  cases h with
  | claim campaign inFlight pending cursor htask hinbox hclaimable => exact ⟨nofun, nofun, rfl⟩
  | cas args hasks hhits hregresses =>
      have htype := hasks.shape.eventType
      have hne : ∀ eventType, eventType ∉ [EventType.retryDue, .dispatch, .transition,
          .reclaimSkippedTerminal, .reclaimExecuted] → args.eventType ≠ eventType :=
        fun eventType hnot he => hnot (he ▸ htype)
      refine ⟨hne _ (by decide), hne _ (by decide), ?_⟩
      rw [(CallUpdate.hits_iff.mp hhits).1]
      rfl

/-- The audit row says which attempt the row is at. -/
theorem event_attemptEpoch (h : Cause s task inbox now before after event) :
    event.attemptEpoch = some after.attemptEpoch := by
  cases h <;> rfl

/-- What leaves the attempt but not the budget as it is records an outcome. -/
theorem retries (h : Cause s task inbox now before after event) (hepoch : after.attemptEpoch = before.attemptEpoch) :
    after.retriesRemaining = before.retriesRemaining ∨ (event.callId = some before.id ∧
      event.attemptEpoch = some before.attemptEpoch ∧ event.schedulesRetry = true) := by
  cases h with
  | claim campaign inFlight pending cursor htask hinbox hclaimable => exact Or.inl rfl
  | cas args hasks hhits hregresses =>
      rcases hasks.shape.retries with hnone | ⟨-, hstatus, hreason⟩
      · refine Or.inl ?_
        rw [CallUpdate.set, hnone]
        rfl
      · refine Or.inr ⟨?_, congrArg some hepoch, ?_⟩
        · rw [(CallUpdate.hits_iff.mp hhits).1]
          rfl
        · simp [AuditEvent.schedulesRetry, Transition.auditEvent, hstatus, hreason]

/-- A first claim says so. -/
theorem claimed (h : Cause s task inbox now before after event) (hbefore : before.Sound s.issued) :
    event.eventType = .claimed ∨ 0 < before.attemptEpoch := by
  cases h with
  | claim campaign inFlight pending cursor htask hinbox hclaimable => exact Or.inl rfl
  | cas args hasks hhits hregresses => exact Or.inr (hasks.started hbefore hhits)

end Cause

end VoiceCampaign

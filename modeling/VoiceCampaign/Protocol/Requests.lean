import VoiceCampaign.Protocol.Rules

/-!
# Requests

What `POST /campaigns` and webhook ingest add to the tables, that they keep them consistent, and that
every coroutine can live with it.
-/

namespace VoiceCampaign

open Concurrency

/-! ### `POST /campaigns` -/

/-- The rows of an accepted request: fresh ids, and phones nobody holds or is about to. -/
structure Posted (others : List Txn) (db db' : Db) (campaign : CampaignRow) (rows : List CallRow) :
    Prop where
  campaigns : db'.campaigns = db.campaigns ++ [campaign]
  calls : db'.calls = db.calls ++ rows
  cursors : db'.cursors = db.cursors
  inbox : db'.inbox = db.inbox
  audit : db'.audit = db.audit
  freshCampaign : ∀ row ∈ db.campaigns, row.id ≠ campaign.id
  freshCalls : ∀ row ∈ db.calls, ∀ new ∈ rows, row.id ≠ new.id
  ids : (rows.map CallRow.id).Nodup
  phones : (rows.map CallRow.phone).Nodup
  nonempty : rows ≠ []
  pending : campaign.status = .pending
  queued : ∀ row ∈ rows, row.campaignId = campaign.id ∧ row.status = .queued ∧ row.attemptEpoch = 0 ∧
    row.providerCallId = none ∧ row.retriesRemaining = campaign.retryConfig.maxAttempts
  uncontended : ∀ row ∈ rows, phoneContended others db row = false
  untaken : ∀ row ∈ rows, phoneTaken db row = false

theorem map_zipWith_left {α β γ δ : Type} {f : α → β → γ} {g : γ → δ} {h : α → δ}
    (hg : ∀ a b, g (f a b) = h a) {as : List α} {bs : List β} (hlength : as.length ≤ bs.length) :
    (as.zipWith f bs).map g = as.map h := by
  rw [List.map_zipWith]
  induction as generalizing bs with
  | nil => rfl
  | cons a as ih =>
      cases bs with
      | nil => cases hlength
      | cons b bs =>
          rw [List.zipWith_cons_cons, hg, List.map_cons, ih (Nat.le_of_succ_le_succ hlength)]

theorem map_zipWith_right {α β γ δ : Type} {f : α → β → γ} {g : γ → δ} {h : β → δ}
    (hg : ∀ a b, g (f a b) = h b) {as : List α} {bs : List β} (hlength : bs.length ≤ as.length) :
    (as.zipWith f bs).map g = bs.map h := by
  rw [List.zipWith_comm]
  exact map_zipWith_left (fun b a => hg a b) hlength

theorem createCampaign_ok {settings : Settings} {others : List Txn} {db db' : Db} {body : CampaignCreate}
    {now : Time} {campaignId : CampaignId} {callIds : List CallId}
    (h : createCampaign settings others db body now campaignId callIds = some (.ok db')) :
    Posted others db db' (body.campaignRow settings now campaignId)
      (body.callRows now campaignId callIds) := by
  rw [createCampaign] at h
  split at h
  · cases h
  next hfresh =>
  split at h
  · cases h
  next hcontended =>
  split at h
  · cases h
  next htaken =>
  simp only [Option.some.injEq, Except.ok.injEq] at h
  simp only [Bool.or_eq_true, List.any_eq_true, decide_eq_true_eq, Bool.not_eq_true',
    decide_eq_false_iff_not, Bool.and_eq_false_iff, not_or, not_exists, not_and, not_not] at hfresh
  obtain ⟨⟨hcampaigns, hcalls⟩, hnodup, hlength⟩ := hfresh
  have hids : (body.callRows now campaignId callIds).map CallRow.id = callIds := by
    rw [CampaignCreate.callRows, map_zipWith_left (g := CallRow.id) (h := id) (fun _ _ => rfl) hlength.le,
      List.map_id]
  have hphones : (body.callRows now campaignId callIds).map CallRow.phone = body.phones := by
    rw [CampaignCreate.callRows, map_zipWith_right (g := CallRow.phone) (h := id) (fun _ _ => rfl) hlength.ge,
      List.map_id]
  have hnew : ∀ row ∈ body.callRows now campaignId callIds, row.id ∈ callIds := fun row hrow => by
    rw [← hids]
    exact List.mem_map_of_mem hrow
  subst h
  refine ⟨rfl, rfl, rfl, rfl, rfl, hcampaigns, ?_, by rw [hids]; exact hnodup,
    by rw [hphones]; exact body.phones_nodup, ?_, rfl, ?_, ?_, ?_⟩
  · intro row hrow new hmem he
    exact hcalls row hrow (he ▸ hnew new hmem)
  · intro hnil
    rw [hnil] at hphones
    exact body.phones_ne_nil hphones.symm
  · intro row hrow
    obtain ⟨i, hi, rfl⟩ := List.getElem_of_mem hrow
    simp only [CampaignCreate.callRows, List.getElem_zipWith]
    exact ⟨rfl, rfl, rfl, rfl, rfl⟩
  · intro row hrow
    exact Bool.eq_false_iff.mpr fun h => hcontended (List.any_eq_true.mpr ⟨row, hrow, h⟩)
  · intro row hrow
    exact Bool.eq_false_iff.mpr fun h => htaken (List.any_eq_true.mpr ⟨row, hrow, h⟩)

namespace Posted

variable {others : List Txn} {s s' : Shared} {campaign : CampaignRow} {rows : List CallRow}

/-- The state the request leaves: the scheduler is woken. -/
theorem at_wake {db : Db} (h : Posted others s.db db campaign rows) :
    Posted others s.db ({ s with db, wake := true } : Shared).db campaign rows := h

theorem mem_calls (h : Posted others s.db s'.db campaign rows) {row : CallRow} :
    row ∈ s'.db.calls ↔ row ∈ s.db.calls ∨ row ∈ rows := by rw [h.calls, List.mem_append]

theorem mem_campaigns (h : Posted others s.db s'.db campaign rows) {row : CampaignRow} :
    row ∈ s'.db.campaigns ↔ row ∈ s.db.campaigns ∨ row = campaign := by
  rw [h.campaigns, List.mem_append, List.mem_singleton]

/-- The calls of the campaigns that were there before. -/
theorem call_old (h : Posted others s.db s'.db campaign rows) {old : CampaignRow}
    (hold : old ∈ s.db.campaigns) (row : CallRow) :
    row ∈ s'.db.calls ∧ row.campaignId = old.id ↔ row ∈ s.db.calls ∧ row.campaignId = old.id := by
  rw [h.mem_calls]
  constructor
  · rintro ⟨hrow | hrow, howner⟩
    · exact ⟨hrow, howner⟩
    · exact absurd (howner.symm.trans (h.queued row hrow).1) (h.freshCampaign old hold)
  · exact fun ⟨hrow, howner⟩ => ⟨Or.inl hrow, howner⟩

/-- The calls of the new campaign. -/
theorem call_new (h : Posted others s.db s'.db campaign rows) (hinv : Consistent s) {row : CallRow} :
    row ∈ s'.db.calls ∧ row.campaignId = campaign.id ↔ row ∈ rows := by
  rw [h.mem_calls]
  constructor
  · rintro ⟨hrow | hrow, howner⟩
    · obtain ⟨owner, hmem, hid⟩ := hinv.owner row hrow
      exact absurd (hid.trans howner) (h.freshCampaign owner hmem)
    · exact hrow
  · exact fun hrow => ⟨Or.inr hrow, (h.queued row hrow).1⟩

theorem statusFolds (h : Posted others s.db s'.db campaign rows) (hinv : Consistent s)
    {row : CampaignRow} (hrow : row ∈ s'.db.campaigns) : s'.db.StatusFolds row := by
  rcases h.mem_campaigns.mp hrow with hold | rfl
  · have hstatus := hinv.status row hold
    have hcall := h.call_old hold
    have hterminal : s'.db.allTerminal row.id ↔ s.db.allTerminal row.id := by
      simp only [Db.allTerminal, ← and_imp, hcall]
    have hcompleted : s'.db.someCompleted row.id ↔ s.db.someCompleted row.id := by
      simp only [Db.someCompleted, ← and_assoc, hcall]
    refine ⟨hstatus.pending.trans ?_, ?_, ?_⟩
    · simp only [← and_imp, hcall]
    · rw [hterminal, hcompleted, hstatus.completed]
    · rw [hterminal, hcompleted, hstatus.failed]
  · obtain ⟨first, hfirst⟩ := List.exists_mem_of_ne_nil rows h.nonempty
    have hlive : ¬ s'.db.allTerminal row.id := by
      intro hall
      obtain ⟨howner, hqueued, -⟩ := h.queued first hfirst
      have hdone := hall first (h.mem_calls.mpr (Or.inr hfirst)) howner
      rw [hqueued] at hdone
      cases hdone
    refine ⟨iff_of_true h.pending fun call hcall howner => ?_, iff_of_false ?_ fun hall => hlive hall.1,
      iff_of_false ?_ fun hall => hlive hall.1⟩
    · exact (h.queued call ((h.call_new hinv).mp ⟨hcall, howner⟩)).2.2.1
    · rw [h.pending]
      decide
    · rw [h.pending]
      decide

/-- The audit log has nothing on a campaign that is new. -/
theorem auditCount_new (h : Posted others s.db s'.db campaign rows) (hinv : Consistent s)
    {eventType : EventType}
    (htype : eventType = .campaignPromotedActive ∨ eventType = .campaignCompleted) :
    s'.db.auditCount eventType campaign.id = 0 := by
  rw [Db.auditCount, h.audit, List.countP_eq_zero]
  intro row hrow hcount
  rw [Bool.and_eq_true, decide_eq_true_eq, decide_eq_true_eq] at hcount
  rw [← hcount.1] at htype
  obtain ⟨old, hold, hid⟩ := hinv.auditCampaign row hrow htype _ hcount.2
  exact h.freshCampaign old hold hid

theorem auditCount_old (h : Posted others s.db s'.db campaign rows) (eventType : EventType)
    (id : CampaignId) : s'.db.auditCount eventType id = s.db.auditCount eventType id := by
  rw [Db.auditCount, h.audit]
  rfl

theorem callAuditCount_old (h : Posted others s.db s'.db campaign rows) (eventType : EventType)
    (id : CallId) : s'.db.callAuditCount eventType id = s.db.callAuditCount eventType id := by
  rw [Db.callAuditCount, h.audit]
  rfl

theorem outcomeEpochs_old (h : Posted others s.db s'.db campaign rows) (id : CallId) :
    s'.db.outcomeEpochs id = s.db.outcomeEpochs id := by
  rw [Db.outcomeEpochs, h.audit]
  rfl

/-- The campaign of a call that was there before was there too. -/
theorem owner_old (h : Posted others s.db s'.db campaign rows) (hinv : Consistent s) {row : CallRow}
    (hrow : row ∈ s.db.calls) {owner : CampaignRow} (howner : owner ∈ s'.db.campaigns)
    (hid : owner.id = row.campaignId) : owner ∈ s.db.campaigns := by
  obtain ⟨old, hmem, hid'⟩ := hinv.owner row hrow
  rcases h.mem_campaigns.mp howner with hold | rfl
  · exact hold
  · exact absurd (hid'.trans hid.symm) (h.freshCampaign old hmem)

/-- A new call belongs to the new campaign. -/
theorem owner_new (h : Posted others s.db s'.db campaign rows) {row : CallRow} (hrow : row ∈ rows)
    {owner : CampaignRow} (howner : owner ∈ s'.db.campaigns) (hid : owner.id = row.campaignId) :
    owner = campaign := by
  rcases h.mem_campaigns.mp howner with hold | rfl
  · exact absurd (hid.trans (h.queued row hrow).1) (h.freshCampaign owner hold)
  · rfl

/-- The audit log has nothing on a call that is new. -/
theorem callAuditCount_new (h : Posted others s.db s'.db campaign rows) (hinv : Consistent s)
    {row : CallRow} (hrow : row ∈ rows) {eventType : EventType} (htype : eventType.isNote = false) :
    s'.db.callAuditCount eventType row.id = 0 := by
  rw [Db.callAuditCount, h.audit, List.countP_eq_zero]
  intro note hnote hcount
  rw [Bool.and_eq_true, decide_eq_true_eq, decide_eq_true_eq] at hcount
  obtain ⟨old, hold, hid⟩ :=
    hinv.auditCall note hnote (AuditEvent.isNote_eq_false hcount.1 htype) _ hcount.2
  exact h.freshCalls old hold row hrow hid

theorem outcomeEpochs_new (h : Posted others s.db s'.db campaign rows) (hinv : Consistent s) {row : CallRow}
    (hrow : row ∈ rows) : s'.db.outcomeEpochs row.id = ∅ := by
  rw [h.outcomeEpochs_old, Finset.eq_empty_iff_forall_notMem]
  intro attemptEpoch hmem
  obtain ⟨note, hnote, hcall, -, hschedules⟩ := Db.mem_outcomeEpochs.mp hmem
  have hloud : note.event.isNote = false := by
    rw [AuditEvent.schedulesRetry, Bool.and_eq_true, decide_eq_true_eq] at hschedules
    rw [AuditEvent.isNote, hschedules.1]
    simp
  obtain ⟨old, hold, hid⟩ := hinv.auditCall note hnote hloud _ hcall
  exact h.freshCalls old hold row hrow hid

theorem phones_apart (h : Posted others s.db s'.db campaign rows) (hinv : Consistent s) {a b : CallRow}
    (ha : a ∈ s'.db.calls) (hb : b ∈ s'.db.calls) (hholds : a.status.holdsPhone = true)
    (hholds' : b.status.holdsPhone = true) (hphone : a.phone = b.phone) : a.id = b.id := by
  have hapart : ∀ old ∈ s.db.calls, ∀ new ∈ rows, old.status.holdsPhone = true →
      old.phone ≠ new.phone := by
    intro old hold new hnew hholds hphone
    have huntaken := h.untaken new hnew
    rw [phoneTaken, List.any_eq_false] at huntaken
    exact huntaken old hold (by simp [h.freshCalls old hold new hnew, hphone, hholds])
  rcases h.mem_calls.mp ha with ha | ha
  · rcases h.mem_calls.mp hb with hb | hb
    · exact hinv.phones a ha b hb hholds hholds' hphone
    · exact absurd hphone (hapart a ha b hb hholds)
  · rcases h.mem_calls.mp hb with hb | hb
    · exact absurd hphone.symm (hapart b hb a ha hholds')
    · rw [eq_of_key_eq h.phones ha hb hphone]

theorem consistent (h : Posted others s.db s'.db campaign rows) (hinv : Consistent s)
    (hissued : s'.issued = s.issued) : Consistent s' where
  callIds := by
    rw [h.calls, List.map_append, List.nodup_append]
    refine ⟨hinv.callIds, h.ids, fun id hid new hnew he => ?_⟩
    obtain ⟨old, hold, rfl⟩ := List.mem_map.mp hid
    obtain ⟨row, hrow, rfl⟩ := List.mem_map.mp hnew
    exact h.freshCalls old hold row hrow he
  campaignIds := by
    rw [h.campaigns, List.map_append, List.nodup_append]
    refine ⟨hinv.campaignIds, List.nodup_singleton _, fun id hid new hnew he => ?_⟩
    obtain ⟨old, hold, rfl⟩ := List.mem_map.mp hid
    rw [List.map_singleton, List.mem_singleton] at hnew
    exact h.freshCampaign old hold (he.trans hnew)
  inboxIds := h.inbox ▸ hinv.inboxIds
  phones _ ha _ hb := h.phones_apart hinv ha hb
  sound row hrow := by
    rcases h.mem_calls.mp hrow with hold | hnew
    · exact hissued ▸ hinv.sound row hold
    · obtain ⟨-, hqueued, -, hhandle, -⟩ := h.queued row hnew
      refine ⟨fun handle h => ?_, fun h => ?_⟩
      · rw [hhandle] at h
        cases h
      · rcases h with h | h
        · exact absurd hqueued h
        · exact absurd hhandle h
  claimed row hrow := by
    have haudit : s'.db.everClaimed row.id ↔ s.db.everClaimed row.id := by
      rw [Db.everClaimed, h.audit]
      rfl
    rw [haudit]
    rcases h.mem_calls.mp hrow with hold | hnew
    · exact hinv.claimed row hold
    · refine iff_of_false ?_ ?_
      · rw [(h.queued row hnew).2.2.1]
        exact Nat.lt_irrefl 0
      · rintro ⟨note, hnote, htype, hid⟩
        obtain ⟨old, hold, he⟩ := hinv.auditCall note hnote (AuditEvent.isNote_eq_false htype rfl) _ hid
        exact h.freshCalls old hold row hnew he
  owner row hrow := by
    rcases h.mem_calls.mp hrow with hold | hnew
    · obtain ⟨owner, hmem, hid⟩ := hinv.owner row hold
      exact ⟨owner, h.mem_campaigns.mpr (Or.inl hmem), hid⟩
    · exact ⟨campaign, h.mem_campaigns.mpr (Or.inr rfl), (h.queued row hnew).1.symm⟩
  staffed row hrow := by
    rcases h.mem_campaigns.mp hrow with hold | rfl
    · obtain ⟨call, hcall, howner⟩ := hinv.staffed row hold
      exact ⟨call, h.mem_calls.mpr (Or.inl hcall), howner⟩
    · obtain ⟨first, hfirst⟩ := List.exists_mem_of_ne_nil rows h.nonempty
      exact ⟨first, h.mem_calls.mpr (Or.inr hfirst), (h.queued first hfirst).1⟩
  status row hrow := h.statusFolds hinv hrow
  promoted row hrow := by
    rcases h.mem_campaigns.mp hrow with hold | rfl
    · rw [h.auditCount_old, hinv.promoted row hold]
    · rw [h.auditCount_new hinv (Or.inl rfl), if_pos h.pending]
  rolledUp row hrow := by
    rcases h.mem_campaigns.mp hrow with hold | rfl
    · rw [h.auditCount_old, hinv.rolledUp row hold]
    · rw [h.auditCount_new hinv (Or.inr rfl), h.pending]
      rfl
  budget row hrow owner howner hid := by
    rcases h.mem_calls.mp hrow with hold | hnew
    · have hmem := h.owner_old hinv hold howner hid
      exact (hinv.budget row hold owner hmem hid).of_counts (h.callAuditCount_old _ _)
        (h.callAuditCount_old _ _) fun hsix => by
          rw [Db.SixStatuses, h.inbox] at hsix
          exact hsix
    · obtain ⟨hcampaign, hqueued, hepoch, -, hretries⟩ := h.queued row hnew
      obtain rfl := h.owner_new hnew howner hid
      have hclaims : s'.db.callAuditCount .claimed row.id = 0 := h.callAuditCount_new hinv hnew rfl
      have hreclaims : s'.db.callAuditCount .reclaimExecuted row.id = 0 :=
        h.callAuditCount_new hinv hnew rfl
      refine ⟨?_, hretries.le, fun _ => ?_⟩
      · rw [hclaims, hreclaims, hepoch]
      · rw [hclaims, hreclaims, hretries, hqueued]
        exact Nat.le_refl _
  paced row hrow owner howner hid := by
    rcases h.mem_calls.mp hrow with hold | hnew
    · exact (hinv.paced row hold owner (h.owner_old hinv hold howner hid) hid).of_same (h.outcomeEpochs_old _)
    · obtain rfl := h.owner_new hnew howner hid
      have hnone := h.outcomeEpochs_new hinv hnew
      refine ⟨fun attemptEpoch hmem => ?_, ?_⟩
      · rw [hnone] at hmem
        exact absurd hmem (Finset.notMem_empty _)
      · rw [hnone, (h.queued row hnew).2.2.2.2]
        exact le_rfl
  auditCall note hnote htype id hid := by
    obtain ⟨call, hcall, he⟩ := hinv.auditCall note (h.audit ▸ hnote) htype id hid
    exact ⟨call, h.mem_calls.mpr (Or.inl hcall), he⟩
  auditCampaign note hnote htype id hid := by
    obtain ⟨row, hrow, he⟩ := hinv.auditCampaign note (h.audit ▸ hnote) htype id hid
    exact ⟨row, h.mem_campaigns.mpr (Or.inl hrow), he⟩

theorem call?_old (h : Posted others s.db s'.db campaign rows) {id : CallId} {row : CallRow}
    (hrow : s.db.call? id = some row) : s'.db.call? id = some row := by
  rw [Db.call?, h.calls, lookup_append]
  rw [Db.call?] at hrow
  rw [hrow]
  rfl

theorem call?_new (h : Posted others s.db s'.db campaign rows) {id : CallId} {row : CallRow}
    (hrow : s'.db.call? id = some row) (hnone : s.db.call? id = none) : row ∈ rows ∧ row.id = id := by
  rw [Db.call?, h.calls, lookup_append] at hrow
  rw [Db.call?] at hnone
  rw [hnone] at hrow
  exact lookup_some hrow

/-- No coroutine is disturbed by the new rows. -/
theorem rely (h : Posted others s.db s'.db campaign rows) (hnow : s.now ≤ s'.now)
    (hissued : s'.issued = s.issued) {l : Party} (hl : ∀ t ∈ l.txn, t ∈ others) : Rely l s s' where
  now := hnow
  issued _ hentry := hissued ▸ hentry
  audit := h.audit ▸ List.prefix_rfl
  call id row hrow := ⟨row, h.call?_old hrow, .refl row⟩
  newCall id row hrow hnone := by
    obtain ⟨hnew, -⟩ := h.call?_new hrow hnone
    rw [(h.queued row hnew).1]
    exact lookup_eq_none.mpr fun old hold => h.freshCampaign old hold
  campaign id row hrow := by
    refine ⟨row, ?_, .refl row⟩
    rw [Db.campaign?, h.campaigns, lookup_append]
    rw [Db.campaign?] at hrow
    rw [hrow]
    rfl
  inbox id row hrow := ⟨row, by rw [Db.inbox?, h.inbox]; exact hrow, .refl row⟩
  retries id row row' hrow hrow' _ := by
    rw [h.call?_old hrow] at hrow'
    rw [Option.some.inj hrow']
    exact Or.inl rfl
  outcomes id _ _ _ _ _ _ hmem := Or.inr (h.outcomeEpochs_old id ▸ hmem)
  keepCall _ _ id _ row hrow := h.call?_old hrow
  keepCampaign _ _ id _ row hrow := by
    rw [Db.campaign?, h.campaigns, lookup_append]
    rw [Db.campaign?] at hrow
    rw [hrow]
    rfl
  keepLive _ _ _ _ callId row row' hrow _ hrow' := by
    rw [h.call?_old hrow] at hrow'
    rw [Option.some.inj hrow']
  keepInbox _ _ id _ row hrow := by
    rw [Db.inbox?, h.inbox]
    exact hrow
  keepPhone t ht version hversion hholds id row' hne hrow' hholds' hphone := by
    cases hrow : s.db.call? id with
    | some row =>
        rw [h.call?_old hrow] at hrow'
        obtain rfl := Option.some.inj hrow'
        exact ⟨row, rfl, hholds'⟩
    | none =>
        obtain ⟨hnew, rfl⟩ := h.call?_new hrow' hrow
        have hfree := h.uncontended row' hnew
        rw [phoneContended, List.any_eq_false] at hfree
        refine absurd (List.any_eq_true.mpr ⟨version, hversion, ?_⟩) (hfree t (hl t ht))
        simp [Ne.symm hne, hphone, hholds]

end Posted

/-! ### Webhook ingest -/

/-- Ingest leaves everything but the inbox alone, and the inbox rows as they were. -/
structure Ingested (db db' : Db) : Prop where
  rest : db' = { db with inbox := db'.inbox }
  ids : (db.inbox.map InboxRow.id).Nodup → (db'.inbox.map InboxRow.id).Nodup
  rows : ∃ more, db'.inbox = db.inbox ++ more

theorem insertInbox_some {others : List Txn} {db db' : Db} {provider eventId : String} {payload : Payload}
    {receivedAt : Time} {inboxId : InboxId}
    (h : insertInbox others db provider eventId payload receivedAt inboxId = some db') :
    Ingested db db' := by
  rw [insertInbox] at h
  split at h
  · split at h
    · cases h
    · cases h
      exact ⟨rfl, id, [], (List.append_nil _).symm⟩
  · split at h
    · cases h
    · next hfresh =>
        cases h
        refine ⟨rfl, fun hnodup => ?_, _, rfl⟩
        rw [List.map_append, List.nodup_append]
        refine ⟨hnodup, List.nodup_singleton _, fun id hid new hnew he => ?_⟩
        obtain ⟨old, hold, rfl⟩ := List.mem_map.mp hid
        rw [List.map_singleton, List.mem_singleton] at hnew
        exact hfresh (List.any_eq_true.mpr ⟨old, hold, by simp [he.trans hnew]⟩)

theorem Ingested.consistent {s : Shared} {db' : Db} (h : Ingested s.db db') (hinv : Consistent s) :
    Consistent { s with db := db' } := by
  have hids := h.ids hinv.inboxIds
  have hinbox : ∀ row ∈ s.db.inbox, row ∈ db'.inbox := fun row hrow => by
    obtain ⟨more, hmore⟩ := h.rows
    rw [hmore]
    exact List.mem_append_left _ hrow
  have hrest := h.rest
  generalize db'.inbox = inbox at hids hinbox hrest
  subst hrest
  refine ⟨hinv.callIds, hinv.campaignIds, hids, hinv.phones, hinv.sound, hinv.claimed, hinv.owner,
    hinv.staffed, fun row hrow => ⟨(hinv.status row hrow).pending, (hinv.status row hrow).completed,
      (hinv.status row hrow).failed⟩, hinv.promoted, hinv.rolledUp,
    fun row hrow campaign hcampaign howner => ?_,
    fun row hrow campaign hcampaign howner => (hinv.paced row hrow campaign hcampaign howner).of_same rfl,
    hinv.auditCall, hinv.auditCampaign⟩
  refine (hinv.budget row hrow campaign hcampaign howner).of_counts rfl rfl fun hsix row hrow => ?_
  exact hsix row (hinbox row hrow)

theorem Ingested.rely {s : Shared} {db' : Db} (h : Ingested s.db db') (l : Party) :
    Rely l s { s with db := db' } := by
  obtain ⟨more, hrows⟩ := h.rows
  have hold : ∀ id row, s.db.inbox? id = some row → db'.inbox? id = some row := by
    intro id row hrow
    rw [Db.inbox?] at hrow
    rw [Db.inbox?, hrows, lookup_append, hrow]
    rfl
  have hrest := h.rest
  have hcall : ∀ id, db'.call? id = s.db.call? id := fun id => by rw [hrest]; rfl
  have hcampaign : ∀ id, db'.campaign? id = s.db.campaign? id := fun id => by rw [hrest]; rfl
  have haudit : db'.audit = s.db.audit := by rw [hrest]
  exact {
    now := le_rfl
    issued := fun _ h => h
    audit := haudit ▸ List.prefix_rfl
    call := fun id row hrow => ⟨row, (hcall id).trans hrow, .refl row⟩
    newCall := fun id row hrow hnone => by
      rw [hcall, hnone] at hrow
      cases hrow
    campaign := fun id row hrow => ⟨row, (hcampaign id).trans hrow, .refl row⟩
    inbox := fun id row hrow => ⟨row, hold id row hrow, .refl row⟩
    retries := fun id row row' hrow hrow' _ => by
      rw [hcall, hrow] at hrow'
      rw [Option.some.inj hrow']
      exact Or.inl rfl
    outcomes := fun _ _ _ _ _ _ _ hmem => Or.inr (by rwa [Db.outcomeEpochs, haudit] at hmem)
    keepCall := fun _ _ id _ row hrow => (hcall id).trans hrow
    keepCampaign := fun _ _ id _ row hrow => (hcampaign id).trans hrow
    keepLive := fun _ _ _ _ callId row row' hrow _ hrow' => by
      rw [hcall, hrow] at hrow'
      rw [Option.some.inj hrow']
    keepInbox := fun _ _ id _ row hrow => hold id row hrow
    keepPhone := fun _ _ _ _ _ id row' _ hrow' hholds' _ => ⟨row', (hcall id).symm.trans hrow', hholds'⟩ }

end VoiceCampaign

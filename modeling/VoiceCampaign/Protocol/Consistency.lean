import VoiceCampaign.Protocol.Budget

/-!
# Commits keep the tables consistent

One section for each group of invariants, for a transaction that moves a call; a transaction that only
writes notes leaves them all alone.
-/

namespace VoiceCampaign

open Concurrency

/-! ### A transaction that moves a call -/

section

variable {s : Shared} {task : Option Task} {t : Txn} {inbox : Option InboxRow}
  {before after : CallRow} {event : AuditEvent} {folds : List AuditEvent}

/-- The campaign rows after the commit. -/
theorem Folds.mem_commit (h : Folds s t after folds) (hinv : Consistent s) {row : CampaignRow} :
    row ∈ (s.commit t).db.campaigns →
      (row ∈ s.db.campaigns ∧ (row.id ≠ after.campaignId ∨ t.campaigns = [])) ∨
        (row.id = after.campaignId ∧ t.campaigns = [row] ∧
          ∃ old ∈ s.db.campaigns, s.db.campaign? after.campaignId = some old) := by
  intro hrow
  rw [show (s.commit t).db.campaigns = overlay CampaignRow.id t.campaigns s.db.campaigns from rfl]
    at hrow
  rcases h.campaigns with hnil | ⟨old, new, hold, hid, -, -, hcampaigns⟩
  · rw [hnil, overlay_nil] at hrow
    exact Or.inl ⟨hrow, Or.inr hnil⟩
  · rw [hcampaigns, mem_overlay_singleton] at hrow
    rcases hrow with ⟨hmem, hne⟩ | ⟨rfl, -⟩
    · exact Or.inl ⟨hmem, Or.inl (hid ▸ hne)⟩
    · exact Or.inr ⟨hid, hcampaigns, old, (hinv.campaign?_iff.mp hold).1, hold⟩

/-- The calls of other campaigns are as before. -/
theorem Moves.statusFolds_of_ne (h : Moves s task t inbox before after event) (hinv : Consistent s)
    {campaign : CampaignRow} (hcampaign : campaign ∈ s.db.campaigns)
    (hid : campaign.id ≠ after.campaignId) : (s.commit t).db.StatusFolds campaign := by
  have hmem : ∀ row : CallRow, row.campaignId = campaign.id →
      (row ∈ (s.commit t).db.calls ↔ row ∈ s.db.calls) := by
    intro row hrow
    rw [h.mem_commit]
    constructor
    · rintro (rfl | hold)
      · exact absurd hrow.symm hid
      · exact hold.1
    · intro hold
      refine Or.inr ⟨hold, fun hsame => ?_⟩
      have heq := eq_of_key_eq hinv.callIds hold h.before_mem (hsame.trans h.before_id.symm)
      rw [heq, ← h.campaignId] at hrow
      exact hid hrow.symm
  have hstatus := hinv.status campaign hcampaign
  have hall : (s.commit t).db.allTerminal campaign.id ↔ s.db.allTerminal campaign.id :=
    forall_congr' fun row => ⟨fun h hrow hid => h ((hmem row hid).mpr hrow) hid,
      fun h hrow hid => h ((hmem row hid).mp hrow) hid⟩
  have hsome : (s.commit t).db.someCompleted campaign.id ↔ s.db.someCompleted campaign.id :=
    exists_congr fun row => ⟨fun h => ⟨(hmem row h.2.1).mp h.1, h.2⟩,
      fun h => ⟨(hmem row h.2.1).mpr h.1, h.2⟩⟩
  refine ⟨hstatus.pending.trans (forall_congr' fun row => ?_), ?_, ?_⟩
  · exact ⟨fun h hrow hid => h ((hmem row hid).mp hrow) hid,
      fun h hrow hid => h ((hmem row hid).mpr hrow) hid⟩
  · rw [hall, hsome]
    exact hstatus.completed
  · rw [hall, hsome]
    exact hstatus.failed

/-- A live call and a status that is neither pending nor terminal fold. -/
theorem statusFolds_of_live {db : Db} {campaign : CampaignRow} {row started : CallRow}
    (hrow : row ∈ db.calls) (hid : row.campaignId = campaign.id)
    (hlive : row.status.isTerminal = false) (hmem : started ∈ db.calls)
    (hstarted : started.campaignId = campaign.id ∧ 0 < started.attemptEpoch)
    (hpending : campaign.status ≠ .pending) (hterminal : campaign.status.isTerminal = false) :
    db.StatusFolds campaign := by
  have hnot : ¬ db.allTerminal campaign.id := fun hall => by
    have := hall row hrow hid
    rw [hlive] at this
    cases this
  refine ⟨⟨fun h => absurd h hpending, fun h => ?_⟩, ⟨fun h => ?_, fun h => absurd h.1 hnot⟩,
    ⟨fun h => ?_, fun h => absurd h.1 hnot⟩⟩
  · have := h started hmem hstarted.1
    omega
  · rw [h] at hterminal
    cases hterminal
  · rw [h] at hterminal
    cases hterminal

/-- The campaign of the moved call folds as well. -/
theorem Moves.statusFolds (h : Moves s task t inbox before after event) (hinv : Consistent s)
    (hfolds : Folds s t after folds) {campaign : CampaignRow}
    (hcampaign : campaign ∈ (s.commit t).db.campaigns) (hid : campaign.id = after.campaignId) :
    (s.commit t).db.StatusFolds campaign := by
  have hstarted := h.cause.started (hinv.sound before h.before_mem)
  have hafter : after ∈ (s.commit t).db.calls := h.mem_commit.mpr (Or.inl rfl)
  have hbefore : before.status.isTerminal = true → after.status = before.status :=
    h.evolves.isTerminal
  have hold := hfolds.mem_commit hinv hcampaign
  cases hfolds with
  | still hcampaigns hnotpending hlive =>
      obtain ⟨hmem, -⟩ | ⟨-, hwritten, -⟩ := hold
      swap
      · rw [hcampaigns] at hwritten
        cases hwritten
      have hpending : campaign.status ≠ .pending := by
        obtain ⟨found, hfound, hne⟩ := hnotpending
        rw [← hid, hinv.campaign?_iff.mpr ⟨hmem, rfl⟩] at hfound
        rwa [Option.some.inj hfound]
      cases hterminal : after.status.isTerminal with
      | false =>
          refine statusFolds_of_live hafter hid.symm hterminal hafter ⟨hid.symm, hstarted⟩ hpending ?_
          refine hinv.not_terminal h.before_mem ?_ hmem (hid.trans h.campaignId)
          by_contra hb
          rw [Bool.not_eq_false] at hb
          rw [hbefore hb, hb] at hterminal
          cases hterminal
      | true =>
          rcases (hlive hterminal).2 with ⟨found, hfound, hdone⟩ | ⟨id, other, hother, howner, hne, hlive⟩
          · rw [← hid, hinv.campaign?_iff.mpr ⟨hmem, rfl⟩] at hfound
            obtain rfl := Option.some.inj hfound
            have hall := hinv.all_terminal hmem hdone
            have hsame := hbefore (hall before h.before_mem (h.campaignId.symm.trans hid.symm))
            have hstatus := hinv.status campaign hmem
            have hall' : (s.commit t).db.allTerminal campaign.id := by
              intro row hrow hrowid
              rcases h.mem_commit.mp hrow with rfl | hrow
              · exact hterminal
              · exact hall row hrow.1 hrowid
            have hsome : (s.commit t).db.someCompleted campaign.id ↔ s.db.someCompleted campaign.id := by
              constructor
              · rintro ⟨row, hrow, hrowid, hcompleted⟩
                rcases h.mem_commit.mp hrow with rfl | hrow
                · exact ⟨before, h.before_mem, h.campaignId.symm.trans hrowid, hsame ▸ hcompleted⟩
                · exact ⟨row, hrow.1, hrowid, hcompleted⟩
              · rintro ⟨row, hrow, hrowid, hcompleted⟩
                by_cases hrowafter : row.id = after.id
                · obtain rfl := eq_of_key_eq hinv.callIds hrow h.before_mem
                    (hrowafter.trans h.before_id.symm)
                  exact ⟨after, hafter, hid.symm, hsame.trans hcompleted⟩
                · exact ⟨row, h.mem_commit.mpr (Or.inr ⟨hrow, hrowafter⟩), hrowid, hcompleted⟩
            refine ⟨⟨fun h => absurd h hpending, fun hzero => ?_⟩, ?_, ?_⟩
            · have := hzero after hafter hid.symm
              omega
            · rw [hstatus.completed, hsome]
              exact ⟨fun h => ⟨hall', h.2⟩, fun h => ⟨hall, h.2⟩⟩
            · rw [hstatus.failed, hsome]
              exact ⟨fun h => ⟨hall', h.2⟩, fun h => ⟨hall, h.2⟩⟩
          · obtain ⟨hothermem, rfl⟩ := hinv.call?_iff.mp hother
            exact statusFolds_of_live (h.mem_commit.mpr (Or.inr ⟨hothermem, hne⟩))
              (howner.trans hid.symm) hlive hafter ⟨hid.symm, hstarted⟩ hpending
              (hinv.not_terminal hothermem hlive hmem (hid.trans howner.symm))
  | promoted old hrow hpending hlock hlive hcampaigns =>
      obtain ⟨hmem, hne | hnil⟩ | ⟨-, hwritten, -⟩ := hold
      · exact absurd hid hne
      · rw [hcampaigns] at hnil
        cases hnil
      rw [hcampaigns] at hwritten
      obtain rfl := List.singleton_inj.mp hwritten
      exact statusFolds_of_live hafter hid.symm hlive hafter ⟨hid.symm, hstarted⟩ nofun rfl
  | rolledUp old counts hrow hactive hterminal hlast hcounts hcampaigns =>
      obtain ⟨hmem, hne | hnil⟩ | ⟨-, hwritten, -⟩ := hold
      · exact absurd hid hne
      · rw [hcampaigns] at hnil
        cases hnil
      rw [hcampaigns] at hwritten
      obtain rfl := List.singleton_inj.mp hwritten
      have hall : (s.commit t).db.allTerminal old.id := by
        intro row hrow hrowid
        rcases h.mem_commit.mp hrow with rfl | hrow
        · exact hterminal
        · exact hlast.others row.id row (hinv.call?_of_mem hrow.1) (hrowid.trans hid) hrow.2
      have hsome : (s.commit t).db.someCompleted old.id ↔ 0 < counts.completed := by
        rw [hcounts]
        constructor
        · rintro ⟨row, hrow, hrowid, hcompleted⟩
          rcases h.mem_commit.mp hrow with rfl | hrow
          · exact Or.inl hcompleted
          · exact Or.inr ⟨row.id, row, hinv.call?_of_mem hrow.1, hrowid.trans hid, hrow.2, hcompleted⟩
        · rintro (hcompleted | ⟨id, other, hother, howner, hne, hcompleted⟩)
          · exact ⟨after, hafter, hid.symm, hcompleted⟩
          · obtain ⟨hothermem, rfl⟩ := hinv.call?_iff.mp hother
            exact ⟨other, h.mem_commit.mpr (Or.inr ⟨hothermem, hne⟩), howner.trans hid.symm, hcompleted⟩
      have htarget : counts.target = if 0 < counts.completed then .completed else .failed := rfl
      refine ⟨⟨fun h => absurd h counts.target_ne_pending, fun hzero => ?_⟩, ?_, ?_⟩
      · have := hzero after hafter hid.symm
        omega
      · show counts.target = _ ↔ _
        rw [hsome, htarget]
        by_cases hpos : 0 < counts.completed <;> simp [hpos, hall]
      · show counts.target = _ ↔ _
        rw [hsome, htarget]
        by_cases hpos : 0 < counts.completed <;> simp [hpos, hall]

/-- How many of the new audit rows are of a type and about a campaign. -/
theorem auditCount_commit_moves (haudit : t.audit.map AuditRow.event = event :: folds) {eventType : EventType}
    (hne : event.eventType ≠ eventType) (id : CampaignId) :
    (s.commit t).db.auditCount eventType id = s.db.auditCount eventType id +
      folds.countP fun e => e.eventType = eventType && e.campaignId = some id := by
  rw [auditCount_commit, haudit, List.countP_cons_of_neg]
  simp [hne]

/-- Promotions and roll-ups are counted by the audit log. -/
theorem Moves.counts (h : Moves s task t inbox before after event) (hinv : Consistent s)
    (hfolds : Folds s t after folds) (haudit : t.audit.map AuditRow.event = event :: folds)
    {campaign : CampaignRow} (hcampaign : campaign ∈ (s.commit t).db.campaigns) :
    ((s.commit t).db.auditCount .campaignPromotedActive campaign.id =
        if campaign.status = .pending then 0 else 1) ∧
      ((s.commit t).db.auditCount .campaignCompleted campaign.id =
        if campaign.status.isTerminal = true then 1 else 0) := by
  obtain ⟨hpromoted, hcompleted, -⟩ := h.cause.eventType
  have hold := hfolds.mem_commit hinv hcampaign
  rw [auditCount_commit_moves haudit hpromoted, auditCount_commit_moves haudit hcompleted]
  cases hfolds with
  | still hcampaigns hnotpending hlive =>
      obtain ⟨hmem, -⟩ | ⟨-, hwritten, -⟩ := hold
      · exact ⟨hinv.promoted campaign hmem, hinv.rolledUp campaign hmem⟩
      · rw [hcampaigns] at hwritten
        cases hwritten
  | promoted old hrow hpending hlock hlive hcampaigns =>
      obtain ⟨hmem, hne | hnil⟩ | ⟨hid, hwritten, -⟩ := hold
      · have hnot : ¬ after.campaignId = campaign.id := Ne.symm hne
        simpa [campaignPromoted, hnot] using ⟨hinv.promoted campaign hmem, hinv.rolledUp campaign hmem⟩
      · rw [hcampaigns] at hnil
        cases hnil
      · rw [hcampaigns] at hwritten
        obtain rfl := List.singleton_inj.mp hwritten
        obtain ⟨hmem, -⟩ := hinv.campaign?_iff.mp hrow
        have h₀ := hinv.promoted old hmem
        have h₁ := hinv.rolledUp old hmem
        rw [hpending] at h₀ h₁
        simp [campaignPromoted, h₀, h₁, show CampaignStatus.active.isTerminal = false from rfl,
          show CampaignStatus.pending.isTerminal = false from rfl, ← hid]
  | rolledUp old counts hrow hactive hterminal hlast hcounts hcampaigns =>
      obtain ⟨hmem, hne | hnil⟩ | ⟨hid, hwritten, -⟩ := hold
      · have hnot : ¬ after.campaignId = campaign.id := Ne.symm hne
        simpa [campaignCompleted, hnot] using ⟨hinv.promoted campaign hmem, hinv.rolledUp campaign hmem⟩
      · rw [hcampaigns] at hnil
        cases hnil
      · rw [hcampaigns] at hwritten
        obtain rfl := List.singleton_inj.mp hwritten
        obtain ⟨hmem, -⟩ := hinv.campaign?_iff.mp hrow
        have h₀ := hinv.promoted old hmem
        have h₁ := hinv.rolledUp old hmem
        rw [hactive] at h₀ h₁
        have htarget : counts.target.isTerminal = true := by
          rw [TerminalAggregate.target]
          split <;> rfl
        simp [campaignCompleted, h₀, h₁, htarget, counts.target_ne_pending, ← hid,
          show CampaignStatus.active.isTerminal = false from rfl]

theorem Moves.phones (h : Moves s task t inbox before after event) (hinv : Consistent s) :
    ∀ a ∈ (s.commit t).db.calls, ∀ b ∈ (s.commit t).db.calls, a.status.holdsPhone = true →
      b.status.holdsPhone = true → a.phone = b.phone → a.id = b.id := by
  have hnew : ∀ row ∈ s.db.calls, row.id ≠ after.id → after.status.holdsPhone = true →
      row.status.holdsPhone = true → row.phone ≠ after.phone := fun row hrow hne hafter hholds =>
    h.phone hafter row.id row (hinv.call?_of_mem hrow) hne hholds
  intro a ha b hb hholdsa hholdsb hphone
  rcases h.mem_commit.mp ha with rfl | ⟨ha, hnea⟩
  · rcases h.mem_commit.mp hb with rfl | ⟨hb, hneb⟩
    · rfl
    · exact absurd hphone.symm (hnew b hb hneb hholdsa hholdsb)
  · rcases h.mem_commit.mp hb with rfl | ⟨hb, hneb⟩
    · exact absurd hphone (hnew a ha hnea hholdsb hholdsa)
    · exact hinv.phones a ha b hb hholdsa hholdsb hphone

theorem Moves.everClaimed (h : Moves s task t inbox before after event) (hinv : Consistent s)
    (hfolds : Folds s t after folds) (haudit : t.audit.map AuditRow.event = event :: folds)
    {row : CallRow} (hrow : row ∈ (s.commit t).db.calls) :
    0 < row.attemptEpoch ↔ (s.commit t).db.everClaimed row.id := by
  obtain ⟨-, -, hcall⟩ := h.cause.eventType
  have hsound := hinv.sound before h.before_mem
  rw [everClaimed_commit, haudit]
  rcases h.mem_commit.mp hrow with rfl | ⟨hmem, hne⟩
  · refine ⟨fun _ => ?_, fun _ => h.cause.started hsound⟩
    rcases h.cause.claimed hsound with hclaimed | hstarted
    · exact Or.inr ⟨event, List.mem_cons_self, hclaimed, hcall.trans (congrArg _ h.before_id)⟩
    · left
      rw [← h.before_id]
      exact (hinv.claimed before h.before_mem).mp hstarted
  · rw [hinv.claimed row hmem]
    refine ⟨Or.inl, ?_⟩
    rintro (hold | ⟨e, he, htype, hid⟩)
    · exact hold
    · rcases List.mem_cons.mp he with rfl | hfold
      · rw [hcall] at hid
        exact absurd ((Option.some.inj hid).symm.trans h.before_id) hne
      · exact absurd htype (hfolds.events e hfold).1

end

/-! ### Every commit -/

section

variable {s : Shared} {task : Option Task} {t : Txn}

/-- The new audit rows are about rows that exist. -/
theorem Ready.audited (h : Ready s task t) {row : AuditRow} (hrow : row ∈ t.audit) :
    (row.event.isNote = false → ∀ id, row.event.callId = some id →
        ∃ call ∈ s.db.calls, call.id = id) ∧
      (row.event.eventType = .campaignPromotedActive ∨ row.event.eventType = .campaignCompleted →
        ∀ id, row.event.campaignId = some id → ∃ campaign ∈ s.db.campaigns, campaign.id = id) := by
  cases h with
  | quiet inbox hcalls hcampaigns hmarks hnotes =>
      have hnote := hnotes row hrow
      refine ⟨fun hnot => ?_, fun htype => ?_⟩
      · rw [hnote] at hnot
        cases hnot
      · rcases htype with htype | htype
        · exact absurd htype (AuditEvent.eventType_ne hnote rfl)
        · exact absurd htype (AuditEvent.eventType_ne hnote rfl)
  | moves inbox before after event folds hmoves hfolds hmarks haudit =>
      obtain ⟨hpromoted, hcompleted, hcall⟩ := hmoves.cause.eventType
      have hevent : row.event ∈ event :: folds := haudit ▸ List.mem_map_of_mem hrow
      rcases List.mem_cons.mp hevent with he | hfold
      · rw [he]
        refine ⟨fun _ id hid => ⟨before, hmoves.before_mem, ?_⟩,
          fun h => absurd h (not_or.mpr ⟨hpromoted, hcompleted⟩)⟩
        rw [hcall] at hid
        exact Option.some.inj hid
      · refine ⟨fun _ id hid => ?_, fun _ id hid => ?_⟩
        · rw [(hfolds.events _ hfold).2] at hid
          cases hid
        have hfound : ∃ campaign, s.db.campaign? id = some campaign := by
          cases hfolds with
          | still => cases hfold
          | promoted campaign hrow =>
              rw [List.mem_singleton.mp hfold] at hid
              exact ⟨campaign, Option.some.inj hid ▸ hrow⟩
          | rolledUp campaign counts hrow =>
              rw [List.mem_singleton.mp hfold] at hid
              exact ⟨campaign, Option.some.inj hid ▸ hrow⟩
        obtain ⟨campaign, hcampaign⟩ := hfound
        exact ⟨campaign, lookup_some hcampaign⟩

/-- The campaign a commit leaves is configured as before. -/
theorem Ready.campaign_before (h : Ready s task t) (hinv : Consistent s)
    (hids : ((s.commit t).db.campaigns.map CampaignRow.id).Nodup) {campaign : CampaignRow}
    (hcampaign : campaign ∈ (s.commit t).db.campaigns) :
    ∃ old ∈ s.db.campaigns, old.id = campaign.id ∧ campaign.retryConfig = old.retryConfig := by
  obtain ⟨old, hold, hid⟩ := exists_key_overlay.mp ⟨campaign, hcampaign, rfl⟩
  obtain ⟨new, hnew, hevolves⟩ := h.grows.campaign _ old (hinv.campaign?_iff.mpr ⟨hold, rfl⟩)
  obtain rfl := eq_of_key_eq hids (lookup_some hnew).1 hcampaign ((lookup_some hnew).2.trans hid)
  exact ⟨old, hold, hid, by rw [hevolves.config]⟩

theorem Ready.budgeted (h : Ready s task t) (hinv : Consistent s) {row : CallRow}
    (hrow : row ∈ (s.commit t).db.calls) {campaign : CampaignRow} (hcampaign : campaign ∈ s.db.campaigns)
    (howner : campaign.id = row.campaignId) :
    (s.commit t).db.Budgeted row campaign.retryConfig.maxAttempts := by
  have hsix := h.grows.sixStatuses hinv
  cases h with
  | quiet inbox hcalls hcampaigns hmarks hnotes =>
      rw [Shared.calls_commit_nil hcalls] at hrow
      exact (hinv.budget row hrow campaign hcampaign howner).of_counts
        (callAuditCount_commit_notes hnotes rfl _) (callAuditCount_commit_notes hnotes rfl _) hsix
  | moves inbox before after event folds hmoves hfolds hmarks haudit =>
      have hcounts := hfolds.callAuditCount_commit haudit
      obtain ⟨-, -, hcall⟩ := hmoves.cause.eventType
      rcases hmoves.mem_commit.mp hrow with rfl | ⟨hold, hne⟩
      · have hbefore := hmoves.before_mem
        have howner' : campaign.id = before.campaignId := howner.trans hmoves.campaignId
        have hbudget := hinv.budget before hbefore campaign hcampaign howner'
        have hepoch := hmoves.cause.attemptEpoch
        have hinbox : ∀ row ∈ inbox, row ∈ s.db.inbox := fun row hrow => by
          cases hmarks with
          | unmarked => cases hrow
          | marked marked htask hcurrent =>
              cases hrow
              exact (lookup_some hcurrent).1
        obtain ⟨hretries, hredials⟩ := hmoves.cause.redials hinv hbefore hcampaign howner' hinbox
        have hself : event.callId = some row.id := hcall.trans (congrArg _ hmoves.before_id)
        rw [hmoves.before_id] at hredials
        refine ⟨?_, hretries, fun h => ?_⟩
        · rw [hcounts, hcounts, if_pos hself, if_pos hself, hepoch, hbudget.epoch, hmoves.before_id]
          omega
        · rw [hcounts, hcounts, if_pos hself, if_pos hself]
          exact hredials (hsix h)
      · have hother : event.callId ≠ some row.id := fun he => by
          rw [hcall] at he
          exact hne ((Option.some.inj he).symm.trans hmoves.before_id)
        exact (hinv.budget row hold campaign hcampaign howner).of_counts
          (by rw [hcounts, if_neg hother, Nat.add_zero]) (by rw [hcounts, if_neg hother, Nat.add_zero]) hsix

theorem Ready.paced (h : Ready s task t) (hinv : Consistent s) {row : CallRow}
    (hrow : row ∈ (s.commit t).db.calls) {campaign : CampaignRow} (hcampaign : campaign ∈ s.db.campaigns)
    (howner : campaign.id = row.campaignId) : (s.commit t).db.Paced row campaign.retryConfig.maxAttempts := by
  cases h with
  | quiet inbox hcalls hcampaigns hmarks hnotes =>
      rw [Shared.calls_commit_nil hcalls] at hrow
      exact (hinv.paced row hrow campaign hcampaign howner).of_same (outcomeEpochs_commit_notes hnotes _)
  | moves inbox before after event folds hmoves hfolds hmarks haudit =>
      rcases hmoves.mem_commit.mp hrow with rfl | ⟨hold, hne⟩
      · exact hmoves.paced hfolds haudit hinv hcampaign (howner.trans hmoves.campaignId)
      · refine (hinv.paced row hold campaign hcampaign howner).of_same ?_
        ext attemptEpoch
        rw [hmoves.mem_outcomeEpochs hfolds haudit, or_iff_left]
        rintro ⟨hid, -⟩
        exact hne (hid.trans hmoves.before_id)

/-- What is fit to commit keeps the tables consistent. -/
theorem Ready.consistent (h : Ready s task t) (hinv : Consistent s) : Consistent (s.commit t) := by
  have hcallIds : ((s.commit t).db.calls.map CallRow.id).Nodup := by
    rw [show (s.commit t).db.calls = overlay CallRow.id t.calls s.db.calls from rfl, map_key_overlay]
    exact hinv.callIds
  have hcampaignIds : ((s.commit t).db.campaigns.map CampaignRow.id).Nodup := by
    rw [show (s.commit t).db.campaigns = overlay CampaignRow.id t.campaigns s.db.campaigns from rfl,
      map_key_overlay]
    exact hinv.campaignIds
  have hinboxIds : ((s.commit t).db.inbox.map InboxRow.id).Nodup := by
    rw [show (s.commit t).db.inbox = overlay InboxRow.id t.inbox s.db.inbox from rfl, map_key_overlay]
    exact hinv.inboxIds
  have hauditCall : ∀ row ∈ (s.commit t).db.audit, row.event.isNote = false →
      ∀ id, row.event.callId = some id → ∃ call ∈ (s.commit t).db.calls, call.id = id := by
    intro row hrow htype id hid
    refine exists_key_overlay.mpr ?_
    rcases mem_audit_commit.mp hrow with hold | hnew
    · exact hinv.auditCall row hold htype id hid
    · exact (h.audited hnew).1 htype id hid
  have hauditCampaign : ∀ row ∈ (s.commit t).db.audit,
      row.event.eventType = .campaignPromotedActive ∨ row.event.eventType = .campaignCompleted →
      ∀ id, row.event.campaignId = some id →
        ∃ campaign ∈ (s.commit t).db.campaigns, campaign.id = id := by
    intro row hrow htype id hid
    refine exists_key_overlay.mpr ?_
    rcases mem_audit_commit.mp hrow with hold | hnew
    · exact hinv.auditCampaign row hold htype id hid
    · exact (h.audited hnew).2 htype id hid
  have hbudget : ∀ row ∈ (s.commit t).db.calls, ∀ campaign ∈ (s.commit t).db.campaigns,
      campaign.id = row.campaignId → (s.commit t).db.Budgeted row campaign.retryConfig.maxAttempts := by
    intro row hrow campaign hcampaign howner
    obtain ⟨old, hold, hid, hconfig⟩ := h.campaign_before hinv hcampaignIds hcampaign
    rw [hconfig]
    exact h.budgeted hinv hrow hold (hid.trans howner)
  have hpaced : ∀ row ∈ (s.commit t).db.calls, ∀ campaign ∈ (s.commit t).db.campaigns,
      campaign.id = row.campaignId → (s.commit t).db.Paced row campaign.retryConfig.maxAttempts := by
    intro row hrow campaign hcampaign howner
    obtain ⟨old, hold, hid, hconfig⟩ := h.campaign_before hinv hcampaignIds hcampaign
    rw [hconfig]
    exact h.paced hinv hrow hold (hid.trans howner)
  have howned : ∀ row ∈ s.db.calls, ∃ campaign ∈ (s.commit t).db.campaigns,
      campaign.id = row.campaignId := fun row hrow => exists_key_overlay.mpr (hinv.owner row hrow)
  cases h with
  | quiet inbox hcalls hcampaigns hmarks hnotes =>
      have hcalls' := Shared.calls_commit_nil (s := s) hcalls
      have hcampaigns' := Shared.campaigns_commit_nil (s := s) hcampaigns
      have hfolds : ∀ campaign, s.db.StatusFolds campaign → (s.commit t).db.StatusFolds campaign := by
        intro campaign hstatus
        refine ⟨?_, ?_, ?_⟩ <;> simp only [Db.allTerminal, Db.someCompleted, hcalls']
        · exact hstatus.pending
        · exact hstatus.completed
        · exact hstatus.failed
      refine ⟨hcallIds, hcampaignIds, hinboxIds, ?_, ?_, ?_, ?_, ?_, ?_, ?_, ?_, hbudget, hpaced, hauditCall,
        hauditCampaign⟩
      · rw [hcalls']
        exact hinv.phones
      · rw [hcalls']
        exact hinv.sound
      · rw [hcalls']
        exact fun row hrow => (hinv.claimed row hrow).trans (everClaimed_commit_notes hnotes row.id).symm
      · rw [hcalls']
        exact howned
      · rw [hcalls', hcampaigns']
        exact hinv.staffed
      · rw [hcampaigns']
        exact fun campaign hcampaign => hfolds campaign (hinv.status campaign hcampaign)
      · rw [hcampaigns']
        exact fun campaign hcampaign =>
          (auditCount_commit_notes hnotes rfl _).trans (hinv.promoted campaign hcampaign)
      · rw [hcampaigns']
        exact fun campaign hcampaign =>
          (auditCount_commit_notes hnotes rfl _).trans (hinv.rolledUp campaign hcampaign)
  | moves inbox before after event folds hmoves hfolds hmarks haudit =>
      refine ⟨hcallIds, hcampaignIds, hinboxIds, hmoves.phones hinv, ?_,
        fun row hrow => hmoves.everClaimed hinv hfolds haudit hrow, ?_, ?_, ?_,
        fun campaign hcampaign => (hmoves.counts hinv hfolds haudit hcampaign).1,
        fun campaign hcampaign => (hmoves.counts hinv hfolds haudit hcampaign).2, hbudget, hpaced, hauditCall,
        hauditCampaign⟩
      · intro row hrow
        rcases hmoves.mem_commit.mp hrow with rfl | ⟨hold, -⟩
        · exact hmoves.cause.sound (hinv.sound before hmoves.before_mem)
        · exact hinv.sound row hold
      · intro row hrow
        rcases hmoves.mem_commit.mp hrow with rfl | ⟨hold, -⟩
        · rw [hmoves.campaignId]
          exact howned before hmoves.before_mem
        · exact howned row hold
      · intro campaign hcampaign
        obtain ⟨old, hold, hid⟩ := exists_key_overlay.mp ⟨campaign, hcampaign, rfl⟩
        obtain ⟨row, hrow, howner⟩ := hinv.staffed old hold
        by_cases hsame : row.id = after.id
        · obtain rfl := eq_of_key_eq hinv.callIds hrow hmoves.before_mem
            (hsame.trans hmoves.before_id.symm)
          exact ⟨after, hmoves.mem_commit.mpr (Or.inl rfl),
            hmoves.campaignId.trans (howner.trans hid)⟩
        · exact ⟨row, hmoves.mem_commit.mpr (Or.inr ⟨hrow, hsame⟩), howner.trans hid⟩
      · intro campaign hcampaign
        by_cases hid : campaign.id = after.campaignId
        · exact hmoves.statusFolds hinv hfolds hcampaign hid
        · rcases hfolds.mem_commit hinv hcampaign with ⟨hold, -⟩ | ⟨hsame, -⟩
          · exact hmoves.statusFolds_of_ne hinv hold hid
          · exact absurd hsame hid

end

end VoiceCampaign

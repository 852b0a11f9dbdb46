import VoiceCampaign.Protocol.Evolution

/-!
# The effects fit together

A transaction that is fit to commit keeps the committed state consistent, and every coroutine whose
open transaction is compatible with it can count on what it leaves behind.
-/

namespace VoiceCampaign

open Concurrency

/-! ### The tables after a commit -/

variable {s : Shared} {task : Option Task} {t : Txn} {inbox : Option InboxRow}
  {before after : CallRow} {event : AuditEvent} {folds : List AuditEvent}

namespace Moves

theorem before_id (h : Moves s task t inbox before after event) : before.id = after.id :=
  (lookup_some h.row).2

theorem before_mem (h : Moves s task t inbox before after event) : before ∈ s.db.calls :=
  (lookup_some h.row).1

theorem evolves (h : Moves s task t inbox before after event) : before.Evolves after :=
  h.cause.evolves

theorem campaignId (h : Moves s task t inbox before after event) :
    after.campaignId = before.campaignId := h.evolves.campaignId

theorem call?_commit (h : Moves s task t inbox before after event) (id : CallId) :
    (s.commit t).db.call? id = if id = after.id then some after else s.db.call? id := by
  show lookup CallRow.id (overlay CallRow.id t.calls s.db.calls) id = _
  rw [h.calls]
  exact lookup_overlay_singleton h.row id

theorem mem_commit (h : Moves s task t inbox before after event) {row : CallRow} :
    row ∈ (s.commit t).db.calls ↔ row = after ∨ (row ∈ s.db.calls ∧ row.id ≠ after.id) := by
  have hmem : row ∈ overlay CallRow.id [after] s.db.calls ↔ _ := mem_overlay_singleton
  rw [show (s.commit t).db.calls = overlay CallRow.id [after] s.db.calls by rw [← h.calls]; rfl, hmem]
  constructor
  · rintro (hold | ⟨rfl, -⟩)
    · exact Or.inr hold
    · exact Or.inl rfl
  · rintro (rfl | hold)
    · exact Or.inr ⟨rfl, before, h.before_mem, h.before_id⟩
    · exact Or.inl hold

end Moves

theorem Shared.calls_commit_nil (hcalls : t.calls = []) : (s.commit t).db.calls = s.db.calls := by
  show overlay CallRow.id t.calls s.db.calls = _
  rw [hcalls, overlay_nil]

theorem Shared.campaigns_commit_nil (hcampaigns : t.campaigns = []) :
    (s.commit t).db.campaigns = s.db.campaigns := by
  show overlay CampaignRow.id t.campaigns s.db.campaigns = _
  rw [hcampaigns, overlay_nil]

theorem Shared.call?_commit_nil (hcalls : t.calls = []) (id : CallId) :
    (s.commit t).db.call? id = s.db.call? id := by
  rw [Db.call?, Shared.calls_commit_nil hcalls]
  rfl

theorem Shared.campaign?_commit_nil (hcampaigns : t.campaigns = []) (id : CampaignId) :
    (s.commit t).db.campaign? id = s.db.campaign? id := by
  rw [Db.campaign?, Shared.campaigns_commit_nil hcampaigns]
  rfl

theorem Shared.campaign?_commit_one {old new : CampaignRow} (hrow : s.db.campaign? new.id = some old)
    (hcampaigns : t.campaigns = [new]) (id : CampaignId) :
    (s.commit t).db.campaign? id = if id = new.id then some new else s.db.campaign? id := by
  show lookup CampaignRow.id (overlay CampaignRow.id t.campaigns s.db.campaigns) id = _
  rw [hcampaigns]
  exact lookup_overlay_singleton hrow id

theorem TerminalAggregate.target_ne_pending (counts : TerminalAggregate) :
    counts.target ≠ .pending := by
  rw [TerminalAggregate.target]
  split <;> nofun

/-- A transaction writes at most the campaign of the call it moves, under its lock. -/
theorem Folds.campaigns (h : Folds s t after folds) : t.campaigns = [] ∨ ∃ old new,
    s.db.campaign? after.campaignId = some old ∧ new.id = after.campaignId ∧ old.Evolves new ∧
      .campaign after.campaignId ∈ t.locks ∧ t.campaigns = [new] := by
  cases h with
  | still hcampaigns hstarted hlive => exact Or.inl hcampaigns
  | promoted campaign hrow hpending hlock hlive hcampaigns =>
      refine Or.inr ⟨campaign, { campaign with status := .active, updatedAt := t.startedAt }, hrow,
        (lookup_some hrow).2, ⟨rfl, nofun, fun hterminal => ?_⟩, hlock, hcampaigns⟩
      rw [hpending] at hterminal
      cases hterminal
  | rolledUp campaign counts hrow hactive hterminal hlast hcounts hcampaigns =>
      refine Or.inr ⟨campaign, { campaign with status := counts.target, updatedAt := t.startedAt },
        hrow, (lookup_some hrow).2, ⟨rfl, fun h => absurd h counts.target_ne_pending,
          fun hterminal => ?_⟩, hlast.lock, hcampaigns⟩
      rw [hactive] at hterminal
      cases hterminal

theorem Folds.campaign?_commit_of_ne (h : Folds s t after folds) {id : CampaignId}
    (hid : id ≠ after.campaignId) : (s.commit t).db.campaign? id = s.db.campaign? id := by
  rcases h.campaigns with hnil | ⟨old, new, hrow, hnew, -, -, hcampaigns⟩
  · exact Shared.campaign?_commit_nil hnil id
  · rw [Shared.campaign?_commit_one (hnew ▸ hrow) hcampaigns, if_neg (hnew ▸ hid)]

/-- The audit rows about the campaign are not about a call. -/
theorem Folds.events (h : Folds s t after folds) : ∀ e ∈ folds, e.eventType ≠ .claimed ∧ e.callId = none := by
  cases h with
  | still => exact List.forall_mem_nil _
  | promoted => simp [campaignPromoted]
  | rolledUp => simp [campaignCompleted]

/-- A transaction writes at most the inbox row it claimed, under its lock. -/
theorem Marks.inbox?_commit (h : Marks s task t inbox) (id : InboxId) :
    (s.commit t).db.inbox? id = s.db.inbox? id ∨ ∃ row, inbox = some row ∧ row.id = id ∧
      s.db.inbox? id = some row ∧ row.processedAt = none ∧ .inbox id ∈ t.locks ∧
      (s.commit t).db.inbox? id = some { row with processedAt := some t.startedAt } := by
  have hcommit : (s.commit t).db.inbox? id =
      lookup InboxRow.id (overlay InboxRow.id t.inbox s.db.inbox) id := rfl
  cases h with
  | unmarked hinbox =>
      left
      rw [hcommit, hinbox, overlay_nil]
      rfl
  | marked row htask hrow hunprocessed hlock hinbox =>
      have hnew : lookup InboxRow.id s.db.inbox
          (InboxRow.id { row with processedAt := some t.startedAt }) = some row := hrow
      rw [hcommit, hinbox, lookup_overlay_singleton hnew]
      by_cases hid : id = row.id
      · subst hid
        exact Or.inr ⟨row, rfl, rfl, hrow, hunprocessed, hlock, if_pos rfl⟩
      · exact Or.inl (if_neg hid)

theorem Marks.marked_commit {row : InboxRow} (h : Marks s task t (some row)) :
    (s.commit t).db.inbox? row.id = some { row with processedAt := some t.startedAt } := by
  cases h with
  | marked _ htask hrow hunprocessed hlock hinbox =>
      have hnew : lookup InboxRow.id s.db.inbox
          (InboxRow.id { row with processedAt := some t.startedAt }) = some row := hrow
      show lookup InboxRow.id (overlay InboxRow.id t.inbox s.db.inbox) row.id = _
      rw [hinbox, lookup_overlay_singleton hnew, if_pos rfl]

theorem Ready.marks (h : Ready s task t) : ∃ inbox, Marks s task t inbox := by
  cases h with
  | quiet inbox hcalls hcampaigns hmarks hnotes => exact ⟨inbox, hmarks⟩
  | moves inbox before after event folds hmoves hfolds hmarks haudit => exact ⟨inbox, hmarks⟩

/-- A call that a commit changes is the one the transaction moved. -/
theorem Ready.call_changed (h : Ready s task t) {id : CallId} (hbefore : s.db.call? id = some before)
    (hafter : (s.commit t).db.call? id = some after) (hchanged : after ≠ before) :
    ∃ inbox event folds, Moves s task t inbox before after event ∧ Folds s t after folds ∧
      Marks s task t inbox ∧ t.audit.map AuditRow.event = event :: folds := by
  cases h with
  | quiet inbox hcalls hcampaigns hmarks hnotes =>
      rw [Shared.call?_commit_nil hcalls, hbefore] at hafter
      exact absurd (Option.some.inj hafter).symm hchanged
  | moves inbox old new event folds hmoves hfolds hmarks haudit =>
      rw [hmoves.call?_commit] at hafter
      split at hafter
      · next hid =>
          rw [hid, hmoves.row] at hbefore
          obtain rfl := Option.some.inj hbefore
          obtain rfl := Option.some.inj hafter
          exact ⟨inbox, event, folds, hmoves, hfolds, hmarks, haudit⟩
      · rw [hbefore] at hafter
        exact absurd (Option.some.inj hafter).symm hchanged

/-! ### The outcomes after a commit -/

theorem mem_outcomeEpochs_commit {id : CallId} {attemptEpoch : Nat} :
    attemptEpoch ∈ (s.commit t).db.outcomeEpochs id ↔ attemptEpoch ∈ s.db.outcomeEpochs id ∨
      ∃ event ∈ t.audit.map AuditRow.event, event.callId = some id ∧
        event.attemptEpoch = some attemptEpoch ∧ event.schedulesRetry = true := by
  rw [Db.mem_outcomeEpochs, Db.mem_outcomeEpochs]
  constructor
  · rintro ⟨row, hrow, hrecords⟩
    rcases List.mem_append.mp hrow with hold | hnew
    · exact Or.inl ⟨row, hold, hrecords⟩
    · exact Or.inr ⟨row.event, List.mem_map_of_mem hnew, hrecords⟩
  · rintro (⟨row, hrow, hrecords⟩ | ⟨_, hevent, hrecords⟩)
    · exact ⟨row, List.mem_append_left _ hrow, hrecords⟩
    · obtain ⟨row, hrow, rfl⟩ := List.mem_map.mp hevent
      exact ⟨row, List.mem_append_right _ hrow, hrecords⟩

/-- Notes record no outcome. -/
theorem outcomeEpochs_commit_notes (hnotes : ∀ row ∈ t.audit, row.event.isNote = true) (id : CallId) :
    (s.commit t).db.outcomeEpochs id = s.db.outcomeEpochs id := by
  ext attemptEpoch
  rw [mem_outcomeEpochs_commit, or_iff_left]
  rintro ⟨event, hevent, -, -, hschedules⟩
  obtain ⟨row, hrow, rfl⟩ := List.mem_map.mp hevent
  have hnote := hnotes row hrow
  rw [AuditEvent.schedulesRetry, Bool.and_eq_true, decide_eq_true_eq] at hschedules
  rw [AuditEvent.isNote, hschedules.1] at hnote
  simp at hnote

/-- Only the row of the call that is moved records an outcome, of the attempt it is at. -/
theorem Moves.mem_outcomeEpochs (h : Moves s task t inbox before after event) (hfolds : Folds s t after folds)
    (haudit : t.audit.map AuditRow.event = event :: folds) {id : CallId} {attemptEpoch : Nat} :
    attemptEpoch ∈ (s.commit t).db.outcomeEpochs id ↔ attemptEpoch ∈ s.db.outcomeEpochs id ∨
      (id = before.id ∧ attemptEpoch = after.attemptEpoch ∧ event.schedulesRetry = true) := by
  rw [mem_outcomeEpochs_commit, haudit]
  refine or_congr_right ⟨?_, ?_⟩
  · rintro ⟨other, hother, hcall, hepoch, hschedules⟩
    rcases List.mem_cons.mp hother with rfl | hfold
    · rw [h.cause.eventType.2.2] at hcall
      rw [h.cause.event_attemptEpoch] at hepoch
      exact ⟨(Option.some.inj hcall).symm, (Option.some.inj hepoch).symm, hschedules⟩
    · rw [(hfolds.events other hfold).2] at hcall
      cases hcall
  · rintro ⟨rfl, rfl, hschedules⟩
    exact ⟨event, List.mem_cons_self, h.cause.eventType.2.2, h.cause.event_attemptEpoch, hschedules⟩

/-- A commit takes nothing back. -/
theorem Ready.grows (h : Ready s task t) : Grows s (s.commit t) where
  now := le_rfl
  issued _ hentry := hentry
  audit := List.prefix_append _ _
  call id row hrow := by
    cases h with
    | quiet inbox hcalls hcampaigns hmarks hnotes =>
        exact ⟨row, (Shared.call?_commit_nil hcalls id).trans hrow, .refl row⟩
    | moves inbox before after event folds hmoves hfolds hmarks haudit =>
        rw [hmoves.call?_commit]
        by_cases hid : id = after.id
        · rw [hid, hmoves.row] at hrow
          obtain rfl := Option.some.inj hrow
          exact ⟨after, if_pos hid, hmoves.evolves⟩
        · exact ⟨row, (if_neg hid).trans hrow, .refl row⟩
  newCall id row' hrow' hnone := by
    cases h with
    | quiet inbox hcalls hcampaigns hmarks hnotes =>
        rw [Shared.call?_commit_nil hcalls, hnone] at hrow'
        cases hrow'
    | moves inbox before after event folds hmoves hfolds hmarks haudit =>
        rw [hmoves.call?_commit] at hrow'
        by_cases hid : id = after.id
        · rw [hid, hmoves.row] at hnone
          cases hnone
        · rw [if_neg hid, hnone] at hrow'
          cases hrow'
  campaign id row hrow := by
    cases h with
    | quiet inbox hcalls hcampaigns hmarks hnotes =>
        exact ⟨row, (Shared.campaign?_commit_nil hcampaigns id).trans hrow, .refl row⟩
    | moves inbox before after event folds hmoves hfolds hmarks haudit =>
        rcases hfolds.campaigns with hnil | ⟨old, new, hold, hnew, hevolves, -, hcampaigns⟩
        · exact ⟨row, (Shared.campaign?_commit_nil hnil id).trans hrow, .refl row⟩
        · rw [Shared.campaign?_commit_one (hnew ▸ hold) hcampaigns]
          by_cases hid : id = new.id
          · rw [hid, hnew, hold] at hrow
            obtain rfl := Option.some.inj hrow
            exact ⟨new, if_pos hid, hevolves⟩
          · exact ⟨row, (if_neg hid).trans hrow, .refl row⟩
  inbox id row hrow := by
    obtain ⟨inbox, hmarks⟩ := h.marks
    rcases hmarks.inbox?_commit id with hsame | ⟨old, -, -, hold, hunprocessed, -, hnew⟩
    · exact ⟨row, hsame.trans hrow, .refl row⟩
    · rw [hold] at hrow
      obtain rfl := Option.some.inj hrow
      exact ⟨_, hnew, rfl, fun h => absurd hunprocessed h⟩
  retries id row row' hrow hrow' hepoch := by
    by_cases hchanged : row' = row
    · rw [hchanged]
      exact Or.inl rfl
    · obtain ⟨inbox, event, folds, hmoves, -, -, haudit⟩ := h.call_changed hrow hrow' hchanged
      rcases hmoves.cause.retries hepoch with hsame | hrecords
      · exact Or.inl hsame
      · have hevent : event ∈ t.audit.map AuditRow.event := by
          rw [haudit]
          exact List.mem_cons_self ..
        rw [(lookup_some hrow).2] at hrecords
        exact Or.inr (mem_outcomeEpochs_commit.mpr (Or.inr ⟨event, hevent, hrecords⟩))
  outcomes id row row' hrow hrow' hepoch attemptEpoch hmem := by
    cases h with
    | quiet inbox hcalls hcampaigns hmarks hnotes =>
        rw [outcomeEpochs_commit_notes hnotes] at hmem
        exact Or.inr hmem
    | moves inbox before after event folds hmoves hfolds hmarks haudit =>
        rcases (hmoves.mem_outcomeEpochs hfolds haudit).mp hmem with hold | ⟨rfl, rfl, -⟩
        · exact Or.inr hold
        · rw [hmoves.call?_commit, if_pos hmoves.before_id] at hrow'
          exact Or.inl (Option.some.inj hrow' ▸ hepoch)

/-- Every coroutine that gets along with the transaction can count on what its commit leaves. -/
theorem Ready.rely {l o : Party} (h : Ready s l.task t) (hcompat : Compat l o)
    (htxn : l.txn = some t) : Rely o s (s.commit t) where
  toGrows := h.grows
  keepCall u hu id hlock row hrow := by
    cases h with
    | quiet inbox hcalls hcampaigns hmarks hnotes =>
        exact (Shared.call?_commit_nil hcalls id).trans hrow
    | moves inbox before after event folds hmoves hfolds hmarks haudit =>
        rw [hmoves.call?_commit, if_neg, hrow]
        rintro rfl
        exact hcompat.locks t htxn u hu _ hmoves.lock hlock
  keepCampaign u hu id hlock row hrow := by
    cases h with
    | quiet inbox hcalls hcampaigns hmarks hnotes =>
        exact (Shared.campaign?_commit_nil hcampaigns id).trans hrow
    | moves inbox before after event folds hmoves hfolds hmarks haudit =>
        rcases hfolds.campaigns with hnil | ⟨old, new, hold, hnew, -, hlock', hcampaigns⟩
        · exact (Shared.campaign?_commit_nil hnil id).trans hrow
        · have hne : id ≠ after.campaignId := by
            rintro rfl
            exact hcompat.locks t htxn u hu _ hlock' hlock
          exact (hfolds.campaign?_commit_of_ne hne).trans hrow
  keepLive u hu id hlock callId row row' hrow hid hrow' := by
    cases h with
    | quiet inbox hcalls hcampaigns hmarks hnotes =>
        rw [Shared.call?_commit_nil hcalls, hrow] at hrow'
        rw [Option.some.inj hrow']
    | moves inbox before after event folds hmoves hfolds hmarks haudit =>
        rw [hmoves.call?_commit] at hrow'
        by_cases hcall : callId = after.id
        · rw [if_pos hcall] at hrow'
          rw [hcall, hmoves.row] at hrow
          obtain rfl := Option.some.inj hrow
          obtain rfl := Option.some.inj hrow'
          rw [← hmoves.campaignId] at hid
          -- a terminal version is written under the campaign's lock, which `o` has
          have hafter : after.status.isTerminal = false := by
            by_contra hterminal
            rw [Bool.not_eq_false] at hterminal
            subst hid
            have hlock' : RowLock.campaign after.campaignId ∈ t.locks := by
              cases hfolds with
              | still hcampaigns hstarted hlive => exact (hlive hterminal).1
              | promoted campaign hrow hpending hlock hlive hcampaigns => exact hlock
              | rolledUp campaign counts hrow hactive hterminal hlast => exact hlast.lock
            exact hcompat.locks t htxn u hu _ hlock' hlock
          rw [hafter]
          cases hbefore : before.status.isTerminal with
          | false => rfl
          | true => rw [← hafter, hmoves.evolves.isTerminal hbefore, hbefore]
        · rw [if_neg hcall, hrow] at hrow'
          rw [Option.some.inj hrow']
  keepInbox u hu id hlock row hrow := by
    obtain ⟨inbox, hmarks⟩ := h.marks
    rcases hmarks.inbox?_commit id with hsame | ⟨old, -, -, -, -, hlock', -⟩
    · exact hsame.trans hrow
    · exact absurd hlock (hcompat.locks t htxn u hu _ hlock')
  keepPhone u hu version hversion hholds id row' hne hrow' hholds' hphone := by
    cases h with
    | quiet inbox hcalls hcampaigns hmarks hnotes =>
        rw [Shared.call?_commit_nil hcalls] at hrow'
        exact ⟨row', hrow', hholds'⟩
    | moves inbox before after event folds hmoves hfolds hmarks haudit =>
        rw [hmoves.call?_commit] at hrow'
        by_cases hid : id = after.id
        · rw [if_pos hid] at hrow'
          obtain rfl := Option.some.inj hrow'
          have hmem : after ∈ t.calls := by rw [hmoves.calls]; exact List.mem_singleton_self _
          exact absurd hphone (hcompat.phones t htxn u hu after hmem version hversion (hid ▸ hne)
            hholds' hholds)
        · rw [if_neg hid] at hrow'
          exact ⟨row', hrow', hholds'⟩

end VoiceCampaign

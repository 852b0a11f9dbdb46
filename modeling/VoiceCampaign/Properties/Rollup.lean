import VoiceCampaign.Model.Runs
import VoiceCampaign.Protocol.Reachable

/-!
# The status of a campaign

In every committed state, under any interleaving, the status of a campaign is the fold of its calls, and
the audit log has one row for each change of it.
-/

namespace VoiceCampaign

open Concurrency

/-- What the status of a campaign says about its calls, and the audit log about its status. -/
structure CampaignFolds (db : Db) (campaign : CampaignRow) : Prop where
  pending : campaign.status = .pending ↔
    ∀ call ∈ db.calls, call.campaignId = campaign.id → ¬ db.everClaimed call.id
  completed : campaign.status = .completed ↔
    (∀ call ∈ db.calls, call.campaignId = campaign.id → call.status.isTerminal = true) ∧
      ∃ call ∈ db.calls, call.campaignId = campaign.id ∧ call.status = .completed
  failed : campaign.status = .failed ↔
    (∀ call ∈ db.calls, call.campaignId = campaign.id → call.status.isTerminal = true) ∧
      ∀ call ∈ db.calls, call.campaignId = campaign.id → call.status ≠ .completed
  /-- Claimed before, and not all calls terminal. -/
  active : campaign.status = .active ↔
    (∃ call ∈ db.calls, call.campaignId = campaign.id ∧ db.everClaimed call.id) ∧
      ∃ call ∈ db.calls, call.campaignId = campaign.id ∧ call.status.isTerminal = false
  promoted : db.auditCount .campaignPromotedActive campaign.id =
    if campaign.status = .pending then 0 else 1
  rolledUp : db.auditCount .campaignCompleted campaign.id =
    if campaign.status.isTerminal = true then 1 else 0

theorem Consistent.campaignFolds {s : Shared} (h : Consistent s) {campaign : CampaignRow}
    (hcampaign : campaign ∈ s.db.campaigns) : CampaignFolds s.db campaign := by
  have hstatus := h.status campaign hcampaign
  have hpending : campaign.status = .pending ↔
      ∀ call ∈ s.db.calls, call.campaignId = campaign.id → ¬ s.db.everClaimed call.id := by
    rw [hstatus.pending]
    refine forall₃_congr fun call hcall _ => ?_
    rw [← h.claimed call hcall, Nat.pos_iff_ne_zero, not_not]
  have hfailed : campaign.status = .failed ↔
      (∀ call ∈ s.db.calls, call.campaignId = campaign.id → call.status.isTerminal = true) ∧
        ∀ call ∈ s.db.calls, call.campaignId = campaign.id → call.status ≠ .completed := by
    rw [hstatus.failed]
    exact and_congr Iff.rfl ⟨fun hnone call hcall howner he => hnone ⟨call, hcall, howner, he⟩,
      fun hnone ⟨call, hcall, howner, he⟩ => hnone call hcall howner he⟩
  refine ⟨hpending, hstatus.completed, hfailed, ?_, h.promoted campaign hcampaign,
    h.rolledUp campaign hcampaign⟩
  constructor
  · intro hactive
    refine ⟨?_, ?_⟩
    · by_contra hnone
      have := hpending.mpr fun call hcall howner hclaimed => hnone ⟨call, hcall, howner, hclaimed⟩
      rw [hactive] at this
      cases this
    · by_contra hnone
      have hall : s.db.allTerminal campaign.id := fun call hcall howner => by
        by_contra hlive
        rw [Bool.not_eq_true] at hlive
        exact hnone ⟨call, hcall, howner, hlive⟩
      by_cases hcompleted : s.db.someCompleted campaign.id
      · rw [hstatus.completed.mpr ⟨hall, hcompleted⟩] at hactive
        cases hactive
      · rw [hstatus.failed.mpr ⟨hall, hcompleted⟩] at hactive
        cases hactive
  · rintro ⟨⟨claimed, hclaimed, howner, hever⟩, live, hmem, howner', hlive⟩
    have hnot : campaign.status.isTerminal = false := h.not_terminal hmem hlive hcampaign howner'.symm
    cases hcase : campaign.status with
    | pending => exact absurd hever (hpending.mp hcase claimed hclaimed howner)
    | active => rfl
    | completed =>
        rw [hcase] at hnot
        cases hnot
    | failed =>
        rw [hcase] at hnot
        cases hnot

/-- Whatever ran, in whatever order, and whatever was rolled back. -/
theorem campaign_status_folds {deps : Deps} {s : Sys} (h : Reachable deps s) {campaign : CampaignRow}
    (hcampaign : campaign ∈ s.shared.db.campaigns) : CampaignFolds s.shared.db campaign :=
  h.consistent.campaignFolds hcampaign

/-- The one call is dialed, fails, and the campaign is rolled up. -/
theorem campaign_status_folds_one_call : ∃ s, Reachable noonDeps s ∧
    ∃ campaign, campaign ∈ s.shared.db.campaigns ∧ campaign.status = .failed ∧
      CampaignFolds s.shared.db campaign := by
  obtain ⟨s, hs, hfailed⟩ := Reachable.of_any noonDeps
    (dialOne ++ [.ingest (webhook "e" "h" .failed) 0 0] ++ runs 1 13)
    (fun s => s.shared.db.campaigns.any fun campaign => campaign.status = .failed)
    (by decide +kernel)
  obtain ⟨campaign, hcampaign, hstatus⟩ := List.any_eq_true.mp hfailed
  exact ⟨s, hs, campaign, hcampaign, of_decide_eq_true hstatus, campaign_status_folds hs hcampaign⟩

end VoiceCampaign

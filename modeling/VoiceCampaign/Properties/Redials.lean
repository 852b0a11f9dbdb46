import VoiceCampaign.Model.Runs
import VoiceCampaign.Protocol.Reachable

/-!
# Redials

How often a call is dialed: once, once more for each retry of its budget, and once more for each time a
sweep reclaimed it.
-/

namespace VoiceCampaign

/-- The retries of a call lie within the budget its campaign was created with, and so do its claims,
save for the reclaims. -/
structure RedialsBounded (db : Db) (call : CallRow) (maxAttempts : Nat) : Prop where
  retries : 0 ≤ call.retriesRemaining ∧ call.retriesRemaining ≤ maxAttempts
  claims : db.callAuditCount .claimed call.id ≤
    1 + maxAttempts + db.callAuditCount .reclaimExecuted call.id

theorem Db.Budgeted.redialsBounded {db : Db} {call : CallRow} {maxAttempts : Nat}
    (h : db.Budgeted call maxAttempts) (hsix : db.SixStatuses) :
    RedialsBounded db call maxAttempts := by
  refine ⟨⟨Nat.zero_le _, h.retries⟩, ?_⟩
  have hredials := h.redials hsix
  split at hredials <;> omega

/-- The inbox holds every event that was ever accepted. -/
theorem redials_bounded {deps : Deps} {s : Sys} (h : Reachable deps s) (hsix : s.shared.db.SixStatuses)
    {call : CallRow} (hcall : call ∈ s.shared.db.calls) {campaign : CampaignRow}
    (hcampaign : campaign ∈ s.shared.db.campaigns) (howner : campaign.id = call.campaignId) :
    RedialsBounded s.shared.db call campaign.retryConfig.maxAttempts :=
  (h.consistent.budget call hcall campaign hcampaign howner).redialsBounded hsix

instance (db : Db) : Decidable db.SixStatuses :=
  decidable_of_iff (db.inbox.all (fun row => match parseEvent row.payload with
    | .ok event => event.statusEnum ≠ .queued && event.statusEnum ≠ .retryPending
    | .error _ => true) = true) <| by
    rw [List.all_eq_true]
    refine forall₂_congr fun row _ => ?_
    cases parseEvent row.payload with
    | error error => simp
    | ok event => simp

/-- The one call is dialed, nobody answers, and it waits for its second dial. -/
theorem redials_bounded_one_call : ∃ s, Reachable noonDeps s ∧ s.shared.db.SixStatuses ∧
    ∃ call ∈ s.shared.db.calls, ∃ campaign ∈ s.shared.db.campaigns, campaign.id = call.campaignId ∧
      call.status = .retryPending ∧
      RedialsBounded s.shared.db call campaign.retryConfig.maxAttempts := by
  obtain ⟨s, hs, hp⟩ := Reachable.of_any noonDeps
    (dialOne ++ [.ingest (webhook "e" "h" .noAnswer) 0 0] ++ runs 1 13)
    (fun s => decide s.shared.db.SixStatuses && s.shared.db.calls.any fun call =>
      call.status = .retryPending && s.shared.db.campaigns.any fun campaign =>
        campaign.id = call.campaignId) (by decide +kernel)
  simp only [Bool.and_eq_true, List.any_eq_true, decide_eq_true_eq] at hp
  obtain ⟨hsix, call, hcall, hstatus, campaign, hcampaign, howner⟩ := hp
  exact ⟨s, hs, hsix, call, hcall, campaign, hcampaign, howner, hstatus,
    redials_bounded hs hsix hcall hcampaign howner⟩

end VoiceCampaign

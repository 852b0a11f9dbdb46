import VoiceCampaign.Model.Reads
import VoiceCampaign.Model.Runs
import VoiceCampaign.Protocol.Commits

/-!
# Tables that follow each other

A step leaves the campaigns and the calls where they stand in their tables, each moved on, and puts what is
new behind them. So the calls of a campaign can be followed one by one along a run.
-/

namespace VoiceCampaign

open Concurrency

section

variable {s s' : Shared} {l : Party}

/-- No process adds a campaign or a call. -/
theorem Guar.follows (h : Guar l s s') (hinv : Consistent s) :
    List.Forall₂ CampaignRow.Evolves s.db.campaigns s'.db.campaigns ∧
      List.Forall₂ CallRow.Evolves s.db.calls s'.db.calls := by
  have hcampaigns : List.Forall₂ CampaignRow.Evolves s.db.campaigns s.db.campaigns :=
    List.forall₂_same.mpr fun row _ => .refl row
  have hcalls : List.Forall₂ CallRow.Evolves s.db.calls s.db.calls := List.forall₂_same.mpr fun row _ => .refl row
  cases h with
  | quiet hdb _ _ => exact ⟨by rwa [hdb], by rwa [hdb]⟩
  | commit t htxn hready =>
      cases hready with
      | quiet inbox hnil hnone hmarks hnotes =>
          exact ⟨by rwa [Shared.campaigns_commit_nil hnone], by rwa [Shared.calls_commit_nil hnil]⟩
      | moves inbox before after event folds hmoves hfolds hmarks haudit =>
          constructor
          · rcases hfolds.campaigns with hnone | ⟨old, new, hold, hnew, hevolves, -, hone⟩
            · rwa [Shared.campaigns_commit_nil hnone]
            · show List.Forall₂ _ _ (overlay CampaignRow.id t.campaigns s.db.campaigns)
              refine forall₂_overlay .refl fun row hrow next hnext => ?_
              rw [hone] at hnext
              obtain ⟨hmem, hid⟩ := lookup_some hnext
              obtain rfl := List.mem_singleton.mp hmem
              rw [← hnew, hid] at hold
              obtain rfl := Option.some.inj ((lookup_of_mem hinv.campaignIds hrow).symm.trans hold)
              exact hevolves
          · show List.Forall₂ _ _ (overlay CallRow.id t.calls s.db.calls)
            refine forall₂_overlay .refl fun row hrow next hnext => ?_
            rw [hmoves.calls] at hnext
            obtain ⟨hmem, hid⟩ := lookup_some hnext
            obtain rfl := List.mem_singleton.mp hmem
            have hbefore := hmoves.row
            rw [hid, hinv.call?_of_mem hrow] at hbefore
            obtain rfl := Option.some.inj hbefore
            exact hmoves.evolves

end

/-- The calls of each campaign of `db` are those it has in `later`, moved on. -/
def Follows (db later : Db) : Prop :=
  ∀ campaign ∈ db.campaigns, List.Forall₂ CallRow.Evolves (db.callsOf campaign.id) (later.callsOf campaign.id)

theorem Follows.of_calls {db later : Db} (h : List.Forall₂ CallRow.Evolves db.calls later.calls) :
    Follows db later := by
  refine fun campaign _ => List.rel_filter (fun old new hevolves => ?_) h
  simp only [hevolves.campaignId]

theorem Follows.refl (db : Db) : Follows db db := .of_calls (List.forall₂_same.mpr fun row _ => .refl row)

theorem Follows.trans {s₁ s₂ s₃ : Shared} (h₁₂ : Follows s₁.db s₂.db) (hgrows : Grows s₁ s₂) (hinv : Consistent s₁)
    (h₂₃ : Follows s₂.db s₃.db) : Follows s₁.db s₃.db := by
  intro campaign hcampaign
  obtain ⟨next, hnext, hevolves⟩ := hgrows.campaign _ _ (lookup_of_mem hinv.campaignIds hcampaign)
  have hlater := h₂₃ next (lookup_some hnext).1
  rw [hevolves.id] at hlater
  refine forall₂_comp (R := CallRow.Evolves) (S := CallRow.Evolves) (fun _ _ _ => .trans) (h₁₂ campaign hcampaign) hlater

variable {deps : Deps} {s s' : Sys} {action : Action}

theorem Sys.World.follows {shared : Shared} (h : World deps s action shared) : Follows s.shared.db shared.db := by
  cases h with
  | elapse micros => exact .refl _
  | posted body createdAt campaignId callIds db hposted =>
      intro campaign hcampaign
      have hnone : (body.callRows createdAt campaignId callIds).filter
          (fun call => decide (call.campaignId = campaign.id)) = [] := by
        rw [List.filter_eq_nil_iff]
        intro call hcall howner
        exact hposted.freshCampaign campaign hcampaign
          ((of_decide_eq_true howner).symm.trans (hposted.queued call hcall).1)
      show List.Forall₂ _ (s.shared.db.callsOf campaign.id) (db.callsOf campaign.id)
      rw [Db.callsOf, Db.callsOf, hposted.calls, List.filter_append, hnone, List.append_nil]
      exact List.forall₂_same.mpr fun row _ => .refl row
  | ingested payload receivedAt inboxId db hingested =>
      refine .of_calls ?_
      show List.Forall₂ _ s.shared.db.calls db.calls
      rw [hingested.rest]
      exact List.forall₂_same.mpr fun row _ => .refl row
  | still _ _ _ => exact .refl _

theorem Reachable.follows (hs : Reachable deps s) (hstep : s.step deps action = some s') :
    Follows s.shared.db s'.shared.db := by
  rcases Sys.step_cases hstep with ⟨shared, hworld, rfl⟩ |
    ⟨index, choice, task, stmt, next, txn, reply, shared, txn', rfl, hprocess, hexec, rfl⟩ |
    ⟨index, process, rfl, hprocess, rfl⟩
  · exact hworld.follows
  · exact .of_calls ((hs.run hprocess hexec).2.2.follows hs.consistent).2
  · exact .refl _

/-- Along a run nothing is taken back, and the calls of a campaign follow each other. -/
theorem Reachable.onward {allowed : Sys → Action → Prop} (hs : Reachable deps s) (h : Continues deps allowed s s') :
    Reachable deps s' ∧ Grows s.shared s'.shared ∧ Follows s.shared.db s'.shared.db := by
  induction h with
  | refl => exact ⟨hs, .refl _, .refl _⟩
  | step action _ _ hstep ih =>
      obtain ⟨hreach, hgrows, hfollows⟩ := ih
      exact ⟨.step action hreach trivial hstep, hgrows.trans (hreach.grows hstep),
        hfollows.trans hgrows hs.consistent (hreach.follows hstep)⟩

end VoiceCampaign

import VoiceCampaign.Model.Reads
import VoiceCampaign.Model.Runs
import VoiceCampaign.Protocol.Reachable

/-!
# Statistics

The statuses of a campaign's calls add up. Its retries are read off the attempt epochs, which a reclaim
advances as well as a claim does, so that they count the redials of a campaign none of whose calls was
reclaimed.
-/

namespace VoiceCampaign

/-- Every call is completed, failed or in progress. -/
theorem stats_total (db : Db) (campaignId : CampaignId) :
    (db.stats campaignId).completed + (db.stats campaignId).failed + (db.stats campaignId).inProgress =
      (db.stats campaignId).total := by
  simp only [Db.stats]
  induction db.callsOf campaignId with
  | nil => rfl
  | cons call rest ih =>
      simp only [List.countP_cons, List.length_cons, ← ih]
      cases call.status <;> simp [CallStatus.isFailure, CallStatus.isLive] <;> omega

/-- The dials of a call beyond its first. -/
def Db.redials (db : Db) (callId : CallId) : Nat := db.callAuditCount .claimed callId - 1

theorem sum_map_le {α : Type} {items : List α} {f g : α → Nat} (h : ∀ item ∈ items, f item ≤ g item) :
    (items.map f).sum ≤ (items.map g).sum := by
  induction items with
  | nil => exact le_rfl
  | cons item rest ih =>
      have hrest := ih fun other hother => h other (List.mem_cons_of_mem _ hother)
      have hitem := h item List.mem_cons_self
      simp only [List.map_cons, List.sum_cons]
      omega

/-- Two sums of terms in order are equal only term by term. -/
theorem sum_map_eq_iff {α : Type} {items : List α} {f g : α → Nat} (h : ∀ item ∈ items, f item ≤ g item) :
    (items.map g).sum = (items.map f).sum ↔ ∀ item ∈ items, g item = f item := by
  induction items with
  | nil => simp
  | cons item rest ih =>
      have hrest : ∀ other ∈ rest, f other ≤ g other := fun other hother => h other (List.mem_cons_of_mem _ hother)
      have hle := sum_map_le hrest
      have hitem := h item List.mem_cons_self
      rw [List.forall_mem_cons, ← ih hrest, List.map_cons, List.map_cons, List.sum_cons, List.sum_cons]
      omega

section

variable {s : Shared} {call : CallRow}

/-- A call that was reclaimed had been claimed. -/
theorem Consistent.epoch (h : Consistent s) (hcall : call ∈ s.db.calls) :
    call.attemptEpoch = s.db.callAuditCount .claimed call.id + s.db.callAuditCount .reclaimExecuted call.id ∧
      (0 < call.attemptEpoch → 0 < s.db.callAuditCount .claimed call.id) := by
  obtain ⟨campaign, hcampaign, howner⟩ := h.owner call hcall
  refine ⟨(h.budget call hcall campaign hcampaign howner).epoch, fun hpos => ?_⟩
  obtain ⟨row, hrow, htype, hid⟩ := (h.claimed call hcall).mp hpos
  exact List.countP_pos_iff.mpr ⟨row, hrow, by simp [htype, hid]⟩

theorem Consistent.redials_le (h : Consistent s) (hcall : call ∈ s.db.calls) :
    s.db.redials call.id ≤ call.attemptEpoch - 1 := by
  rw [Db.redials, (h.epoch hcall).1]
  omega

/-- The epoch of a call tells its redials exactly if it was never reclaimed. -/
theorem Consistent.redials_iff (h : Consistent s) (hcall : call ∈ s.db.calls) :
    call.attemptEpoch - 1 = s.db.redials call.id ↔ s.db.callAuditCount .reclaimExecuted call.id = 0 := by
  obtain ⟨hepoch, hclaimed⟩ := h.epoch hcall
  rw [Db.redials, hepoch]
  rw [hepoch] at hclaimed
  omega

end

/-- The statistic counts the redials of a campaign exactly if none of its calls was ever reclaimed. -/
theorem retries_attempted_iff {deps : Deps} {s : Sys} (h : Reachable deps s) (campaignId : CampaignId) :
    (s.shared.db.stats campaignId).retriesAttempted =
        ((s.shared.db.callsOf campaignId).map fun call => s.shared.db.redials call.id).sum ↔
      ∀ call ∈ s.shared.db.callsOf campaignId, s.shared.db.callAuditCount .reclaimExecuted call.id = 0 := by
  have hmem : ∀ call ∈ s.shared.db.callsOf campaignId, call ∈ s.shared.db.calls := fun call hcall =>
    (List.mem_filter.mp hcall).1
  rw [Db.stats, sum_map_eq_iff fun call hcall => h.consistent.redials_le (hmem call hcall)]
  exact forall₂_congr fun call hcall => h.consistent.redials_iff (hmem call hcall)

/-- Nobody answers the one call, and it is dialed again. -/
theorem retries_attempted_iff_one_call : ∃ s, Reachable noonDeps s ∧
    (s.shared.db.stats 0).retriesAttempted = 1 ∧ (s.shared.db.stats 0).retriesAttempted =
      ((s.shared.db.callsOf 0).map fun call => s.shared.db.redials call.id).sum := by
  obtain ⟨s, hs, hp⟩ := Reachable.of_any noonDeps
    (dialOne ++ deliver 0 "e" .noAnswer 1 13 ++ [.elapse (60 * 1000000), .tick] ++ runs 2 23)
    (fun s => (s.shared.db.stats 0).retriesAttempted = 1 &&
      (s.shared.db.callsOf 0).all fun call => s.shared.db.callAuditCount .reclaimExecuted call.id = 0)
    (by decide +kernel)
  simp only [Bool.and_eq_true, List.all_eq_true, decide_eq_true_eq] at hp
  exact ⟨s, hs, hp.1, (retries_attempted_iff hs 0).mpr hp.2⟩

/-- The dial of the one call is stuck, and the sweep requeues it: one retry is reported, and no redial has
taken place. -/
theorem retries_attempted_reclaimed : ∃ s, Reachable noonDeps s ∧
    (s.shared.db.stats 0).retriesAttempted = 1 ∧
    ((s.shared.db.callsOf 0).map fun call => s.shared.db.redials call.id).sum = 0 := by
  obtain ⟨s, hs, hp⟩ := Reachable.of_any noonDeps
    (dialOne ++ [.elapse (631 * 1000000), .sweep] ++ runs 1 5)
    (fun s => (s.shared.db.stats 0).retriesAttempted = 1 &&
      ((s.shared.db.callsOf 0).map fun call => s.shared.db.redials call.id).sum = 0) (by decide +kernel)
  rw [Bool.and_eq_true, decide_eq_true_eq, decide_eq_true_eq] at hp
  exact ⟨s, hs, hp⟩

end VoiceCampaign

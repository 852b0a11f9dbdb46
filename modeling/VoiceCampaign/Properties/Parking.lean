import VoiceCampaign.Properties.RetriesFirst
import VoiceCampaign.Properties.Wake

/-!
# What the loop leaves behind when it waits

A tick dispatches one call, and one `notify` can stand for many free slots; so the loop may come to wait with the
flag down although another tick would claim a call.
-/

namespace VoiceCampaign

open Concurrency Program

/-- A tick by itself, started in `s`, claims nothing, wherever it ends. -/
def ClaimsNothing (deps : Deps) (s : Shared) : Prop := ∀ s', TickEnds deps s s' → Begins s.db.calls s'.db.calls none

/-- The campaign has a call left: a due retry whose phone is free, or no due retry and a new call to claim. -/
def Offers (s : Shared) (campaignId : CampaignId) : Prop :=
  (∃ call ∈ s.db.calls, call.requeueable campaignId s.now = true ∧ PhoneFree s.db.calls call) ∨
    (∀ call ∈ s.db.calls, call.requeueable campaignId s.now = false) ∧
      ∃ call ∈ s.db.calls, call.claimable campaignId s.now = true

section

variable {deps : Deps} {s s' : Shared} {campaign : CampaignRow}

/-- A tick claims a call only if it is the turn of a campaign that has one left. -/
theorem Ticks.offers {allowed : Choice → Prop} {calls' : List CallRow} (h : Ticks deps allowed s calls') :
    Begins s.db.calls calls' none ∨
      HoursKnown deps s ∧ ∃ campaign, ComesFirst deps s campaign ∧ Offers s campaign.id := by
  cases h with
  | idle _ hbegins => exact Or.inl hbegins
  | raised _ _ _ hbegins => exact Or.inl hbegins
  | fresh picked hpicks hdispatches =>
      cases hdispatches with
      | none _ hbegins => exact Or.inl hbegins
      | claimed choice call _ hfirst _ =>
          obtain ⟨hcall, hclaimable⟩ := List.mem_filter.mp (oldest_some hfirst).1
          obtain ⟨hknown, hturn, hretry⟩ := picks_eq_some hpicks
          refine Or.inr ⟨hknown, picked.campaign, hturn, Or.inr ⟨fun due hdue => ?_, call, hcall, hclaimable⟩⟩
          -- with a due retry it would be the turn of a retry
          refine Bool.not_eq_true _ ▸ fun hcan => ?_
          cases hretry.mpr ⟨_, hturn.candidate.gated, mem_retryDue_of_requeueable hdue hcan⟩
  | retried picked mid hpicks hrequeues hdispatches =>
      obtain ⟨hknown, hturn, -⟩ := picks_eq_some hpicks
      cases hrequeues with
      | moved choice retry _ hfirst hfree =>
          obtain ⟨hmem, hdue⟩ := List.mem_filter.mp (oldest_some hfirst).1
          exact Or.inr ⟨hknown, picked.campaign, hturn, Or.inl ⟨retry, hmem, hdue, hfree⟩⟩
      | none hnone =>
          cases hdispatches with
          | none _ hbegins => exact Or.inl hbegins
          | claimed choice call _ hfirst _ =>
              obtain ⟨hcall, hclaimable⟩ := List.mem_filter.mp (oldest_some hfirst).1
              exact Or.inr ⟨hknown, picked.campaign, hturn, Or.inr ⟨hnone, call, hcall, hclaimable⟩⟩

/-- Where it is the turn of a campaign that has a call left, a tick may claim one. -/
theorem exists_tick_claims (hinv : Consistent s) (hbatch : SameBatch s) (hknown : HoursKnown deps s)
    (hturn : ComesFirst deps s campaign) (hoffers : Offers s campaign.id) :
    ∃ s', TickEnds deps s s' ∧ ∃ call ∈ s.db.calls, Begins s.db.calls s'.db.calls (some call.id) := by
  obtain ⟨⟨picked, isRetry⟩, hpicks⟩ := Option.ne_none_iff_exists'.mp (picks_ne_none hknown hturn.candidate.gated)
  obtain ⟨-, hpicked, hretry⟩ := picks_eq_some hpicks
  obtain rfl : campaign = picked.campaign := hturn.unique hinv.campaignIds hpicked
  rcases hoffers with ⟨retry, hmem, hdue, hfree⟩ | hnew
  · obtain rfl : isRetry = true := hretry.mpr ⟨_, hturn.candidate.gated, mem_retryDue_of_requeueable hmem hdue⟩
    obtain ⟨pick, hfirst⟩ := exists_oldest_retry hbatch hmem hdue
    obtain ⟨s', hends, hdispatches⟩ := exists_tick_retried hinv hpicks { pick } {} hfirst hfree
    have hmoved : Requeues (fun _ => True) s.db.calls s.now picked.campaign.id _ :=
      .moved { pick } retry trivial hfirst hfree
    obtain ⟨served, hserved, hclaimable, hbegins⟩ := hdispatches.serves
      (mem_overlay_singleton.mpr (Or.inr ⟨rfl, retry, hmem, rfl⟩)) (claimable_requeued hdue)
    obtain ⟨before, hbefore, hid, -⟩ := hmoved.dispatchable hserved hclaimable
    refine ⟨s', hends, before, hbefore, (hmoved.begins hinv.callIds).after ?_⟩
    rw [hid]
    exact hbegins
  · obtain ⟨s', hends⟩ := exists_tickEnds deps hinv
    obtain ⟨served, hserved, -, hbegins⟩ :=
      (hends.ticks hinv).gives hinv.callIds ⟨{}, trivial⟩ hpicks (Or.inl hnew)
    exact ⟨s', hends, served, hserved, hbegins⟩

theorem claims_nothing_iff (hinv : Consistent s) (hbatch : SameBatch s) : ClaimsNothing deps s ↔
    (HoursKnown deps s → ∀ campaign, ComesFirst deps s campaign → ¬ Offers s campaign.id) := by
  constructor
  · intro h hknown campaign hturn hoffers
    obtain ⟨s', hends, call, hcall, hbegins⟩ := exists_tick_claims hinv hbatch hknown hturn hoffers
    cases hbegins.unique (h s' hends) hcall rfl
  · intro h s' hends
    rcases (hends.ticks hinv).offers with hnone | ⟨hknown, campaign, hturn, hoffers⟩
    · exact hnone
    · exact absurd hoffers (h hknown campaign hturn)

end

/-! ### The loop -/

namespace Service

variable {deps : Deps} {s s' : Service}

/-- The tick of the loop has returned, and the loop waits with the flag down. -/
structure Parks (deps : Deps) (s s' : Service) : Prop where
  step : s.step deps .ticked = some s'
  waiting : s'.loop = .waiting
  flag : s'.shared.wake = false

theorem Parks.shared (h : Parks deps s s') : s'.shared = s.shared := by
  obtain ⟨hstep, -, -⟩ := h
  rw [Service.step] at hstep
  split at hstep
  · split at hstep
    · exact Option.some.inj hstep ▸ rfl
    · exact Option.some.inj hstep ▸ rfl
    · cases hstep
  · cases hstep

theorem Reached.sameBatch (h : Reached deps s) : SameBatch s.shared := by
  obtain ⟨gone, w, -, hreachable⟩ := h.within
  exact hreachable.sameBatch

end Service

/-! ### Two slots -/

/-- Two calls that may be dialed at once. -/
def twoSlots : CampaignCreate := openPair atMostTwo twoRetries

/-- The campaign is posted, and the loop wakes up and runs one tick. -/
def dialFirst (body : CampaignCreate) (callIds : List CallId) : List Event :=
  [.post body 0 0 callIds, .resume false, .clear, .tick] ++ List.replicate 20 (.run 0 { place := .handle "h" })

/-- The state the loop parks in from `s`, if it does. -/
def Service.parked (deps : Deps) (s : Service) : Option Service :=
  (s.step deps .ticked).filter fun s' => s'.loop = .waiting && !s'.shared.wake

theorem Service.parks_of_parked {deps : Deps} {s s' : Service} (h : s.parked deps = some s') : Parks deps s s' := by
  obtain ⟨hstep, hp⟩ := Option.filter_eq_some_iff.mp h
  rw [Bool.and_eq_true, decide_eq_true_eq, Bool.not_eq_true'] at hp
  exact ⟨hstep, hp.1, hp.2⟩

end VoiceCampaign

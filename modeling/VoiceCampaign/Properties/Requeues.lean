import VoiceCampaign.Properties.Parking

/-!
# Due retries and the phone index

A call that waits for a retry is outside the partial unique index on phones, so a request can put its phone into
the index again; its requeue then violates the index, and so does every later one.
-/

namespace VoiceCampaign

open Concurrency Program

/-- The hours of the campaign can be evaluated at any time. -/
def CampaignRow.HoursEvaluate (deps : Deps) (campaign : CampaignRow) : Prop :=
  ∀ now, ∃ inside, isInWindow deps.zoneInfo campaign.schedule campaign.timezone now = .ok inside

/-- A request is for no phone of a call that waits for a retry, and for hours that can be evaluated. -/
def FreshPosts (deps : Deps) (s : Sys) : Action → Prop
  | .post body createdAt campaignId _ =>
      (∀ call ∈ s.shared.db.calls, call.status = .retryPending → call.phone ∉ body.phones) ∧
        (body.campaignRow deps.settings createdAt campaignId).HoursEvaluate deps
  | _ => True

/-- A retry can always be requeued, and a tick by itself that raises has claimed a call. -/
structure RetriesRequeue (deps : Deps) (s : Shared) : Prop where
  free : ∀ call ∈ s.db.calls, call.status = .retryPending → PhoneFree s.db.calls call
  claims : ∀ error s', Ends (solo fun _ => True) (tick deps) (s, none) (.error error) (s', none) →
    BeginsOne s.db.calls s'.db.calls

section

variable {deps : Deps}

/-- The calls that are not over have phones of their own, and the hours of every campaign can be evaluated. -/
structure Orderly (deps : Deps) (s : Shared) : Prop where
  phones : PhonesApart s.db.calls
  hours : ∀ campaign ∈ s.db.campaigns, campaign.HoursEvaluate deps

theorem mem_callRows {body : CampaignCreate} {createdAt : Time} {campaignId : CampaignId} {callIds : List CallId}
    {row : CallRow} (h : row ∈ body.callRows createdAt campaignId callIds) :
    row.campaignId = campaignId ∧ row.createdAt = createdAt ∧ row.phone ∈ body.phones := by
  obtain ⟨i, hi, rfl⟩ := List.getElem_of_mem h
  simp only [CampaignCreate.callRows, List.getElem_zipWith]
  exact ⟨rfl, rfl, List.getElem_mem _⟩

/-- The phone of a call that is not over is in flight, unless the call waits for a retry. -/
theorem CallStatus.holdsPhone_of_live {status : CallStatus} (hlive : status.isTerminal = false)
    (hwaits : status ≠ .retryPending) : status.holdsPhone = true := by
  cases status with
  | retryPending => exact absurd rfl hwaits
  | queued | dialing | inProgress => rfl
  | completed | failed | noAnswer | busy => cases hlive

theorem Orderly.posted {s s' : Shared} {others : List Txn} {body : CampaignCreate} {createdAt : Time}
    {campaignId : CampaignId} {callIds : List CallId} (h : Orderly deps s)
    (hposted : Posted others s.db s'.db (body.campaignRow deps.settings createdAt campaignId)
      (body.callRows createdAt campaignId callIds))
    (hinv : Consistent s)
    (hphones : ∀ call ∈ s.db.calls, call.status = .retryPending → call.phone ∉ body.phones)
    (hhours : (body.campaignRow deps.settings createdAt campaignId).HoursEvaluate deps) : Orderly deps s' := by
  have hapart : ∀ old ∈ s.db.calls, old.status.isTerminal = false →
      ∀ new ∈ body.callRows createdAt campaignId callIds, old.phone ≠ new.phone := by
    intro old hold hlive new hnew hphone
    by_cases hwaits : old.status = .retryPending
    · exact hphones old hold hwaits (hphone ▸ (mem_callRows hnew).2.2)
    · have huntaken := hposted.untaken new hnew
      rw [phoneTaken, List.any_eq_false] at huntaken
      refine huntaken old hold ?_
      simp [hposted.freshCalls old hold new hnew, hphone, CallStatus.holdsPhone_of_live hlive hwaits]
  constructor
  · intro a ha b hb hlive hlive' hphone
    rcases hposted.mem_calls.mp ha with holdA | hnewA <;> rcases hposted.mem_calls.mp hb with holdB | hnewB
    · exact h.phones a holdA b holdB hlive hlive' hphone
    · exact absurd hphone (hapart a holdA hlive b hnewB)
    · exact absurd hphone.symm (hapart b holdB hlive' a hnewA)
    · refine hposted.phones_apart hinv ha hb ?_ ?_ hphone
      · rw [(hposted.queued a hnewA).2.1]
        rfl
      · rw [(hposted.queued b hnewB).2.1]
        rfl
  · intro campaign hcampaign
    rcases hposted.mem_campaigns.mp hcampaign with hold | rfl
    · exact h.hours campaign hold
    · exact hhours

theorem Orderly.guar {l : Party} {s s' : Shared} (h : Orderly deps s) (hinv : Consistent s) (hguar : Guar l s s') :
    Orderly deps s' := by
  constructor
  · intro a ha b hb hlive hlive' hphone
    obtain ⟨a', ha', hevolves⟩ := hguar.origin hinv ha
    obtain ⟨b', hb', hevolves'⟩ := hguar.origin hinv hb
    have hback : ∀ {old new : CallRow}, old.Evolves new → new.status.isTerminal = false → old.status.isTerminal = false := by
      intro old new hevolves hnew
      by_contra hold
      rw [Bool.not_eq_false] at hold
      rw [hevolves.isTerminal hold, hold] at hnew
      cases hnew
    rw [hevolves.id, hevolves'.id]
    refine h.phones a' ha' b' hb' (hback hevolves hlive) (hback hevolves' hlive') ?_
    rw [← hevolves.phone, ← hevolves'.phone, hphone]
  · intro campaign hcampaign
    obtain ⟨old, hold, hevolves⟩ := hguar.campaign_origin hinv hcampaign
    rw [hevolves.config]
    exact h.hours old hold

theorem ReachableBy.orderly {s : Sys} (h : ReachableBy deps (FreshPosts deps) s) : Orderly deps s.shared := by
  induction h with
  | init now => exact ⟨nofun, nofun⟩
  | @step s s' action hs hallowed hstep ih =>
      rcases Sys.step_cases hstep with ⟨shared, hworld, rfl⟩ |
        ⟨index, choice, task, stmt, next, txn, reply, shared, txn', rfl, hprocess, hexec, rfl⟩ |
        ⟨index, process, rfl, hprocess, rfl⟩
      · cases hworld with
        | elapse micros => exact ⟨ih.phones, ih.hours⟩
        | posted body createdAt campaignId callIds db hposted =>
            exact Orderly.posted ih hposted.at_wake hs.reachable.consistent hallowed.1 hallowed.2
        | ingested payload receivedAt inboxId db hingested =>
            rw [hingested.rest]
            exact ⟨ih.phones, ih.hours⟩
        | still action hrun hcrash => exact ih
      · exact ih.guar hs.reachable.consistent (hs.reachable.run hprocess hexec).2.2
      · exact ih

/-- Where the calls that are not over have phones of their own, retries are requeued. -/
theorem Orderly.retriesRequeue {s : Shared} (h : Orderly deps s) (hinv : Consistent s) : RetriesRequeue deps s := by
  have hfree : ∀ call ∈ s.db.calls, call.status = .retryPending → PhoneFree s.db.calls call := by
    intro call hcall hwaits row hrow hne hholds hphone
    refine hne (h.phones row hrow call hcall (CallStatus.live_of_holdsPhone hholds) ?_ hphone)
    rw [hwaits]
    rfl
  refine ⟨hfree, fun error s' hends => ?_⟩
  obtain ⟨-, hraises⟩ := (Wp.of_ends (tick_leads deps hinv.callIds hinv.phones) hends).2 error rfl
  rcases hraises with ⟨raised, hhours⟩ | ⟨campaignId, choice, call, -, hfirst, hbusy⟩ | hbegun
  · have hknown : HoursKnown deps s := fun campaign hcampaign _ => h.hours campaign hcampaign s.now
    obtain ⟨hours, hsplit⟩ := splitByHours_ok (hoursKnown_iff.mp hknown)
    cases hhours.symm.trans hsplit
  · obtain ⟨hcall, hdue⟩ := List.mem_filter.mp (oldest_some hfirst).1
    exact absurd (hfree call hcall (requeueable_iff.mp hdue).2.1) hbusy
  · exact hbegun

/-- In every run in which no request takes a phone from a call that waits for a retry, retries are requeued. -/
theorem retries_requeue {s : Sys} (h : ReachableBy deps (FreshPosts deps) s) : RetriesRequeue deps s.shared :=
  h.orderly.retriesRequeue h.reachable.consistent

end

/-! ### One phone -/

/-- One call to a phone. -/
def oneShotTo (phone : String) : CampaignCreate := openCampaign atMostOne noRetries [phone] (List.cons_ne_nil _ _) (List.nodup_singleton _)

/-- Nobody answers the one call, and it waits for a retry that is due. -/
def unanswered : List Action := dialOne ++ deliver 0 "e" .noAnswer 1 13 ++ [.elapse (30 * 1000000)]

/-- What `FreshPosts` asks, where no clock matters. -/
def freshPosts (s : Sys) : Action → Bool
  | .post body createdAt campaignId _ =>
      (s.shared.db.calls.all fun call => call.status ≠ .retryPending || call.phone ∉ body.phones) &&
        (isInWindow noonDeps.zoneInfo (body.campaignRow noonDeps.settings createdAt campaignId).schedule body.timezone 0).isOk
  | _ => true

theorem freshPosts_of_check {s : Sys} {action : Action} (h : freshPosts s action = true) : FreshPosts noonDeps s action := by
  cases action with
  | post body createdAt campaignId callIds =>
      simp only [freshPosts, Bool.and_eq_true, List.all_eq_true, Bool.or_eq_true, decide_eq_true_eq] at h
      refine ⟨fun call hcall hwaits => (h.1 call hcall).resolve_left fun hne => hne hwaits, fun now => ?_⟩
      show ∃ inside, isInWindow noonDeps.zoneInfo (body.campaignRow noonDeps.settings createdAt campaignId).schedule
        body.timezone 0 = .ok inside
      cases hhours : isInWindow noonDeps.zoneInfo (body.campaignRow noonDeps.settings createdAt campaignId).schedule
          body.timezone 0 with
      | ok inside => exact ⟨inside, rfl⟩
      | error error =>
          rw [hhours] at h
          cases h.2
  | _ => trivial

/-- Another phone is posted while the call waits. -/
theorem retries_requeue_two_phones : ∃ s, ReachableBy noonDeps (FreshPosts noonDeps) s ∧
    (∃ call ∈ s.shared.db.calls, call.status = .retryPending) ∧ RetriesRequeue noonDeps s.shared := by
  obtain ⟨s, hs, hp⟩ := ReachableBy.of_any noonDeps freshPosts (unanswered ++ [.post (oneShotTo "+2") 0 1 [1]])
    (fun s => s.shared.db.calls.any fun call => call.status = .retryPending) (by decide +kernel)
  simp only [List.any_eq_true, decide_eq_true_eq] at hp
  have hreach : ReachableBy noonDeps (FreshPosts noonDeps) s := hs.mono fun _ _ h => freshPosts_of_check h
  exact ⟨s, hreach, hp, retries_requeue hreach⟩

/-- The phone of the call that waits is posted again: its requeue violates the index, and no tick gets past it to the
new call. -/
theorem retries_requeue_one_phone : ∃ s, Reachable noonDeps s ∧ s.txns = [] ∧
    (∃ campaign, HasWork noonDeps s.shared campaign ∧ ∃ call ∈ s.shared.db.calls,
      call.claimable campaign.id s.shared.now = true) ∧
    ClaimsNothing noonDeps s.shared ∧ ¬ RetriesRequeue noonDeps s.shared := by
  obtain ⟨s, hs, hp⟩ := Reachable.of_any noonDeps (unanswered ++ [.post (oneShotTo "+1") 0 1 [1]])
    (fun s => s.txns.isEmpty && (s.shared.db.campaigns.any fun campaign => hasWork noonDeps s.shared campaign &&
        s.shared.db.calls.any fun call => call.claimable campaign.id s.shared.now) &&
      (picks noonDeps s.shared).any fun pick => s.shared.db.calls.any fun call =>
        call.requeueable pick.1.campaign.id s.shared.now && s.shared.db.calls.all fun call =>
          !call.requeueable pick.1.campaign.id s.shared.now || !decide (PhoneFree s.shared.db.calls call))
    (by decide +kernel)
  simp only [Bool.and_eq_true, List.isEmpty_iff, Option.any_eq_true, List.any_eq_true, List.all_eq_true, Bool.or_eq_true,
    Bool.not_eq_true', decide_eq_false_iff_not] at hp
  obtain ⟨⟨hidle, campaign, hcampaign, hwork, hnew⟩, ⟨picked, isRetry⟩, hpicks, call, hcall, hdue, hbusy⟩ := hp
  have hbusy : ∀ call ∈ s.shared.db.calls, call.requeueable picked.campaign.id s.shared.now = true →
      ¬ PhoneFree s.shared.db.calls call := by
    intro call hcall hdue
    exact (hbusy call hcall).resolve_left (by simp [hdue])
  refine ⟨s, hs, hidle, ⟨campaign, hasWork_iff.mp ⟨hcampaign, hwork⟩, hnew⟩, ?_, ?_⟩
  · refine (claims_nothing_iff hs.consistent hs.sameBatch).mpr fun _ first hturn => ?_
    obtain rfl : first = picked.campaign := hturn.unique hs.consistent.campaignIds (picks_eq_some hpicks).2.1
    rintro (⟨retry, hretry, hcan, hfree⟩ | ⟨hnone, -⟩)
    · exact hbusy retry hretry hcan hfree
    · exact absurd hdue (by simp [hnone call hcall])
  · exact fun h => hbusy call hcall hdue (h.free call hcall (requeueable_iff.mp hdue).2.1)

end VoiceCampaign

import VoiceCampaign.Model.Runs
import VoiceCampaign.Properties.DueRetries
import VoiceCampaign.Protocol.Reachable
import VoiceCampaign.Protocol.Turns

/-!
# What a tick makes of the work there is

A tick by itself serves the campaign whose turn it is. Whether it is a campaign with a call to dial, and which
of its calls is claimed, are different questions.
-/

namespace VoiceCampaign

open Concurrency Program

/-- `QUEUED` or waiting for a retry, and due. -/
def CallRow.dispatchable (campaignId : CampaignId) (now : Time) (call : CallRow) : Bool :=
  call.claimable campaignId now || call.requeueable campaignId now

/-- The campaign could have a call dialed now. -/
structure HasWork (deps : Deps) (s : Shared) (campaign : CampaignRow) : Prop where
  mem : campaign ∈ s.db.campaigns
  live : campaign.status.isTerminal = false
  inHours : isInWindow deps.zoneInfo campaign.schedule campaign.timezone s.now = .ok true
  belowCap : s.db.inFlightCount campaign.id < campaign.maxConcurrent
  work : ∃ call ∈ s.db.calls, call.dispatchable campaign.id s.now = true

/-- A tick by itself, started in `s`, may end in `s'`. -/
def TickEnds (deps : Deps) (s s' : Shared) : Prop :=
  ∃ result, Ends (solo fun _ => True) (tick deps) (s, none) result (s', none)

/-- One call is claimed, of a campaign that has work, when there is such a campaign, and none otherwise. -/
def WorkConserving (deps : Deps) (s : Shared) : Prop := ∀ s', TickEnds deps s s' →
  ((∃ campaign, HasWork deps s campaign) → ∃ campaign call, HasWork deps s campaign ∧ call ∈ s.db.calls ∧
    call.campaignId = campaign.id ∧ Begins s.db.calls s'.db.calls (some call.id)) ∧
  ((¬ ∃ campaign, HasWork deps s campaign) → Begins s.db.calls s'.db.calls none)

/-- No two calls that are not over share a phone. -/
def PhonesApart (calls : List CallRow) : Prop := ∀ a ∈ calls, ∀ b ∈ calls, a.status.isTerminal = false →
  b.status.isTerminal = false → a.phone = b.phone → a.id = b.id

/-! ### Calls -/

theorem CallStatus.live_of_holdsPhone {status : CallStatus} (hholds : status.holdsPhone = true) :
    status.isTerminal = false := by
  cases status with
  | queued | dialing | inProgress => rfl
  | retryPending | completed | failed | noAnswer | busy => cases hholds

section

variable {calls calls' : List CallRow} {call : CallRow} {campaignId : CampaignId} {now : Time}

theorem claimable_iff : call.claimable campaignId now = true ↔
    call.campaignId = campaignId ∧ call.status = .queued ∧ call.dueOrUnset now = true := by
  rw [CallRow.claimable, Bool.and_eq_true, Bool.and_eq_true, decide_eq_true_eq, decide_eq_true_eq, and_assoc]

theorem requeueable_iff : call.requeueable campaignId now = true ↔
    call.campaignId = campaignId ∧ call.status = .retryPending ∧ call.due now = true := by
  rw [CallRow.requeueable, Bool.and_eq_true, Bool.and_eq_true, decide_eq_true_eq, decide_eq_true_eq, and_assoc]

theorem CallRow.dueOrUnset_of_due (h : call.due now = true) : call.dueOrUnset now = true := by
  rw [CallRow.due] at h
  rw [CallRow.dueOrUnset]
  split <;> simp_all

/-- A retry that was moved back to `QUEUED` can be claimed. -/
theorem claimable_requeued (h : call.requeueable campaignId now = true) :
    ((retryDueTransition call).set now call).claimable campaignId now = true := by
  obtain ⟨howner, -, hdue⟩ := requeueable_iff.mp h
  exact claimable_iff.mpr ⟨howner, rfl, CallRow.dueOrUnset_of_due hdue⟩

theorem dispatchable_owner (h : call.dispatchable campaignId now = true) : call.campaignId = campaignId := by
  rcases Bool.or_eq_true_iff.mp h with h | h
  · exact (claimable_iff.mp h).1
  · exact (requeueable_iff.mp h).1

/-- The attempts of a state and a later one tell which attempt has begun. -/
theorem Begins.unique {begun begun' : Option CallId} (h : Begins calls calls' begun) (h' : Begins calls calls' begun')
    (hcall : call ∈ calls) (hbegun : begun = some call.id) : begun' = some call.id := by
  obtain ⟨after, hafter, hepoch⟩ := h call hcall
  obtain ⟨after', hafter', hepoch'⟩ := h' call hcall
  obtain rfl := Option.some.inj (hafter.symm.trans hafter')
  by_contra hne
  rw [if_pos hbegun] at hepoch
  rw [if_neg hne] at hepoch'
  omega

/-- A call that can be claimed after the requeue could be dialed before. -/
theorem Requeues.dispatchable {allowed : Choice → Prop} (h : Requeues allowed calls now campaignId calls')
    (hcall : call ∈ calls') (hclaimable : call.claimable campaignId now = true) :
    ∃ before ∈ calls, before.id = call.id ∧ before.dispatchable campaignId now = true := by
  cases h with
  | none _ => exact ⟨call, hcall, rfl, Bool.or_eq_true_iff.mpr (Or.inl hclaimable)⟩
  | moved choice moved _ hfirst _ =>
      rcases mem_overlay_singleton.mp hcall with ⟨hold, -⟩ | ⟨rfl, -⟩
      · exact ⟨call, hold, rfl, Bool.or_eq_true_iff.mpr (Or.inl hclaimable)⟩
      · obtain ⟨hmoved, hdue⟩ := List.mem_filter.mp (oldest_some hfirst).1
        exact ⟨moved, hmoved, rfl, Bool.or_eq_true_iff.mpr (Or.inr hdue)⟩

end

/-! ### What a tick claims -/

section

variable {deps : Deps} {allowed : Choice → Prop} {s s' : Shared} {calls' : List CallRow}
  {picked : CampaignRowWithCursor} {campaign : CampaignRow}

theorem HasWork.gated (h : HasWork deps s campaign) : Gated deps s campaign := by
  refine ⟨h.mem, ?_, h.inHours, h.belowCap⟩
  obtain ⟨call, hcall, hwork⟩ := h.work
  rw [Db.eligible, Bool.and_eq_true, List.any_eq_true, h.live]
  refine ⟨rfl, call, hcall, ?_⟩
  rw [Bool.and_eq_true, Bool.or_eq_true, decide_eq_true_eq, decide_eq_true_eq, decide_eq_true_eq]
  refine ⟨dispatchable_owner hwork, ?_⟩
  rcases Bool.or_eq_true_iff.mp hwork with h | h
  · exact Or.inl (claimable_iff.mp h).2.1
  · exact Or.inr (requeueable_iff.mp h).2.1

theorem Gated.hasWork (h : Gated deps s campaign) {call : CallRow} (hcall : call ∈ s.db.calls)
    (hwork : call.dispatchable campaign.id s.now = true) : HasWork deps s campaign := by
  have hlive := (Bool.and_eq_true_iff.mp h.eligible).1
  exact ⟨h.mem, by simpa using hlive, h.inHours, h.belowCap, call, hcall, hwork⟩

/-- A due retry is one by the notion of the pick, too. -/
theorem mem_retryDue_of_requeueable {call : CallRow} (hcall : call ∈ s.db.calls)
    (h : call.requeueable campaign.id s.now = true) : campaign.id ∈ s.db.findRetryDueCampaignIds s.now := by
  obtain ⟨howner, hstatus, hdue⟩ := requeueable_iff.mp h
  refine mem_findRetryDueCampaignIds.mpr ⟨call, hcall, howner, ?_⟩
  rw [CallRow.retryDue, Bool.and_eq_true, decide_eq_true_eq]
  exact ⟨hstatus, CallRow.dueOrUnset_of_due hdue⟩

/-- What a tick claims is a call of the campaign it has picked, which could be dialed at its start. -/
theorem Ticks.claimed (h : Ticks deps allowed s calls') (hids : (s.db.calls.map CallRow.id).Nodup) :
    Begins s.db.calls calls' none ∨ ∃ picked isRetry call, picks deps s = some (picked, isRetry) ∧ call ∈ s.db.calls ∧
      call.dispatchable picked.campaign.id s.now = true ∧ Begins s.db.calls calls' (some call.id) := by
  cases h with
  | idle _ hbegins => exact Or.inl hbegins
  | raised _ _ _ hbegins => exact Or.inl hbegins
  | fresh picked hpicks hdispatches =>
      cases hdispatches with
      | none _ hbegins => exact Or.inl hbegins
      | claimed choice call _ hfirst hbegins =>
          obtain ⟨hcall, hclaimable⟩ := List.mem_filter.mp (oldest_some hfirst).1
          exact Or.inr ⟨picked, false, call, hpicks, hcall, Bool.or_eq_true_iff.mpr (Or.inl hclaimable), hbegins⟩
  | retried picked mid hpicks hrequeues hdispatches =>
      cases hdispatches with
      | none _ hbegins => exact Or.inl ((hrequeues.begins hids).after hbegins)
      | claimed choice call _ hfirst hbegins =>
          obtain ⟨hcall, hclaimable⟩ := List.mem_filter.mp (oldest_some hfirst).1
          obtain ⟨before, hbefore, hid, hwork⟩ := hrequeues.dispatchable hcall hclaimable
          refine Or.inr ⟨picked, true, before, hpicks, hbefore, hwork, (hrequeues.begins hids).after ?_⟩
          rw [hid]
          exact hbegins

/-- The campaign has a call to give: one that can be claimed and no due retry, or a due retry, the oldest one,
whose phone is free. -/
def Gives (allowed : Choice → Prop) (s : Shared) (campaignId : CampaignId) : Prop :=
  (∀ call ∈ s.db.calls, call.requeueable campaignId s.now = false) ∧
      (∃ call ∈ s.db.calls, call.claimable campaignId s.now = true) ∨
    ∀ choice, allowed choice → ∃ call,
      oldest CallRow.createdAt choice.pick (s.db.calls.filter (CallRow.requeueable campaignId s.now)) = some call ∧
        PhoneFree s.db.calls call

theorem Dispatches.serves {calls : List CallRow} {now : Time} {campaignId : CampaignId}
    (h : Dispatches allowed calls now campaignId calls') {call : CallRow} (hcall : call ∈ calls)
    (hclaimable : call.claimable campaignId now = true) : ∃ call ∈ calls, call.claimable campaignId now = true ∧
      Begins calls calls' (some call.id) := by
  cases h with
  | none hnone _ => exact absurd hclaimable (by simp [hnone call hcall])
  | claimed choice first _ hfirst hbegins =>
      obtain ⟨hmem, hclaimable⟩ := List.mem_filter.mp (oldest_some hfirst).1
      exact ⟨first, hmem, hclaimable, hbegins⟩

/-- A tick claims a call of the campaign it picks, if that has one to give. -/
theorem Ticks.gives (h : Ticks deps allowed s calls') (hids : (s.db.calls.map CallRow.id).Nodup)
    (hallowed : ∃ choice, allowed choice) {isRetry : Bool} (hpicks : picks deps s = some (picked, isRetry))
    (hgives : Gives allowed s picked.campaign.id) : ∃ call ∈ s.db.calls,
      call.dispatchable picked.campaign.id s.now = true ∧ Begins s.db.calls calls' (some call.id) := by
  have hfound : ∀ {choice : Choice} {call : CallRow}, oldest CallRow.createdAt choice.pick
      (s.db.calls.filter (CallRow.requeueable picked.campaign.id s.now)) = some call →
      call ∈ s.db.calls ∧ call.requeueable picked.campaign.id s.now = true :=
    fun hfirst => List.mem_filter.mp (oldest_some hfirst).1
  cases h with
  | idle hnone _ => cases hnone.symm.trans hpicks
  | fresh picked' hpicks' hdispatches =>
      obtain ⟨rfl, rfl⟩ := Prod.mk.inj (Option.some.inj (hpicks'.symm.trans hpicks))
      obtain ⟨-, hturn, hretry⟩ := picks_eq_some hpicks
      rcases hgives with ⟨-, call, hcall, hclaimable⟩ | hoffers
      · obtain ⟨first, hfirst, hclaimable, hbegins⟩ := hdispatches.serves hcall hclaimable
        exact ⟨first, hfirst, Bool.or_eq_true_iff.mpr (Or.inl hclaimable), hbegins⟩
      · -- with a due retry it would be the turn of a retry
        obtain ⟨choice, hchoice⟩ := hallowed
        obtain ⟨call, hfirst, -⟩ := hoffers choice hchoice
        obtain ⟨hcall, hdue⟩ := hfound hfirst
        cases hretry.mpr ⟨_, hturn.candidate.gated, mem_retryDue_of_requeueable hcall hdue⟩
  | retried picked' mid hpicks' hrequeues hdispatches =>
      obtain ⟨rfl, rfl⟩ := Prod.mk.inj (Option.some.inj (hpicks'.symm.trans hpicks))
      have hclaimable : ∃ call ∈ mid, call.claimable picked'.campaign.id s.now = true := by
        cases hrequeues with
        | none hnone =>
            rcases hgives with ⟨-, hclaimable⟩ | hoffers
            · exact hclaimable
            · obtain ⟨choice, hchoice⟩ := hallowed
              obtain ⟨call, hfirst, -⟩ := hoffers choice hchoice
              obtain ⟨hcall, hdue⟩ := hfound hfirst
              exact absurd hdue (by simp [hnone call hcall])
        | moved choice call _ hfirst _ =>
            obtain ⟨hcall, hdue⟩ := hfound hfirst
            exact ⟨_, mem_overlay_singleton.mpr (Or.inr ⟨rfl, call, hcall, rfl⟩), claimable_requeued hdue⟩
      obtain ⟨call, hcall, hclaimable⟩ := hclaimable
      obtain ⟨first, hfirst, hclaimable, hbegins⟩ := hdispatches.serves hcall hclaimable
      obtain ⟨before, hbefore, hid, hwork⟩ := hrequeues.dispatchable hfirst hclaimable
      refine ⟨before, hbefore, hwork, (hrequeues.begins hids).after ?_⟩
      rw [hid]
      exact hbegins
  | raised picked' hpicks' hraises _ =>
      obtain ⟨rfl, rfl⟩ := Prod.mk.inj (Option.some.inj (hpicks'.symm.trans hpicks))
      obtain ⟨choice, call, hchoice, hfirst, hbusy⟩ := hraises
      rcases hgives with ⟨hnone, -⟩ | hoffers
      · obtain ⟨hcall, hdue⟩ := hfound hfirst
        exact absurd hdue (by simp [hnone call hcall])
      · obtain ⟨call', hfirst', hfree⟩ := hoffers choice hchoice
        obtain rfl := Option.some.inj (hfirst.symm.trans hfirst')
        exact absurd hfree hbusy

/-! ### Work conservation -/

theorem TickEnds.ticks (hinv : Consistent s) (h : TickEnds deps s s') : Ticks deps (fun _ => True) s s'.db.calls := by
  obtain ⟨result, hends⟩ := h
  obtain ⟨hok, herror⟩ := Wp.of_ends (tick_leads deps hinv.callIds hinv.phones) hends
  cases result with
  | ok decision => exact (hok decision rfl).2
  | error error => exact (herror error rfl).1.2

theorem exists_tickEnds (deps : Deps) (hinv : Consistent s) : ∃ s', TickEnds deps s s' := by
  obtain ⟨result, ⟨s', txn⟩, hends⟩ := Wp.exists_ends
    (@tick_leads (fun _ => True) s deps hinv.callIds hinv.phones) ⟨{}, trivial⟩
  obtain ⟨hok, herror⟩ := Wp.of_ends (@tick_leads (fun _ => True) s deps hinv.callIds hinv.phones) hends
  have hclosed : txn = none := by
    cases result with
    | ok decision => exact (hok decision rfl).1.closed
    | error error => exact (herror error rfl).1.1.closed
  exact ⟨s', result, hclosed ▸ hends⟩

/-- No phone of a call with work is in flight elsewhere, so the campaign has a call to give. -/
theorem HasWork.gives (h : HasWork deps s campaign) (hphones : PhonesApart s.db.calls) :
    Gives (fun _ => True) s campaign.id := by
  by_cases hdue : ∃ call ∈ s.db.calls, call.requeueable campaign.id s.now = true
  · refine Or.inr fun choice _ => ?_
    obtain ⟨call, hcall, hdue⟩ := hdue
    obtain ⟨first, hfirst⟩ := @exists_oldest _ CallRow.createdAt _ choice.pick
      (List.ne_nil_of_mem (List.mem_filter.mpr ⟨hcall, hdue⟩))
    obtain ⟨hmem, hdue⟩ := List.mem_filter.mp (oldest_some hfirst).1
    refine ⟨first, hfirst, fun row hrow hne hholds hphone => hne ?_⟩
    refine hphones row hrow first hmem ?_ ?_ hphone
    · exact CallStatus.live_of_holdsPhone hholds
    · rw [(requeueable_iff.mp hdue).2.1]
      rfl
  · have hnone : ∀ call ∈ s.db.calls, call.requeueable campaign.id s.now = false := fun call hcall =>
      Bool.not_eq_true _ ▸ fun hcan => hdue ⟨call, hcall, hcan⟩
    obtain ⟨call, hcall, hwork⟩ := h.work
    rw [CallRow.dispatchable, hnone call hcall, Bool.or_false] at hwork
    exact Or.inl ⟨hnone, call, hcall, hwork⟩

/-- A tick that conserves work serves a campaign that has work, so it is the turn of one. -/
theorem WorkConserving.turn (h : WorkConserving deps s) (hinv : Consistent s)
    (hwork : ∃ campaign, HasWork deps s campaign) :
    HoursKnown deps s ∧ ∃ campaign, ComesFirst deps s campaign ∧ HasWork deps s campaign := by
  obtain ⟨s', hends⟩ := exists_tickEnds deps hinv
  obtain ⟨-, call, -, hcall, -, hbegins⟩ := (h s' hends).1 hwork
  rcases (hends.ticks hinv).claimed hinv.callIds with hnone | ⟨picked, isRetry, served, hpicks, hserved, hcan, -⟩
  · cases hbegins.unique hnone hcall rfl
  · obtain ⟨hknown, hturn, -⟩ := picks_eq_some hpicks
    exact ⟨hknown, picked.campaign, hturn, hturn.candidate.gated.hasWork hserved hcan⟩

/-- A tick conserves work exactly when the campaign whose turn it is has work, provided that any has. -/
theorem work_conserving_iff {sys : Sys} (hs : Reachable deps sys) (hphones : PhonesApart sys.shared.db.calls) :
    WorkConserving deps sys.shared ↔ ((∃ campaign, HasWork deps sys.shared campaign) →
      HoursKnown deps sys.shared ∧
        ∃ campaign, ComesFirst deps sys.shared campaign ∧ HasWork deps sys.shared campaign) := by
  have hinv := hs.consistent
  refine ⟨fun h hwork => h.turn hinv hwork, fun h s' hends => ⟨fun hwork => ?_, fun hnone => ?_⟩⟩
  · obtain ⟨hknown, campaign, hturn, hwork⟩ := h hwork
    have hticks := hends.ticks hinv
    obtain ⟨⟨picked, isRetry⟩, hpicks⟩ := Option.ne_none_iff_exists'.mp (picks_ne_none hknown hwork.gated)
    obtain rfl : campaign = picked.campaign := hturn.unique hinv.campaignIds (picks_eq_some hpicks).2.1
    obtain ⟨call, hcall, hcan, hbegins⟩ := hticks.gives hinv.callIds ⟨{}, trivial⟩ hpicks (hwork.gives hphones)
    exact ⟨picked.campaign, call, hwork, hcall, dispatchable_owner hcan, hbegins⟩
  · rcases (hends.ticks hinv).claimed hinv.callIds with hbegins | ⟨picked, isRetry, served, hpicks, hserved, hcan, -⟩
    · exact hbegins
    · exact absurd ⟨_, (picks_eq_some hpicks).2.1.candidate.gated.hasWork hserved hcan⟩ hnone

end

instance (calls : List CallRow) : Decidable (PhonesApart calls) :=
  inferInstanceAs (Decidable (∀ a ∈ calls, ∀ b ∈ calls, a.status.isTerminal = false →
    b.status.isTerminal = false → a.phone = b.phone → a.id = b.id))

/-- What `HasWork` asks of a campaign that there is. -/
def hasWork (deps : Deps) (s : Shared) (campaign : CampaignRow) : Bool :=
  !campaign.status.isTerminal &&
    decide (isInWindow deps.zoneInfo campaign.schedule campaign.timezone s.now = .ok true) &&
      decide (s.db.inFlightCount campaign.id < campaign.maxConcurrent) &&
        s.db.calls.any fun call => call.dispatchable campaign.id s.now

theorem hasWork_iff {deps : Deps} {s : Shared} {campaign : CampaignRow} :
    campaign ∈ s.db.campaigns ∧ hasWork deps s campaign = true ↔ HasWork deps s campaign := by
  simp only [hasWork, Bool.and_eq_true, Bool.not_eq_true', decide_eq_true_eq, List.any_eq_true]
  exact ⟨fun ⟨hmem, ⟨⟨hlive, hhours⟩, hcap⟩, hwork⟩ => ⟨hmem, hlive, hhours, hcap, hwork⟩,
    fun ⟨hmem, hlive, hhours, hcap, hwork⟩ => ⟨hmem, ⟨⟨hlive, hhours⟩, hcap⟩, hwork⟩⟩

/-- The campaign that a tick would pick has a call that could be dialed. -/
def picksWork (deps : Deps) (s : Shared) : Bool :=
  (picks deps s).any fun pick => s.db.calls.any fun call => call.dispatchable pick.1.campaign.id s.now

theorem turn_of_picksWork {deps : Deps} {s : Shared} (h : picksWork deps s = true) : HoursKnown deps s ∧
    ∃ campaign, ComesFirst deps s campaign ∧ HasWork deps s campaign := by
  obtain ⟨⟨picked, isRetry⟩, hpicks, hcalls⟩ := (Option.any_eq_true _ _).mp h
  obtain ⟨call, hcall, hcan⟩ := List.any_eq_true.mp hcalls
  obtain ⟨hknown, hturn, -⟩ := picks_eq_some hpicks
  exact ⟨hknown, picked.campaign, hturn, hturn.candidate.gated.hasWork hcall hcan⟩

/-- The one campaign that there is gets its call dialed. -/
theorem work_conserving_one_call : ∃ s, Reachable noonDeps s ∧ PhonesApart s.shared.db.calls ∧
    (∃ campaign, HasWork noonDeps s.shared campaign) ∧ WorkConserving noonDeps s.shared := by
  obtain ⟨s, hs, hp⟩ := Reachable.of_any noonDeps [.post oneCall 0 0 [0]]
    (fun s => decide (PhonesApart s.shared.db.calls) && picksWork noonDeps s.shared) (by decide +kernel)
  rw [Bool.and_eq_true, decide_eq_true_eq] at hp
  have hturn := turn_of_picksWork hp.2
  obtain ⟨-, campaign, -, hwork⟩ := hturn
  exact ⟨s, hs, hp.1, ⟨campaign, hwork⟩, (work_conserving_iff hs hp.1).mpr fun _ => turn_of_picksWork hp.2⟩

/-- The call of one campaign waits for a retry that is not due, and one of two calls of another is dialed. -/
def waitingFirst : List Action := dialOne ++ deliver 0 "e" .noAnswer 1 13 ++
  [.post (openCampaign atMostTwo twoRetries ["+2", "+3"] (by decide) (by decide)) 0 1 [1, 2], .tick] ++ runs 2 20

/-- It is the turn of a campaign whose call waits for a retry, and another with a call to dial waits with it. -/
theorem work_conserving_waiting : ∃ s, Reachable noonDeps s ∧ s.txns = [] ∧ PhonesApart s.shared.db.calls ∧
    (∃ campaign, HasWork noonDeps s.shared campaign) ∧ ¬ WorkConserving noonDeps s.shared := by
  obtain ⟨s, hs, hp⟩ := Reachable.of_any noonDeps waitingFirst
    (fun s => s.txns.isEmpty && decide (PhonesApart s.shared.db.calls) && (picks noonDeps s.shared).isSome &&
      !picksWork noonDeps s.shared && s.shared.db.campaigns.any (hasWork noonDeps s.shared)) (by decide +kernel)
  simp only [Bool.and_eq_true, List.isEmpty_iff, decide_eq_true_eq, List.any_eq_true, Bool.not_eq_true',
    Option.isSome_iff_exists] at hp
  obtain ⟨⟨⟨⟨hidle, hphones⟩, pick, hpicks⟩, hnone⟩, campaign, hcampaign⟩ := hp
  have hwork : HasWork noonDeps s.shared campaign := hasWork_iff.mp hcampaign
  refine ⟨s, hs, hidle, hphones, ⟨campaign, hwork⟩, fun h => ?_⟩
  obtain ⟨-, first, hturn, hserved⟩ := h.turn hs.consistent ⟨campaign, hwork⟩
  obtain rfl : first = pick.1.campaign := hturn.unique hs.consistent.campaignIds (picks_eq_some hpicks).2.1
  obtain ⟨call, hcall, hcan⟩ := hserved.work
  rw [picksWork, hpicks] at hnone
  exact List.any_eq_false.mp hnone call hcall hcan

end VoiceCampaign

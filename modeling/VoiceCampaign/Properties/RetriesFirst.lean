import VoiceCampaign.Properties.Work

/-!
# Retries before new calls

A retry is put back into the queue of its campaign, and what is claimed is the oldest call of that queue: an
older new call, or one of the same batch, may be claimed in its place.
-/

namespace VoiceCampaign

open Concurrency Program

/-- Where a campaign that passes the gates has a due retry, the call that is claimed is the one that was moved from
`RETRY_PENDING` to `QUEUED`. -/
def RetriesFirst (deps : Deps) (s : Shared) : Prop :=
  (∃ campaign, Gated deps s campaign ∧ ∃ call ∈ s.db.calls, call.requeueable campaign.id s.now = true) →
    ∀ s', TickEnds deps s s' → ∀ call ∈ s.db.calls, Begins s.db.calls s'.db.calls (some call.id) →
      call.status = .retryPending

/-- The campaign has no new call to claim, or it has due retries and none can be moved, so the tick raises. -/
def RetriesAlone (s : Shared) (campaignId : CampaignId) : Prop :=
  (∀ call ∈ s.db.calls, call.claimable campaignId s.now = false) ∨
    (∃ call ∈ s.db.calls, call.requeueable campaignId s.now = true) ∧
      ∀ call ∈ s.db.calls, call.requeueable campaignId s.now = true → ¬ PhoneFree s.db.calls call

/-- The calls of a campaign were created together. -/
def SameBatch (s : Shared) : Prop := ∀ a ∈ s.db.calls, ∀ b ∈ s.db.calls, a.campaignId = b.campaignId →
  a.createdAt = b.createdAt

section

variable {deps : Deps} {s s' : Shared} {picked : CampaignRowWithCursor} {campaign : CampaignRow}
  {campaignId : CampaignId} {call retry : CallRow}

/-- Any of the tied rows may be the first. -/
theorem oldest_of_mem_firsts {rows : List CallRow} (h : call ∈ firsts CallRow.createdAt rows) :
    ∃ pick, oldest CallRow.createdAt pick rows = some call := by
  obtain ⟨index, hlt, hget⟩ := List.mem_iff_getElem.mp h
  refine ⟨index, ?_⟩
  rw [oldest, Nat.mod_eq_of_lt hlt, List.getElem?_eq_getElem hlt, hget]

/-- Any due retry of a campaign may be the one that is requeued. -/
theorem exists_oldest_retry (hbatch : SameBatch s) (hmem : retry ∈ s.db.calls)
    (hdue : retry.requeueable campaignId s.now = true) : ∃ pick,
      oldest CallRow.createdAt pick (s.db.calls.filter (CallRow.requeueable campaignId s.now)) = some retry := by
  refine oldest_of_mem_firsts (mem_firsts.mpr ⟨List.mem_filter.mpr ⟨hmem, hdue⟩, fun other hother => ?_⟩)
  obtain ⟨hother, hotherDue⟩ := List.mem_filter.mp hother
  exact (hbatch retry hmem other hother
    ((requeueable_iff.mp hdue).1.trans (requeueable_iff.mp hotherDue).1.symm)).le

/-- A tick that picks for a retry may requeue any of the tied retries, and claim any of the tied calls. -/
theorem exists_tick_retried (hinv : Consistent s) (hpicks : picks deps s = some (picked, true)) (choice choice' : Choice)
    (hfirst : oldest CallRow.createdAt choice.pick
      (s.db.calls.filter (CallRow.requeueable picked.campaign.id s.now)) = some retry)
    (hfree : PhoneFree s.db.calls retry) : ∃ s', TickEnds deps s s' ∧
      Dispatches (· = choice') (overlay CallRow.id [(retryDueTransition retry).set s.now retry] s.db.calls) s.now
        picked.campaign.id s'.db.calls := by
  -- the gates
  have hgates := @Leads.of_alone (fun _ => True) _ _ _ _ _ (@surviveGates_wp [] false s deps)
  obtain ⟨result, ⟨s₁, txn₁⟩, hends⟩ := hgates.exists_ends ⟨{}, trivial⟩
  obtain ⟨hok, herror⟩ := Wp.of_ends hgates hends
  cases result with
  | error error =>
      obtain ⟨-, -, nowUtc, hnow, hraised⟩ := herror error rfl
      rw [hnow.still rfl] at hraised
      obtain ⟨hours, hsplit⟩ := splitByHours_ok (hoursKnown_iff.mp (picks_eq_some hpicks).1)
      cases hraised.symm.trans hsplit
  | ok found =>
      obtain ⟨hclosed, hnoted, nowUtc, dueAt, hnow, hdue, hfound⟩ := hok found rfl
      obtain rfl : txn₁ = none := hclosed
      rw [hdue.still rfl, hnow.still rfl] at hfound
      rw [picks, hfound] at hpicks
      obtain ⟨row, hrow, he⟩ := Option.map_eq_some_iff.mp hpicks
      obtain ⟨rfl, hretry⟩ := Prod.mk.inj he
      obtain ⟨notes, hdb, -⟩ := hnoted.db
      have hcalls : s₁.db.calls = s.db.calls := by rw [hdb]
      have hclock : s₁.now = s.now := hnoted.now.still rfl
      -- the requeue
      have hrequeue := @requeueOldestRetryDue_leads (· = choice) s₁ row.campaign.id (hcalls ▸ hinv.callIds)
      obtain ⟨result₂, ⟨s₂, txn₂⟩, hends₂⟩ := hrequeue.exists_ends ⟨choice, rfl⟩
      obtain ⟨hok₂, herror₂⟩ := Wp.of_ends hrequeue hends₂
      rw [hcalls, hclock] at hok₂ herror₂
      cases result₂ with
      | error error =>
          obtain ⟨-, -, _, busy, rfl, hbusy, hnot⟩ := herror₂ error rfl
          obtain rfl := Option.some.inj (hfirst.symm.trans hbusy)
          exact absurd hfree hnot
      | ok value =>
          obtain ⟨⟨hclosed₂, hclock₂⟩, hrequeues⟩ := hok₂ value rfl
          obtain rfl : txn₂ = none := hclosed₂
          have hmoved : s₂.db.calls = overlay CallRow.id [(retryDueTransition retry).set s.now retry] s.db.calls := by
            generalize hafter : s₂.db.calls = calls at hrequeues
            cases hrequeues with
            | none hnone =>
                obtain ⟨hmem, hdue⟩ := List.mem_filter.mp (oldest_some hfirst).1
                exact absurd hdue (by simp [hnone retry hmem])
            | moved _ moved hchoice hmoved _ =>
                subst hchoice
                obtain rfl := Option.some.inj (hfirst.symm.trans hmoved)
                rfl
          -- the dispatch
          have hdispatch := @dispatchOne_leads (· = choice') s₂ row.campaign (by rw [hmoved, map_key_overlay]; exact hinv.callIds)
            (by rw [hmoved]; exact Apart.put hinv.phones fun _ => hfree)
          obtain ⟨result₃, ⟨s₃, txn₃⟩, hends₃⟩ := hdispatch.exists_ends ⟨choice', rfl⟩
          obtain ⟨hok₃, herror₃⟩ := Wp.of_ends hdispatch hends₃
          have hlast : txn₃ = none ∧ Dispatches (· = choice') s₂.db.calls s₂.now row.campaign.id s₃.db.calls := by
            cases result₃ with
            | ok served => exact ⟨(hok₃ served rfl).1.closed, (hok₃ served rfl).2⟩
            | error error => exact ⟨(herror₃ error rfl).1.1.closed, (herror₃ error rfl).1.2⟩
          obtain ⟨rfl, hdispatches⟩ := hlast
          rw [hmoved, hclock₂.trans hclock] at hdispatches
          refine ⟨s₃, ?_, hdispatches⟩
          have hany : ∀ {choice : Choice} {stmt : Stmt} {state state' : Shared × Option Txn} {reply : Reply stmt},
              solo (· = choice) stmt state reply state' → solo (fun _ => True) stmt state reply state' := by
            rintro choice stmt state state' reply ⟨chosen, -, hexec⟩
            exact ⟨chosen, trivial, hexec⟩
          have hpicked : dispatchFrom found = requeueOldestRetryDue row.campaign.id >>= fun _ =>
              dispatchOne row.campaign >>= fun dispatched => pure ⟨dispatched, true⟩ := by
            rw [dispatchFrom, hrow, hretry]
            rfl
          rw [TickEnds, tick_eq]
          cases result₃ with
          | ok served =>
              refine ⟨.ok ⟨served, true⟩, hends.bind ?_⟩
              rw [hpicked]
              exact (hends₂.mono hany).bind ((hends₃.mono hany).bind (.done _ _))
          | error error =>
              refine ⟨.error error, hends.bind ?_⟩
              rw [hpicked]
              exact (hends₂.mono hany).bind (hends₃.mono hany).raised

/-- When a tick claims a call of the campaign it picks for a retry, that is the retry, if no new call competes. -/
theorem Ticks.retried_first {allowed : Choice → Prop} {calls' : List CallRow} (h : Ticks deps allowed s calls')
    (hids : (s.db.calls.map CallRow.id).Nodup) (hretry : RetryTurn deps s)
    (halone : ∀ campaign, ComesFirst deps s campaign → RetriesAlone s campaign.id) (hcall : call ∈ s.db.calls)
    (hbegins : Begins s.db.calls calls' (some call.id)) : call.status = .retryPending := by
  cases h with
  | idle _ hnone => cases hbegins.unique hnone hcall rfl
  | raised _ _ _ hnone => cases hbegins.unique hnone hcall rfl
  | fresh picked hpicks _ => cases (picks_eq_some hpicks).2.2.mpr hretry
  | retried picked mid hpicks hrequeues hdispatches =>
      have hmoves := hrequeues.begins hids
      have halone := halone _ (picks_eq_some hpicks).2.1
      cases hdispatches with
      | none _ hnone => cases hbegins.unique (hmoves.after hnone) hcall rfl
      | claimed choice claimed _ hclaimed hbegun =>
          have hid : claimed.id = call.id := Option.some.inj (hbegins.unique (hmoves.after hbegun) hcall rfl)
          obtain ⟨hmem, hclaimable⟩ := List.mem_filter.mp (oldest_some hclaimed).1
          cases hrequeues with
          | none hnone =>
              rcases halone with hempty | ⟨⟨due, hdue, hcan⟩, -⟩
              · exact absurd hclaimable (by simp [hempty claimed hmem])
              · exact absurd hcan (by simp [hnone due hdue])
          | moved choice' retry _ hfirst hfree =>
              obtain ⟨hretry, hdue⟩ := List.mem_filter.mp (oldest_some hfirst).1
              rcases mem_overlay_singleton.mp hmem with ⟨hold, -⟩ | ⟨rfl, -⟩
              · rcases halone with hempty | ⟨-, hbusy⟩
                · exact absurd hclaimable (by simp [hempty claimed hold])
                · exact absurd hfree (hbusy retry hretry hdue)
              · obtain rfl : retry = call := eq_of_key_eq hids hretry hcall hid
                exact (requeueable_iff.mp hdue).2.1

/-- A new call of the same batch may be claimed in the place of the retry. -/
theorem exists_new_claimed (hinv : Consistent s) (hbatch : SameBatch s) (hpicks : picks deps s = some (picked, true))
    (hcall : call ∈ s.db.calls) (hclaimable : call.claimable picked.campaign.id s.now = true)
    (hmem : retry ∈ s.db.calls) (hdue : retry.requeueable picked.campaign.id s.now = true)
    (hfree : PhoneFree s.db.calls retry) : ∃ s' claimed, TickEnds deps s s' ∧ claimed ∈ s.db.calls ∧
      claimed.status = .queued ∧ Begins s.db.calls s'.db.calls (some claimed.id) := by
  obtain ⟨pick, hfirst⟩ := exists_oldest_retry hbatch hmem hdue
  have hle : call.createdAt ≤ retry.createdAt := (hbatch call hcall retry hmem
    ((claimable_iff.mp hclaimable).1.trans (requeueable_iff.mp hdue).1.symm)).le
  have hretried : (retryDueTransition retry).set s.now retry ∈ overlay CallRow.id
      [(retryDueTransition retry).set s.now retry] s.db.calls :=
    mem_overlay_singleton.mpr (Or.inr ⟨rfl, retry, hmem, rfl⟩)
  generalize hmid : overlay CallRow.id [(retryDueTransition retry).set s.now retry] s.db.calls = mid at hretried
  have hqueued := (claimable_iff.mp hclaimable).2.1
  have hne : call.id ≠ retry.id := by
    intro hid
    obtain rfl := eq_of_key_eq hinv.callIds hcall hmem hid
    cases hqueued.symm.trans (requeueable_iff.mp hdue).2.1
  have hkept : call ∈ mid := hmid ▸ mem_overlay_singleton.mpr (Or.inl ⟨hcall, hne⟩)
  -- the oldest call of the queue that is not the retry
  have hnew : ∃ claimed ∈ firsts CallRow.createdAt (mid.filter (CallRow.claimable picked.campaign.id s.now)),
      claimed ∈ s.db.calls := by
    have hcandidate := List.mem_filter.mpr ⟨hkept, hclaimable⟩
    obtain ⟨first, hoffered⟩ := @exists_oldest _ CallRow.createdAt _ 0 (List.ne_nil_of_mem hcandidate)
    obtain ⟨hqueue, hleast⟩ := oldest_some hoffered
    rcases mem_overlay_singleton.mp (hmid ▸ List.mem_of_mem_filter hqueue) with ⟨hold, -⟩ | ⟨rfl, -⟩
    · exact ⟨first, List.mem_of_getElem? hoffered, hold⟩
    · exact ⟨call, mem_firsts.mpr ⟨hcandidate, fun other hother => hle.trans (hleast other hother)⟩, hcall⟩
  obtain ⟨claimed, hoffered, hold⟩ := hnew
  obtain ⟨pick', hclaimed⟩ := oldest_of_mem_firsts hoffered
  obtain ⟨s', hends, hdispatches⟩ := exists_tick_retried hinv hpicks { pick } { pick := pick' } hfirst hfree
  rw [hmid] at hdispatches
  refine ⟨s', claimed, hends, hold, (claimable_iff.mp (List.mem_filter.mp (oldest_some hclaimed).1).2).2.1, ?_⟩
  have hmoves : Begins s.db.calls mid none :=
    hmid ▸ (@Requeues.moved (fun _ => True) _ _ _ { pick } retry trivial hfirst hfree).begins hinv.callIds
  cases hdispatches with
  | none hnone _ => exact absurd hclaimable (by simp [hnone call hkept])
  | claimed choice served hchoice hserved hbegins =>
      subst hchoice
      obtain rfl := Option.some.inj (hclaimed.symm.trans hserved)
      exact hmoves.after hbegins

/-- All calls of a campaign come from one request. -/
theorem Reachable.sameBatch {sys : Sys} (h : Reachable deps sys) : SameBatch sys.shared := by
  refine h.invariant (fun now => nofun) ?_ ?_
  · intro sys action shared hs hbatch hworld
    cases hworld with
    | posted body createdAt campaignId callIds db hposted =>
        have hnew : ∀ row ∈ body.callRows createdAt campaignId callIds,
            row.campaignId = campaignId ∧ row.createdAt = createdAt := by
          intro row hrow
          obtain ⟨i, hi, rfl⟩ := List.getElem_of_mem hrow
          simp only [CampaignCreate.callRows, List.getElem_zipWith]
          exact ⟨rfl, rfl⟩
        have hfresh : ∀ row ∈ sys.shared.db.calls, row.campaignId ≠ campaignId := by
          intro row hrow hid
          obtain ⟨campaign, hcampaign, howner⟩ := hs.consistent.owner row hrow
          exact hposted.freshCampaign campaign hcampaign (howner.trans hid)
        intro a ha b hb hsame
        rw [show ({ sys.shared with db, wake := true } : Shared).db.calls = _ from hposted.calls] at ha hb
        rcases List.mem_append.mp ha with ha | ha <;> rcases List.mem_append.mp hb with hb | hb
        · exact hbatch a ha b hb hsame
        · exact absurd (hsame.trans (hnew b hb).1) (hfresh a ha)
        · exact absurd (hsame.symm.trans (hnew a ha).1) (hfresh b hb)
        · exact (hnew a ha).2.trans (hnew b hb).2.symm
    | elapse micros => exact hbatch
    | ingested payload receivedAt inboxId db hingested =>
        rw [hingested.rest]
        exact hbatch
    | still action hrun hcrash => exact hbatch
  · intro l s s' hinv hbatch hguar a ha b hb hsame
    obtain ⟨a', ha', hevolves⟩ := hguar.origin hinv ha
    obtain ⟨b', hb', hevolves'⟩ := hguar.origin hinv hb
    rw [hevolves.createdAt, hevolves'.createdAt]
    exact hbatch a' ha' b' hb' (hevolves.campaignId.symm.trans (hsame.trans hevolves'.campaignId))

/-- Retries come first exactly when the campaign whose turn it is has no new call to claim besides. -/
theorem retries_first_iff {sys : Sys} (hs : Reachable deps sys) : RetriesFirst deps sys.shared ↔
    ((∃ campaign, Gated deps sys.shared campaign ∧
        ∃ call ∈ sys.shared.db.calls, call.requeueable campaign.id sys.shared.now = true) →
      HoursKnown deps sys.shared → ∀ campaign, ComesFirst deps sys.shared campaign →
        RetriesAlone sys.shared campaign.id) := by
  have hinv := hs.consistent
  constructor
  · intro h hdue hknown campaign hturn
    have hfirst := h hdue
    obtain ⟨gated, hgated, due, hdue, hcan⟩ := hdue
    have hretryTurn : RetryTurn deps sys.shared := ⟨gated, hgated, mem_retryDue_of_requeueable hdue hcan⟩
    obtain ⟨⟨picked, isRetry⟩, hpicks⟩ := Option.ne_none_iff_exists'.mp (picks_ne_none hknown hgated)
    obtain ⟨-, hpicked, hisRetry⟩ := picks_eq_some hpicks
    obtain rfl : campaign = picked.campaign := hturn.unique hinv.campaignIds hpicked
    obtain rfl : isRetry = true := hisRetry.mpr hretryTurn
    by_contra hnot
    rw [RetriesAlone, not_or, not_and_or] at hnot
    push Not at hnot
    obtain ⟨⟨call, hcall, hclaimable⟩, hretries⟩ := hnot
    rw [ne_eq, Bool.not_eq_false] at hclaimable
    rcases hretries with hnone | ⟨retry, hretry, hcan, hfree⟩
    · have hnone : ∀ call ∈ sys.shared.db.calls, call.requeueable picked.campaign.id sys.shared.now = false :=
        fun other hother => Bool.not_eq_true _ ▸ hnone other hother
      obtain ⟨s', hends⟩ := exists_tickEnds deps hinv
      obtain ⟨served, hserved, hwork, hbegins⟩ := (hends.ticks hinv).gives hinv.callIds ⟨{}, trivial⟩ hpicks
        (Or.inl ⟨hnone, call, hcall, hclaimable⟩)
      rw [CallRow.dispatchable, hnone served hserved, Bool.or_false] at hwork
      cases (claimable_iff.mp hwork).2.1.symm.trans (hfirst s' hends served hserved hbegins)
    · obtain ⟨s', claimed, hends, hclaimed, hqueued, hbegins⟩ :=
        exists_new_claimed hinv hs.sameBatch hpicks hcall hclaimable hretry hcan hfree
      cases hqueued.symm.trans (hfirst s' hends claimed hclaimed hbegins)
  · rintro h hdue s' hends call hcall hbegins
    have hticks := hends.ticks hinv
    rcases hticks.claimed hinv.callIds with hnone | ⟨picked, isRetry, served, hpicks, -, -, -⟩
    · cases hbegins.unique hnone hcall rfl
    · obtain ⟨gated, hgated, retry, hretry, hcan⟩ := hdue
      exact hticks.retried_first hinv.callIds ⟨gated, hgated, mem_retryDue_of_requeueable hretry hcan⟩
        (h ⟨gated, hgated, retry, hretry, hcan⟩ (picks_eq_some hpicks).1) hcall hbegins

end

/-- Nobody answers the one call, and it is dialed again. -/
theorem retries_first_one_call : ∃ s, Reachable noonDeps s ∧
    (∃ campaign, Gated noonDeps s.shared campaign ∧
      ∃ call ∈ s.shared.db.calls, call.requeueable campaign.id s.shared.now = true) ∧
    RetriesFirst noonDeps s.shared := by
  obtain ⟨s, hs, hp⟩ := Reachable.of_any noonDeps (dialOne ++ deliver 0 "e" .noAnswer 1 13 ++ [.elapse (30 * 1000000)])
    (fun s => (picks noonDeps s.shared).any fun pick =>
      (s.shared.db.calls.any fun call => call.requeueable pick.1.campaign.id s.shared.now) &&
        s.shared.db.calls.all fun call => !call.claimable pick.1.campaign.id s.shared.now) (by decide +kernel)
  simp only [Option.any_eq_true, Bool.and_eq_true, List.any_eq_true, List.all_eq_true, Bool.not_eq_true'] at hp
  obtain ⟨⟨picked, isRetry⟩, hpicks, hdue, hnone⟩ := hp
  have hturn := (picks_eq_some hpicks).2.1
  refine ⟨s, hs, ⟨_, hturn.candidate.gated, hdue⟩, (retries_first_iff hs).mpr fun _ _ campaign hfirst => Or.inl ?_⟩
  obtain rfl : campaign = picked.campaign := hfirst.unique hs.consistent.campaignIds hturn
  exact hnone

instance (calls : List CallRow) (call : CallRow) : Decidable (PhoneFree calls call) :=
  inferInstanceAs (Decidable (∀ row ∈ calls, row.id ≠ call.id → row.status.holdsPhone = true → row.phone ≠ call.phone))

/-- Two calls of one request: nobody answers the first, and its retry is due; the other is not dialed. -/
def tiedRetry : List Action :=
  [.post (openPair atMostTwo twoRetries) 0 0 [0, 1], .tick] ++ runs 0 20 ++
    deliver 0 "e" .noAnswer 1 13 ++ [.elapse (30 * 1000000)]

/-- The call that was never dialed may be claimed in place of the retry. -/
theorem retries_first_tied : ∃ s, Reachable noonDeps s ∧ s.txns = [] ∧
    (∃ campaign, Gated noonDeps s.shared campaign ∧
      ∃ call ∈ s.shared.db.calls, call.requeueable campaign.id s.shared.now = true) ∧
    ¬ RetriesFirst noonDeps s.shared := by
  obtain ⟨s, hs, hp⟩ := Reachable.of_any noonDeps tiedRetry
    (fun s => s.txns.isEmpty && (picks noonDeps s.shared).any fun pick => pick.2 &&
      (s.shared.db.calls.any fun call => call.claimable pick.1.campaign.id s.shared.now) &&
        s.shared.db.calls.any fun call => call.requeueable pick.1.campaign.id s.shared.now &&
          decide (PhoneFree s.shared.db.calls call)) (by decide +kernel)
  simp only [Bool.and_eq_true, List.isEmpty_iff, Option.any_eq_true, List.any_eq_true, decide_eq_true_eq] at hp
  obtain ⟨hidle, ⟨picked, isRetry⟩, hpicks, ⟨hretry, call, hcall, hclaimable⟩, retry, hmem, hdue, hfree⟩ := hp
  obtain rfl : isRetry = true := hretry
  have hgated := (picks_eq_some hpicks).2.1.candidate.gated
  have hpremise : ∃ campaign, Gated noonDeps s.shared campaign ∧
      ∃ call ∈ s.shared.db.calls, call.requeueable campaign.id s.shared.now = true :=
    ⟨picked.campaign, hgated, retry, hmem, hdue⟩
  refine ⟨s, hs, hidle, hpremise, fun h => ?_⟩
  obtain ⟨s', claimed, hends, hclaimed, hqueued, hbegins⟩ :=
    exists_new_claimed hs.consistent hs.sameBatch hpicks hcall hclaimable hmem hdue hfree
  cases hqueued.symm.trans (h hpremise s' hends claimed hclaimed hbegins)

end VoiceCampaign

import VoiceCampaign.Model.Runs
import VoiceCampaign.Protocol.SweepRuns

/-!
# The order of a sweep

A sweep that runs by itself ends the same whatever the order in which its tasks commit: each row as the provider
and the exceptions have it, each campaign as its calls have it.
-/

namespace VoiceCampaign

open Concurrency

/-- The row, whenever it was written. -/
def CallRow.untimed (call : CallRow) : CallRow := { call with updatedAt := 0 }

/-- A run of a sweep, and how it returns. -/
def SweepReturns (before : Shared) (rows : List SweepRow) (events : List SweepEvent)
    (outcomes : List ReclaimOutcome) (after : Shared) : Prop :=
  ∃ s, (Sweep.start before rows).run events = some s ∧ s.finish = some (outcomes, after)

/-- What a sweep has done once it has returned. -/
structure Swept (before : Shared) (rows : List SweepRow) (outcomes : List ReclaimOutcome) (after : Shared) :
    Prop where
  returned : outcomes = rows.map SweepRow.outcome
  failed : ∀ r ∈ rows, r.fault.isSome = true →
    r.outcome = ⟨r.row.id, .failed⟩ ∧ after.db.call? r.row.id = some r.row
  settled : ∀ r ∈ rows, r.fault = none → ∃ now, before.now ≤ now ∧ now ≤ after.now ∧
    after.db.call? r.row.id = some (r.settled now)
  others : ∀ id, (∀ r ∈ rows, r.row.id ≠ id) → after.db.call? id = before.db.call? id
  folds : ∀ campaign ∈ after.db.campaigns, after.db.StatusFolds campaign
  wake : after.wake = (before.wake || outcomes.any ReclaimOutcome.freed)

/-- Two ends of one sweep. If no time passed in either, the rows are the same to the timestamp. -/
structure SameEnd (before after after' : Shared) : Prop where
  calls : ∀ id, (after.db.call? id).map CallRow.untimed = (after'.db.call? id).map CallRow.untimed
  timed : after.now = before.now → after'.now = before.now → ∀ id, after.db.call? id = after'.db.call? id
  campaigns : ∀ id, (after.db.campaign? id).map CampaignRow.status = (after'.db.campaign? id).map CampaignRow.status

/-! ### Rows -/

section

variable {before after after' : Shared} {rows rows' : List SweepRow} {outcomes outcomes' : List ReclaimOutcome}

theorem Sweep.Underway.swept {s : Sweep} (h : s.Underway before rows) (hfinish : s.finish = some (outcomes, after)) :
    Swept before rows outcomes after := by
  obtain ⟨hends, hdb, hnow, hwake⟩ := finish_eq hfinish
  obtain ⟨houtcomes, hrows⟩ := h.ended hends
  refine ⟨houtcomes, fun r hr hfault => ?_, fun r hr hfault => ?_, fun id hid => ?_,
    hdb ▸ h.secure.inv.status, by rw [hwake, h.wake]⟩
  · have hat := hrows r hr
    rw [hfault, if_pos rfl] at hat
    cases hat with
    | outside hrow =>
        rw [SweepRow.outcome, SweepRow.kind, hfault, if_pos rfl, hdb]
        exact ⟨rfl, hrow⟩
  · have hat := hrows r hr
    rw [hfault] at hat
    cases hat with
    | committed now hrow hsince hlater =>
        rw [hdb, hnow]
        exact ⟨now, hsince, hlater, hrow⟩
  · rw [hdb]
    exact h.others id hid

/-- What becomes of a row depends on what its own task meets. -/
theorem Swept.row_eq (h : Swept before rows outcomes after) (h' : Swept before rows' outcomes' after') {r : SweepRow}
    (hr : r ∈ rows) (hr' : r ∈ rows') :
    (after.db.call? r.row.id).map CallRow.untimed = (after'.db.call? r.row.id).map CallRow.untimed := by
  cases hfault : r.fault with
  | some fault =>
      have hsome : r.fault.isSome = true := by rw [hfault]; rfl
      rw [(h.failed r hr hsome).2, (h'.failed r hr' hsome).2]
  | none =>
      obtain ⟨now, -, -, hcall⟩ := h.settled r hr hfault
      obtain ⟨now', -, -, hcall'⟩ := h'.settled r hr' hfault
      rw [hcall, hcall']
      rfl

/-- Rows that no task looked at are the same. -/
theorem Swept.calls_eq (h : Swept before rows outcomes after) (h' : Swept before rows outcomes' after')
    (id : CallId) : (after.db.call? id).map CallRow.untimed = (after'.db.call? id).map CallRow.untimed := by
  by_cases hid : ∃ r ∈ rows, r.row.id = id
  · obtain ⟨r, hr, rfl⟩ := hid
    exact h.row_eq h' hr hr
  · have hnone : ∀ r ∈ rows, r.row.id ≠ id := fun r hr he => hid ⟨r, hr, he⟩
    rw [h.others id hnone, h'.others id hnone]

theorem Swept.timed_eq (h : Swept before rows outcomes after) (h' : Swept before rows outcomes' after')
    (hnow : after.now = before.now) (hnow' : after'.now = before.now) (id : CallId) :
    after.db.call? id = after'.db.call? id := by
  by_cases hid : ∃ r ∈ rows, r.row.id = id
  · obtain ⟨r, hr, rfl⟩ := hid
    cases hfault : r.fault with
    | some fault =>
        have hsome : r.fault.isSome = true := by rw [hfault]; rfl
        rw [(h.failed r hr hsome).2, (h'.failed r hr hsome).2]
    | none =>
        obtain ⟨now, hsince, hlater, hcall⟩ := h.settled r hr hfault
        obtain ⟨now', hsince', hlater', hcall'⟩ := h'.settled r hr hfault
        obtain rfl : now = before.now := le_antisymm (hlater.trans_eq hnow) hsince
        obtain rfl : now' = before.now := le_antisymm (hlater'.trans_eq hnow') hsince'
        rw [hcall, hcall']
  · have hnone : ∀ r ∈ rows, r.row.id ≠ id := fun r hr he => hid ⟨r, hr, he⟩
    rw [h.others id hnone, h'.others id hnone]

end

/-! ### Campaigns -/

section

variable {s s' : Shared}

/-- Each call has a counterpart that differs in its timestamp at most. -/
def SameCalls (db db' : Db) : Prop :=
  ∀ row ∈ db.calls, ∃ row' ∈ db'.calls, row'.untimed = row.untimed

theorem SameCalls.of_call? (hinv : Consistent s)
    (h : ∀ id, (s.db.call? id).map CallRow.untimed = (s'.db.call? id).map CallRow.untimed) :
    SameCalls s.db s'.db := by
  intro row hrow
  have hsame := h row.id
  rw [hinv.call?_of_mem hrow, Option.map_some] at hsame
  obtain ⟨row', hrow', huntimed⟩ := Option.map_eq_some_iff.mp hsame.symm
  exact ⟨row', (lookup_some hrow').1, huntimed⟩

/-- What holds of every call, whatever its timestamp, holds of every counterpart. -/
theorem SameCalls.forall {db db' : Db} (h : SameCalls db db') {p : CallRow → Prop}
    (hp : ∀ row, p row ↔ p row.untimed) (hall : ∀ row ∈ db'.calls, p row) : ∀ row ∈ db.calls, p row := by
  intro row hrow
  obtain ⟨row', hrow', huntimed⟩ := h row hrow
  rw [hp, ← huntimed, ← hp]
  exact hall row' hrow'

/-- The status of a campaign is read off its calls, and not off their timestamps. -/
theorem status_eq_of_sameCalls {db db' : Db} (h : SameCalls db db') (h' : SameCalls db' db)
    {campaign campaign' : CampaignRow} (hid : campaign'.id = campaign.id) (hfolds : db.StatusFolds campaign)
    (hfolds' : db'.StatusFolds campaign') : campaign.status = campaign'.status := by
  have hboth : ∀ p : CallRow → Prop, (∀ row, p row ↔ p row.untimed) →
      ((∀ row ∈ db.calls, p row) ↔ ∀ row ∈ db'.calls, p row) := fun p hp => ⟨h'.forall hp, h.forall hp⟩
  have hpending : campaign.status = .pending ↔ campaign'.status = .pending := by
    rw [hfolds.pending, hfolds'.pending, hid]
    exact hboth (fun row => row.campaignId = campaign.id → row.attemptEpoch = 0) fun _ => Iff.rfl
  have hall : db.allTerminal campaign.id ↔ db'.allTerminal campaign'.id := by
    rw [hid]
    exact hboth (fun row => row.campaignId = campaign.id → row.status.isTerminal = true) fun _ => Iff.rfl
  have hsome : db.someCompleted campaign.id ↔ db'.someCompleted campaign'.id := by
    rw [← not_iff_not, hid, Db.someCompleted, Db.someCompleted]
    push Not
    exact hboth (fun row => row.campaignId = campaign.id → row.status ≠ .completed) fun _ => Iff.rfl
  have hcompleted : campaign.status = .completed ↔ campaign'.status = .completed := by
    rw [hfolds.completed, hfolds'.completed, hall, hsome]
  have hfailed : campaign.status = .failed ↔ campaign'.status = .failed := by
    rw [hfolds.failed, hfolds'.failed, hall, hsome]
  cases hstatus : campaign.status with
  | pending => exact (hpending.mp hstatus).symm
  | completed => exact (hcompleted.mp hstatus).symm
  | failed => exact (hfailed.mp hstatus).symm
  | active =>
      cases hstatus' : campaign'.status with
      | active => rfl
      | pending => rw [hpending.mpr hstatus'] at hstatus; cases hstatus
      | completed => rw [hcompleted.mpr hstatus'] at hstatus; cases hstatus
      | failed => rw [hfailed.mpr hstatus'] at hstatus; cases hstatus

/-- Where the calls agree up to their timestamps, so do the statuses of the campaigns. -/
theorem campaigns_eq_of_calls (hinv : Consistent s) (hinv' : Consistent s')
    (hcalls : ∀ id, (s.db.call? id).map CallRow.untimed = (s'.db.call? id).map CallRow.untimed)
    (hids : s.db.campaigns.map CampaignRow.id = s'.db.campaigns.map CampaignRow.id) (id : CampaignId) :
    (s.db.campaign? id).map CampaignRow.status = (s'.db.campaign? id).map CampaignRow.status := by
  cases hfound : s.db.campaign? id with
  | none =>
      have hnone : s'.db.campaign? id = none := by
        refine lookup_eq_none.mpr fun campaign hmem hid => ?_
        have hkey : id ∈ s.db.campaigns.map CampaignRow.id := hids ▸ hid ▸ List.mem_map_of_mem hmem
        obtain ⟨other, hother, hid'⟩ := List.mem_map.mp hkey
        exact lookup_eq_none.mp hfound other hother hid'
      rw [hnone]
  | some campaign =>
      obtain ⟨hmem, hid⟩ := lookup_some hfound
      have hkey : id ∈ s'.db.campaigns.map CampaignRow.id := hids ▸ hid ▸ List.mem_map_of_mem hmem
      obtain ⟨campaign', hmem', hid'⟩ := List.mem_map.mp hkey
      have hfound' : s'.db.campaign? id = some campaign' :=
        (lookup_eq_some_iff hinv'.campaignIds).mpr ⟨hmem', hid'⟩
      rw [hfound', Option.map_some, Option.map_some]
      exact congrArg some (status_eq_of_sameCalls (.of_call? hinv hcalls)
        (.of_call? hinv' fun id => (hcalls id).symm) (hid'.trans hid.symm) (hinv.status campaign hmem)
        (hinv'.status campaign' hmem'))

end

/-! ### The sweep -/

/-- A sweep of these rows returns whatever the order of its tasks, and ends the same. -/
structure OrderIndependent (before : Shared) (rows : List SweepRow) : Prop where
  /-- No task takes more than twelve statements, and until all have returned one of them can go on. -/
  returns : ∀ events s, (Sweep.start before rows).run events = some s →
    (∀ index, events.count (.run index) ≤ 12) ∧
      (s.finish = none → ∃ index, (s.step (.run index)).isSome = true)
  swept : ∀ events outcomes after, SweepReturns before rows events outcomes after →
    Swept before rows outcomes after
  sameEnd : ∀ events events' outcomes outcomes' after after', SweepReturns before rows events outcomes after →
    SweepReturns before rows events' outcomes' after' → SameEnd before after after'
  /-- Next to siblings that meet something else, a task does the same. -/
  siblings : ∀ rows' events events' outcomes outcomes' after after',
    (rows'.map SweepRow.row).Perm (rows.map SweepRow.row) → SweepReturns before rows events outcomes after →
    SweepReturns before rows' events' outcomes' after' → ∀ r ∈ rows, r ∈ rows' → r.outcome ∈ outcomes' ∧
      (after.db.call? r.row.id).map CallRow.untimed = (after'.db.call? r.row.id).map CallRow.untimed

variable {deps : Deps} {sys : Sys} {rows : List SweepRow}

theorem sweep_order_independent (h : Reachable deps sys)
    (hrows : (rows.map SweepRow.row).Perm
      (sys.shared.db.findStuckDialing deps.settings.stuckReclaimSeconds sys.shared.now)) :
    OrderIndependent sys.shared rows := by
  have hbefore : Consistent sys.shared := h.consistent
  have hstuck : StuckRows sys.shared rows := .of_find hbefore hrows
  have hunderway : ∀ {rows' : List SweepRow} {events s}, StuckRows sys.shared rows' →
      (Sweep.start sys.shared rows').run events = some s → s.Underway sys.shared rows' := fun hstuck' hrun =>
    (Sweep.Underway.start hbefore hstuck').run hbefore hstuck' hrun
  have hswept : ∀ {rows' : List SweepRow} {events outcomes after}, StuckRows sys.shared rows' →
      SweepReturns sys.shared rows' events outcomes after → Swept sys.shared rows' outcomes after := by
    rintro rows' events outcomes after hstuck' ⟨s, hrun, hfinish⟩
    exact (hunderway hstuck' hrun).swept hfinish
  refine ⟨fun events s hrun => ⟨fun index => ?_, fun hnone => ?_⟩, fun _ _ _ => hswept hstuck, ?_, ?_⟩
  · refine Sweep.count_run_le hrun fun task hget => ?_
    rw [Sweep.start, List.getElem?_map] at hget
    obtain ⟨r, -, rfl⟩ := Option.map_eq_some_iff.mp hget
    exact r.reclaimOne_within
  · exact (hunderway hstuck hrun).progress hbefore hstuck (Option.map_eq_none_iff.mp hnone)
  · intro events events' outcomes outcomes' after after' hreturns hreturns'
    have hend := hswept hstuck hreturns
    have hend' := hswept hstuck hreturns'
    obtain ⟨s, hrun, hfinish⟩ := hreturns
    obtain ⟨s', hrun', hfinish'⟩ := hreturns'
    have hs := hunderway hstuck hrun
    have hs' := hunderway hstuck hrun'
    have hdb := (Sweep.finish_eq hfinish).2.1
    have hdb' := (Sweep.finish_eq hfinish').2.1
    have hcalls := hend.calls_eq hend'
    refine ⟨hcalls, hend.timed_eq hend', ?_⟩
    rw [hdb, hdb'] at hcalls ⊢
    exact campaigns_eq_of_calls hs.secure.inv hs'.secure.inv hcalls (hs.campaigns.trans hs'.campaigns.symm)
  · intro rows' events events' outcomes outcomes' after after' hperm hreturns hreturns' r hr hr'
    have hend' := hswept (.of_find hbefore (hperm.trans hrows)) hreturns'
    refine ⟨?_, (hswept hstuck hreturns).row_eq hend' hr hr'⟩
    rw [hend'.returned]
    exact List.mem_map_of_mem hr'

/-- Two calls, to be dialed side by side. -/
def sideBySide : CampaignCreate := openPair atMostTwo noRetries

/-- The rows a sweep finds: the provider confirms each of them, and a task that is not about call 0 breaks off. -/
def foundRows (s : Sys) : List SweepRow :=
  (s.shared.db.findStuckDialing noonDeps.settings.stuckReclaimSeconds s.shared.now).map fun row =>
    { row, status := .reported .completed, fault := if row.id = 0 then none else some ⟨4, .provider⟩ }

/-- Two calls of one campaign: one task commits in the midst of the other, which fails. -/
theorem sweep_order_independent_two_calls : ∃ s rows, Reachable noonDeps s ∧ OrderIndependent s.shared rows ∧
    ∃ events after, SweepReturns s.shared rows events [⟨0, .terminalApplied⟩, ⟨1, .failed⟩] after := by
  obtain ⟨s, hs, hp⟩ := Reachable.of_any noonDeps ([.post sideBySide 0 0 [0, 1], .tick] ++ runs 0 20 "a" ++
      [.tick] ++ runs 1 18 "b" ++ [.elapse (631 * 1000000)])
    (fun s => (((Sweep.start s.shared (foundRows s)).run (List.replicate 3 (.run 1) ++ List.replicate 7 (.run 0) ++
      List.replicate 2 (.run 1))).bind Sweep.finish).any fun result =>
        result.1 = [⟨0, .terminalApplied⟩, ⟨1, .failed⟩]) (by decide +kernel)
  have hrows : (foundRows s).map SweepRow.row =
      s.shared.db.findStuckDialing noonDeps.settings.stuckReclaimSeconds s.shared.now := by
    rw [foundRows, List.map_map]
    exact List.map_id _
  obtain ⟨⟨outcomes, after⟩, hreturns, houtcomes⟩ := (Option.any_eq_true _ _).mp hp
  obtain ⟨ended, hrun, hfinish⟩ := Option.bind_eq_some_iff.mp hreturns
  obtain rfl : outcomes = _ := of_decide_eq_true houtcomes
  exact ⟨s, foundRows s, hs, sweep_order_independent hs (.of_eq hrows), _, after, ended, hrun, hfinish⟩

end VoiceCampaign

import VoiceCampaign.Properties.Posts
import VoiceCampaign.Properties.Rollup
import VoiceCampaign.Properties.Stats

/-!
# What a client sees when it polls

The API answers each request from the tables of the moment, and `GET /campaigns/{id}/stats` from two of them.
What is seen later in a run goes on from what was seen before, and once a campaign is seen to be finished
nothing about it changes any more.
-/

namespace VoiceCampaign

open Concurrency

/-- The statuses of a campaign that may be seen after a status. -/
def ExternalCampaignStatus.Onward : ExternalCampaignStatus → ExternalCampaignStatus → Prop
  | pending, _ => True
  | inProgress, later => later ≠ pending
  | completed, later => later = completed
  | failed, later => later = failed

/-- The statuses of a call that may be seen after a status. -/
def ExternalCallStatus.Onward : ExternalCallStatus → ExternalCallStatus → Prop
  | inProgress, _ => True
  | completed, later => later = completed
  | failed, later => later = failed

/-- Statistics of the same calls, later. -/
structure CampaignStats.Onward (stats later : CampaignStats) : Prop where
  total : later.total = stats.total
  completed : stats.completed ≤ later.completed
  failed : stats.failed ≤ later.failed
  retriesAttempted : stats.retriesAttempted ≤ later.retriesAttempted
  inProgress : later.inProgress ≤ stats.inProgress

/-! ### One row -/

theorem CampaignRow.Evolves.onward {old new : CampaignRow} (h : old.Evolves new) :
    old.status.external.Onward new.status.external := by
  cases hold : old.status with
  | pending => trivial
  | active =>
      intro hpending
      have hnew : new.status = .pending := by
        cases hstatus : new.status <;> rw [hstatus] at hpending <;> first | rfl | cases hpending
      cases hold.symm.trans (h.pending hnew)
  | completed => rw [h.terminal (by rw [hold]; rfl), hold]; rfl
  | failed => rw [h.terminal (by rw [hold]; rfl), hold]; rfl

theorem CallRow.Evolves.onward {old new : CallRow} (h : old.Evolves new) :
    old.status.external.Onward new.status.external := by
  cases hold : old.status with
  | queued | dialing | inProgress | retryPending => trivial
  | completed | failed | noAnswer | busy => rw [h.isTerminal (by rw [hold]; rfl), hold]; rfl

theorem CallStatus.isLive_eq (status : CallStatus) : status.isLive = !status.isTerminal := by
  cases status <;> rfl

/-! ### The calls of a campaign -/

section

variable {calls later : List CallRow}

theorem countP_terminal (p : CallStatus → Bool) (hp : ∀ status, p status = true → status.isTerminal = true)
    (h : List.Forall₂ CallRow.Evolves calls later) :
    (calls.countP fun call => p call.status) ≤ later.countP fun call => p call.status :=
  countP_le_of_forall₂ (fun _ _ hevolves hold => by rwa [hevolves.isTerminal (hp _ hold)]) h

theorem CallStatus.isTerminal_of_completed {status : CallStatus} (h : decide (status = completed) = true) :
    status.isTerminal = true := by
  rw [of_decide_eq_true h]
  rfl

theorem CallStatus.isTerminal_of_isFailure {status : CallStatus} (h : status.isFailure = true) :
    status.isTerminal = true := by
  cases status <;> first | rfl | cases h

end

section

variable {db later : Db} {campaignId : CampaignId}

theorem stats_onward (h : List.Forall₂ CallRow.Evolves (db.callsOf campaignId) (later.callsOf campaignId)) :
    (db.stats campaignId).Onward (later.stats campaignId) := by
  have hcompleted : (db.stats campaignId).completed ≤ (later.stats campaignId).completed :=
    countP_terminal (fun status => decide (status = .completed)) (fun _ => CallStatus.isTerminal_of_completed) h
  have hfailed : (db.stats campaignId).failed ≤ (later.stats campaignId).failed :=
    countP_terminal CallStatus.isFailure (fun _ => CallStatus.isTerminal_of_isFailure) h
  have htotal : (later.stats campaignId).total = (db.stats campaignId).total := h.length_eq.symm
  refine ⟨htotal, hcompleted, hfailed, ?_, ?_⟩
  · exact sum_le_of_forall₂ (fun _ _ hevolves => Nat.sub_le_sub_right hevolves.attemptEpoch 1) h
  · have hbefore := stats_total db campaignId
    have hafter := stats_total later campaignId
    omega

/-- No call of the campaign is left. -/
theorem inProgress_eq_zero : (db.stats campaignId).inProgress = 0 ↔ db.allTerminal campaignId := by
  rw [Db.stats, Db.callsOf, List.countP_eq_zero, Db.allTerminal]
  simp [CallStatus.isLive_eq]

theorem completed_pos : 0 < (db.stats campaignId).completed ↔ db.someCompleted campaignId := by
  rw [Db.stats, Db.callsOf, List.countP_pos_iff, Db.someCompleted]
  simp [and_assoc]

end

/-! ### A finished campaign -/

/-- What is left of a finished campaign: its row as it was, and no further claim. -/
structure LeavesFinished (campaign : CampaignRow) (s s' : Shared) : Prop where
  row : s'.db.campaign? campaign.id = some campaign
  claims : s'.db.auditCount .claimed campaign.id = s.db.auditCount .claimed campaign.id

section

variable {deps : Deps} {s s' : Sys} {shared shared' : Shared} {action : Action} {campaign : CampaignRow}

/-- Only a campaign that is not finished changes its status. -/
theorem Folds.campaign?_finished {t : Txn} {after : CallRow} {folds : List AuditEvent}
    (h : Folds shared t after folds) (hrow : shared.db.campaign? campaign.id = some campaign)
    (hdone : campaign.status.isTerminal = true) :
    (shared.commit t).db.campaign? campaign.id = some campaign := by
  have hlive : ∀ {old : CampaignRow}, shared.db.campaign? after.campaignId = some old →
      old.status.isTerminal = false → (shared.commit t).db.campaign? campaign.id = some campaign := by
    intro old hold hnot
    refine (h.campaign?_commit_of_ne fun hid => ?_).trans hrow
    rw [hid, hold] at hrow
    obtain rfl := Option.some.inj hrow
    rw [hdone] at hnot
    cases hnot
  cases h with
  | still hcampaigns hstarted hterminal => exact (Shared.campaign?_commit_nil hcampaigns _).trans hrow
  | promoted old hold hpending hlock hafter hcampaigns => exact hlive hold (by rw [hpending]; rfl)
  | rolledUp old counts hold hactive hterminal hlast hcounts hcampaigns => exact hlive hold (by rw [hactive]; rfl)

/-- A claim takes a call that is queued, and a finished campaign has none. -/
theorem Moves.not_claimed {task : Option Task} {t : Txn} {inbox : Option InboxRow} {before after : CallRow}
    {event : AuditEvent} (h : Moves shared task t inbox before after event) (hinv : Consistent shared)
    (hcampaign : campaign ∈ shared.db.campaigns) (hdone : campaign.status.isTerminal = true)
    (hclaimed : event.eventType = .claimed) : event.campaignId ≠ some campaign.id := by
  intro hid
  cases h.cause with
  | claim owner inFlight pending cursor htask hinbox hclaimable =>
      obtain ⟨howner, hqueued, -⟩ := Cause.claimable_queued hclaimable
      have hlive := hinv.not_terminal h.before_mem (by rw [hqueued]; rfl) hcampaign
        ((Option.some.inj hid).symm.trans howner.symm)
      rw [hdone] at hlive
      cases hlive
  | cas args hasks hhits hregresses =>
      have htype := hasks.shape.eventType
      rw [show args.eventType = .claimed from hclaimed] at htype
      simp at htype

theorem Guar.leavesFinished {l : Party} (h : Guar l shared shared') (hinv : Consistent shared)
    (hrow : shared.db.campaign? campaign.id = some campaign) (hdone : campaign.status.isTerminal = true) :
    LeavesFinished campaign shared shared' := by
  cases h with
  | quiet hdb _ _ => exact ⟨by rw [hdb, hrow], by rw [hdb]⟩
  | commit t htxn hready =>
      cases hready with
      | quiet inbox hcalls hcampaigns hmarks hnotes =>
          exact ⟨(Shared.campaign?_commit_nil hcampaigns _).trans hrow, auditCount_commit_notes hnotes rfl _⟩
      | moves inbox before after event folds hmoves hfolds hmarks haudit =>
          refine ⟨hfolds.campaign?_finished hrow hdone, ?_⟩
          rw [auditCount_commit, haudit, Nat.add_eq_left, List.countP_eq_zero]
          intro note hnote hcount
          rw [Bool.and_eq_true, decide_eq_true_eq, decide_eq_true_eq] at hcount
          rcases List.mem_cons.mp hnote with rfl | hfold
          · exact hmoves.not_claimed hinv (lookup_some hrow).1 hdone hcount.1 hcount.2
          · exact (hfolds.events note hfold).1 hcount.1

theorem Sys.World.campaign? (h : World deps s action shared) {id : CampaignId}
    (hrow : s.shared.db.campaign? id = some campaign) : shared.db.campaign? id = some campaign := by
  cases h with
  | elapse micros => exact hrow
  | posted body createdAt campaignId callIds db hposted =>
      show lookup CampaignRow.id db.campaigns id = some campaign
      rw [hposted.campaigns, lookup_append, show lookup CampaignRow.id _ id = some campaign from hrow]
      rfl
  | ingested payload receivedAt inboxId db hingested =>
      rw [hingested.rest]
      exact hrow
  | still _ _ _ => exact hrow

theorem Reachable.leavesFinished (hs : Reachable deps s) (hstep : s.step deps action = some s')
    (hrow : s.shared.db.campaign? campaign.id = some campaign) (hdone : campaign.status.isTerminal = true) :
    LeavesFinished campaign s.shared s'.shared := by
  rcases Sys.step_cases hstep with ⟨shared, hworld, rfl⟩ |
    ⟨index, choice, task, stmt, next, txn, reply, shared, txn', rfl, hprocess, hexec, rfl⟩ |
    ⟨index, process, rfl, hprocess, rfl⟩
  · refine ⟨hworld.campaign? hrow, ?_⟩
    show shared.db.auditCount .claimed campaign.id = _
    rw [Db.auditCount, hworld.audit]
    rfl
  · exact (hs.run hprocess hexec).2.2.leavesFinished hs.consistent hrow hdone
  · exact ⟨hrow, rfl⟩

theorem Reachable.keepsFinished {allowed : Sys → Action → Prop} (hs : Reachable deps s)
    (h : Continues deps allowed s s') (hrow : s.shared.db.campaign? campaign.id = some campaign)
    (hdone : campaign.status.isTerminal = true) : LeavesFinished campaign s.shared s'.shared := by
  induction h with
  | refl => exact ⟨hrow, rfl⟩
  | step action hahead _ hstep ih =>
      have hnext := (hs.onward hahead).1.leavesFinished hstep ih.row hdone
      exact ⟨hnext.row, hnext.claims.trans ih.claims⟩

/-- A campaign is served. -/
theorem Reachable.getCampaign (hs : Reachable deps s) {id : CampaignId}
    (hrow : s.shared.db.campaign? id = some campaign) : ∃ post : Post, post.Keeps deps.settings campaign ∧
      VoiceCampaign.getCampaign s.shared.db id =
        .ok (post.answer deps.settings campaign.status.external campaign.updatedAt) := by
  obtain ⟨seen, hseen⟩ := hs.observed (Sys.posts deps)
  obtain ⟨post, hkeeps⟩ := hseen.holds.1.keeps (lookup_some hrow).1
  refine ⟨post, hkeeps, ?_⟩
  simp only [VoiceCampaign.getCampaign, hrow, hkeeps.rowToResponse]
  rfl

theorem Reachable.served (hs : Reachable deps s) {id : CampaignId} {response : CampaignResponse}
    (h : VoiceCampaign.getCampaign s.shared.db id = .ok response) : ∃ (campaign : CampaignRow) (post : Post),
      s.shared.db.campaign? id = some campaign ∧ post.Keeps deps.settings campaign ∧
        response = post.answer deps.settings campaign.status.external campaign.updatedAt := by
  cases hrow : s.shared.db.campaign? id with
  | none =>
      rw [VoiceCampaign.getCampaign, hrow] at h
      cases h
  | some campaign =>
      obtain ⟨post, hkeeps, hserved⟩ := hs.getCampaign hrow
      rw [hserved] at h
      exact ⟨campaign, post, rfl, hkeeps, (Except.ok.inj h).symm⟩

/-- A campaign none of whose calls is left is finished, and its status says how. -/
theorem Consistent.finished_iff (hinv : Consistent shared) (hcampaign : campaign ∈ shared.db.campaigns) :
    campaign.status.isTerminal = true ↔ (shared.db.stats campaign.id).inProgress = 0 := by
  have hfolds := hinv.status campaign hcampaign
  rw [inProgress_eq_zero]
  constructor
  · intro hdone
    cases hstatus : campaign.status with
    | completed => exact (hfolds.completed.mp hstatus).1
    | failed => exact (hfolds.failed.mp hstatus).1
    | _ => rw [hstatus] at hdone; cases hdone
  · intro hall
    by_cases hsome : shared.db.someCompleted campaign.id
    · rw [hfolds.completed.mpr ⟨hall, hsome⟩]
      rfl
    · rw [hfolds.failed.mpr ⟨hall, hsome⟩]
      rfl

theorem Consistent.finished_as (hinv : Consistent shared) (hcampaign : campaign ∈ shared.db.campaigns)
    (hdone : campaign.status.isTerminal = true) : campaign.status.external =
      if 0 < (shared.db.stats campaign.id).completed then .completed else .failed := by
  have hfolds := hinv.status campaign hcampaign
  cases hstatus : campaign.status with
  | completed =>
      rw [if_pos (completed_pos.mpr (hfolds.completed.mp hstatus).2)]
      rfl
  | failed =>
      rw [if_neg fun hpos => (hfolds.failed.mp hstatus).2 (completed_pos.mp hpos)]
      rfl
  | _ => rw [hstatus] at hdone; cases hdone

end

/-! ### Polls -/

/-- What two polls show, the second later than the first: each is one request, which reads the tables `db` and,
for the statistics, `between`; the second reads `later` and `last`. -/
structure PollsOnward (db between later last : Db) : Prop where
  campaign : ∀ campaignId response, getCampaign db campaignId = .ok response → ∃ next,
    getCampaign later campaignId = .ok next ∧ response.status.Onward next.status ∧
      next = { response with status := next.status, updatedAt := next.updatedAt }
  call : ∀ callId response, getCall db callId = .ok response → ∃ next, getCall later callId = .ok next ∧
    response.status.Onward next.status ∧ next = { response with status := next.status }
  stats : ∀ campaignId stats, getCampaignStats db between campaignId = .ok stats → ∃ next,
    getCampaignStats later last campaignId = .ok next ∧ stats.Onward next
  /-- Statistics without a call in progress announce the status. -/
  settled : ∀ campaignId stats, getCampaignStats db between campaignId = .ok stats → stats.inProgress = 0 →
    ∃ response, getCampaign later campaignId = .ok response ∧
      response.status = if 0 < stats.completed then .completed else .failed

section

variable {deps : Deps} {s between later last : Sys} {campaignId : CampaignId}

theorem getCampaignStats_ok {db between : Db} {stats : CampaignStats}
    (h : getCampaignStats db between campaignId = .ok stats) :
    (∃ campaign, db.campaign? campaignId = some campaign) ∧ stats = between.stats campaignId := by
  rw [getCampaignStats] at h
  split at h
  · cases h
  · next campaign hrow => exact ⟨⟨campaign, hrow⟩, (Except.ok.inj h).symm⟩

/-- Polls only go on, whatever runs in between. -/
theorem polls_onward (h : Reachable deps s) (hbetween : Continues deps (fun _ _ => True) s between)
    (hlater : Continues deps (fun _ _ => True) between later) (hlast : Continues deps (fun _ _ => True) later last) :
    PollsOnward s.shared.db between.shared.db later.shared.db last.shared.db := by
  obtain ⟨hs₁, hgrows₁, -⟩ := h.onward hbetween
  obtain ⟨hs₂, hgrows₂, hfollows₂⟩ := hs₁.onward hlater
  obtain ⟨hs₃, hgrows₃, hfollows₃⟩ := hs₂.onward hlast
  have hgrows := hgrows₁.trans hgrows₂
  refine ⟨fun campaignId response hresponse => ?_, fun callId response hresponse => ?_,
    fun campaignId stats hstats => ?_, fun campaignId stats hstats hzero => ?_⟩
  · obtain ⟨campaign, post, hrow, hkeeps, rfl⟩ := h.served hresponse
    obtain ⟨next, hnext, hevolves⟩ := hgrows.campaign _ _ hrow
    have hserved : getCampaign later.shared.db campaignId =
        .ok (post.answer deps.settings next.status.external next.updatedAt) := by
      simp only [getCampaign, hnext, (hkeeps.evolves hevolves).rowToResponse]
      rfl
    exact ⟨_, hserved, hevolves.onward, rfl⟩
  · rw [getCall] at hresponse
    split at hresponse
    · cases hresponse
    next row hrow =>
    cases hresponse
    obtain ⟨next, hnext, hevolves⟩ := hgrows.call _ _ hrow
    refine ⟨_, by rw [getCall, hnext], hevolves.onward, ?_⟩
    simp only [hevolves.id, hevolves.campaignId, hevolves.phone]
  · obtain ⟨⟨campaign, hrow⟩, rfl⟩ := getCampaignStats_ok hstats
    obtain ⟨next, hnext, -⟩ := hgrows.campaign _ _ hrow
    obtain ⟨mid, hmid, -⟩ := hgrows₁.campaign _ _ hrow
    refine ⟨_, by rw [getCampaignStats, hnext], stats_onward ?_⟩
    obtain ⟨hmem, rfl⟩ := lookup_some hmid
    exact hfollows₂.trans hgrows₂ hs₁.consistent hfollows₃ mid hmem
  · obtain ⟨⟨campaign, hrow⟩, rfl⟩ := getCampaignStats_ok hstats
    obtain ⟨mid, hmid, -⟩ := hgrows₁.campaign _ _ hrow
    obtain ⟨hmem, rfl⟩ := lookup_some hmid
    have hdone := (hs₁.consistent.finished_iff hmem).mpr hzero
    obtain ⟨post, -, hserved⟩ := hs₂.getCampaign (hs₁.keepsFinished hlater hmid hdone).row
    exact ⟨_, hserved, hs₁.consistent.finished_as hmem hdone⟩

/-- The one call fails between two polls. -/
theorem polls_onward_one_call : ∃ s later, Reachable noonDeps s ∧ Continues noonDeps (fun _ _ => True) s later ∧
    (s.shared.db.stats 0).inProgress = 1 ∧ (later.shared.db.stats 0).inProgress = 0 ∧
    PollsOnward s.shared.db s.shared.db later.shared.db later.shared.db := by
  obtain ⟨s, hs, hp⟩ := Reachable.of_any noonDeps dialOne
    (fun s => decide ((s.shared.db.stats 0).inProgress = 1) &&
      (s.runBy noonDeps (fun _ _ => true) (deliver 0 "e" .failed 1 13)).any fun later : Sys =>
        decide ((later.shared.db.stats 0).inProgress = 0)) (by decide +kernel)
  simp only [Bool.and_eq_true, Option.any_eq_true, decide_eq_true_eq] at hp
  obtain ⟨hbefore, later, hrun, hafter⟩ := hp
  have hahead : Continues noonDeps (fun _ _ => True) s later :=
    (Continues.refl.of_runBy hrun).mono fun _ _ _ => trivial
  exact ⟨s, later, hs, hahead, hbefore, hafter, polls_onward hs .refl hahead .refl⟩

/-! ### What stays of a finished campaign -/

/-- Nothing a client can see of the campaign, as of its calls but for the time of their last change. -/
structure Frozen (db later : Db) (campaignId : CampaignId) (response : CampaignResponse) : Prop where
  served : getCampaign later campaignId = .ok response
  stats : later.stats campaignId = db.stats campaignId
  noneLeft : (db.stats campaignId).inProgress = 0
  status : response.status = if 0 < (db.stats campaignId).completed then .completed else .failed
  calls : List.Forall₂ (fun call next => next = { call with updatedAt := next.updatedAt }) (db.callsOf campaignId)
    (later.callsOf campaignId)
  claims : later.auditCount .claimed campaignId = db.auditCount .claimed campaignId
  rolledUp : later.auditCount .campaignCompleted campaignId = 1

theorem stats_congr {db later : Db} (h : (later.callsOf campaignId).map (fun call => (call.status, call.attemptEpoch)) =
    (db.callsOf campaignId).map fun call => (call.status, call.attemptEpoch)) :
    later.stats campaignId = db.stats campaignId := by
  have hcount : ∀ p : CallStatus → Bool, ((later.callsOf campaignId).countP fun call => p call.status) =
      (db.callsOf campaignId).countP fun call => p call.status := fun p => by
    have hmap := congrArg (List.countP fun pair : CallStatus × Nat => p pair.1) h
    rwa [List.countP_map, List.countP_map] at hmap
  have hsum := congrArg (fun pairs : List (CallStatus × Nat) => (pairs.map fun pair => pair.2 - 1).sum) h
  simp only [List.map_map, Function.comp_def] at hsum
  have hlength := congrArg List.length h
  rw [List.length_map, List.length_map] at hlength
  have hlive := hcount CallStatus.isLive
  have hfailed := hcount CallStatus.isFailure
  have hcompleted := hcount fun status => decide (status = .completed)
  simp only [Db.stats, hlength, hlive, hfailed, hcompleted, hsum]

/-- Finished is finished, whatever runs from then on. -/
theorem finished_frozen {response : CampaignResponse} (h : Reachable deps s)
    (hlater : Continues deps (fun _ _ => True) s later)
    (hresponse : getCampaign s.shared.db campaignId = .ok response)
    (hdone : response.status = .completed ∨ response.status = .failed) :
    Frozen s.shared.db later.shared.db campaignId response := by
  obtain ⟨campaign, post, hrow, hkeeps, rfl⟩ := h.served hresponse
  obtain ⟨hs', hgrows, hfollows⟩ := h.onward hlater
  obtain ⟨hmem, rfl⟩ := lookup_some hrow
  have hterminal : campaign.status.isTerminal = true := by
    cases hstatus : campaign.status with
    | completed | failed => rfl
    | _ =>
        rw [Post.answer, hstatus] at hdone
        rcases hdone with hdone | hdone <;> cases hdone
  have hkept := h.keepsFinished hlater hrow hterminal
  have hzero := (h.consistent.finished_iff hmem).mp hterminal
  have hall := inProgress_eq_zero.mp hzero
  have hcalls : List.Forall₂ (fun call next => next = { call with updatedAt := next.updatedAt })
      (s.shared.db.callsOf campaign.id) (later.shared.db.callsOf campaign.id) := by
    have hevolve := hfollows campaign hmem
    rw [List.forall₂_iff_zip] at hevolve ⊢
    refine ⟨hevolve.1, fun {call next} hzip => (hevolve.2 hzip).terminal ?_⟩
    obtain ⟨hcall, howner⟩ := List.mem_filter.mp (List.of_mem_zip hzip).1
    exact hall call hcall (of_decide_eq_true howner)
  refine ⟨?_, ?_, hzero, h.consistent.finished_as hmem hterminal, hcalls, hkept.claims, ?_⟩
  · simp only [getCampaign, hkept.row, hkeeps.rowToResponse]
    rfl
  · refine stats_congr (map_eq_of_forall₂ (fun call next hnext => ?_) hcalls)
    rw [hnext]
  · rw [hs'.consistent.rolledUp campaign (lookup_some hkept.row).1, if_pos hterminal]

/-- The one call fails, and is reported completed after its campaign was rolled up. -/
theorem finished_frozen_one_call : ∃ s later response, Reachable noonDeps s ∧
    Continues noonDeps (fun _ _ => True) s later ∧ later.procs.length = 3 ∧
    getCampaign s.shared.db 0 = .ok response ∧ Frozen s.shared.db later.shared.db 0 response := by
  obtain ⟨s, hs, hp⟩ := Reachable.of_any noonDeps (dialOne ++ deliver 0 "e" .failed 1 13)
    (fun s => ((getCampaign s.shared.db 0).toOption.any fun response : CampaignResponse =>
      decide (response.status = .failed)) &&
      (s.runBy noonDeps (fun _ _ => true) (deliver 1 "late" .completed 2 8)).any fun later : Sys =>
        decide (later.procs.length = 3)) (by decide +kernel)
  simp only [Bool.and_eq_true, Option.any_eq_true, decide_eq_true_eq] at hp
  obtain ⟨⟨response, hresponse, hfailed⟩, later, hrun, hprocs⟩ := hp
  have hserved : getCampaign s.shared.db 0 = .ok response := by
    cases hcase : getCampaign s.shared.db 0 with
    | error error =>
        rw [hcase] at hresponse
        cases hresponse
    | ok found =>
        rw [hcase] at hresponse
        exact congrArg Except.ok (Option.some.inj hresponse)
  have hahead : Continues noonDeps (fun _ _ => True) s later :=
    (Continues.refl.of_runBy hrun).mono fun _ _ _ => trivial
  exact ⟨s, later, response, hs, hahead, hprocs, hserved, finished_frozen hs hahead hserved (Or.inr hfailed)⟩

end

end VoiceCampaign

import VoiceCampaign.Properties.Lifecycle
import VoiceCampaign.Properties.Wake

/-!
# Concurrency caps

The count a tick compares with the cap is older than its claim. As long as ticks follow one another, nothing
else takes a call into flight, but for an event that comes late for a call that waits to be dialed again.
-/

namespace VoiceCampaign

open Concurrency Discipline

/-! ### One move -/

theorem CallStatus.inFlight_iff {status : CallStatus} :
    status.inFlight = true ↔ status.isTerminal = false ∧ status.waiting = false := by
  cases status <;> decide

/-- No campaign has more calls in flight. -/
def Lands (s s' : Shared) : Prop := ∀ id, s'.db.inFlightCount id ≤ s.db.inFlightCount id

theorem Lands.refl (s : Shared) : Lands s s := fun _ => le_rfl

theorem Lands.trans {s s' s'' : Shared} (h : Lands s s') (h' : Lands s' s'') : Lands s s'' :=
  fun id => (h' id).trans (h id)

theorem Lands.of_db {s s' : Shared} (hdb : s'.db = s.db) : Lands s s' := fun id => by rw [hdb]

section

variable {s : Shared} {t : Txn} {inbox : Option InboxRow} {task : Option Task} {now : Time}
  {before after : CallRow} {note : AuditEvent} {folds : List AuditEvent}

/-- A commit that moves no call. -/
theorem Lands.commit_nil (hcalls : t.calls = []) : Lands s (s.commit t) := fun id => by
  rw [Db.inFlightCount, Shared.calls_commit_nil hcalls, Db.inFlightCount]

theorem Moves.inFlightCount (h : Moves s task t inbox before after note) (hinv : Consistent s) (id : CampaignId) :
    (s.commit t).db.inFlightCount id + (if before.campaignId = id && before.status.inFlight then 1 else 0) =
      s.db.inFlightCount id + (if after.campaignId = id && after.status.inFlight then 1 else 0) := by
  have hcalls : (s.commit t).db.calls = overlay CallRow.id [after] s.db.calls := by
    rw [← h.calls]
    rfl
  rw [Db.inFlightCount, hcalls]
  exact countP_overlay_singleton (fun call => call.campaignId = id && call.status.inFlight) hinv.callIds
    h.before_mem h.before_id

theorem Moves.lands (h : Moves s task t inbox before after note) (hinv : Consistent s)
    (hflight : after.status.inFlight = true → before.status.inFlight = true) : Lands s (s.commit t) := by
  intro id
  have hcount := h.inFlightCount hinv id
  rw [h.campaignId] at hcount
  cases hafter : after.status.inFlight with
  | false =>
      rw [hafter, Bool.and_false] at hcount
      exact (Nat.le_add_right _ _).trans hcount.le
  | true =>
      rw [hafter, hflight hafter] at hcount
      omega

/-- A tick that does not claim, and a sweep, take no call into flight. -/
theorem Cause.lands {task : Task} (h : Cause s (some task) inbox now before after note) (htask : task ≠ .drain)
    (hclaim : task ≠ .tick ∨ note.eventType ≠ .claimed) (hafter : after.status.inFlight = true) :
    before.status.inFlight = true := by
  cases h with
  | claim campaign inFlight pending cursor htick =>
      rcases hclaim with hne | hne
      · exact absurd (Option.some.inj htick) hne
      · exact absurd rfl hne
  | cas args hasks hhits hregresses =>
      obtain ⟨-, hstatus, -⟩ := CallUpdate.hits_iff.mp hhits
      replace hstatus : before.status = args.expectedStatus := hstatus
      replace hafter : args.newStatus.inFlight = true := hafter
      cases hasks with
      | dispatch => rw [hstatus]; rfl
      | webhook => exact absurd rfl htask
      | reclaimTerminal row reported hsnap hreported =>
          rw [show reported.isTerminal = false from (CallStatus.inFlight_iff.mp hafter).1] at hreported
          cases hreported
      | _ => cases hafter

/-- A claim takes one call of its campaign into flight. -/
theorem Moves.claim_inFlightCount (h : Moves s task t inbox before (before.claim now) note) (hinv : Consistent s)
    {campaignId : CampaignId} (hclaimable : before.claimable campaignId now = true) (id : CampaignId) :
    (s.commit t).db.inFlightCount id = s.db.inFlightCount id + if campaignId = id then 1 else 0 := by
  obtain ⟨howner, hqueued, -⟩ := Cause.claimable_queued hclaimable
  have hcount := h.inFlightCount hinv id
  rw [hqueued, show (before.claim now).campaignId = campaignId from howner] at hcount
  simpa [CallRow.claim, CallStatus.inFlight] using hcount

end

/-! ### Events for calls that wait -/

/-- The compare-and-set does not take a call that waits into flight. -/
def WebhookCas.Grounded (cas : WebhookCas) : Prop :=
  cas.call.status.waiting = true → cas.event.statusEnum.inFlight = false

instance (cas : WebhookCas) : Decidable cas.Grounded :=
  inferInstanceAs (Decidable (_ → _))

/-- No drain takes a call that waits into flight. -/
def Grounded (s : Sys) (action : Action) : Prop := ∀ cas ∈ s.webhookCas action, cas.Grounded

instance (s : Sys) (action : Action) : Decidable (Grounded s action) :=
  inferInstanceAs (Decidable (∀ cas ∈ s.webhookCas action, cas.Grounded))

theorem CasMoved.lands {s : Shared} {t : Txn} {row : InboxRow} {event : ProviderEvent} {call before after : CallRow}
    {args : Transition} (h : CasMoved (fun _ cas => cas.Grounded) s t row event call args before after)
    (hinv : Consistent s) : Lands s (s.commit t) := by
  refine h.settled.moves.lands hinv fun hflight => ?_
  obtain ⟨now, rfl⟩ := h.moved
  obtain ⟨-, -, -, -, hgrounded⟩ := h.found
  replace hflight : args.newStatus.inFlight = true := hflight
  obtain ⟨-, hstatus, -⟩ := CallUpdate.hits_iff.mp h.hits
  have hguard := Transition.regresses_eq_false.mp h.regresses
  rw [← show before.status = args.expectedStatus from hstatus] at hguard
  have hevent : event.statusEnum.inFlight = true := by
    rcases h.asks.newStatus with ⟨he, -⟩ | ⟨-, ⟨he, -⟩ | ⟨he, -⟩⟩
    · rw [← he, hflight]
    · rw [he] at hflight
      cases hflight
    · rw [he] at hflight
      cases hflight
  refine CallStatus.inFlight_iff.mpr ⟨Bool.eq_false_iff.mpr fun hterminal => ?_, Bool.eq_false_iff.mpr fun hwaits => ?_⟩
  · rw [hguard hterminal, CallStatus.inFlight_iff, hterminal] at hflight
    cases hflight.1
  · rw [show event.statusEnum.inFlight = false from hgrounded hwaits] at hevent
    cases hevent

/-- Only ticks take calls into flight. -/
def OnlyTicksFly (l : Party) (s s' : Shared) : Prop := l.task ≠ some .tick → Lands s s'

theorem grounded_hosted (deps : Deps) {allowed : Sys → Action → Prop}
    (hallowed : ∀ s action, allowed s action → Grounded s action) :
    Hosted (promise (CasCond fun _ cas => cas.Grounded) OnlyTicksFly) deps allowed := by
  refine casCond_hosted ?_ ?_ ?_ ?_ fun _ h => hallowed _ _ h
  · exact fun l s s' hdb _ => .of_db hdb
  · intro l s s' task hl hdrain hinv hguar htick
    cases hguar with
    | quiet hdb hnow hissued => exact .of_db hdb
    | commit t htxn hready =>
        cases hready with
        | quiet inbox hcalls hcampaigns hmarks hnotes => exact .commit_nil hcalls
        | moves inbox before after event folds hmoves hfolds hmarks haudit =>
            have hcause := hmoves.cause
            rw [hl] at hcause htick
            exact hmoves.lands hinv (hcause.lands hdrain (Or.inl fun he => htick (congrArg some he)))
  · exact fun htxn hcalls hready htick => .commit_nil hcalls
  · exact fun htask htxn hinv hready hmarks hmoved htick => hmoved.lands hinv

/-! ### Ticks that follow one another -/

/-- No campaign has more calls in flight than it may. -/
def WithinCaps (s : Shared) : Prop :=
  ∀ campaign ∈ s.db.campaigns, s.db.inFlightCount campaign.id ≤ campaign.maxConcurrent

/-- One tick at a time, next to others that take no call into flight. -/
def capped : Extension discipline where
  cond s l stmt := l.task ≠ some .tick → ∀ t, stmt = .commit → l.txn = some t → Lands s (s.commit t)
  inv := WithinCaps
  rely l s s' := l.task = some .tick → Lands s s'
  guar l s s' := Lands s s' ∨ (l.task = some .tick ∧ WithinCaps s')
  compat a b := a.task = some .tick → b.task ≠ some .tick
  rely_refl _ s _ := .refl s
  rely_trans h₁ h₂ htick := (h₁ htick).trans (h₂ htick)
  compat_symm h hb ha := h ha hb
  inv_guar {l s s'} hinv hwithin hguar h := by
    rcases h with hlands | ⟨-, hwithin'⟩
    · intro campaign hcampaign
      obtain ⟨old, hold, hevolves⟩ := hguar.campaign_origin hinv hcampaign
      have hbelow := (hlands campaign.id).trans (hevolves.id ▸ hwithin old hold)
      rwa [show campaign.maxConcurrent = old.maxConcurrent by rw [hevolves.config]]
    · exact hwithin'
  rely_guar _ _ hcompat _ h ho := by
    rcases h with hlands | ⟨hl, -⟩
    · exact hlands
    · exact absurd ho (hcompat hl)
  compat_exec hothers hexec o ho hl' := hothers o ho (hexec.1 ▸ hl')

theorem capped_above : Above capped.discipline id :=
  extension_above fun hstmt _ _ hexec => by
    obtain ⟨-, choice, hrun⟩ := hexec
    have hlands := Lands.of_db (exec_quiet hstmt hrun).1
    exact ⟨Or.inl hlands, fun _ => hlands⟩

/-- A campaign that a tick has found below its cap. -/
def BelowCap (campaign : CampaignRow) (s : Shared) : Prop :=
  Reads s campaign ∧ s.db.inFlightCount campaign.id < campaign.maxConcurrent

theorem BelowCap.mono {campaign : CampaignRow} {s s' : Shared} (h : BelowCap campaign s) (hgrows : Grows s s')
    (hlands : Lands s s') : BelowCap campaign s' :=
  ⟨h.1.mono hgrows, (hlands campaign.id).trans_lt h.2⟩

/-- A claim for a campaign below its cap. -/
theorem WithinCaps.claim {s : Shared} {l : Party} {t : Txn} {campaign : CampaignRow} {before : CallRow}
    {now : Time} {note : AuditEvent} (hwithin : WithinCaps s) (hinv : Consistent s) (hguar : Guar l s (s.commit t))
    (hbelow : BelowCap campaign s) (hclaimable : before.claimable campaign.id now = true)
    (hmoves : Moves s (some .tick) t none before (before.claim now) note) : WithinCaps (s.commit t) := by
  intro row hrow
  obtain ⟨old, hold, hevolves⟩ := hguar.campaign_origin hinv hrow
  have hmax : row.maxConcurrent = old.maxConcurrent := by rw [hevolves.config]
  rw [hmoves.claim_inFlightCount hinv hclaimable, hmax, hevolves.id]
  split
  · next howner =>
      obtain ⟨⟨found, hfound, hread⟩, hcount⟩ := hbelow
      obtain ⟨hmem, hid⟩ := lookup_some hfound
      obtain rfl := eq_of_key_eq hinv.campaignIds hmem hold (hid.trans howner)
      rw [show found.maxConcurrent = campaign.maxConcurrent by rw [hread.config], ← howner]
      exact hcount
  · exact hwithin old hold

theorem cappedCommits : TickCommits capped.discipline id BelowCap where
  read _ hreads hmem hbelow := by
    rw [Db.inFlightCountsByCampaign, if_pos hmem] at hbelow
    exact ⟨hreads, hbelow⟩
  steady htask hsteady hgate := hgate.mono hsteady.1.toGrows (hsteady.2 htask)
  still {others s l t reply s' l'} htask htxn hinv hready hunclaimed hexec := by
    obtain ⟨⟨-, choice, hrun⟩, -, hguar, -⟩ := hexec
    obtain ⟨t', htxn', rfl, -⟩ := exec_commit hrun
    obtain rfl := Option.some.inj (htxn.symm.trans htxn')
    have hlands : Lands s (s.commit t) := by
      rcases hunclaimed with hcalls | ⟨before, after, event, hmoves, hevent⟩
      · exact .commit_nil hcalls
      · exact hmoves.lands hinv.1 (hmoves.cause.lands nofun (Or.inr hevent))
    exact ⟨⟨hguar, Or.inl hlands⟩, fun campaign hgate => hgate.mono hguar.grows hlands⟩
  claim {others s l t campaign before event reply s' l'} htask htxn hinv hgate hclaimable hsettled hinbox hexec := by
    obtain ⟨⟨-, choice, hrun⟩, -, hguar, -⟩ := hexec
    obtain ⟨t', htxn', rfl, -⟩ := exec_commit hrun
    obtain rfl := Option.some.inj (htxn.symm.trans htxn')
    exact ⟨hguar, Or.inr ⟨htask, hinv.2.claim hinv.1 hguar hgate hclaimable hsettled.moves⟩⟩

/-- Ticks follow one another, and no drain takes a call that waits into flight. -/
def SoleTick (s : Sys) (action : Action) : Prop :=
  (action = .tick → ∀ process ∈ s.procs, process.task = .tick → process.live = false) ∧ Grounded s action

/-- A new campaign has nothing in flight. -/
theorem Sys.World.withinCaps {deps : Deps} {s : Sys} {action : Action} {shared : Shared}
    (h : World deps s action shared) (hinv : Consistent s.shared) (hwithin : WithinCaps s.shared) :
    WithinCaps shared ∧ Lands s.shared shared := by
  cases h with
  | elapse micros => exact ⟨hwithin, .of_db rfl⟩
  | posted body createdAt campaignId callIds db hposted =>
      have hcount : ∀ id, db.inFlightCount id = s.shared.db.inFlightCount id := by
        intro id
        rw [Db.inFlightCount, hposted.calls, List.countP_append, Db.inFlightCount, Nat.add_eq_left, List.countP_eq_zero]
        intro row hrow
        rw [(hposted.queued row hrow).2.1]
        simp [CallStatus.inFlight]
      refine ⟨fun campaign hcampaign => ?_, fun id => (hcount id).le⟩
      rw [show ({ s.shared with db, wake := true } : Shared).db = db from rfl, hposted.campaigns] at hcampaign
      show db.inFlightCount campaign.id ≤ _
      rw [hcount]
      rcases List.mem_append.mp hcampaign with hold | hnew
      · exact hwithin campaign hold
      · rw [List.mem_singleton.mp hnew]
        refine (List.countP_eq_zero.mpr fun row hrow => ?_).le.trans (Nat.zero_le _)
        rw [Bool.and_eq_true, decide_eq_true_eq]
        rintro ⟨howner, -⟩
        obtain ⟨found, -, hmem, hid⟩ := hinv.campaign_of_call hrow
        exact hposted.freshCampaign found hmem (hid.trans howner)
  | ingested payload receivedAt inboxId db hingested =>
      rw [hingested.rest]
      exact ⟨hwithin, fun _ => le_rfl⟩
  | still action hrun hcrash => exact ⟨hwithin, .refl _⟩

theorem capped_hosted (deps : Deps) : Hosted capped deps SoleTick where
  cond {s index choice task stmt next txn} hs hallowed hprocess := by
    rintro htick t rfl htxn
    obtain rfl : txn = some t := htxn
    have hstep : s.step deps (.run index choice) = some
        ⟨s.shared.commit t, s.procs.set index ⟨task, next (), none⟩⟩ := by
      rw [Sys.step, Sys.runProcess, hprocess]
      rfl
    obtain ⟨process, hget, -, hlands⟩ := (grounded_hosted deps fun _ _ h => h.2).guar hs hallowed hstep
    obtain rfl := Option.some.inj (hprocess.symm.trans hget)
    exact hlands htick
  init now campaign hcampaign := by cases hcampaign
  world hs _ hwithin hworld := by
    obtain ⟨hwithin', hlands⟩ := hworld.withinCaps hs.consistent hwithin
    exact ⟨hwithin', fun _ _ _ => hlands⟩
  starts {s task shared action} hs hallowed htask hgrows hinv := by
    have hother : task ≠ .tick → capped.discipline.Safe (fun _ _ _ => True) (fun _ _ _ => True)
        (task.code deps) shared ⟨some task, none⟩ := fun hne =>
      @Safe.of_guar _ _ _ _ _ _ _ (fun l => l.task = some task) (fun _ _ => trivial)
        (fun {_ s l stmt _ _ _} hinv hl hexec => by
          obtain ⟨⟨htask', choice, hrun⟩, -, hguar, hcond⟩ := hexec
          refine ⟨⟨hguar, Or.inl ?_⟩, htask'.trans hl⟩
          by_cases hstmt : stmt = .commit
          · subst hstmt
            obtain ⟨t, htxn, rfl, -⟩ := exec_commit hrun
            exact hcond (by rw [hl]; exact fun he => hne (Option.some.inj he)) t rfl htxn
          · exact .of_db (exec_quiet hstmt hrun).1) _ _ _ rfl
    cases task with
    | tick => exact tick_safe deps capped_above cappedCommits rfl rfl
    | drain => exact hother (by rintro ⟨⟩)
    | reclaim row => exact hother (by rintro ⟨⟩)
  meets {s task action} hs hallowed htask thread hthread htick := by
    cases htick
    have haction : action = .tick := by
      cases action with
      | tick => rfl
      | ingest payload receivedAt inboxId =>
          rw [Sys.spawns] at htask
          split at htask <;> simp at htask
      | sweep => simp [Sys.spawns] at htask
      | _ => simp [Sys.spawns] at htask
    obtain ⟨process, hprocess, rfl⟩ := List.mem_map.mp hthread
    intro hother
    rw [Process.thread, Process.party] at hother
    split at hother
    · next hlive =>
        have hover := hallowed.1 haction process hprocess (Option.some.inj hother)
        rw [hover] at hlive
        cases hlive
    · cases hother
  mates {s action} _ _ := by
    cases action with
    | ingest payload receivedAt inboxId =>
        rw [Sys.spawns]
        split
        · exact List.pairwise_singleton _ _
        · exact .nil
    | tick => exact List.pairwise_singleton _ _
    | drain => exact List.pairwise_singleton _ _
    | sweep => exact List.pairwise_map.mpr (List.pairwise_of_forall fun _ _ he => by cases he)
    | _ => exact .nil
  ended _ he := by cases he
  dead _ he := by cases he

theorem ReachableBy.withinCaps {deps : Deps} {s : Sys} (h : ReachableBy deps SoleTick s) : WithinCaps s.shared :=
  ((capped_hosted deps).secure h).inv.2

/-! ### One process after another -/

namespace Service

/-- The compare-and-sets the drain of an event is about to run. -/
def webhookCas (s : Service) : Event → List WebhookCas
  | .run index _ =>
      match s.procs[index]? with
      | some { task, code := .call stmt _, txn } => VoiceCampaign.webhookCas s.shared.db (some task) txn stmt
      | _ => []
  | _ => []

/-- No drain takes a call that waits into flight. -/
def Grounded (s : Service) (event : Event) : Prop := ∀ cas ∈ s.webhookCas event, cas.Grounded

instance (s : Service) (event : Event) : Decidable (s.Grounded event) :=
  inferInstanceAs (Decidable (∀ cas ∈ s.webhookCas event, cas.Grounded))

/-- The states of the runs of one replica, on an empty database, whose events all meet `allowed`. Its process may
end at any time, and another one starts on the tables it leaves. -/
inductive ReachedBy (deps : Deps) (allowed : Service → Event → Prop) : Service → Prop
  | start (now : Time) : ReachedBy deps allowed { shared := { now } }
  | restart {s : Service} (hs : ReachedBy deps allowed s) :
      ReachedBy deps allowed { shared := { s.shared with wake := false } }
  | step {s s' : Service} (event : Event) (hs : ReachedBy deps allowed s) (hallowed : allowed s event)
      (hstep : s.step deps event = some s') : ReachedBy deps allowed s'

/-- A sequence of events that all meet `allowed`. -/
def runBy (deps : Deps) (allowed : Service → Event → Bool) (s : Service) : List Event → Option Service
  | [] => some s
  | event :: rest =>
      if allowed s event = true then (s.step deps event).bind fun s' => s'.runBy deps allowed rest else none

theorem ReachedBy.of_any (deps : Deps) (allowed : Service → Event → Bool) (events : List Event) (p : Service → Bool)
    (h : (runBy deps allowed { shared := { now := 0 } } events).any p = true) :
    ∃ s, ReachedBy deps (fun s event => allowed s event = true) s ∧ p s = true := by
  have hrun : ∀ {events s s'}, ReachedBy deps (fun s event => allowed s event = true) s →
      s.runBy deps allowed events = some s' → ReachedBy deps (fun s event => allowed s event = true) s' := by
    intro events
    induction events with
    | nil =>
        intro s s' hs hrun
        cases hrun
        exact hs
    | cons event rest ih =>
        intro s s' hs hrun
        rw [runBy] at hrun
        split at hrun
        · next hallowed =>
            obtain ⟨mid, hstep, hrest⟩ := Option.bind_eq_some_iff.mp hrun
            exact ih (.step event hs hallowed hstep) hrest
        · cases hrun
  obtain ⟨s, hs, hp⟩ := (Option.any_eq_true _ _).mp h
  exact ⟨s, hrun (.start 0) hs, hp⟩

theorem ReachedBy.mono {deps : Deps} {allowed allowed' : Service → Event → Prop} {s : Service}
    (h : ReachedBy deps allowed s) (hallowed : ∀ s event, allowed s event → allowed' s event) :
    ReachedBy deps allowed' s := by
  induction h with
  | start now => exact .start now
  | restart _ ih => exact .restart ih
  | step event _ hmeets hstep ih => exact .step event ih (hallowed _ _ hmeets) hstep

section

variable {deps : Deps} {s s' : Service} {event : Event} {gone : List Process} {w : Bool} {action : Action}

theorem within_webhookCas (haction : event.action gone.length = some action) :
    (s.within gone w).webhookCas action = s.webhookCas event := by
  cases event <;> cases haction <;> try rfl
  next index choice =>
    rw [Sys.webhookCas, webhookCas, within_get]
    cases s.procs[index]? with
    | none => rfl
    | some coroutine =>
        obtain ⟨task, code, txn⟩ := coroutine
        cases code <;> rfl

/-- The loop starts no tick before the last one is over. -/
theorem within_soleTick (haccountable : s.Accountable) (hgone : ∀ process ∈ gone, process.live = false)
    (hgrounded : s.Grounded event) (haction : event.action gone.length = some action)
    (hstep : s.step deps event = some s') : SoleTick (s.within gone w) action := by
  refine ⟨?_, fun cas hcas => hgrounded cas (within_webhookCas haction ▸ hcas)⟩
  rintro rfl process hprocess htask
  obtain rfl : event = .tick := by cases event <;> cases haction; rfl
  rcases List.mem_append.mp hprocess with hold | hnew
  · exact hgone process hold
  · obtain ⟨coroutine, hcoroutine, rfl⟩ := List.mem_map.mp hnew
    obtain ⟨index, hget⟩ := List.mem_iff_getElem?.mp hcoroutine
    obtain ⟨task, code, txn⟩ := coroutine
    cases code with
    | done value => rfl
    | fail error => rfl
    | call stmt next =>
        have hticking := haccountable.ticking index _ hget htask fun hover => hover _ _ rfl
        rw [step, hticking] at hstep
        simp at hstep

/-- One replica is a system whose ticks follow one another. -/
theorem ReachedBy.within (h : ReachedBy deps Grounded s) : s.Accountable ∧ ∃ gone w,
    (∀ process ∈ gone, process.live = false ∧ process.txn = none) ∧ ReachableBy deps SoleTick (s.within gone w) := by
  induction h with
  | start now => exact ⟨.start _, [], false, List.forall_mem_nil _, .init now⟩
  | @restart s hs ih =>
      obtain ⟨-, gone, w, -, hreachable⟩ := ih
      have hdead := hreachable.dead fun _ _ => ⟨by rintro ⟨⟩, List.forall_mem_nil _⟩
      refine ⟨.start _, (s.within gone w).procs.map fun process => { task := process.task, code := .done () }, w,
        ?_, by simpa [Service.within] using hdead⟩
      intro process hprocess
      obtain ⟨old, -, rfl⟩ := List.mem_map.mp hprocess
      exact ⟨rfl, rfl⟩
  | step event _ hgrounded hstep ih =>
      obtain ⟨haccountable, gone, w, hgone, hreachable⟩ := ih
      have htxns : gone.filterMap Process.txn = [] :=
        List.filterMap_eq_nil_iff.mpr fun process hprocess => (hgone process hprocess).2
      obtain ⟨w', hwithin⟩ := step_within htxns hstep w
      refine ⟨haccountable.step hstep, gone, w', hgone, ?_⟩
      rcases hwithin with he | ⟨action, haction, hstep'⟩
      · exact he ▸ hreachable
      · exact .step action hreachable (within_soleTick haccountable (fun process h => (hgone process h).1)
          hgrounded haction hstep) hstep'

/-- In every state of every run of one replica no campaign has more calls in flight than it may, whatever the drains
and sweeps do meanwhile and whenever the process is replaced, unless an event takes a call that waits to be dialed
into flight. -/
theorem within_cap (h : ReachedBy deps Grounded s) : WithinCaps s.shared := by
  obtain ⟨-, gone, w, -, hreachable⟩ := h.within
  exact hreachable.withinCaps

end

/-- The first of two calls is dialed, and the campaign is at its cap. -/
theorem within_cap_one_call : ∃ s campaign, ReachedBy noonDeps Grounded s ∧ campaign ∈ s.shared.db.campaigns ∧
    s.shared.db.inFlightCount campaign.id = 1 ∧ campaign.maxConcurrent = 1 ∧ WithinCaps s.shared := by
  obtain ⟨s, hs, hp⟩ := ReachedBy.of_any noonDeps (fun s event => decide (s.Grounded event))
    (tickOnce (.handle "h") 20 ++ [.ticked, .ingest (webhook "e" "h" .inProgress) 0 0] ++
      List.replicate 9 (.run 1 {}))
    (fun s => s.shared.db.campaigns.any fun campaign => s.shared.db.inFlightCount campaign.id = 1 &&
      campaign.maxConcurrent = 1) (by decide +kernel)
  simp only [List.any_eq_true, Bool.and_eq_true, decide_eq_true_eq] at hp
  obtain ⟨campaign, hcampaign, hcount, hmax⟩ := hp
  have hreached := hs.mono fun _ _ h => of_decide_eq_true h
  exact ⟨s, campaign, hreached, hcampaign, hcount, hmax, within_cap hreached⟩

end Service

end VoiceCampaign

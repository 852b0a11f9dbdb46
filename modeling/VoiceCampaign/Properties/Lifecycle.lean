import VoiceCampaign.Model.Runs
import VoiceCampaign.Protocol.Extensions

/-!
# The lifecycle of a call

Which changes of a call's status the service commits. Ticks and sweeps take only the edges of the
lifecycle; a webhook writes the status of its event over whatever status the row has, so a drain keeps to
them only where its compare-and-set finds the row in a status the event may follow.
-/

namespace VoiceCampaign

open Concurrency

/-- The edges of the lifecycle, and the task that may take each. -/
inductive LifecycleEdge (before after : CallRow) : Task → Prop
  | claim (hbefore : before.status = .queued) (hafter : after.status = .dialing)
      (hepoch : after.attemptEpoch = before.attemptEpoch + 1) : LifecycleEdge before after .tick
  | answered (task : Task) (hbefore : before.status = .dialing) (hafter : after.status = .inProgress) :
      LifecycleEdge before after task
  | settled (task : Task) (hbefore : before.status = .dialing ∨ before.status = .inProgress)
      (hafter : after.status = .retryPending ∨ after.status.isTerminal = true) :
      LifecycleEdge before after task
  | retryDue (hbefore : before.status = .retryPending) (hafter : after.status = .queued) :
      LifecycleEdge before after .tick
  | reclaimed (row : CallRow) (hbefore : before.status = .dialing) (hafter : after.status = .queued)
      (hepoch : after.attemptEpoch = before.attemptEpoch + 1) : LifecycleEdge before after (.reclaim row)

/-- A call that is being dialed meets an event that is neither `QUEUED` nor `DIALING`; a call that waits
for a retry meets `NO_ANSWER` or `BUSY`, and was read with a retry left, so that it goes on waiting; a call
that waits in the queue meets no event at all. -/
def WebhookCas.OnLifecycle (cas : WebhookCas) : Prop :=
  match cas.call.status with
  | .dialing | .inProgress => cas.event.statusEnum ≠ .queued ∧ cas.event.statusEnum ≠ .dialing
  | .retryPending => (cas.event.statusEnum = .noAnswer ∨ cas.event.statusEnum = .busy) ∧
      cas.update.columnUpdates.retriesRemaining ≠ none
  | .queued => False
  | _ => True

instance (cas : WebhookCas) : Decidable cas.OnLifecycle := by
  unfold WebhookCas.OnLifecycle
  split <;> infer_instance

/-- Every compare-and-set of a drain that finds its row stays on the lifecycle. -/
def OnLifecycle (s : Sys) (action : Action) : Prop := ∀ cas ∈ s.webhookCas action, cas.OnLifecycle

instance (s : Sys) (action : Action) : Decidable (OnLifecycle s action) :=
  inferInstanceAs (Decidable (∀ cas ∈ s.webhookCas action, cas.OnLifecycle))

/-! ### One move -/

section

variable {s : Shared} {t : Txn} {inbox : Option InboxRow} {task : Task} {now : Time}
  {before after call : CallRow} {note : AuditEvent} {event : ProviderEvent} {args : Transition}

/-- Ticks and sweeps take only edges of the lifecycle. -/
theorem Cause.lifecycleEdge (h : Cause s (some task) inbox now before after note) (htask : task ≠ .drain)
    (hchanged : after.status ≠ before.status) : LifecycleEdge before after task := by
  cases h with
  | claim campaign inFlight pending cursor htick hinbox hclaimable =>
      cases htick
      exact .claim (claimable_queued hclaimable).2.1 rfl rfl
  | cas args hasks hhits hregresses =>
      obtain ⟨-, hstatus, hepoch⟩ := CallUpdate.hits_iff.mp hhits
      cases hasks with
      | retryDue snap hsnap => exact .retryDue hstatus rfl
      | dispatch claimed handle hsnap hissued => exact absurd hstatus.symm hchanged
      | rejected claimed reasonCode hsnap => exact .settled _ (Or.inl hstatus) (Or.inr rfl)
      | unavailable claimed nextAttempt hsnap hbudget => exact .settled _ (Or.inl hstatus) (Or.inl rfl)
      | unavailableExhausted claimed hsnap hbudget => exact .settled _ (Or.inl hstatus) (Or.inr rfl)
      | webhook row event snap handle args hsnap hparse hevent hhandle hnew hargs => exact absurd rfl htask
      | reclaimTerminal row reported hsnap hreported => exact .settled _ (Or.inl hstatus) (Or.inr hreported)
      | reclaim row hsnap => exact .reclaimed row hstatus rfl (congrArg (· + 1) hepoch.symm)

theorem WebhookAsks.expectedStatus (h : WebhookAsks event call args) :
    args.expectedStatus = call.status ∧ args.expectedEpoch = call.attemptEpoch ∧ args.callId = call.id := by
  cases h <;> exact ⟨rfl, rfl, rfl⟩

/-- What the update of an event makes of the status. -/
theorem WebhookAsks.newStatus (h : WebhookAsks event call args) :
    (args.newStatus = event.statusEnum ∧ event.statusEnum ≠ .noAnswer ∧ event.statusEnum ≠ .busy ∧
        args.columnUpdates.retriesRemaining = none) ∨
      ((event.statusEnum = .noAnswer ∨ event.statusEnum = .busy) ∧
        ((args.newStatus = .retryPending ∧ args.columnUpdates.retriesRemaining ≠ none) ∨
          args.newStatus = .failed ∧ args.columnUpdates.retriesRemaining = none)) := by
  cases h with
  | writeThrough hlive =>
      refine Or.inl ⟨rfl, ?_, ?_, rfl⟩ <;> intro he <;> rw [he] at hlive <;> cases hlive
  | asIs hterminal =>
      refine Or.inl ⟨rfl, ?_, ?_, rfl⟩ <;> intro he <;> rw [he] at hterminal <;>
        rcases hterminal with h | h <;> cases h
  | retry nextAttempt hevent hbudget => exact Or.inr ⟨hevent, Or.inl ⟨rfl, nofun⟩⟩
  | exhausted hevent hbudget => exact Or.inr ⟨hevent, Or.inr ⟨rfl, rfl⟩⟩

/-- A webhook never takes a waiting call along an edge. -/
theorem not_edge_of_waiting (hwaits : before.status.waiting = true) : ¬ LifecycleEdge before after .drain := by
  intro hedge
  cases hedge with
  | answered _ hbefore hafter =>
      rw [hbefore] at hwaits
      cases hwaits
  | settled _ hbefore hafter =>
      rcases hbefore with hbefore | hbefore <;> rw [hbefore] at hwaits <;> cases hwaits

/-- Nor does it take a call that is being dialed back. -/
theorem edge_iff_of_dialed (hbefore : before.status = .dialing ∨ before.status = .inProgress)
    (hchanged : after.status ≠ before.status) :
    LifecycleEdge before after .drain ↔ after.status ≠ .queued ∧ after.status ≠ .dialing := by
  constructor
  · intro hedge
    cases hedge with
    | answered _ _ hafter => rw [hafter]; exact ⟨nofun, nofun⟩
    | settled _ _ hafter =>
        rcases hafter with hafter | hafter
        · rw [hafter]
          exact ⟨nofun, nofun⟩
        · constructor <;> intro he <;> rw [he] at hafter <;> cases hafter
  · rintro ⟨hqueued, hdialing⟩
    cases hafter : after.status with
    | queued => exact absurd hafter hqueued
    | dialing => exact absurd hafter hdialing
    | inProgress =>
        rcases hbefore with hbefore | hbefore
        · exact .answered _ hbefore hafter
        · exact absurd (hafter.trans hbefore.symm) hchanged
    | retryPending => exact .settled _ hbefore (Or.inl hafter)
    | _ => exact .settled _ hbefore (Or.inr (by rw [hafter]; rfl))

/-- Where the update of an event is applied, it takes an edge of the lifecycle, if it changes the status
at all, exactly if the compare-and-set stays on the lifecycle. -/
theorem WebhookAsks.lifecycleEdge_iff (h : WebhookAsks event call args) (hnew : event.statusEnum ≠ call.status)
    (hhits : args.hits before = true) (hregresses : args.regresses = false) (now : Time) :
    ((args.set now before).status ≠ before.status → LifecycleEdge before (args.set now before) .drain) ↔
      WebhookCas.OnLifecycle ⟨event, args.toCallUpdate, before⟩ := by
  obtain ⟨-, hstatus, -⟩ := CallUpdate.hits_iff.mp hhits
  have hcall : before.status = call.status := hstatus.trans h.expectedStatus.1
  rw [← hcall] at hnew
  have hguard := Transition.regresses_eq_false.mp hregresses
  rw [← hstatus] at hguard
  have hafter : (args.set now before).status = args.newStatus := rfl
  generalize args.set now before = after at hafter
  have hshape := h.newStatus
  rw [← hafter] at hshape hguard
  have hnever : ∀ {status}, before.status = status → status.waiting = true → after.status ≠ status →
      ¬ (after.status ≠ status → LifecycleEdge before after .drain) :=
    fun hbefore hwaits hchanged hedge => not_edge_of_waiting (hbefore ▸ hwaits) (hedge hchanged)
  have hdialed : ∀ {status}, before.status = status → status = .dialing ∨ status = .inProgress →
      ((after.status ≠ status → LifecycleEdge before after .drain) ↔
        event.statusEnum ≠ .queued ∧ event.statusEnum ≠ .dialing) := by
    intro status hbefore hstatus
    have hedge (hchanged : after.status ≠ before.status) : LifecycleEdge before after .drain ↔
        after.status ≠ .queued ∧ after.status ≠ .dialing := edge_iff_of_dialed (hbefore ▸ hstatus) hchanged
    rw [hbefore] at hedge hnew
    rcases hshape with ⟨he, -⟩ | ⟨hevent, ⟨he, -⟩ | ⟨he, -⟩⟩
    · rw [← he] at hnew ⊢
      exact ⟨fun h => (hedge hnew).mp (h hnew), fun h hchanged => (hedge hchanged).mpr h⟩
    · refine iff_of_true (fun hchanged => (hedge hchanged).mpr (by rw [he]; exact ⟨nofun, nofun⟩)) ?_
      rcases hevent with h | h <;> rw [h] <;> exact ⟨nofun, nofun⟩
    · refine iff_of_true (fun hchanged => (hedge hchanged).mpr (by rw [he]; exact ⟨nofun, nofun⟩)) ?_
      rcases hevent with h | h <;> rw [h] <;> exact ⟨nofun, nofun⟩
  cases hbefore : before.status with
  | queued =>
      refine iff_of_false (hnever hbefore rfl ?_) (by simp [WebhookCas.OnLifecycle, hbefore])
      rw [hbefore] at hnew
      rcases hshape with ⟨he, -⟩ | ⟨-, ⟨he, -⟩ | ⟨he, -⟩⟩ <;> rw [he]
      · exact hnew
      · nofun
      · nofun
  | retryPending =>
      rw [hbefore] at hnew
      rcases hshape with ⟨he, hnoAnswer, hbusy, -⟩ | ⟨hevent, ⟨he, hretries⟩ | ⟨he, hretries⟩⟩
      · refine iff_of_false (hnever hbefore rfl (by rw [he]; exact hnew)) ?_
        simp [WebhookCas.OnLifecycle, hbefore, hnoAnswer, hbusy]
      · exact iff_of_true (fun hchanged => absurd he hchanged)
          (by simp [WebhookCas.OnLifecycle, hbefore, hevent, hretries])
      · refine iff_of_false (hnever hbefore rfl (by rw [he]; nofun)) ?_
        simp [WebhookCas.OnLifecycle, hbefore, hretries]
  | dialing =>
      rw [hdialed hbefore (Or.inl rfl)]
      simp [WebhookCas.OnLifecycle, hbefore]
  | inProgress =>
      rw [hdialed hbefore (Or.inr rfl)]
      simp [WebhookCas.OnLifecycle, hbefore]
  | _ =>
      refine iff_of_true (fun hchanged => absurd ?_ hchanged) (by simp [WebhookCas.OnLifecycle, hbefore])
      rw [← hbefore]
      exact hguard (by rw [hbefore]; rfl)

end

/-! ### Every run -/

/-- A step of a task changes statuses along the edges the task may take. -/
def KeepsLifecycle (l : Party) (s s' : Shared) : Prop :=
  ∀ id before after, s.db.call? id = some before → s'.db.call? id = some after →
    after.status ≠ before.status → ∃ task, l.task = some task ∧ LifecycleEdge before after task

theorem Guar.keepsLifecycle {l : Party} {s s' : Shared} (h : Guar l s s') {task : Task}
    (hl : l.task = some task) (htask : task ≠ .drain) : KeepsLifecycle l s s' := by
  intro id before after hbefore hafter hchanged
  cases h with
  | quiet hdb hnow hissued =>
      rw [hdb, hbefore] at hafter
      exact absurd (congrArg CallRow.status (Option.some.inj hafter).symm) hchanged
  | commit t htxn hready =>
      obtain ⟨inbox, note, folds, hmoves, -⟩ := hready.call_changed hbefore hafter
        fun he => hchanged (congrArg CallRow.status he)
      have hcause := hmoves.cause
      rw [hl] at hcause
      exact ⟨task, hl, hcause.lifecycleEdge htask hchanged⟩

theorem CasMoved.keepsLifecycle {s : Shared} {t : Txn} {row : InboxRow} {event : ProviderEvent}
    {call before after : CallRow} {args : Transition} {l : Party} (hl : l.task = some .drain)
    (h : CasMoved (fun _ cas => cas.OnLifecycle) s t row event call args before after) :
    KeepsLifecycle l s (s.commit t) := by
  intro id old new hold hnew hchanged
  obtain ⟨now, rfl⟩ := h.moved
  rw [h.settled.moves.call?_commit] at hnew
  split at hnew
  · next hid =>
      rw [hid, h.settled.moves.row] at hold
      obtain rfl := Option.some.inj hold
      obtain rfl := Option.some.inj hnew
      obtain ⟨-, -, -, -, honLifecycle⟩ := h.found
      exact ⟨.drain, hl, (h.asks.lifecycleEdge_iff h.fresh h.hits h.regresses now).mpr honLifecycle hchanged⟩
  · rw [hold] at hnew
    exact absurd (congrArg CallRow.status (Option.some.inj hnew).symm) hchanged

theorem onLifecycle_hosted (deps : Deps) :
    Hosted (promise (CasCond fun _ cas => cas.OnLifecycle) KeepsLifecycle) deps OnLifecycle := by
  refine casCond_hosted ?_ ?_ ?_ ?_ fun _ h => h
  · intro l s s' hdb id before after hbefore hafter hchanged
    rw [hdb, hbefore] at hafter
    exact absurd (congrArg CallRow.status (Option.some.inj hafter).symm) hchanged
  · intro l s s' task hl htask hinv hguar
    exact hguar.keepsLifecycle hl htask
  · intro l s t htxn hcalls hready id before after hbefore hafter hchanged
    rw [Shared.call?_commit_nil hcalls, hbefore] at hafter
    exact absurd (congrArg CallRow.status (Option.some.inj hafter).symm) hchanged
  · intro l s t row event call args before after htask htxn hinv hready hmarks hmoved
    exact hmoved.keepsLifecycle htask

/-- Every change of a call's status is a step of a task along one of its edges. -/
theorem lifecycle_edges {deps : Deps} {s s' : Sys} {action : Action} (h : ReachableBy deps OnLifecycle s)
    (hallowed : OnLifecycle s action) (hstep : s.step deps action = some s') {id : CallId}
    {before after : CallRow} (hbefore : s.shared.db.call? id = some before)
    (hafter : s'.shared.db.call? id = some after) (hchanged : after.status ≠ before.status) :
    ∃ index choice process, action = .run index choice ∧ s.procs[index]? = some process ∧
      LifecycleEdge before after process.task := by
  rcases Sys.step_cases hstep with ⟨shared, hworld, rfl⟩ |
    ⟨index, choice, task, stmt, next, txn, reply, shared, txn', rfl, hprocess, hexec, rfl⟩ |
    ⟨index, process, rfl, hprocess, rfl⟩
  · rw [show (({ s with shared } : Sys).spawn deps (Sys.spawns deps s action)).shared = shared from rfl,
      hworld.call? hbefore] at hafter
    exact absurd (congrArg CallRow.status (Option.some.inj hafter).symm) hchanged
  · obtain ⟨process, hprocess, -, hkeeps⟩ := (onLifecycle_hosted deps).guar h hallowed hstep
    obtain ⟨task, htask, hedge⟩ := hkeeps id before after hbefore hafter hchanged
    cases htask
    exact ⟨index, choice, process, rfl, hprocess, hedge⟩
  · rw [hbefore] at hafter
    exact absurd (congrArg CallRow.status (Option.some.inj hafter).symm) hchanged

/-- Nobody answers the one call: it goes from `DIALING` to `RETRY_PENDING`. -/
theorem lifecycle_edges_one_call : ∃ s s' before after, ReachableBy noonDeps OnLifecycle s ∧
    OnLifecycle s (.run 1 {}) ∧ s.step noonDeps (.run 1 {}) = some s' ∧
    s.shared.db.call? 0 = some before ∧ s'.shared.db.call? 0 = some after ∧
    before.status = .dialing ∧ after.status = .retryPending ∧
    ∃ index choice process, Action.run 1 {} = .run index choice ∧ s.procs[index]? = some process ∧
      LifecycleEdge before after process.task := by
  obtain ⟨s, hs, hp⟩ := ReachableBy.of_any noonDeps (fun s action => decide (OnLifecycle s action))
    (dialOne ++ [.ingest (webhook "e" "h" .noAnswer) 0 0] ++ runs 1 9)
    (fun s => decide (OnLifecycle s (.run 1 {})) &&
      (s.shared.db.call? 0).any (fun before => before.status = .dialing) &&
      (s.step noonDeps (.run 1 {})).any fun s' => (s'.shared.db.call? 0).any fun after =>
        after.status = .retryPending) (by decide +kernel)
  simp only [Bool.and_eq_true, Option.any_eq_true, decide_eq_true_eq] at hp
  obtain ⟨⟨hallowed, before, hbefore, hdialing⟩, s', hstep, after, hafter, hpending⟩ := hp
  have hreach := hs.mono fun _ _ h => of_decide_eq_true h
  exact ⟨s, s', before, after, hreach, hallowed, hstep, hbefore, hafter, hdialing, hpending,
    lifecycle_edges hreach hallowed hstep hbefore hafter (by rw [hdialing, hpending]; nofun)⟩

/-- A late `DIALING` event takes a call that was answered back to `DIALING`. -/
theorem lifecycle_edges_late_dialing : ∃ s s' before after, Reachable noonDeps s ∧
    s.step noonDeps (.run 2 {}) = some s' ∧ s.shared.db.call? 0 = some before ∧
    s'.shared.db.call? 0 = some after ∧ before.status = .inProgress ∧ after.status = .dialing ∧
    ∀ task, ¬ LifecycleEdge before after task := by
  obtain ⟨s, hs, hp⟩ := Reachable.of_any noonDeps
    (dialOne ++ [.ingest (webhook "e" "h" .inProgress) 0 0] ++ runs 1 7 ++
      [.ingest (webhook "late" "h" .dialing) 0 1] ++ runs 2 6)
    (fun s => (s.shared.db.call? 0).any (fun before => before.status = .inProgress) &&
      (s.step noonDeps (.run 2 {})).any fun s' => (s'.shared.db.call? 0).any fun after =>
        after.status = .dialing) (by decide +kernel)
  simp only [Bool.and_eq_true, Option.any_eq_true, decide_eq_true_eq] at hp
  obtain ⟨⟨before, hbefore, hanswered⟩, s', hstep, after, hafter, hdialing⟩ := hp
  refine ⟨s, s', before, after, hs, hstep, hbefore, hafter, hanswered, hdialing, fun task hedge => ?_⟩
  cases hedge <;> simp_all [CallStatus.isTerminal]

end VoiceCampaign

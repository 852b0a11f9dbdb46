import Mathlib.Data.List.Dedup
import VoiceCampaign.Model.Runs
import VoiceCampaign.Protocol.Extensions

/-!
# Due retries

The tick picks a campaign by one notion of a due retry and requeues by another. They agree as long as no
drain writes `RETRY_PENDING` over a call that has no retry time.
-/

namespace VoiceCampaign

open Concurrency

/-- A call that waits for a retry knows until when. -/
def CallRow.Dated (call : CallRow) : Prop := call.status = .retryPending → call.nextAttemptAt ≠ none

/-- `RETRY_PENDING` is written only over a call with a retry time. -/
def WebhookCas.Dated (cas : WebhookCas) : Prop :=
  cas.event.statusEnum = .retryPending → cas.call.nextAttemptAt ≠ none

instance (cas : WebhookCas) : Decidable cas.Dated := by
  unfold WebhookCas.Dated
  infer_instance

/-- Every compare-and-set of a drain that finds its row does so. -/
def DatedEvents (s : Sys) (action : Action) : Prop := ∀ cas ∈ s.webhookCas action, cas.Dated

instance (s : Sys) (action : Action) : Decidable (DatedEvents s action) :=
  inferInstanceAs (Decidable (∀ cas ∈ s.webhookCas action, cas.Dated))

/-! ### One step -/

section

variable {s s' : Shared} {l : Party} {task : Task} {t : Txn} {inbox : Option InboxRow} {now : Time}
  {before after call : CallRow} {note : AuditEvent}

/-- Ticks and sweeps set a retry time with every retry. -/
theorem Cause.dated (h : Cause s (some task) inbox now before after note) (htask : task ≠ .drain) :
    after.Dated := by
  cases h with
  | claim campaign inFlight pending cursor htick hinbox hclaimable => exact nofun
  | cas args hasks hhits hregresses =>
      cases hasks with
      | unavailable claimed nextAttempt hsnap hbudget => exact fun _ => nofun
      | webhook row event snap handle args hsnap hparse hevent hhandle hnew hargs => exact absurd rfl htask
      | reclaimTerminal row reported hsnap hreported =>
          intro hstatus
          rw [show reported = .retryPending from hstatus] at hreported
          cases hreported
      | _ => exact nofun

/-- So does a drain, unless it writes `RETRY_PENDING` through. -/
theorem WebhookAsks.dated {event : ProviderEvent} {args : Transition} (h : WebhookAsks event call args)
    (hdated : WebhookCas.Dated ⟨event, args.toCallUpdate, before⟩) : (args.set now before).Dated := by
  intro hstatus
  cases h with
  | writeThrough hevent => exact hdated hstatus
  | asIs hevent =>
      rw [show event.statusEnum = .retryPending from hstatus] at hevent
      rcases hevent with h | h <;> cases h
  | retry nextAttempt hevent hbudget => exact nofun
  | exhausted hevent hbudget => cases hstatus

/-- A step leaves the calls with their retry times. -/
def KeepsDated (_ : Party) (s s' : Shared) : Prop := ∀ id before after, s.db.call? id = some before →
  s'.db.call? id = some after → before.Dated → after.Dated

theorem KeepsDated.of_same (h : ∀ id, s'.db.call? id = s.db.call? id) : KeepsDated l s s' := by
  intro id before after hbefore hafter hdated
  rw [h id, hbefore] at hafter
  exact Option.some.inj hafter ▸ hdated

theorem Guar.keepsDated (h : Guar l s s') (hl : l.task = some task) (htask : task ≠ .drain) :
    KeepsDated l s s' := by
  intro id before after hbefore hafter hdated
  by_cases hchanged : after = before
  · exact hchanged ▸ hdated
  cases h with
  | quiet hdb hnow hissued =>
      rw [hdb, hbefore] at hafter
      exact absurd (Option.some.inj hafter).symm hchanged
  | commit t htxn hready =>
      obtain ⟨inbox, note, folds, hmoves, -⟩ := hready.call_changed hbefore hafter hchanged
      have hcause := hmoves.cause
      rw [hl] at hcause
      exact hcause.dated htask

theorem CasMoved.keepsDated {row : InboxRow} {event : ProviderEvent} {args : Transition}
    (h : CasMoved (fun _ cas => cas.Dated) s t row event call args before after) :
    KeepsDated l s (s.commit t) := by
  intro id old new hold hnew hdated
  obtain ⟨now, rfl⟩ := h.moved
  rw [h.settled.moves.call?_commit] at hnew
  split at hnew
  · obtain ⟨-, -, -, -, hmeets⟩ := h.found
    exact Option.some.inj hnew ▸ h.asks.dated hmeets
  · rw [hold] at hnew
    exact Option.some.inj hnew ▸ hdated

theorem datedEvents_hosted (deps : Deps) :
    Hosted (promise (CasCond fun _ cas => cas.Dated) KeepsDated) deps DatedEvents := by
  refine casCond_hosted ?_ ?_ ?_ ?_ fun _ h => h
  · intro l s s' hdb
    exact .of_same fun id => by rw [hdb]
  · intro l s s' task hl htask hinv hguar
    exact hguar.keepsDated hl htask
  · intro l s t htxn hcalls hready
    exact .of_same (Shared.call?_commit_nil hcalls)
  · intro l s t row event call args before after htask htxn hinv hready hmarks hmoved
    exact hmoved.keepsDated

end

/-! ### Every run -/

section

variable {deps : Deps} {s s' : Sys}

theorem ReachableBy.dated (h : ReachableBy deps DatedEvents s) {id : CallId} {call : CallRow}
    (hcall : s.shared.db.call? id = some call) : call.Dated := by
  induction h generalizing call with
  | init now => cases hcall
  | @step s s' action hs hallowed hstep ih =>
      cases hbefore : s.shared.db.call? id with
      | none =>
          intro hstatus
          rw [(hs.reachable.call_created hstep hbefore hcall).1] at hstatus
          cases hstatus
      | some before =>
          rcases Sys.step_cases hstep with ⟨shared, hworld, rfl⟩ |
            ⟨index, choice, task, stmt, next, txn, reply, shared, txn', rfl, hprocess, hexec, rfl⟩ |
            ⟨index, process, rfl, hprocess, rfl⟩
          · obtain rfl := Option.some.inj ((hworld.call? hbefore).symm.trans hcall)
            exact ih hbefore
          · obtain ⟨_, _, _, hkeeps⟩ := (datedEvents_hosted deps).guar hs hallowed hstep
            exact hkeeps id before call hbefore hcall (ih hbefore)
          · exact ih hcall

/-- The campaign has a retry that is due by the notion of the pick. -/
theorem mem_findRetryDueCampaignIds {db : Db} {now : Time} {campaignId : CampaignId} :
    campaignId ∈ db.findRetryDueCampaignIds now ↔
      ∃ call ∈ db.calls, call.campaignId = campaignId ∧ call.retryDue now = true := by
  rw [Db.findRetryDueCampaignIds, List.mem_dedup, List.mem_map]
  constructor
  · rintro ⟨call, hcall, rfl⟩
    obtain ⟨hmem, hdue⟩ := List.mem_filter.mp hcall
    exact ⟨call, hmem, rfl, hdue⟩
  · rintro ⟨call, hmem, rfl, hdue⟩
    exact ⟨call, List.mem_filter.mpr ⟨hmem, hdue⟩, rfl⟩

/-- The two notions differ on the calls without a retry time. -/
theorem CallRow.Dated.retryDue_iff {call : CallRow} (h : call.Dated) (now : Time) (campaignId : CampaignId) :
    call.campaignId = campaignId ∧ call.retryDue now = true ↔ call.requeueable campaignId now = true := by
  rw [CallRow.requeueable, CallRow.retryDue, Bool.and_eq_true, Bool.and_eq_true, Bool.and_eq_true,
    decide_eq_true_eq, decide_eq_true_eq, and_assoc]
  refine and_congr_right fun _ => and_congr_right fun hstatus => ?_
  rw [CallRow.dueOrUnset, CallRow.due]
  cases hnext : call.nextAttemptAt with
  | none => exact absurd hnext (h hstatus)
  | some next => exact Iff.rfl

/-- What the requeue of a tick finds, with nobody else about. -/
def Shared.requeues (s : Shared) (campaignId : CampaignId) (choice : Choice) : Option CallRow :=
  (exec [] choice s (some { startedAt := s.now }) (.selectRetryDue campaignId)).bind Prod.fst

theorem requeues_ne_none {s : Shared} {campaignId : CampaignId} {choice : Choice} :
    s.requeues campaignId choice ≠ none ↔ ∃ call ∈ s.db.calls, call.requeueable campaignId s.now = true := by
  have hview : (s.db.apply { startedAt := s.now }).calls = s.db.calls := overlay_nil _
  simp only [Shared.requeues, exec, Option.map_some]
  split
  · next hnone =>
    rw [hview, oldest_eq_none] at hnone
    refine iff_of_false (fun h => h rfl) ?_
    rintro ⟨call, hcall, hrequeueable⟩
    exact List.filter_eq_nil_iff.mp hnone call hcall (by simp [hrequeueable, held])
  · next call hsome =>
    rw [hview] at hsome
    obtain ⟨hmem, hcandidate⟩ := List.mem_filter.mp (oldest_some hsome).1
    rw [Bool.and_eq_true] at hcandidate
    exact iff_of_true (Option.some_ne_none _) ⟨call, hmem, hcandidate.1⟩

/-- What a state says of due retries. -/
structure DueAgrees (s : Shared) : Prop where
  dated : ∀ call ∈ s.db.calls, call.status = .retryPending → call.nextAttemptAt ≠ none
  agrees : ∀ now campaignId choice, campaignId ∈ s.db.findRetryDueCampaignIds now ↔
    ({ s with now } : Shared).requeues campaignId choice ≠ none

/-- The pick and the requeue of a tick agree on the campaigns with a due retry. -/
theorem due_retries_agree (h : ReachableBy deps DatedEvents s) : DueAgrees s.shared where
  dated call hcall := h.dated (h.reachable.consistent.call?_of_mem hcall)
  agrees now campaignId choice := by
    rw [mem_findRetryDueCampaignIds, requeues_ne_none]
    refine exists_congr fun call => and_congr_right fun hcall => ?_
    exact CallRow.Dated.retryDue_iff (h.dated (h.reachable.consistent.call?_of_mem hcall)) now campaignId

end

/-- Nobody answers the one call, and it waits for a retry. -/
theorem due_retries_agree_one_call : ∃ s, ReachableBy noonDeps DatedEvents s ∧
    (∃ call ∈ s.shared.db.calls, call.status = .retryPending) ∧ DueAgrees s.shared := by
  obtain ⟨s, hs, hp⟩ := ReachableBy.of_any noonDeps (fun s action => decide (DatedEvents s action))
    (dialOne ++ deliver 0 "e" .noAnswer 1 13)
    (fun s => s.shared.db.calls.any fun call => call.status = .retryPending) (by decide +kernel)
  simp only [List.any_eq_true, decide_eq_true_eq] at hp
  have hreach := hs.mono fun _ _ h => of_decide_eq_true h
  exact ⟨s, hreach, hp, due_retries_agree hreach⟩

/-- A webhook that says `RETRY_PENDING` leaves a retry that every tick picks and none requeues. -/
theorem due_retries_agree_undated : ∃ s, Reachable noonDeps s ∧
    (∃ call ∈ s.shared.db.calls, call.status = .retryPending ∧ call.nextAttemptAt = none) ∧
    0 ∈ s.shared.db.findRetryDueCampaignIds s.shared.now ∧ s.shared.requeues 0 {} = none := by
  obtain ⟨s, hs, hp⟩ := Reachable.of_any noonDeps (dialOne ++ deliver 0 "e" .retryPending 1 7)
    (fun s => s.shared.db.calls.any (fun call => call.status = .retryPending && call.nextAttemptAt = none) &&
      decide (0 ∈ s.shared.db.findRetryDueCampaignIds s.shared.now) && s.shared.requeues 0 {} = none)
    (by decide +kernel)
  simp only [Bool.and_eq_true, List.any_eq_true, decide_eq_true_eq] at hp
  obtain ⟨⟨⟨call, hcall, hstatus, hnext⟩, hpicked⟩, hnone⟩ := hp
  exact ⟨s, hs, ⟨call, hcall, hstatus, hnext⟩, hpicked, hnone⟩

end VoiceCampaign

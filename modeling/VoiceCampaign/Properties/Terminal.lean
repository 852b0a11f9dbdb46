import VoiceCampaign.Properties.Lifecycle

/-!
# Terminal calls

Once a call is terminal its row is never written again, but for one hole: `NO_ANSWER` or `BUSY` for a
`FAILED` call without retries asks for `FAILED` once more, which the terminal guard lets through.
-/

namespace VoiceCampaign

open Concurrency Discipline

/-- No event that asks for a retry meets a `FAILED` call. -/
def WebhookCas.LeavesFailed (cas : WebhookCas) : Prop :=
  cas.call.status = .failed → cas.event.statusEnum ≠ .noAnswer ∧ cas.event.statusEnum ≠ .busy

instance (cas : WebhookCas) : Decidable cas.LeavesFailed :=
  inferInstanceAs (Decidable (_ → _))

/-- No compare-and-set of a drain finds a `FAILED` call on behalf of `NO_ANSWER` or `BUSY`. -/
def LeavesFailed (s : Sys) (action : Action) : Prop := ∀ cas ∈ s.webhookCas action, cas.LeavesFailed

instance (s : Sys) (action : Action) : Decidable (LeavesFailed s action) :=
  inferInstanceAs (Decidable (∀ cas ∈ s.webhookCas action, cas.LeavesFailed))

/-! ### One move -/

section

variable {s s' : Shared} {t : Txn} {inbox : Option InboxRow} {task : Task} {now : Time}
  {before after call : CallRow} {note : AuditEvent} {event : ProviderEvent} {args : Transition}
  {row : InboxRow}

/-- Ticks and sweeps move live calls only. -/
theorem Cause.live (h : Cause s (some task) inbox now before after note) (htask : task ≠ .drain) :
    before.status.isTerminal = false := by
  cases h with
  | claim campaign inFlight pending cursor htick hinbox hclaimable =>
      rw [(claimable_queued hclaimable).2.1]
      rfl
  | cas args hasks hhits hregresses =>
      rw [(CallUpdate.hits_iff.mp hhits).2.1]
      cases hasks with
      | webhook row event snap handle args hsnap hparse hevent hhandle hnew hargs => exact absurd rfl htask
      | _ => rfl

/-- The update of an event finds a terminal call, and gets past the guard, only in one case. -/
theorem WebhookAsks.live_iff (h : WebhookAsks event call args) (hnew : event.statusEnum ≠ call.status)
    (hhits : args.hits before = true) (hregresses : args.regresses = false) :
    before.status.isTerminal = false ↔ WebhookCas.LeavesFailed ⟨event, args.toCallUpdate, before⟩ := by
  have hstatus := (CallUpdate.hits_iff.mp hhits).2.1
  rw [← h.expectedStatus.1, ← hstatus] at hnew
  have hguard := Transition.regresses_eq_false.mp hregresses
  rw [← hstatus] at hguard
  constructor
  · intro hlive hfailed
    replace hfailed : before.status = .failed := hfailed
    rw [hfailed] at hlive
    cases hlive
  · intro hleaves
    by_contra hterminal
    rw [Bool.not_eq_false] at hterminal
    have hsame := hguard hterminal
    rcases h.newStatus with ⟨he, -⟩ | ⟨hevent, ⟨he, -⟩ | ⟨he, -⟩⟩
    · exact hnew (he.symm.trans hsame)
    · rw [← hsame, he] at hterminal
      cases hterminal
    · obtain ⟨hnoAnswer, hbusy⟩ := hleaves (hsame.symm.trans he)
      exact hevent.elim hnoAnswer hbusy

theorem CasMoved.live (h : CasMoved (fun _ cas => cas.LeavesFailed) s t row event call args before after) :
    before.status.isTerminal = false := by
  obtain ⟨-, -, -, -, hleaves⟩ := h.found
  exact (h.asks.live_iff h.fresh h.hits h.regresses).mpr hleaves

/-! ### Every run -/

/-- A terminal call is left alone, and the audit log records no further change of it. -/
def LeavesTerminal (s s' : Shared) : Prop :=
  ∀ id call, s.db.call? id = some call → call.status.isTerminal = true → s'.db.call? id = some call ∧
    ∀ more, s'.db.audit = s.db.audit ++ more → ∀ note ∈ more, note.event.callId = some id →
      note.event.stateAfter = none

theorem leavesTerminal_of_eq (hcalls : ∀ id call, s.db.call? id = some call → s'.db.call? id = some call)
    (haudit : s'.db.audit = s.db.audit) : LeavesTerminal s s' := by
  refine fun id call hcall _ => ⟨hcalls id call hcall, fun more hmore note hnote _ => ?_⟩
  rw [haudit, List.self_eq_append_right] at hmore
  rw [hmore] at hnote
  cases hnote

/-- A commit whose move, if it makes one, is of a live call. -/
theorem Ready.leavesTerminal (h : Ready s (some task) t)
    (hlive : ∀ {inbox before after event}, Moves s (some task) t inbox before after event →
      before.status.isTerminal = false) : LeavesTerminal s (s.commit t) := by
  intro id call hcall hterminal
  have hmore : ∀ more, (s.commit t).db.audit = s.db.audit ++ more → more = t.audit := fun more hmore =>
    (List.append_cancel_left hmore).symm
  cases h with
  | quiet inbox hcalls hcampaigns hmarks hnotes =>
      refine ⟨(Shared.call?_commit_nil hcalls id).trans hcall, fun more he note hnote _ => ?_⟩
      rw [hmore more he] at hnote
      have hisNote := hnotes note hnote
      rw [AuditEvent.isNote, Bool.and_eq_true, Option.isNone_iff_eq_none] at hisNote
      exact hisNote.2
  | moves inbox before after event folds hmoves hfolds hmarks haudit =>
      have hne : id ≠ after.id := by
        rintro rfl
        rw [hmoves.row] at hcall
        obtain rfl := Option.some.inj hcall
        rw [hlive hmoves] at hterminal
        cases hterminal
      refine ⟨by rw [hmoves.call?_commit, if_neg hne, hcall], fun more he note hnote hid => ?_⟩
      rw [hmore more he] at hnote
      have hevent : note.event ∈ event :: folds := haudit ▸ List.mem_map_of_mem hnote
      rcases List.mem_cons.mp hevent with hmoved | hfold
      · rw [hmoved, hmoves.cause.eventType.2.2, hmoves.before_id] at hid
        exact absurd (Option.some.inj hid).symm hne
      · rw [(hfolds.events _ hfold).2] at hid
        cases hid

theorem leavesFailed_hosted (deps : Deps) :
    Hosted (promise (CasCond fun _ cas => cas.LeavesFailed) fun _ => LeavesTerminal) deps LeavesFailed := by
  refine casCond_hosted ?_ ?_ ?_ ?_ fun _ h => h
  · intro l s s' hdb
    exact leavesTerminal_of_eq (fun id call hcall => hdb ▸ hcall) (by rw [hdb])
  · intro l s s' task hl htask hinv hguar
    cases hguar with
    | quiet hdb hnow hissued =>
        exact leavesTerminal_of_eq (fun id call hcall => hdb ▸ hcall) (by rw [hdb])
    | commit t htxn hready =>
        rw [hl] at hready
        exact hready.leavesTerminal fun hmoves => hmoves.cause.live htask
  · intro l s t htxn hcalls hready
    refine hready.leavesTerminal fun hmoves => ?_
    rw [hmoves.calls] at hcalls
    cases hcalls
  · intro l s t row event call args before after htask htxn hinv hready hmarks hmoved
    refine hready.leavesTerminal fun {inbox old new note} hmoves => ?_
    have hsame : [new] = [after] := hmoves.calls.symm.trans hmoved.settled.moves.calls
    obtain rfl := List.singleton_inj.mp hsame
    have hrow := hmoves.row
    rw [hmoved.settled.moves.row] at hrow
    obtain rfl := Option.some.inj hrow
    exact hmoved.live

/-- The discipline of the runs in which no retry outcome meets a `FAILED` call. -/
def terminalDiscipline : Discipline Stmt Reply Shared Party :=
  (promise (CasCond fun _ cas => cas.LeavesFailed) fun _ => LeavesTerminal).discipline

/-- Whatever runs in between, a drain that has claimed an inbox row ends stale, unless it was another
call that it moved. -/
def StaleFor (deps : Deps) (s : Shared) (id : CallId) : Prop :=
  ∀ (row : InboxRow) (t : Txn), t.Fresh → RowHeld s t row →
    terminalDiscipline.Safe (fun outcome _ l => outcome = .stale ∨
        (outcome = .applied ∧ ∃ t' after, l.txn = some t' ∧ t'.calls = [after] ∧ after.id ≠ id))
      (fun _ _ _ => True) (processRow deps row) s ⟨some .drain, some t⟩

theorem staleFor_of_terminal (deps : Deps) {callId : CallId} (hcall : s.db.call? callId = some call)
    (hterminal : call.status.isTerminal = true) : StaleFor deps s callId := by
  intro row t hfresh hheld
  have hD : Above terminalDiscipline id :=
    promise_above fun l s s' hdb => leavesTerminal_of_eq (fun id call hcall => hdb ▸ hcall) (by rw [hdb])
  refine (processRow_safe (l := ⟨some .drain, some t⟩) deps hD rfl rfl hfresh hheld).later.mono ?_
    fun _ _ _ _ _ => trivial
  rintro outcome s' l' hinv' ⟨⟨htask, t', htxn, hdone⟩, hlater⟩
  rcases hdone.casMoved hD hheld.lock with ⟨-, rfl⟩ | ⟨rfl, event, snap, args, before, after, hmoved⟩
  · exact Or.inl rfl
  · refine Or.inr ⟨rfl, t', after, htxn, hmoved.settled.moves.calls, fun hid => ?_⟩
    obtain ⟨current, hcurrent, hevolves⟩ := (hD.later hlater).call callId call hcall
    have hrow := hmoved.settled.moves.row
    rw [hid] at hrow
    obtain rfl := Option.some.inj (hrow.symm.trans hcurrent)
    have hlive := hmoved.live
    rw [hevolves.isTerminal hterminal, hterminal] at hlive
    cases hlive

end

/-- What holds of a call that was terminal in `s`, at a later point `s'` of the run. -/
structure DoneIsDone (deps : Deps) (s s' : Sys) (call : CallRow) : Prop where
  row : s'.shared.db.call? call.id = some call
  audit : ∃ more, s'.shared.db.audit = s.shared.db.audit ++ more ∧
    ∀ note ∈ more, note.event.callId = some call.id → note.event.stateAfter = none
  stale : StaleFor deps s'.shared call.id

end VoiceCampaign

import VoiceCampaign.Concurrency.Monitor
import VoiceCampaign.Model.Sweep
import VoiceCampaign.Protocol.Reachable

/-!
# The tasks of a sweep

The text of one task, whatever the others do: it writes one version of its own row, takes the lock of its
campaign after that, and commits unless an exception comes. A monitor says so, and the states it goes through
say what the task has done to the tables.
-/

namespace VoiceCampaign

open Concurrency Discipline

/-! ### What a task does to its row -/

namespace SweepRow

/-- The disposition the provider confirms. -/
def confirmed (r : SweepRow) : Option CallStatus :=
  match r.row.providerCallId, r.status with
  | some _, .reported status => if status.isTerminal = true then some status else none
  | _, _ => none

/-- The compare-and-set it comes to. -/
def transition (r : SweepRow) : Transition :=
  match r.confirmed with
  | some status => reclaimTerminalTransition r.row status
  | none => reclaimTransition r.row

/-- The row after it, `NOW()` being `now`. -/
def settled (r : SweepRow) (now : Time) : CallRow := r.transition.set now r.row

def kind (r : SweepRow) : ReclaimKind :=
  if r.fault.isSome = true then .failed
  else if r.confirmed.isSome = true then .terminalApplied
  else .executed

def outcome (r : SweepRow) : ReclaimOutcome := ⟨r.row.id, r.kind⟩

theorem transition_callId (r : SweepRow) : r.transition.callId = r.row.id := by
  rw [transition]
  split <;> rfl

theorem transition_expects (r : SweepRow) : r.transition.expectedStatus = .dialing ∧
    r.transition.expectedEpoch = r.row.attemptEpoch := by
  rw [transition]
  split <;> exact ⟨rfl, rfl⟩

theorem transition_hits (r : SweepRow) {call : CallRow} : r.transition.hits call = true ↔
    call.id = r.row.id ∧ call.status = .dialing ∧ call.attemptEpoch = r.row.attemptEpoch := by
  rw [CallUpdate.hits_iff, r.transition_callId, r.transition_expects.1, r.transition_expects.2]

end SweepRow

/-! ### The exception -/

section

variable {α : Type} {s : Shared} {l : Party} {post : α → Shared → Party → Prop}
  {err : Err → Shared → Party → Prop} {program : Co α}

theorem abort_safe (error : Err) (opened : Bool) :
    discipline.Safe (fun _ _ _ => True) (fun _ _ _ => True) (abort error opened : Co α) s l := by
  cases opened with
  | false => exact fun _ _ _ => trivial
  | true =>
      have hrollback : Stmt.rollback ≠ .commit := nofun
      intro s₁ _ _
      refine ⟨trivial, fun others reply s₂ l₂ hexec => ⟨(discipline_quiet hrollback hexec).1, ?_⟩⟩
      exact fun _ _ _ => trivial

/-- A safe coroutine may be interrupted at any statement. -/
theorem interrupted_safe (error : Err) (h : discipline.Safe post err program s l) (opened : Bool) (after : Nat) :
    discipline.Safe (fun _ _ _ => True) (fun _ _ _ => True) (interrupted error program opened after) s l := by
  induction program generalizing s l opened after with
  | done value => exact abort_safe error opened
  | fail _ => exact abort_safe error opened
  | call stmt next ih =>
      cases after with
      | zero => exact abort_safe error opened
      | succ after =>
          rw [interrupted]
          split
          · exact abort_safe error opened
          · intro s₁ hs₁ hinv
            obtain ⟨hpre, hrun⟩ := h s₁ hs₁ hinv
            refine ⟨hpre, fun others reply s₂ l₂ hexec => ?_⟩
            obtain ⟨hguar, hnext⟩ := hrun others reply s₂ l₂ hexec
            exact ⟨hguar, ih reply hnext _ after⟩

theorem abort_within (error : Err) (opened : Bool) (n : Nat) :
    (abort error opened : Co α).Within (n + 1) := by
  cases opened with
  | false => trivial
  | true => exact fun _ => trivial

theorem interrupted_within (error : Err) {n : Nat} (h : program.Within n) (opened : Bool) (after : Nat) :
    (interrupted error program opened after).Within (n + 1) := by
  induction program generalizing n opened after with
  | done value => exact abort_within error opened n
  | fail _ => exact abort_within error opened n
  | call stmt next ih =>
      cases after with
      | zero => exact abort_within error opened n
      | succ after =>
          cases n with
          | zero => exact h.elim
          | succ n =>
              rw [interrupted]
              split
              · exact abort_within error opened _
              · exact fun reply => ih reply (h reply) _ after

end

/-- A task as it starts is safe. -/
theorem SweepRow.reclaimOne_safe {s : Shared} (r : SweepRow) (hsnap : Seen s r.row) :
    discipline.Safe (fun _ _ _ => True) (fun _ _ _ => True) (r.reclaimOne >>= fun _ => pure ()) s
      ⟨some (.reclaim r.row), none⟩ := by
  have hinner := reclaimOneInner_safe (l := ⟨some (.reclaim r.row), none⟩) hsnap rfl rfl
  have hone : discipline.Safe (fun _ _ _ => True) (fun _ _ _ => True) r.reclaimOne s
      ⟨some (.reclaim r.row), none⟩ := by
    rw [SweepRow.reclaimOne]
    split
    · exact .catching hinner fun _ _ _ _ _ => fun _ _ _ => trivial
    · exact .catching (interrupted_safe _ hinner _ _) fun _ _ _ _ _ => fun _ _ _ => trivial
  exact .bind hone fun _ _ _ _ _ => fun _ _ _ => trivial

/-! ### How long a task can be -/

theorem maybeTransitionCampaignTerminal_within (campaignId : CampaignId) :
    (maybeTransitionCampaignTerminal campaignId).Within 5 := by
  intro _ (active : Nat)
  show (if active > 0 then _ else _ : Co Unit).Within 3
  split
  · trivial
  · intro counts updated
    cases updated with
    | false => trivial
    | true => exact fun _ => trivial

theorem transition_within (args : Transition) : (transition args).Within 7 := by
  rw [transition]
  split
  · trivial
  · intro reply
    rcases reply with error | updated
    · trivial
    cases updated with
    | none => trivial
    | some row =>
        intro _
        show (if args.newStatus.isTerminal = true then _ else _ : Co TransitionResult).Within 5
        split
        · exact (maybeTransitionCampaignTerminal_within _).bind (n := 0) fun _ => trivial
        · trivial

theorem transaction_within {α : Type} {body : Co α} {n : Nat} (h : body.Within n) :
    (transaction body).Within (n + 3) := by
  have hbody : (body.catching fun error => do perform .rollback; raise error).Within (n + 1) :=
    h.catching fun _ _ => trivial
  exact fun _ => hbody.bind (n := 1) fun _ _ => trivial

theorem reclaimOneInner_within (row : CallRow) : (reclaimOneInner row).Within 11 := by
  have hreclaim : (applyReclaim row).Within 10 :=
    (transaction_within (transition_within _)).bind (n := 0) fun result => by
      split <;> trivial
  have hterminal : ∀ reported, (applyTerminal row reported).Within 10 := fun reported =>
    (transaction_within (transition_within _)).bind (n := 0) fun result => by
      split <;> trivial
  rw [reclaimOneInner]
  split
  · exact hreclaim.mono (by omega)
  · intro status
    cases status with
    | reported reported =>
        show (if reported.isTerminal = true then _ else _ : Co ReclaimOutcome).Within 10
        split
        · exact hterminal reported
        · exact hreclaim
    | timedOut => exact hreclaim
    | raised => exact hreclaim

/-- A task is over after twelve statements at most. -/
theorem SweepRow.reclaimOne_within (r : SweepRow) : r.reclaimOne.Within 12 := by
  rw [SweepRow.reclaimOne]
  split
  · have hone : (VoiceCampaign.reclaimOne r.row).Within 11 :=
      (reclaimOneInner_within r.row).catching (n := 0) fun _ => trivial
    exact hone.mono (by omega)
  · exact (interrupted_within _ (reclaimOneInner_within r.row) _ _).catching (n := 0) fun _ => trivial

/-! ### The text of a task -/

/-- Where a task stands: outside its transaction, in it, with its row written and, when `locked`, its campaign
locked, or past it. -/
inductive SweepMode where
  | outside
  | opened
  | written (locked : Bool)
  | committed

def SweepMode.isOpen : SweepMode → Bool
  | opened | written _ => true
  | outside | committed => false

namespace SweepRow

/-- The statements a task may run. -/
inductive Allows (r : SweepRow) : SweepMode → Stmt → Prop
  | getStatus (handle : Handle) : Allows r .outside (.getStatus handle)
  | begin : Allows r .outside .begin
  | updateCall : Allows r .opened (.updateCall r.transition.toCallUpdate)
  | emitAudit (locked : Bool) (event : AuditEvent) : Allows r (.written locked) (.emitAudit event)
  | lockCampaign : Allows r (.written false) (.lockCampaign r.row.campaignId)
  | select (query : Query) : Allows r (.written true) (.select query)
  | updateCampaign (expected new : CampaignStatus) :
      Allows r (.written true) (.updateCampaign r.row.campaignId expected new)
  | commit (locked : Bool) (hcalm : r.fault = none) : Allows r (.written locked) .commit
  | rollback (mode : SweepMode) (hopen : mode.isOpen = true) : Allows r mode .rollback

def monitor (r : SweepRow) : Monitor Stmt Reply SweepMode where
  start := .outside
  allows := r.Allows
  answers
    | .getStatus _, reply => reply = r.status
    | .updateCall _, reply => ∃ now, reply = .ok (some (r.settled now))
    | _, _ => True
  next
    | _, .begin, _ => .opened
    | _, .updateCall _, _ => .written false
    | _, .lockCampaign _, _ => .written true
    | _, .commit, _ => .committed
    | _, .rollback, _ => .outside
    | mode, _, _ => mode

variable {r : SweepRow}

/-! ### No exception -/

theorem maybeTransitionCampaignTerminal_obeys :
    r.monitor.Obeys (fun _ mode => mode = .written true) (fun _ _ => False)
      (maybeTransitionCampaignTerminal r.row.campaignId) (.written false) := by
  refine Monitor.Obeys.perform .lockCampaign fun _ _ => ?_
  refine Monitor.Obeys.perform (.select _) fun (active : Nat) _ => ?_
  show r.monitor.Obeys _ _ (if active > 0 then _ else _) (.written true)
  split
  · exact rfl
  · refine Monitor.Obeys.perform (.select _) fun counts _ => ?_
    refine Monitor.Obeys.perform (.updateCampaign _ _) fun (updated : Bool) _ => ?_
    cases updated with
    | false => exact rfl
    | true => exact ⟨.emitAudit _ _, fun _ _ => rfl⟩

theorem transition_obeys :
    r.monitor.Obeys (fun result mode => result.isNoOp = false ∧ ∃ locked, mode = .written locked)
      (fun _ _ => False) (VoiceCampaign.transition r.transition) .opened := by
  have hlive : r.transition.regresses = false := by
    rw [Transition.regresses, r.transition_expects.1]
    rfl
  rw [VoiceCampaign.transition, hlive]
  refine Monitor.Obeys.perform .updateCall ?_
  rintro _ ⟨now, rfl⟩
  refine Monitor.Obeys.perform (.emitAudit _ _) fun _ _ => ?_
  show r.monitor.Obeys _ _ (if r.transition.newStatus.isTerminal = true then _ else _) (.written false)
  split
  · refine .bind maybeTransitionCampaignTerminal_obeys fun _ mode hmode => ?_
    exact ⟨rfl, true, hmode⟩
  · exact ⟨rfl, false, rfl⟩

theorem transaction_obeys (hcalm : r.fault = none) :
    r.monitor.Obeys (fun result mode => result.isNoOp = false ∧ mode = .committed) (fun _ _ => False)
      (transaction (VoiceCampaign.transition r.transition)) .outside := by
  refine Monitor.Obeys.perform .begin fun _ _ => ?_
  refine .bind (.catching transition_obeys nofun) ?_
  rintro result _ ⟨happlied, locked, rfl⟩
  exact ⟨.commit locked hcalm, fun _ _ => ⟨happlied, rfl⟩⟩

/-- The task comes to its compare-and-set, which applies. -/
theorem reclaimOneInner_obeys (hcalm : r.fault = none) :
    r.monitor.Obeys (fun outcome mode => outcome = r.outcome ∧ mode = .committed) (fun _ _ => False)
      (reclaimOneInner r.row) .outside := by
  have hkind : r.kind = if r.confirmed.isSome = true then .terminalApplied else .executed := by
    rw [kind, hcalm]
    rfl
  have hreclaim (hnone : r.confirmed = none) : r.monitor.Obeys
      (fun outcome mode => outcome = r.outcome ∧ mode = .committed) (fun _ _ => False) (applyReclaim r.row)
      .outside := by
    have htransition : reclaimTransition r.row = r.transition := by rw [transition, hnone]
    rw [applyReclaim, htransition]
    refine .bind (transaction_obeys hcalm) fun result mode hresult => ?_
    rw [hresult.1, outcome, hkind, hnone]
    exact ⟨rfl, hresult.2⟩
  have hterminal (reported : CallStatus) (hsome : r.confirmed = some reported) : r.monitor.Obeys
      (fun outcome mode => outcome = r.outcome ∧ mode = .committed) (fun _ _ => False)
      (applyTerminal r.row reported) .outside := by
    have htransition : reclaimTerminalTransition r.row reported = r.transition := by rw [transition, hsome]
    rw [applyTerminal, htransition]
    refine .bind (transaction_obeys hcalm) fun result mode hresult => ?_
    rw [hresult.1, outcome, hkind, hsome]
    exact ⟨rfl, hresult.2⟩
  rw [reclaimOneInner]
  split
  · next hnone => exact hreclaim (by rw [confirmed, hnone])
  · next handle hhandle =>
      refine Monitor.Obeys.perform (.getStatus handle) ?_
      rintro _ rfl
      show r.monitor.Obeys _ _ _ .outside
      cases hstatus : r.status with
      | reported reported =>
          show r.monitor.Obeys _ _ (if reported.isTerminal = true then _ else _) .outside
          split
          · next h => exact hterminal reported (by simp only [confirmed, hhandle, hstatus, h, if_true])
          · next h => exact hreclaim (by simp only [confirmed, hhandle, hstatus, h]; rfl)
      | timedOut => exact hreclaim (by simp only [confirmed, hhandle, hstatus])
      | raised => exact hreclaim (by simp only [confirmed, hhandle, hstatus])

/-! ### An exception -/

/-- The row, with no exception to come. -/
def calm (r : SweepRow) : SweepRow := { r with fault := none }

/-- What a task may do before the exception, it may do with none to come. -/
theorem Allows.of_calm {mode : SweepMode} {stmt : Stmt} (h : r.calm.Allows mode stmt)
    (hcommit : stmt.isCommit = false) : r.Allows mode stmt := by
  cases h with
  | getStatus handle => exact .getStatus handle
  | begin => exact .begin
  | updateCall => exact .updateCall
  | emitAudit locked event => exact .emitAudit locked event
  | lockCampaign => exact .lockCampaign
  | select query => exact .select query
  | updateCampaign expected new => exact .updateCampaign expected new
  | commit locked hcalm => cases hcommit
  | rollback mode hopen => exact .rollback mode hopen

/-- The mode says whether a transaction is open. -/
theorem Allows.opens {mode : SweepMode} {stmt : Stmt} (h : r.Allows mode stmt) (reply : Reply stmt) :
    stmt.opens mode.isOpen = (r.monitor.next mode stmt reply).isOpen := by
  cases h <;> rfl

theorem Allows.committed {mode : SweepMode} {stmt : Stmt} (h : r.Allows mode stmt)
    (hcommit : stmt.isCommit = false) (reply : Reply stmt) : r.monitor.next mode stmt reply ≠ .committed := by
  cases h with
  | commit locked hcalm => cases hcommit
  | _ => exact nofun

theorem abort_obeys {α : Type} (error : Err) {mode : SweepMode} (hmode : mode ≠ .committed) :
    r.monitor.Obeys (fun _ _ => False) (fun _ mode => mode = .outside) (abort error mode.isOpen : Co α) mode := by
  cases mode with
  | outside => exact rfl
  | committed => exact absurd rfl hmode
  | opened => exact ⟨.rollback _ rfl, fun _ _ => rfl⟩
  | written locked => exact ⟨.rollback _ rfl, fun _ _ => rfl⟩

theorem interrupted_obeys {α : Type} {program : Co α} {mode : SweepMode} {post : α → SweepMode → Prop}
    {err : Err → SweepMode → Prop} (h : r.calm.monitor.Obeys post err program mode)
    (hmode : mode ≠ .committed) (error : Err) (after : Nat) :
    r.monitor.Obeys (fun _ _ => False) (fun _ mode => mode = .outside)
      (interrupted error program mode.isOpen after) mode := by
  induction program generalizing mode after with
  | done value => exact abort_obeys error hmode
  | fail _ => exact abort_obeys error hmode
  | call stmt next ih =>
      cases after with
      | zero => exact abort_obeys error hmode
      | succ after =>
          rw [interrupted]
          split
          · exact abort_obeys error hmode
          · next hcommit =>
              rw [Bool.not_eq_true] at hcommit
              have hallows : r.Allows mode stmt := .of_calm h.1 hcommit
              refine ⟨hallows, fun reply hreply => ?_⟩
              rw [hallows.opens reply]
              exact ih reply (h.2 reply hreply) (hallows.committed hcommit reply) after

/-- Where a task has returned, it has committed, or failed and left no transaction behind. -/
theorem reclaimOne_obeys : r.monitor.Obeys (fun outcome mode => outcome = r.outcome ∧
      mode = if r.fault.isSome = true then .outside else .committed) (fun _ _ => False) r.reclaimOne .outside := by
  cases hfault : r.fault with
  | none =>
      rw [reclaimOne, hfault]
      exact .catching (reclaimOneInner_obeys hfault) nofun
  | some fault =>
      rw [reclaimOne, hfault]
      have hinner := reclaimOneInner_obeys (r := r.calm) rfl
      refine .catching ((interrupted_obeys hinner nofun fault.error fault.after).mono nofun
        fun _ _ h => h) fun _ mode hmode => ?_
      rw [hmode]
      refine ⟨?_, rfl⟩
      rw [outcome, kind, hfault]
      rfl

end SweepRow

end VoiceCampaign

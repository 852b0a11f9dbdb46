import VoiceCampaign.Protocol.Gates
import VoiceCampaign.Protocol.Watch

/-!
# Cursors

Only Phase 3 of a tick advances a round-robin cursor. Everything else leaves the cursors alone, which is
read off the text of the tasks.
-/

namespace VoiceCampaign

open Concurrency Program

/-- Leaves the cursors alone. -/
def Stmt.silent : Stmt → Bool
  | .updateLastDispatchAt _ _ => false
  | _ => true

def Silent (α : Type) (program : Co α) : Prop := program.Only fun stmt => stmt.silent = true

theorem plain_silent {stmt : Stmt} (h : stmt.plain = true) : stmt.silent = true := by
  cases stmt with
  | updateLastDispatchAt campaignId ts => cases h
  | _ => rfl

theorem silent_steps : Conduct Silent := .of_only (fun _ => plain_silent) fun _ => rfl

theorem silent_conduct : TaskConduct Silent :=
  silent_steps.ofDelimits fun stmt hdelimits => .perform_last (by cases stmt <;> first | rfl | cases hdelimits)

theorem processOneRow_silent (deps : Deps) : Silent _ (processOneRow deps) := by
  apply silent_conduct.catching
  · apply silent_conduct.transaction
    refine silent_steps.bind (.perform_last rfl) fun found => ?_
    cases found with
    | none => exact silent_steps.done _
    | some row =>
        refine silent_steps.processRow silent_steps.bind (fun outcome _ => ?_) deps
        exact silent_steps.bind (.perform_last rfl) fun _ => silent_steps.done outcome
  · exact fun _ => silent_steps.done _

/-- Drains and sweeps advance no cursor. -/
theorem task_silent (deps : Deps) {task : Task} (htask : task ≠ .tick) : Silent _ (task.code deps) := by
  cases task with
  | tick => exact absurd rfl htask
  | drain =>
      exact silent_steps.bind (silent_steps.processPendingInbox deps (processOneRow_silent deps)) fun _ =>
        silent_steps.done _
  | reclaim row => exact silent_steps.bind (silent_conduct.reclaimOne row) fun _ => silent_steps.done _

section

variable {others : List Txn} {choice : Choice} {s s' : Shared} {txn txn' : Option Txn}

/-- No cursor is written in the open transaction. -/
def Unwritten (txn : Option Txn) : Prop := ∀ t ∈ txn, t.cursors = []

theorem Unwritten.mono {t t' : Txn} (h : Unwritten (some t)) (hcursors : t'.cursors = t.cursors) :
    Unwritten (some t') := by
  rintro _ ⟨⟩
  exact hcursors.trans (h t rfl)

theorem WriteOutcome.unwritten {t : Txn} {candidate : CallRow → Prop} {version : CallRow → CallRow}
    {reply : Except Err (Option CallRow)} (h : WriteOutcome others s t candidate version reply txn')
    (hunwritten : Unwritten (some t)) : Unwritten txn' := by
  cases h with
  | missed hnone => exact hunwritten
  | violated => exact hunwritten
  | written row t' hrow hcandidate hwrites => exact hunwritten.mono (by rw [hwrites.txn])

theorem exec_silent {stmt : Stmt} {reply : Reply stmt}
    (h : exec others choice s txn stmt = some (reply, s', txn')) (hsilent : stmt.silent = true)
    (hunwritten : Unwritten txn) : s'.db.cursors = s.db.cursors ∧ Unwritten txn' := by
  by_cases hcommit : stmt = .commit
  · subst hcommit
    obtain ⟨t, rfl, rfl, rfl⟩ := exec_commit h
    refine ⟨?_, nofun⟩
    show t.cursors.foldl (upsert CursorRow.campaignId) s.db.cursors = _
    rw [hunwritten t rfl]
    rfl
  refine ⟨by rw [(exec_quiet hcommit h).1], ?_⟩
  cases stmt with
  | begin =>
      obtain ⟨-, rfl⟩ := exec_begin h
      rintro _ ⟨⟩
      rfl
  | commit => exact absurd rfl hcommit
  | updateLastDispatchAt campaignId ts => cases hsilent
  | rollback =>
      obtain ⟨-, rfl⟩ := exec_rollback h
      nofun
  | emitAudit event =>
      obtain ⟨t, rfl⟩ := exec_open h rfl
      obtain ⟨-, rfl⟩ := exec_emitAudit h
      exact hunwritten.mono rfl
  | updateCall update =>
      obtain ⟨t, rfl⟩ := exec_open h rfl
      exact (exec_updateCall h).2.unwritten hunwritten
  | claimNextQueued campaignId =>
      obtain ⟨t, rfl⟩ := exec_open h rfl
      exact (exec_claimNextQueued h).2.unwritten hunwritten
  | selectRetryDue campaignId =>
      obtain ⟨t, rfl⟩ := exec_open h rfl
      obtain ⟨-, ⟨-, rfl⟩ | ⟨row, -, -, -, -, rfl⟩⟩ := exec_selectRetryDue h
      · exact hunwritten
      · exact hunwritten.mono rfl
  | lockCampaign campaignId =>
      obtain ⟨t, rfl⟩ := exec_open h rfl
      obtain ⟨-, -, rfl⟩ := exec_lockCampaign h
      exact hunwritten.mono rfl
  | updateCampaign campaignId expected new =>
      obtain ⟨t, rfl⟩ := exec_open h rfl
      obtain ⟨-, ⟨-, rfl, -⟩ | ⟨campaign, -, -, -, -, rfl⟩⟩ := exec_updateCampaign h
      · exact hunwritten
      · exact hunwritten.mono rfl
  | claimUnprocessedOne =>
      obtain ⟨t, rfl⟩ := exec_open h rfl
      obtain ⟨-, ⟨-, rfl⟩ | ⟨row, -, -, -, -, rfl⟩⟩ := exec_claimUnprocessedOne h
      · exact hunwritten
      · exact hunwritten.mono rfl
  | markProcessed inboxId =>
      obtain ⟨t, rfl⟩ := exec_open h rfl
      obtain ⟨-, ⟨rfl, -⟩ | ⟨row, -, -, rfl⟩⟩ := exec_markProcessed h
      · exact hunwritten
      · exact hunwritten.mono rfl
  | _ =>
      cases h
      exact hunwritten

/-! ### The dispatch of a tick -/

variable {passes : Bool} {α : Type}

/-- Statements that delimit no transaction run in the one that is open. -/
theorem Wp.of_only {P : Stmt → Prop} {program : Co α} {t : Txn} (inv : Txn → Prop) (h : program.Only P)
    (hP : ∀ stmt, P stmt → stmt.delimits = false)
    (hinv : ∀ choice s stmt reply s' txn' t, P stmt → inv t →
      exec others choice s (some t) stmt = some (reply, s', txn') → ∃ t', txn' = some t' ∧ inv t')
    (ht : inv t) :
    Wp (alone others passes) (others = [])
      (fun _ state => ∃ t', state.2 = some t' ∧ Waits passes s state.1 ∧ inv t')
      (fun _ state => ∃ t', state.2 = some t' ∧ Waits passes s state.1 ∧ inv t') program (s, some t) := by
  have hgo : ∀ (program : Co α), program.Only P → ∀ s₁ t, Waits passes s s₁ → inv t →
      Wp (alone others passes) (others = [])
        (fun _ state => ∃ t', state.2 = some t' ∧ Waits passes s state.1 ∧ inv t')
        (fun _ state => ∃ t', state.2 = some t' ∧ Waits passes s state.1 ∧ inv t') program (s₁, some t) := by
    intro program
    induction program with
    | done value => exact fun _ s₁ t hwaits ht => ⟨t, rfl, hwaits, ht⟩
    | fail error => exact fun _ s₁ t hwaits ht => ⟨t, rfl, hwaits, ht⟩
    | call stmt next ih =>
        intro honly s₁ t hwaits ht
        have hdelimits := hP stmt honly.1
        apply @Wp.inside others passes s₁ t α _ _ stmt next
        · rintro rfl
          cases hdelimits
        · rintro rfl
          cases hdelimits
        · intro choice s₂ reply s₃ txn₃ hwaits₂ hwaits₃ hexec
          obtain ⟨t', rfl, ht'⟩ := hinv choice s₂ stmt reply s₃ txn₃ t honly.1 ht hexec
          exact ih reply (honly.2 reply) s₃ t' (hwaits.trans hwaits₃) ht'
  exact hgo program h s t (.refl s) ht

/-- A transaction stays open until it is closed. -/
theorem exec_stays_open {stmt : Stmt} {reply : Reply stmt} {t : Txn} (hdelimits : stmt.delimits = false)
    (h : exec others choice s (some t) stmt = some (reply, s', txn')) : ∃ t', txn' = some t' := by
  have hwrite : ∀ {candidate version reply}, WriteOutcome others s t candidate version reply txn' →
      ∃ t', txn' = some t' := by
    intro candidate version reply hwrites
    cases hwrites <;> exact ⟨_, rfl⟩
  cases stmt with
  | begin => cases hdelimits
  | commit => cases hdelimits
  | rollback => cases hdelimits
  | updateCall update => exact hwrite (exec_updateCall h).2
  | claimNextQueued campaignId => exact hwrite (exec_claimNextQueued h).2
  | selectRetryDue campaignId =>
      obtain ⟨-, ⟨-, rfl⟩ | ⟨row, -, -, -, -, rfl⟩⟩ := exec_selectRetryDue h <;> exact ⟨_, rfl⟩
  | lockCampaign campaignId =>
      obtain ⟨-, -, rfl⟩ := exec_lockCampaign h
      exact ⟨_, rfl⟩
  | updateCampaign campaignId expected new =>
      obtain ⟨-, ⟨-, rfl, -⟩ | ⟨campaign, -, -, -, -, rfl⟩⟩ := exec_updateCampaign h <;> exact ⟨_, rfl⟩
  | claimUnprocessedOne =>
      obtain ⟨-, ⟨-, rfl⟩ | ⟨row, -, -, -, -, rfl⟩⟩ := exec_claimUnprocessedOne h <;> exact ⟨_, rfl⟩
  | markProcessed inboxId =>
      obtain ⟨-, ⟨rfl, -⟩ | ⟨row, -, -, rfl⟩⟩ := exec_markProcessed h <;> exact ⟨_, rfl⟩
  | updateLastDispatchAt campaignId ts =>
      obtain ⟨-, -, rfl⟩ := exec_updateLastDispatchAt h
      exact ⟨_, rfl⟩
  | _ =>
      cases h
      exact ⟨_, rfl⟩

/-- Runs inside a transaction and leaves the cursors alone. -/
def Stmt.body (stmt : Stmt) : Bool := stmt.silent && !stmt.delimits

theorem plain_body {stmt : Stmt} (h : stmt.plain = true) : stmt.body = true := by
  cases stmt <;> first | rfl | cases h

theorem body_steps : Conduct fun _ program => program.Only fun stmt => stmt.body = true :=
  .of_only (fun _ => plain_body) fun _ => rfl

theorem transition_body (args : Transition) : (transition args).Only fun stmt => stmt.body = true :=
  transition_only (fun _ => plain_body) (fun _ _ => rfl) fun _ => rfl

/-- No cursor moves while time passes. -/
structure Steady (s s' : Shared) : Prop where
  cursors : s'.db.cursors = s.db.cursors
  now : s.now ≤ s'.now

/-- The cursor of a campaign moves to a time on the way. -/
structure Advances (campaignId : CampaignId) (s s' : Shared) (ts : Time) : Prop where
  cursors : s'.db.cursors = upsert CursorRow.campaignId s.db.cursors ⟨campaignId, ts⟩
  after : s.now ≤ ts
  before : ts ≤ s'.now

/-- What a tick that dispatched `decision` did to the cursors. -/
def CursorsMoved (s s' : Shared) : Option CampaignId → Prop
  | none => Steady s s'
  | some campaignId => ∃ ts, Advances campaignId s s' ts

theorem Waits.steady (h : Waits passes s s') : Steady s s' := ⟨by rw [h.db], h.now.le⟩

theorem Noted.steady (h : Noted passes s s') : Steady s s' := by
  obtain ⟨notes, hdb, -⟩ := h.db
  exact ⟨by rw [hdb], h.now.le⟩

theorem Steady.trans {s'' : Shared} (h : Steady s s') (h' : Steady s' s'') : Steady s s'' :=
  ⟨h'.cursors.trans h.cursors, h.now.trans h'.now⟩

theorem Steady.advances {s'' : Shared} {campaignId : CampaignId} {ts : Time} (h : Steady s s')
    (h' : Advances campaignId s' s'' ts) : Advances campaignId s s'' ts :=
  ⟨by rw [h'.cursors, h.cursors], h.now.trans h'.after, h'.before⟩

theorem Steady.moved {s'' : Shared} {decision : Option CampaignId} (h : Steady s s')
    (h' : CursorsMoved s' s'' decision) : CursorsMoved s s'' decision := by
  cases decision with
  | none => exact h.trans h'
  | some campaignId =>
      obtain ⟨ts, hadvances⟩ := h'
      exact ⟨ts, h.advances hadvances⟩

theorem Wp.body {program : Co α} {t : Txn} (h : program.Only fun stmt => stmt.body = true)
    (ht : t.cursors = []) :
    Wp (alone others passes) (others = [])
      (fun _ state => ∃ t', state.2 = some t' ∧ Waits passes s state.1 ∧ t'.cursors = [])
      (fun _ state => ∃ t', state.2 = some t' ∧ Waits passes s state.1 ∧ t'.cursors = [])
      program (s, some t) := by
  refine Wp.of_only (fun t => t.cursors = []) h (fun stmt hbody => ?_) ?_ ht
  · rw [Stmt.body, Bool.and_eq_true, Bool.not_eq_true'] at hbody
    exact hbody.2
  · intro choice s stmt reply s' txn' t hbody ht hexec
    rw [Stmt.body, Bool.and_eq_true, Bool.not_eq_true'] at hbody
    obtain ⟨t', rfl⟩ := exec_stays_open hbody.2 hexec
    have hunwritten : Unwritten (some t) := by
      rintro _ ⟨⟩
      exact ht
    exact ⟨t', rfl, (exec_silent hexec hbody.1 hunwritten).2 t' rfl⟩

theorem Wp.steady_transaction {body : Co α} (h : body.Only fun stmt => stmt.body = true) :
    Wp (alone others passes) (others = []) (fun _ state => state.2 = none ∧ Steady s state.1)
      (fun _ state => state.2 = none ∧ Steady s state.1) (VoiceCampaign.transaction body) (s, none) := by
  apply Wp.transaction (fun _ _ t => t.cursors = []) fun _ => True
  · intro s₁ hwaits₁
    refine (Wp.body h rfl).mono ?_ ?_
    · rintro value state ⟨t', htxn, hwaits, ht'⟩
      exact ⟨t', htxn, hwaits₁.trans hwaits, ht'⟩
    · rintro error state ⟨t', htxn, hwaits, -⟩
      exact ⟨t', htxn, hwaits₁.trans hwaits, trivial⟩
  · intro value s₂ t s₃ hwaits₂ hwaits₃ ht
    have hwaits := hwaits₂.trans hwaits₃
    refine ⟨rfl, ?_, hwaits.now.le⟩
    show t.cursors.foldl (upsert CursorRow.campaignId) s₃.db.cursors = _
    rw [ht, hwaits.db]
    rfl
  · exact fun _ s₂ hwaits _ => ⟨rfl, hwaits.steady⟩

theorem requeueOldestRetryDue_steady (campaignId : CampaignId) :
    Wp (alone others passes) (others = []) (fun _ state => state.2 = none ∧ Steady s state.1)
      (fun _ state => state.2 = none ∧ Steady s state.1) (requeueOldestRetryDue campaignId) (s, none) := by
  apply Wp.steady_transaction
  refine ⟨rfl, fun found => ?_⟩
  cases found with
  | none => trivial
  | some call => exact (transition_body _).bind fun _ => trivial

theorem claimPhase_steady (campaign : CampaignRow) :
    Wp (alone others passes) (others = []) (fun _ state => state.2 = none ∧ Steady s state.1)
      (fun _ state => state.2 = none ∧ Steady s state.1) (claimPhase campaign) (s, none) := by
  apply Wp.steady_transaction
  refine ⟨rfl, fun _ => ⟨rfl, fun _ => ⟨rfl, fun _ => ⟨rfl, fun reply => ?_⟩⟩⟩⟩
  apply (ofExcept_only reply).bind
  intro found
  cases found with
  | none => trivial
  | some claimed =>
      refine ⟨rfl, fun _ => ?_⟩
      split
      · exact (maybePromoteToActive_only (fun _ => plain_body) (fun _ _ => rfl) _).bind fun _ => trivial
      · trivial

theorem recordDial_body (campaign : CampaignRow) (claimed : CallRow) (outcome : DialOutcome) :
    (recordDial campaign claimed outcome).Only fun stmt => stmt.body = true := by
  cases outcome with
  | ok handle => exact transition_body _
  | rejected reasonCode => exact transition_body _
  | unavailable =>
      rw [recordDial]
      split
      · exact (body_steps.nextAttempt _ _).bind fun _ => transition_body _
      · exact transition_body _

/-- Phase 3 advances the cursor of its campaign, if it commits. -/
theorem recordPhase_advances (campaign : CampaignRow) (claimed : CallRow) (outcome : DialOutcome) :
    Wp (alone others passes) (others = [])
      (fun _ state => state.2 = none ∧ ∃ ts, Advances campaign.id s state.1 ts)
      (fun _ state => state.2 = none ∧ Steady s state.1) (recordPhase campaign claimed outcome) (s, none) := by
  apply Wp.transaction (fun _ s₂ t => ∃ ts, s.now ≤ ts ∧ ts ≤ s₂.now ∧ t.cursors = [⟨campaign.id, ts⟩]) fun _ => True
  · intro s₁ hwaits₁
    have hrecord : Wp (alone others passes) (others = [])
        (fun _ state => ∃ t, state.2 = some t ∧ Waits passes s state.1 ∧ t.cursors = [])
        (fun _ state => ∃ t, state.2 = some t ∧ Waits passes s state.1 ∧ True)
        (recordDial campaign claimed outcome) (s₁, some { startedAt := s₁.now }) := by
      refine (Wp.body (recordDial_body campaign claimed outcome) rfl).mono ?_ ?_
      · rintro _ state ⟨t, htxn, hwaits, ht⟩
        exact ⟨t, htxn, hwaits₁.trans hwaits, ht⟩
      · rintro _ state ⟨t, htxn, hwaits, -⟩
        exact ⟨t, htxn, hwaits₁.trans hwaits, trivial⟩
    apply hrecord.bind
    · rintro result ⟨s₂, txn₂⟩ ⟨t₂, htxn₂, hwaits₂, ht₂⟩
      obtain rfl : txn₂ = some t₂ := htxn₂
      apply Wp.datetimeNow
      intro s₃ hwaits₃
      apply Wp.last (by nofun) (by nofun)
      intro choice s₄ reply s₅ txn₅ hwaits₄ hwaits₅ hexec
      obtain ⟨-, -, rfl⟩ := exec_updateLastDispatchAt hexec
      have hwaits := hwaits₂.trans hwaits₃
      refine ⟨_, rfl, hwaits.trans hwaits₅, s₃.now, hwaits.now.le, hwaits₅.now.le, ?_⟩
      show put CursorRow.campaignId _ t₂.cursors = _
      rw [ht₂, put_nil]
  · rintro value s₂ t s₃ hwaits₂ hwaits₃ ⟨ts, hafter, hbefore, ht⟩
    refine ⟨rfl, ts, ?_, hafter, hbefore.trans hwaits₃.now.le⟩
    show t.cursors.foldl (upsert CursorRow.campaignId) s₃.db.cursors = _
    rw [ht, (hwaits₂.trans hwaits₃).db]
    rfl
  · exact fun _ s₂ hwaits _ => ⟨rfl, hwaits.steady⟩

theorem placePhase_waits (claimed : CallRow) :
    Wp (alone others passes) (others = []) (fun _ state => state.2 = none ∧ Waits passes s state.1)
      (fun _ state => state.2 = none ∧ Waits passes s state.1) (placePhase claimed) (s, none) := by
  apply Wp.outside (by nofun) fun _ => rfl
  intro choice s₁ reply s₂ txn₂ hwaits₁ hwaits₂ hexec
  obtain rfl : txn₂ = none := by
    cases hexec
    rfl
  cases reply <;> exact ⟨rfl, hwaits₂⟩

theorem dispatchOne_moves (campaign : CampaignRow) :
    Wp (alone others passes) (others = [])
      (fun decision state => state.2 = none ∧ CursorsMoved s state.1 decision ∧ ∀ id ∈ decision, id = campaign.id)
      (fun _ state => state.2 = none ∧ Steady s state.1) (dispatchOne campaign) (s, none) := by
  apply (claimPhase_steady campaign).bind
  rintro claimed ⟨s₁, txn₁⟩ ⟨rfl, hsteady₁⟩
  cases claimed with
  | none => exact ⟨rfl, hsteady₁, nofun⟩
  | some claimed =>
      apply (placePhase_waits claimed).andThen fun _ state h => ⟨h.1, hsteady₁.trans h.2.steady⟩
      rintro outcome ⟨s₂, txn₂⟩ ⟨rfl, hwaits₂⟩
      have hsteady₂ := hsteady₁.trans hwaits₂.steady
      apply (recordPhase_advances campaign claimed outcome).andThen fun _ state h => ⟨h.1, hsteady₂.trans h.2⟩
      rintro - ⟨s₃, txn₃⟩ ⟨rfl, ts, hadvances⟩
      exact ⟨rfl, ⟨ts, hsteady₂.advances hadvances⟩, fun id hid => (Option.some.inj hid).symm⟩

/-- A tick dispatches the round-robin first of its candidates, if any, and advances the cursor of the
campaign it dispatched. -/
theorem dispatchFrom_moves (found : List CampaignRowWithCursor × Bool) :
    Wp (alone others passes) (others = [])
      (fun (decision : TickDecision) (state : Shared × Option Txn) => state.2 = none ∧
        CursorsMoved s state.1 decision.campaignId ∧
        ∀ id ∈ decision.campaignId, ∃ picked, rrFirst found.1 = some picked ∧ picked.campaign.id = id)
      (fun _ state => state.2 = none ∧ Steady s state.1) (dispatchFrom found) (s, none) := by
  rw [dispatchFrom]
  cases hpicked : rrFirst found.1 with
  | none => exact ⟨rfl, (Waits.refl s : Waits passes s s).steady, fun id hid => by cases hid⟩
  | some picked =>
      have hdispatch : ∀ s₁, Steady s s₁ → Wp (alone others passes) (others = [])
          (fun (decision : TickDecision) (state : Shared × Option Txn) => state.2 = none ∧
        CursorsMoved s state.1 decision.campaignId ∧
            ∀ id ∈ decision.campaignId, ∃ best, some picked = some best ∧ best.campaign.id = id)
          (fun _ state => state.2 = none ∧ Steady s state.1)
          (dispatchOne picked.campaign >>= fun dispatched => pure ⟨dispatched, found.2⟩) (s₁, none) := by
        intro s₁ hsteady₁
        apply (dispatchOne_moves picked.campaign).andThen fun _ state h => ⟨h.1, hsteady₁.trans h.2⟩
        rintro decision ⟨s₂, txn₂⟩ ⟨rfl, hmoved, hid⟩
        exact ⟨rfl, hsteady₁.moved hmoved, fun id hmem => ⟨picked, rfl, (hid id hmem).symm⟩⟩
      show Wp _ _ _ _ (dispatchPicked picked found.2) (s, none)
      rw [dispatchPicked]
      split
      · apply (requeueOldestRetryDue_steady picked.campaign.id).bind
        rintro - ⟨s₁, txn₁⟩ ⟨rfl, hsteady₁⟩
        exact hdispatch s₁ hsteady₁
      · exact hdispatch s (Waits.refl s : Waits passes s s).steady

end

end VoiceCampaign

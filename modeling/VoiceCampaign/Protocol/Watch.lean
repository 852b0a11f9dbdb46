import VoiceCampaign.Concurrency.Monitor
import VoiceCampaign.Protocol.Reachable

/-!
# Watching the processes

What holds of a process because of its text alone, in whatever way the others run: a monitor is run next
to every process. The coroutines that keep to the plain statements are listed once, for every monitor.
-/

namespace VoiceCampaign

open Concurrency

/-! ### Replies -/

/-- What the statements that write a call row may return. -/
def Stmt.Answers : (stmt : Stmt) → Reply stmt → Prop
  | .updateCall update => fun reply => ∀ row, reply = .ok (some row) →
      row.id = update.callId ∧ row.attemptEpoch = update.newEpoch.getD update.expectedEpoch
  | _ => fun _ => True

theorem exec_answers {others : List Txn} {choice : Choice} {s s' : Shared} {txn txn' : Option Txn}
    {stmt : Stmt} {reply : Reply stmt} (h : exec others choice s txn stmt = some (reply, s', txn')) :
    stmt.Answers reply := by
  cases stmt with
  | updateCall update =>
      obtain ⟨t, rfl⟩ := exec_open h rfl
      intro row hreply
      obtain ⟨-, hwritten⟩ := exec_updateCall h
      rw [hreply] at hwritten
      cases hwritten with
      | written before t' hrow hhits hwrites =>
          obtain ⟨hid, -, hepoch⟩ := CallUpdate.hits_iff.mp hhits
          exact ⟨hid, by simp [CallUpdate.set, hepoch]⟩
  | _ => trivial

/-! ### Runs with a monitor on every process -/

section

variable {Mode : Type} {M : Monitor Stmt Reply Mode} {deps : Deps} {s s' : Sys} {action : Action}
  {modes : Nat → Mode}

/-- Every process obeys, each from its own mode; those to come are at the start. -/
structure Watched (M : Monitor Stmt Reply Mode) (s : Sys) (modes : Nat → Mode) : Prop where
  obeys : ∀ index process, s.procs[index]? = some process →
    M.Obeys (fun _ _ => True) (fun _ _ => True) process.code (modes index)
  fresh : ∀ index, s.procs[index]? = none → modes index = M.start

/-- All tasks obey from the start. -/
def Monitor.Covers (M : Monitor Stmt Reply Mode) (deps : Deps) : Prop :=
  ∀ task : Task, M.Obeys (fun _ _ => True) (fun _ _ => True) (task.code deps) M.start

/-- One action of the system, and what it does to the modes. -/
inductive WatchedStep (M : Monitor Stmt Reply Mode) (deps : Deps) (s : Sys) (modes : Nat → Mode) :
    Action → Sys → (Nat → Mode) → Prop
  | world (action : Action) (shared : Shared) (hworld : Sys.World deps s action shared) :
      WatchedStep M deps s modes action ({ s with shared }.spawn deps (Sys.spawns deps s action)) modes
  | run (index : Nat) (choice : Choice) (task : Task) (stmt : Stmt) (next : Reply stmt → Co Unit)
      (txn : Option Txn) (reply : Reply stmt) (shared : Shared) (txn' : Option Txn)
      (hprocess : s.procs[index]? = some ⟨task, .call stmt next, txn⟩)
      (hexec : exec (s.othersOf index) choice s.shared txn stmt = some (reply, shared, txn'))
      (hallows : M.allows (modes index) stmt) :
      WatchedStep M deps s modes (.run index choice) ⟨shared, s.procs.set index ⟨task, next reply, txn'⟩⟩
        (Function.update modes index (M.next (modes index) stmt reply))
  | crash (index : Nat) (process : Process) (hprocess : s.procs[index]? = some process) :
      WatchedStep M deps s modes (.crash index)
        { s with procs := s.procs.set index ⟨process.task, .done (), none⟩ }
        (Function.update modes index M.start)

theorem Watched.set (h : Watched M s modes) {index : Nat} {shared : Shared} {process : Process} {mode : Mode}
    (hlt : index < s.procs.length)
    (hobeys : M.Obeys (fun _ _ => True) (fun _ _ => True) process.code mode) :
    Watched M ⟨shared, s.procs.set index process⟩ (Function.update modes index mode) where
  obeys other found hfound := by
    by_cases hother : other = index
    · rw [hother, List.getElem?_set_self hlt] at hfound
      rw [hother, Function.update_self, ← Option.some.inj hfound]
      exact hobeys
    · rw [List.getElem?_set_ne (Ne.symm hother)] at hfound
      rw [Function.update_of_ne hother]
      exact h.obeys other found hfound
  fresh other hnone := by
    have hother : other ≠ index := by
      intro he
      rw [he, List.getElem?_set_self hlt] at hnone
      simp at hnone
    rw [List.getElem?_set_ne (Ne.symm hother)] at hnone
    rw [Function.update_of_ne hother]
    exact h.fresh other hnone

theorem Watched.step (h : Watched M s modes) (hcovers : Monitor.Covers M deps)
    (hanswers : ∀ stmt reply, stmt.Answers reply → M.answers stmt reply)
    (hstep : s.step deps action = some s') :
    ∃ modes', Watched M s' modes' ∧ WatchedStep M deps s modes action s' modes' := by
  rcases Sys.step_cases hstep with ⟨shared, hworld, rfl⟩ |
    ⟨index, choice, task, stmt, next, txn, reply, shared, txn', rfl, hprocess, hexec, rfl⟩ |
    ⟨index, process, rfl, hprocess, rfl⟩
  · refine ⟨modes, ⟨fun index process hprocess => ?_, fun index hnone => ?_⟩, .world action shared hworld⟩
    · by_cases hlt : index < s.procs.length
      · exact h.obeys index process (by rwa [Sys.spawn, List.getElem?_append_left hlt] at hprocess)
      · have hnone : s.procs[index]? = none := List.getElem?_eq_none (Nat.le_of_not_lt hlt)
        rw [h.fresh index hnone]
        rw [Sys.spawn, List.getElem?_append_right (Nat.le_of_not_lt hlt), List.getElem?_map] at hprocess
        obtain ⟨task, -, rfl⟩ := Option.map_eq_some_iff.mp hprocess
        exact hcovers task
    · refine h.fresh index (List.getElem?_eq_none ?_)
      have hlen := List.getElem?_eq_none_iff.mp hnone
      rw [Sys.spawn, List.length_append] at hlen
      exact (Nat.le_add_right _ _).trans hlen
  · obtain ⟨hallows, hnext⟩ := h.obeys index _ hprocess
    have hlt : index < s.procs.length := (List.getElem?_eq_some_iff.mp hprocess).1
    exact ⟨_, h.set hlt (hnext reply (hanswers _ _ (exec_answers hexec))),
      .run index choice task stmt next txn reply shared txn' hprocess hexec hallows⟩
  · have hlt : index < s.procs.length := (List.getElem?_eq_some_iff.mp hprocess).1
    exact ⟨_, h.set hlt trivial, .crash index process hprocess⟩

/-- What the modes say of the open transactions, `J`, holds after a step: the world keeps it, and so does a
statement, both for its own transaction and for the others'. -/
theorem WatchedStep.txns {J : Shared → Mode → Txn → Prop} {modes' : Nat → Mode}
    (hstep : WatchedStep M deps s modes action s' modes')
    (h : ∀ (index : Nat) (process : Process), s.procs[index]? = some process → ∀ t ∈ process.txn,
      J s.shared (modes index) t)
    (hworld : ∀ {mode t shared}, Sys.World deps s action shared → J s.shared mode t → J shared mode t)
    (hown : ∀ {index choice stmt reply shared mode txn txn'}, (∀ t ∈ txn, J s.shared mode t) →
      M.allows mode stmt → exec (s.othersOf index) choice s.shared txn stmt = some (reply, shared, txn') →
      ∀ t ∈ txn', J shared (M.next mode stmt reply) t)
    (hothers : ∀ {index choice task stmt next reply shared mode txn txn'} {other : Nat} {process : Process} {u},
      s.procs[index]? = some ⟨task, .call stmt next, txn⟩ → (∀ t ∈ txn, J s.shared mode t) →
      M.allows mode stmt → exec (s.othersOf index) choice s.shared txn stmt = some (reply, shared, txn') →
      other ≠ index → s.procs[other]? = some process → u ∈ process.txn → J s.shared (modes other) u →
      J shared (modes other) u) :
    ∀ (index : Nat) (process : Process), s'.procs[index]? = some process → ∀ t ∈ process.txn,
      J s'.shared (modes' index) t := by
  intro other process hother u hu
  cases hstep with
  | world action shared hmoved =>
      by_cases hlt : other < s.procs.length
      · rw [Sys.spawn, List.getElem?_append_left hlt] at hother
        exact hworld hmoved (h other process hother u hu)
      · rw [Sys.spawn, List.getElem?_append_right (Nat.le_of_not_lt hlt), List.getElem?_map] at hother
        obtain ⟨task, -, rfl⟩ := Option.map_eq_some_iff.mp hother
        cases hu
  | run index choice task stmt next txn reply shared txn' hprocess hexec hallows =>
      have hlt : index < s.procs.length := (List.getElem?_eq_some_iff.mp hprocess).1
      by_cases hsame : other = index
      · rw [hsame, List.getElem?_set_self hlt] at hother
        rw [← Option.some.inj hother] at hu
        rw [hsame, Function.update_self]
        exact hown (h index _ hprocess) hallows hexec u hu
      · rw [List.getElem?_set_ne (Ne.symm hsame)] at hother
        rw [Function.update_of_ne hsame]
        exact hothers hprocess (h index _ hprocess) hallows hexec hsame hother hu (h other process hother u hu)
  | crash index found hfound =>
      have hlt : index < s.procs.length := (List.getElem?_eq_some_iff.mp hfound).1
      by_cases hsame : other = index
      · rw [hsame, List.getElem?_set_self hlt] at hother
        rw [← Option.some.inj hother] at hu
        cases hu
      · rw [List.getElem?_set_ne (Ne.symm hsame)] at hother
        rw [Function.update_of_ne hsame]
        exact h other process hother u hu

theorem Watched.init (M : Monitor Stmt Reply Mode) (now : Time) :
    Watched M { shared := { now } } fun _ => M.start where
  obeys _ _ h := by simp at h
  fresh _ _ := rfl

end

/-! ### Following the text of the tasks -/

/-- Opens or closes a transaction. -/
def Stmt.delimits : Stmt → Bool
  | .begin | .commit | .rollback => true
  | _ => false

/-- The audit rows of a campaign that a tick passes over. -/
def EventType.isSkip : EventType → Bool
  | skipBusinessHour | skipConcurrency => true
  | _ => false

/-- Neither dials, nor advances a cursor, nor consumes inbox rows, nor records a change of state or a campaign that is
passed over. -/
def Stmt.plain : Stmt → Bool
  | .placeCall _ _ | .claimNextQueued _ | .updateLastDispatchAt _ _ | .claimUnprocessedOne
  | .markProcessed _ => false
  | .emitAudit event => event.isNote && !event.eventType.isSkip
  | stmt => !stmt.delimits

/-- The audit rows of a campaign that is promoted or done. -/
def AuditEvent.rollsUp (event : AuditEvent) : Bool :=
  event.callId.isNone && (event.eventType = .campaignPromotedActive || event.eventType = .campaignCompleted)

theorem AuditEvent.callId_of_rollsUp {event : AuditEvent} (h : event.rollsUp = true) : event.callId = none :=
  Option.isNone_iff_eq_none.mp (Bool.and_eq_true_iff.mp h).1

theorem AuditEvent.eventType_of_rollsUp {event : AuditEvent} (h : event.rollsUp = true) :
    event.eventType = .campaignPromotedActive ∨ event.eventType = .campaignCompleted := by
  simpa using (Bool.and_eq_true_iff.mp h).2

theorem Stmt.plain_note {event : AuditEvent} (h : (Stmt.emitAudit event).plain = true) : event.isNote = true :=
  (Bool.and_eq_true_iff.mp h).1

theorem ofExcept_only {α : Type} {P : Stmt → Prop} (value : Except Err α) : (ofExcept value).Only P := by
  cases value <;> trivial

section

variable {P : Stmt → Prop} (hplain : ∀ stmt : Stmt, stmt.plain = true → P stmt)
  (hrollup : ∀ event : AuditEvent, event.rollsUp = true → P (.emitAudit event))

include hplain hrollup

theorem maybePromoteToActive_only (campaignId : CampaignId) : (maybePromoteToActive campaignId).Only P := by
  apply Program.Only.perform (hplain _ rfl)
  intro updated
  split
  · exact .perform_last (hrollup _ rfl)
  · trivial

theorem maybeTransitionCampaignTerminal_only (campaignId : CampaignId) :
    (maybeTransitionCampaignTerminal campaignId).Only P := by
  apply Program.Only.perform (hplain _ rfl)
  intro _
  apply Program.Only.perform (hplain _ rfl)
  intro active
  split
  · trivial
  · apply Program.Only.perform (hplain _ rfl)
    intro counts
    apply Program.Only.perform (hplain _ rfl)
    intro updated
    split
    · exact .perform_last (hrollup _ rfl)
    · trivial

/-- Apart from its own audit row, `transition` is made of plain statements and of a rollup. -/
theorem transition_only {args : Transition} (haudit : ∀ row, P (.emitAudit (args.auditEvent row))) :
    (transition args).Only P := by
  rw [transition]
  split
  · trivial
  · apply Program.Only.perform (hplain _ rfl)
    intro reply
    apply (ofExcept_only reply).bind
    intro found
    cases found with
    | none => trivial
    | some row =>
        apply Program.Only.perform (haudit row)
        intro _
        split
        · exact (maybeTransitionCampaignTerminal_only hplain hrollup _).bind fun _ => trivial
        · trivial

end

/-- The audit row of a dial that came to something: its handle, or a retry. -/
def AuditEvent.ofDial (event : AuditEvent) : Bool :=
  event.eventType = .dispatch || (event.eventType = .transition && event.reason = "provider_unavailable")

/-- The types of the audit rows of `transition`, but for `DISPATCH`. -/
def EventType.ofTransition : EventType → Bool
  | retryDue | transition | reclaimSkippedTerminal | reclaimExecuted => true
  | _ => false

/-- A transition that is not the record of a dial that came to something. -/
structure Transition.Routine (args : Transition) : Prop where
  eventType : args.eventType.ofTransition = true
  reason : args.reason ≠ "provider_unavailable"

theorem Transition.Routine.not_ofDial {args : Transition} (h : args.Routine) (row : CallRow) :
    (args.auditEvent row).ofDial = false := by
  have htype : (args.auditEvent row).eventType ≠ .dispatch := fun he => by
    have hof := h.eventType
    rw [show args.eventType = .dispatch from he] at hof
    cases hof
  have hreason : (args.auditEvent row).reason ≠ "provider_unavailable" := h.reason
  simp [AuditEvent.ofDial, htype, hreason]

/-- Every other reason has a blank or a colon. -/
theorem reason_ne {reason : String} (h : ' ' ∈ reason.toList ∨ ':' ∈ reason.toList) :
    reason ≠ "provider_unavailable" := by
  rintro rfl
  simp at h

theorem Transition.routine_of_blank {args : Transition} (htype : args.eventType.ofTransition = true)
    (hblank : ' ' ∈ args.reason.toList) : args.Routine :=
  ⟨htype, reason_ne (Or.inl hblank)⟩

theorem terminalTransition_routine (args : RetryableOutcome) : args.terminalTransition.Routine :=
  Transition.routine_of_blank rfl (by simp [RetryableOutcome.terminalTransition, toString])

theorem retryTransition_routine (args : RetryableOutcome) (nextAttempt : Time) :
    (args.retryTransition nextAttempt).Routine :=
  Transition.routine_of_blank rfl (by simp [RetryableOutcome.retryTransition, toString])

theorem exhaustedTransition_routine (args : RetryableOutcome) : args.exhaustedTransition.Routine :=
  Transition.routine_of_blank rfl (by simp [RetryableOutcome.exhaustedTransition, toString])

theorem webhookTransition_routine (event : ProviderEvent) (call : CallRow) :
    (webhookTransition event call).Routine :=
  Transition.routine_of_blank rfl (by simp [webhookTransition, toString])

theorem retryDueTransition_routine (call : CallRow) : (retryDueTransition call).Routine :=
  Transition.routine_of_blank rfl (by simp [retryDueTransition])

theorem rejectedTransition_routine (claimed : CallRow) (reasonCode : String) :
    (rejectedTransition claimed reasonCode).Routine :=
  ⟨rfl, reason_ne (Or.inr (by simp [rejectedTransition, toString]))⟩

theorem unavailableExhaustedTransition_routine (claimed : CallRow) :
    (unavailableExhaustedTransition claimed).Routine :=
  Transition.routine_of_blank rfl (by simp [unavailableExhaustedTransition])

theorem reclaimTerminalTransition_routine (row : CallRow) (reported : CallStatus) :
    (reclaimTerminalTransition row reported).Routine :=
  Transition.routine_of_blank rfl (by simp [reclaimTerminalTransition, toString])

theorem reclaimTransition_routine (row : CallRow) : (reclaimTransition row).Routine :=
  Transition.routine_of_blank rfl (by simp [reclaimTransition])

/-- A property of coroutines that follows from that of their parts, transitions apart. -/
structure Parts (T : (α : Type) → Co α → Prop) : Prop where
  done : ∀ {α : Type} (value : α), T α (.done value)
  fail : ∀ {α : Type} (error : Err), T α (.fail error)
  bind : ∀ {α β : Type} {program : Co α} {f : α → Co β}, T α program → (∀ value, T β (f value)) →
    T β (program >>= f)
  catching : ∀ {α : Type} {program : Co α} {handler : Err → Co α}, T α program →
    (∀ error, T α (handler error)) → T α (program.catching handler)
  plain : ∀ stmt : Stmt, stmt.plain = true → T (Reply stmt) (perform stmt)

/-- The routine transitions have the property too. -/
structure Conduct (T : (α : Type) → Co α → Prop) : Prop extends Parts T where
  transition : ∀ {args : Transition}, args.Routine → T _ (transition args)

/-- Whole transactions have the property too. -/
structure TaskParts (T : (α : Type) → Co α → Prop) : Prop extends Parts T where
  transaction : ∀ {α : Type} {body : Co α}, T α body → T α (transaction body)

structure TaskConduct (T : (α : Type) → Co α → Prop) : Prop extends Conduct T, TaskParts T

/-- The property of a transaction follows from that of its parts. -/
theorem Parts.ofDelimits {T : (α : Type) → Co α → Prop} (h : Parts T)
    (hdelimits : ∀ stmt : Stmt, stmt.delimits = true → T (Reply stmt) (perform stmt)) : TaskParts T where
  toParts := h
  transaction {α body} hbody := by
    apply h.bind (hdelimits .begin rfl)
    intro _
    apply h.bind
    · exact h.catching hbody fun error => h.bind (hdelimits .rollback rfl) fun _ => h.fail error
    · exact fun value => h.bind (hdelimits .commit rfl) fun _ => h.done value

theorem Conduct.ofDelimits {T : (α : Type) → Co α → Prop} (h : Conduct T)
    (hdelimits : ∀ stmt : Stmt, stmt.delimits = true → T (Reply stmt) (perform stmt)) : TaskConduct T where
  toConduct := h
  transaction := (h.toParts.ofDelimits hdelimits).transaction

/-- What all plain statements are, the parts are throughout. -/
theorem Parts.of_only {P : Stmt → Prop} (hplain : ∀ stmt : Stmt, stmt.plain = true → P stmt) :
    Parts fun _ program => program.Only P where
  done _ := trivial
  fail _ := trivial
  bind h hf := h.bind hf
  catching h hhandler := h.catching hhandler
  plain stmt hstmt := .perform_last (hplain stmt hstmt)

/-- What all plain statements and all audit rows are, the routine parts are throughout. -/
theorem Conduct.of_only {P : Stmt → Prop} (hplain : ∀ stmt : Stmt, stmt.plain = true → P stmt)
    (hemit : ∀ event, P (.emitAudit event)) : Conduct fun _ program => program.Only P where
  toParts := .of_only hplain
  transition _ := transition_only hplain (fun _ _ => hemit _) fun _ => hemit _

namespace Parts

variable {T : (α : Type) → Co α → Prop} {α : Type} (h : Parts T)

include h

theorem ofExcept (value : Except Err α) : T α (ofExcept value) := by
  cases value with
  | error error => exact h.fail error
  | ok value => exact h.done value

theorem nextAttempt (attemptEpoch : Nat) (baseSeconds : ℚ) : T _ (nextAttempt attemptEpoch baseSeconds) := by
  have hbackoff : T _ (computeBackoff attemptEpoch baseSeconds) :=
    h.bind (h.plain .uniform rfl) fun _ => h.ofExcept _
  exact h.bind (h.plain .datetimeNow rfl) fun _ => h.bind hbackoff fun _ => h.ofExcept _

theorem applyRetryableOutcome {args : RetryableOutcome} (hterminal : T _ (transition args.terminalTransition))
    (hretry : ∀ nextAttempt, T _ (transition (args.retryTransition nextAttempt)))
    (hexhausted : T _ (transition args.exhaustedTransition)) (baseSeconds : ℚ) :
    T _ (applyRetryableOutcome args baseSeconds) := by
  apply h.bind (h.ofExcept _)
  intro decision
  split
  · exact hterminal
  · split
    · exact h.bind (h.nextAttempt _ _) hretry
    · exact hexhausted

theorem applyEvent {event : ProviderEvent} {call : CallRow}
    (houtcome : ∀ baseSeconds, T _ (VoiceCampaign.applyRetryableOutcome (webhookOutcome event call) baseSeconds))
    (hthrough : T _ (transition (webhookTransition event call))) (deps : Deps) : T _ (applyEvent deps event call) := by
  rw [VoiceCampaign.applyEvent]
  split
  · exact h.bind (h.plain (.select (.getCampaign _)) rfl) fun _ => houtcome _
  · exact hthrough

theorem getByProviderCallId (handle : Json) : T _ (getByProviderCallId handle) := by
  cases handle with
  | str value => exact h.plain (.select (.getByProviderCallId value)) rfl
  | null => exact h.done none
  | _ => exact h.fail _

theorem forM {items : List α} {f : α → Co PUnit} (hf : ∀ item, T _ (f item)) : T _ (items.forM f) := by
  induction items with
  | nil => exact h.done _
  | cons item rest ih => exact h.bind (hf item) fun _ => ih

/-- The body of a drain's transaction, which ends with the row marked. -/
theorem processRow {L : Co RowOutcome → Prop} (hbind : ∀ {β : Type} {program : Co β} {f : β → Co RowOutcome},
    T β program → (∀ value, L (f value)) → L (program >>= f)) {row : InboxRow}
    (hmark : ∀ outcome, outcome = .applied ∨ outcome = .stale → L (markProcessed row.id >>= fun _ => pure outcome))
    {deps : Deps} (hevent : ∀ event call, T _ (VoiceCampaign.applyEvent deps event call)) : L (processRow deps row) := by
  apply hbind (h.ofExcept _)
  intro event
  apply hbind (h.getByProviderCallId _)
  intro found
  cases found with
  | none => exact hbind (h.plain (.emitAudit (unknownHandle event)) rfl) fun _ => hmark .stale (Or.inr rfl)
  | some call =>
      dsimp only
      split
      · exact hmark .stale (Or.inr rfl)
      · apply hbind (hevent event call)
        intro result
        cases result with
        | terminalRegression =>
            exact hbind (h.plain (.emitAudit (terminalWins event call)) rfl) fun _ => hmark .stale (Or.inr rfl)
        | noOp => exact hbind (h.plain (.emitAudit (casNoOp event call)) rfl) fun _ => hmark .stale (Or.inr rfl)
        | applied _ => exact hmark .applied (Or.inl rfl)

theorem processPendingInbox (deps : Deps) (hrow : T _ (processOneRow deps)) :
    T _ (processPendingInbox deps) := by
  have hdrain : ∀ fuel appliedAny processed, T _ (drainInbox deps fuel appliedAny processed) := by
    intro fuel
    induction fuel with
    | zero => exact fun _ _ => h.done _
    | succ fuel ih =>
        intro appliedAny processed
        apply h.bind hrow
        intro outcome
        split
        · exact h.done _
        · exact ih _ _
  apply h.bind (hdrain _ _ _)
  intro result
  dsimp only
  split
  · exact h.bind (h.plain .notify rfl) fun _ => h.done _
  · exact h.done _

end Parts

namespace Conduct

variable {T : (α : Type) → Co α → Prop} {α : Type} (h : Conduct T)

include h

theorem applyRetryableOutcome (args : RetryableOutcome) (baseSeconds : ℚ) :
    T _ (applyRetryableOutcome args baseSeconds) :=
  h.toParts.applyRetryableOutcome (h.transition (terminalTransition_routine args))
    (fun _ => h.transition (retryTransition_routine args _)) (h.transition (exhaustedTransition_routine args)) baseSeconds

theorem applyEvent (deps : Deps) (event : ProviderEvent) (call : CallRow) : T _ (applyEvent deps event call) :=
  h.toParts.applyEvent (h.applyRetryableOutcome _) (h.transition (webhookTransition_routine event call)) deps

theorem processRow {L : Co RowOutcome → Prop} (hbind : ∀ {β : Type} {program : Co β} {f : β → Co RowOutcome},
    T β program → (∀ value, L (f value)) → L (program >>= f)) {row : InboxRow}
    (hmark : ∀ outcome, outcome = .applied ∨ outcome = .stale → L (markProcessed row.id >>= fun _ => pure outcome))
    (deps : Deps) : L (processRow deps row) :=
  h.toParts.processRow hbind hmark (h.applyEvent deps)

end Conduct

/-- Step 5 of a tick. -/
theorem TaskParts.dispatchPicked {T : (α : Type) → Co α → Prop} (h : TaskParts T)
    (hrequeue : ∀ call, T _ (transition (retryDueTransition call))) {picked : CampaignRowWithCursor}
    (hdispatch : T _ (dispatchOne picked.campaign)) (isRetry : Bool) : T _ (dispatchPicked picked isRetry) := by
  have hrequeueOne : T _ (requeueOldestRetryDue picked.campaign.id) := by
    apply h.transaction
    apply h.bind (h.plain (.selectRetryDue _) rfl)
    intro found
    cases found with
    | none => exact h.done _
    | some call => exact h.bind (hrequeue call) fun _ => h.done _
  rw [VoiceCampaign.dispatchPicked]
  split
  · exact h.bind hrequeueOne fun _ => h.bind hdispatch fun _ => h.done _
  · exact h.bind hdispatch fun _ => h.done _

/-- The whole of a tick. -/
theorem TaskParts.tick {T : (α : Type) → Co α → Prop} (h : TaskParts T)
    (hskip : ∀ event : AuditEvent, event.isNote = true → T _ (perform (.emitAudit event)))
    (hrequeue : ∀ call, T _ (transition (retryDueTransition call)))
    (hdispatch : ∀ campaign, T _ (dispatchOne campaign)) (deps : Deps) : T _ (tick deps) := by
  have halone : ∀ event : AuditEvent, event.isNote = true → T _ (emitAlone event) := fun event hevent =>
    h.transaction (hskip event hevent)
  apply h.bind (h.plain .datetimeNow rfl)
  intro nowUtc
  apply h.bind (h.plain (.select .listEligibleForTick) rfl)
  intro allEligible
  split
  · exact h.done _
  · apply h.bind (h.ofExcept _)
    intro hours
    apply h.bind (h.forM fun row => halone _ rfl)
    intro _
    split
    · exact h.done _
    · apply h.bind (h.plain (.select (.inFlightCountsByCampaign _)) rfl)
      intro inFlight
      apply h.bind (h.forM fun row => halone _ rfl)
      intro _
      dsimp only
      split
      · exact h.done _
      · apply h.bind (h.plain (.select .findRetryDueCampaignIds) rfl)
        intro retryDueCampaigns
        split
        · exact h.done _
        · exact h.dispatchPicked hrequeue (hdispatch _) _

namespace TaskConduct

variable {T : (α : Type) → Co α → Prop} (h : TaskConduct T)

include h

theorem reclaimOne (row : CallRow) : T _ (reclaimOne row) := by
  have hsettle : ∀ (args : Transition) (applied : ReclaimOutcome), args.Routine →
      T _ (do
        let result ← VoiceCampaign.transaction (VoiceCampaign.transition args)
        if result.isNoOp then pure ⟨row.id, .skippedNoOp⟩ else pure applied : Co ReclaimOutcome) := by
    intro args applied hroutine
    apply h.bind (h.transaction (h.transition hroutine))
    intro result
    split
    · exact h.done _
    · exact h.done _
  apply h.catching
  · rw [reclaimOneInner]
    cases row.providerCallId with
    | none => exact hsettle _ _ (reclaimTransition_routine row)
    | some handle =>
        apply h.bind
        · apply h.bind (h.plain (.getStatus handle) rfl)
          intro outcome
          cases outcome <;> exact h.done _
        · intro reported
          cases reported with
          | none => exact hsettle _ _ (reclaimTransition_routine row)
          | some status =>
              dsimp only
              split
              · exact hsettle _ _ (reclaimTerminalTransition_routine row status)
              · exact hsettle _ _ (reclaimTransition_routine row)
  · exact fun _ => h.done _

theorem dispatchOne {campaign : CampaignRow} (hclaim : T _ (claimPhase campaign))
    (hplace : ∀ claimed, T _ (placePhase claimed))
    (hdispatch : ∀ claimed handle, T _ (VoiceCampaign.transition (dispatchTransition claimed handle)))
    (hunavailable : ∀ claimed nextAttempt,
      T _ (VoiceCampaign.transition (unavailableTransition claimed nextAttempt)))
    (hadvance : ∀ now, T _ (perform (.updateLastDispatchAt campaign.id now))) :
    T _ (dispatchOne campaign) := by
  have hdial : ∀ claimed outcome, T _ (recordDial campaign claimed outcome) := by
    intro claimed outcome
    cases outcome with
    | ok handle => exact hdispatch claimed handle
    | rejected reasonCode => exact h.transition (rejectedTransition_routine claimed reasonCode)
    | unavailable =>
        rw [recordDial]
        split
        · exact h.bind (h.toParts.nextAttempt _ _) fun _ => hunavailable claimed _
        · exact h.transition (unavailableExhaustedTransition_routine claimed)
  apply h.bind hclaim
  intro found
  cases found with
  | none => exact h.done _
  | some claimed =>
      apply h.bind (hplace claimed)
      intro outcome
      apply h.bind
      · exact h.transaction (h.bind (hdial _ _) fun _ => h.bind (h.plain .datetimeNow rfl) hadvance)
      · exact fun _ => h.done _

/-- The whole of every task. -/
theorem task (hdrain : ∀ deps, T _ (processOneRow deps))
    (hskip : ∀ event : AuditEvent, event.isNote = true → T _ (perform (.emitAudit event)))
    (hdispatch : ∀ campaign, T _ (VoiceCampaign.dispatchOne campaign))
    (deps : Deps) (task : Task) : T _ (task.code deps) := by
  cases task with
  | tick =>
      have htick := h.toTaskParts.tick hskip (fun call => h.transition (retryDueTransition_routine call)) hdispatch deps
      exact h.bind htick fun _ => h.done _
  | drain => exact h.bind (h.toParts.processPendingInbox deps (hdrain deps)) fun _ => h.done _
  | reclaim row => exact h.bind (h.reclaimOne row) fun _ => h.done _

end TaskConduct

end VoiceCampaign

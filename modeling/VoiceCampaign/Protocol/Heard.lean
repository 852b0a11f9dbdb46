import VoiceCampaign.Protocol.Trail

/-!
# What the provider has told a process

A tick records that a dial failed only after `place_call` has said so, and a reclaim records an outcome only after
`get_status` has reported it.
-/

namespace VoiceCampaign

open Concurrency

/-- The answers of `place_call` and of `get_status` up to now. -/
structure Heard where
  placed : List PlaceOutcome := []
  reported : List (Handle × CallStatus) := []

/-- What was heard by then is heard by now. -/
structure Heard.Before (heard more : Heard) : Prop where
  placed : heard.placed ⊆ more.placed
  reported : heard.reported ⊆ more.reported

/-- The audit row of a dial that failed. -/
def AuditEvent.dialFailed (event : AuditEvent) : Bool :=
  event.callId.isSome && event.eventType = .transition && "provider_".toList.isPrefixOf event.reason.toList

/-- The audit row of an outcome that `get_status` confirmed. -/
def AuditEvent.confirmed (event : AuditEvent) : Bool :=
  event.callId.isSome && event.eventType = .reclaimSkippedTerminal

/-- What the audit row says has been heard. -/
structure Heard.Bears (heard : Heard) (event : AuditEvent) : Prop where
  dialFailed : event.dialFailed = true → ∃ outcome ∈ heard.placed, ∀ handle, outcome ≠ .handle handle
  confirmed : event.confirmed = true → ∃ report ∈ heard.reported, event.stateAfter = some report.2.value ∧
    event.extra = [("provider_call_id", .str report.1)]

def heardMonitor : Monitor Stmt Reply Heard where
  start := {}
  allows heard
    | .emitAudit event => heard.Bears event
    | _ => True
  answers _ _ := True
  next heard
    | .placeCall _ _ => fun (outcome : PlaceOutcome) => { heard with placed := outcome :: heard.placed }
    | .getStatus handle => fun
        | .reported status => { heard with reported := (handle, status) :: heard.reported }
        | _ => heard
    | _ => fun _ => heard

section

variable {heard more : Heard} {event : AuditEvent} {α β : Type} {program : Co α}

theorem Heard.Before.refl (heard : Heard) : heard.Before heard := ⟨List.Subset.refl _, List.Subset.refl _⟩

theorem Heard.Before.trans {last : Heard} (h : heard.Before more) (hmore : more.Before last) : heard.Before last :=
  ⟨List.Subset.trans h.placed hmore.placed, List.Subset.trans h.reported hmore.reported⟩

theorem Heard.Before.empty (heard : Heard) : Heard.Before {} heard := ⟨List.nil_subset _, List.nil_subset _⟩

theorem Heard.Bears.mono (h : heard.Bears event) (hbefore : heard.Before more) : more.Bears event where
  dialFailed he := by
    obtain ⟨outcome, hmem, hfailed⟩ := h.dialFailed he
    exact ⟨outcome, hbefore.placed hmem, hfailed⟩
  confirmed he := by
    obtain ⟨report, hmem, hsays⟩ := h.confirmed he
    exact ⟨report, hbefore.reported hmem, hsays⟩

/-- What was heard stays heard. -/
theorem heardMonitor_grows (heard : Heard) (stmt : Stmt) (reply : Reply stmt) :
    heard.Before (heardMonitor.next heard stmt reply) := by
  cases stmt with
  | placeCall key phone => exact ⟨List.subset_cons_self _ _, List.Subset.refl _⟩
  | getStatus handle =>
      cases reply with
      | reported status => exact ⟨List.Subset.refl _, List.subset_cons_self _ _⟩
      | _ => exact .refl heard
  | _ => exact .refl heard

/-- A row that is neither the one nor the other. -/
theorem Heard.Bears.of_silent (hfailed : event.dialFailed = false) (hconfirmed : event.confirmed = false) :
    heard.Bears event where
  dialFailed h := by
    rw [hfailed] at h
    cases h
  confirmed h := by
    rw [hconfirmed] at h
    cases h

theorem Heard.Bears.of_type (htype : event.eventType ≠ .transition ∧ event.eventType ≠ .reclaimSkippedTerminal) :
    heard.Bears event :=
  .of_silent (by simp [AuditEvent.dialFailed, htype]) (by simp [AuditEvent.confirmed, htype])

/-- The reasons of the webhook processor. -/
theorem Heard.Bears.of_webhook (htype : event.eventType = .transition)
    (hreason : event.reason.toList.head? = some 'w') : heard.Bears event := by
  refine .of_silent ?_ (by simp [AuditEvent.confirmed, htype])
  obtain ⟨rest, hrest⟩ := List.head?_eq_some_iff.mp hreason
  rw [AuditEvent.dialFailed, hrest, show "provider_".toList.isPrefixOf ('w' :: rest) = false from rfl, Bool.and_false]

/-- The record of a dial that failed, after the answer. -/
theorem Heard.Bears.of_placed {outcome : PlaceOutcome} (hfailed : ∀ handle, outcome ≠ .handle handle)
    (htype : event.eventType = .transition) : Heard.Bears { placed := [outcome] } event where
  dialFailed _ := ⟨outcome, List.mem_singleton_self _, hfailed⟩
  confirmed h := by simp [AuditEvent.confirmed, htype] at h

/-! ### Reading it off the text -/

theorem heardMonitor_learns : heardMonitor.Learns Heard.Before where
  refl := .refl
  trans h hmore := h.trans hmore
  grows mode stmt reply := heardMonitor_grows mode stmt reply
  mono {mode mode' stmt} hbefore hallows := by
    cases stmt with
    | emitAudit event => exact Heard.Bears.mono hallows hbefore
    | _ => trivial

/-- The program records what was heard, once `heard` has been. -/
def Speaks (heard : Heard) (α : Type) (program : Co α) : Prop := heardMonitor.From Heard.Before heard program

theorem Speaks.of_only (h : program.Only fun stmt => ∀ event, stmt = .emitAudit event → heard.Bears event) :
    Speaks heard α program :=
  heardMonitor_learns.of_only (h.mono fun stmt hstmt => by
    cases stmt with
    | emitAudit event => exact hstmt event rfl
    | _ => trivial)

theorem Heard.Bears.of_note (h : event.isNote = true) : heard.Bears event := by
  refine .of_type ⟨fun he => ?_, fun he => ?_⟩ <;> simp [AuditEvent.isNote, he, EventType.isNote] at h

theorem Heard.Bears.of_campaign (h : event.callId = none) : heard.Bears event :=
  .of_silent (by simp [AuditEvent.dialFailed, h]) (by simp [AuditEvent.confirmed, h])

theorem plain_bears {stmt : Stmt} (h : stmt.plain = true) : ∀ event, stmt = .emitAudit event → heard.Bears event := by
  rintro event rfl
  exact .of_note (Stmt.plain_note h)

theorem speaks_parts (heard : Heard) : Parts (Speaks heard) where
  done := .done
  fail := .fail
  bind := .bind
  catching := .catching
  plain _ hstmt := .of_only (.perform_last (plain_bears hstmt))

theorem speaks_task (heard : Heard) : TaskParts (Speaks heard) := by
  refine (speaks_parts heard).ofDelimits fun stmt hdelimits => .of_only (.perform_last ?_)
  rintro event rfl
  cases hdelimits

theorem transition_speaks {args : Transition} (h : ∀ row, heard.Bears (args.auditEvent row)) :
    Speaks heard _ (transition args) := by
  refine .of_only (transition_only (fun _ hstmt => plain_bears hstmt) (fun event hevent => ?_) fun row => ?_)
  · rintro _ ⟨⟩
    exact .of_campaign (AuditEvent.callId_of_rollsUp hevent)
  · rintro _ ⟨⟩
    exact h row

/-! ### The tasks -/

theorem processOneRow_speaks (deps : Deps) : Speaks {} _ (processOneRow deps) := by
  have hmark : ∀ (row : InboxRow) (outcome : RowOutcome), Speaks {} _ (markProcessed row.id >>= fun _ => pure outcome) :=
    fun row outcome => .of_only (.perform (by rintro _ ⟨⟩) fun _ => trivial)
  have hevent : ∀ event call, Speaks {} _ (applyEvent deps event call) := by
    intro event call
    refine (speaks_parts {}).applyEvent (fun baseSeconds => ?_) (transition_speaks fun row => ?_) deps
    · refine (speaks_parts {}).applyRetryableOutcome ?_ (fun nextAttempt => ?_) ?_ baseSeconds <;>
        refine transition_speaks fun row => .of_webhook rfl ?_ <;> simp [Transition.auditEvent,
          RetryableOutcome.terminalTransition, RetryableOutcome.retryTransition, RetryableOutcome.exhaustedTransition,
          webhookOutcome, toString]
    · exact .of_webhook rfl (by simp [Transition.auditEvent, webhookTransition, toString])
  apply (speaks_task {}).catching
  · apply (speaks_task {}).transaction
    apply (speaks_parts {}).bind (.of_only (.perform_last (by rintro _ ⟨⟩)))
    intro found
    cases found with
    | none => exact (speaks_parts {}).done _
    | some row =>
        exact (speaks_parts {}).processRow (L := Speaks {} _) (speaks_parts {}).bind (fun outcome _ => hmark row outcome)
          hevent
  · exact fun _ => (speaks_parts {}).done _

theorem claimPhase_speaks (campaign : CampaignRow) : Speaks {} _ (claimPhase campaign) := by
  have hparts := speaks_parts {}
  apply (speaks_task {}).transaction
  apply hparts.bind (hparts.plain (.select .countRetriesDueSystem) rfl)
  intro retriesPendingSystem
  apply hparts.bind (hparts.plain (.select (.inFlightCount campaign.id)) rfl)
  intro inFlightAtClaim
  apply hparts.bind (hparts.plain (.select (.getLastDispatchAt campaign.id)) rfl)
  intro rrCursorBefore
  apply hparts.bind (.of_only (.perform_last (by rintro _ ⟨⟩)))
  intro reply
  apply hparts.bind (hparts.ofExcept reply)
  intro found
  cases found with
  | none => exact hparts.done _
  | some claimed =>
      apply hparts.bind
      · refine .of_only (.perform_last ?_)
        rintro _ ⟨⟩
        exact .of_type ⟨by rintro ⟨⟩, by rintro ⟨⟩⟩
      · intro _
        split
        · refine hparts.bind (.of_only ?_) fun _ => hparts.done _
          refine maybePromoteToActive_only (fun _ hstmt => plain_bears hstmt) (fun event hevent => ?_) _
          rintro _ ⟨⟩
          exact .of_campaign (AuditEvent.callId_of_rollsUp hevent)
        · exact hparts.done _

/-- What Phase 2 has heard when it hands over. -/
def DialOutcome.said : DialOutcome → Heard
  | .ok _ => {}
  | .rejected reasonCode => { placed := [.rejected reasonCode] }
  | .unavailable => { placed := [.unavailable] }

theorem placePhase_hears (claimed : CallRow) (mode : Heard) : heardMonitor.Obeys (fun outcome => outcome.said.Before)
    (fun _ => Heard.Before {}) (placePhase claimed) mode := by
  apply Monitor.Obeys.perform trivial
  intro outcome _
  have hlast : ∀ outcome : PlaceOutcome, Heard.Before { placed := [outcome] }
      { mode with placed := outcome :: mode.placed } := fun outcome =>
    ⟨List.cons_subset_cons _ (List.nil_subset _), List.nil_subset _⟩
  cases outcome with
  | handle handle => exact Heard.Before.empty _
  | rejected reasonCode => exact hlast _
  | unavailable => exact hlast _
  | raised => exact Heard.Before.empty _

theorem recordPhase_speaks (campaign : CampaignRow) (claimed : CallRow) (outcome : DialOutcome) :
    Speaks outcome.said _ (recordPhase campaign claimed outcome) := by
  have hparts := speaks_parts outcome.said
  have hdial : Speaks outcome.said _ (recordDial campaign claimed outcome) := by
    cases outcome with
    | ok handle => exact transition_speaks fun row => .of_type ⟨by rintro ⟨⟩, by rintro ⟨⟩⟩
    | rejected reasonCode => exact transition_speaks fun row => .of_placed (fun handle he => by cases he) rfl
    | unavailable =>
        rw [recordDial]
        split
        · refine hparts.bind (hparts.nextAttempt _ _) fun nextAttempt => transition_speaks fun row => ?_
          exact .of_placed (fun handle he => by cases he) rfl
        · exact transition_speaks fun row => .of_placed (fun handle he => by cases he) rfl
  apply (speaks_task outcome.said).transaction
  refine hparts.bind hdial fun _ => hparts.bind (hparts.plain .datetimeNow rfl) fun now => ?_
  exact .of_only (.perform_last (by rintro _ ⟨⟩))

theorem dispatchOne_speaks (campaign : CampaignRow) : Speaks {} _ (dispatchOne campaign) := by
  apply (speaks_parts {}).bind (claimPhase_speaks campaign)
  intro found
  cases found with
  | none => exact (speaks_parts {}).done _
  | some claimed =>
      intro mode _
      apply (placePhase_hears claimed mode).bind
      intro outcome mode' hheard
      have hrecord := recordPhase_speaks campaign claimed outcome mode' hheard
      exact (hrecord.mono (fun _ _ h => h) fun _ last _ => .empty last).bind fun _ last _ => Heard.Before.empty last

/-- A reclaim confirms what `get_status` reported. -/
theorem reclaimOne_speaks (row : CallRow) : Speaks {} _ (reclaimOne row) := by
  have hreclaim : Speaks {} _ (applyReclaim row) := by
    refine (speaks_parts {}).bind ((speaks_task {}).transaction (transition_speaks fun _ => ?_)) fun result => ?_
    · exact .of_type ⟨by rintro ⟨⟩, by rintro ⟨⟩⟩
    · split <;> exact (speaks_parts {}).done _
  have hterminal : ∀ handle reported, row.providerCallId = some handle →
      Speaks { reported := [(handle, reported)] } _ (applyTerminal row reported) := by
    intro handle reported hhandle
    have hbears : ∀ before, Heard.Bears { reported := [(handle, reported)] }
        ((reclaimTerminalTransition row reported).auditEvent before) := by
      refine fun before => ⟨?_, fun _ => ⟨_, List.mem_singleton_self _, rfl, ?_⟩⟩
      · simp [AuditEvent.dialFailed, Transition.auditEvent, reclaimTerminalTransition]
      · show [("provider_call_id", row.providerCallId.elim Json.null Json.str)] = _
        rw [hhandle]
        rfl
    refine (speaks_parts _).bind ((speaks_task _).transaction (transition_speaks hbears)) fun result => ?_
    split <;> exact (speaks_parts _).done _
  apply (speaks_parts {}).catching
  · rw [reclaimOneInner]
    split
    · exact hreclaim
    · next handle hhandle =>
        intro mode _
        apply Monitor.Obeys.perform trivial
        intro reply _
        cases reply with
        | reported status =>
            show heardMonitor.Obeys _ _ (ite (status.isTerminal = true) (applyTerminal row status) (applyReclaim row)) _
            split
            · have hheard : Heard.Before { reported := [(handle, status)] }
                  { mode with reported := (handle, status) :: mode.reported } :=
                ⟨List.nil_subset _, List.cons_subset_cons _ (List.nil_subset _)⟩
              exact (hterminal handle status hhandle _ hheard).mono (fun _ last _ => .empty last) fun _ last _ => .empty last
            · exact hreclaim _ (.empty _)
        | timedOut => exact hreclaim _ (.empty _)
        | raised => exact hreclaim _ (.empty _)
  · exact fun _ => (speaks_parts {}).done _

theorem heardMonitor_covers (deps : Deps) : Monitor.Covers heardMonitor deps := by
  intro task
  have hcode : Speaks {} _ (task.code deps) := by
    have hparts := speaks_parts {}
    cases task with
    | tick =>
        have hskip : ∀ event : AuditEvent, event.isNote = true → Speaks {} _ (perform (.emitAudit event)) := by
          refine fun event hnote => .of_only (.perform_last ?_)
          rintro _ ⟨⟩
          exact .of_note hnote
        have htick := (speaks_task {}).tick hskip (fun call => transition_speaks fun _ => .of_type ⟨by rintro ⟨⟩, by rintro ⟨⟩⟩)
          dispatchOne_speaks deps
        exact hparts.bind htick fun _ => hparts.done _
    | drain => exact hparts.bind (hparts.processPendingInbox deps (processOneRow_speaks deps)) fun _ => hparts.done _
    | reclaim row => exact hparts.bind (reclaimOne_speaks row) fun _ => hparts.done _
  exact (hcode _ (.empty _)).mono (fun _ _ _ => trivial) fun _ _ _ => trivial

end

/-! ### What is written on the way -/

section

variable {deps : Deps} {s s' : Sys} {action : Action} {modes : Nat → Heard}

theorem exec_bears {others : List Txn} {choice : Choice} {s s' : Shared} {txn txn' : Option Txn} {stmt : Stmt}
    {reply : Reply stmt} {heard : Heard} (h : ∀ t ∈ txn, ∀ entry ∈ t.audit, heard.Bears entry.event)
    (hallows : heardMonitor.allows heard stmt) (hexec : exec others choice s txn stmt = some (reply, s', txn')) :
    ∀ t ∈ txn', ∀ entry ∈ t.audit, (heardMonitor.next heard stmt reply).Bears entry.event := by
  intro t' ht' entry hentry
  suffices hbears : heard.Bears entry.event from hbears.mono (heardMonitor_grows heard stmt reply)
  rcases exec_audit hexec t' ht' entry hentry with ⟨t, ht, hold⟩ | rfl
  · exact h t ht entry hold
  · exact hallows

/-- What the processes have heard, and write of it. -/
structure HeardBy (s : Sys) (modes : Nat → Heard) : Prop where
  watched : Watched heardMonitor s modes
  wrote : ∀ (index : Nat) (process : Process), s.procs[index]? = some process → ∀ t ∈ process.txn, ∀ entry ∈ t.audit,
    (modes index).Bears entry.event

/-- What a process hears at a step. -/
structure Hears (s : Sys) (action : Action) (index : Nat) (before after : Heard) : Prop where
  placed : ∀ outcome ∈ after.placed, outcome ∈ before.placed ∨ ∃ choice task key phone next txn,
    action = .run index choice ∧ s.procs[index]? = some ⟨task, .call (.placeCall key phone) next, txn⟩ ∧
      outcome = choice.place
  reported : ∀ report ∈ after.reported, report ∈ before.reported ∨ ∃ choice task next txn,
    action = .run index choice ∧ s.procs[index]? = some ⟨task, .call (.getStatus report.1) next, txn⟩ ∧
      choice.status = .reported report.2

theorem Hears.still (heard : Heard) (index : Nat) : Hears s action index heard heard :=
  ⟨fun _ h => Or.inl h, fun _ h => Or.inl h⟩

theorem Hears.run {index : Nat} {choice : Choice} {task : Task} {stmt : Stmt} {next : Reply stmt → Co Unit}
    {txn txn' : Option Txn} {reply : Reply stmt} {shared : Shared}
    (hprocess : s.procs[index]? = some ⟨task, .call stmt next, txn⟩)
    (hexec : exec (s.othersOf index) choice s.shared txn stmt = some (reply, shared, txn')) (heard : Heard) :
    Hears s (.run index choice) index heard (heardMonitor.next heard stmt reply) := by
  cases stmt with
  | placeCall key phone =>
      cases hexec
      refine ⟨fun outcome hmem => ?_, fun _ h => Or.inl h⟩
      rcases List.mem_cons.mp hmem with rfl | hold
      · exact Or.inr ⟨choice, task, key, phone, next, txn, rfl, hprocess, rfl⟩
      · exact Or.inl hold
  | getStatus handle =>
      cases hexec
      cases hstatus : choice.status with
      | reported status =>
          refine ⟨fun _ h => Or.inl h, fun report hmem => ?_⟩
          rcases List.mem_cons.mp hmem with rfl | hold
          · exact Or.inr ⟨choice, task, next, txn, rfl, hprocess, hstatus⟩
          · exact Or.inl hold
      | _ => exact .still heard index
  | _ => exact .still heard index

theorem HeardBy.step (h : HeardBy s modes) (hstep : s.step deps action = some s') :
    ∃ modes', HeardBy s' modes' ∧ ∀ index, Hears s action index (modes index) (modes' index) := by
  obtain ⟨modes', hwatched, hmoved⟩ := h.watched.step (heardMonitor_covers deps) (fun _ _ _ => trivial) hstep
  refine ⟨modes', ⟨hwatched, ?_⟩, ?_⟩
  · let J (_ : Shared) (heard : Heard) (t : Txn) : Prop := ∀ entry ∈ t.audit, heard.Bears entry.event
    refine @WatchedStep.txns _ _ _ _ _ _ _ J _ hmoved h.wrote (fun _ hbears => hbears) ?_ ?_
    · exact fun htxn hallows hexec => exec_bears htxn hallows hexec
    · exact fun _ _ _ _ _ _ _ hbears => hbears
  · intro index
    cases hmoved with
    | world action shared hworld => exact .still _ _
    | run other choice task stmt next txn reply shared txn' hprocess hexec hallows =>
        by_cases hsame : index = other
        · subst hsame
          rw [Function.update_self]
          exact .run hprocess hexec _
        · rw [Function.update_of_ne hsame]
          exact .still _ _
    | crash other process hprocess =>
        by_cases hsame : index = other
        · subst hsame
          rw [Function.update_self]
          exact ⟨List.forall_mem_nil _, List.forall_mem_nil _⟩
        · rw [Function.update_of_ne hsame]
          exact .still _ _

theorem HeardBy.init (now : Time) : HeardBy { shared := { now } } fun _ => {} :=
  ⟨.init heardMonitor now, fun _ _ h => by simp at h⟩

end

end VoiceCampaign

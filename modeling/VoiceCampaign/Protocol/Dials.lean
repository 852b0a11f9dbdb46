import VoiceCampaign.Protocol.Trail

/-!
# Dials

A tick claims a key, dials it and records the dial, each once and in this order. The monitor follows the
key a process has in hand; what it has in hand it alone has.
-/

namespace VoiceCampaign

open Concurrency

/-! ### Keys -/

/-- The key of the attempt a row is at. -/
def CallRow.key (row : CallRow) : IdempotencyKey := ⟨row.id, row.attemptEpoch⟩

/-- The key an audit row is about. -/
def AuditEvent.key (event : AuditEvent) : Option IdempotencyKey :=
  match event.callId, event.attemptEpoch with
  | some callId, some attemptEpoch => some ⟨callId, attemptEpoch⟩
  | _, _ => none

/-- The audit row is of a type and about a key. -/
def AuditEvent.records (event : AuditEvent) (eventType : EventType) (key : IdempotencyKey) : Bool :=
  event.eventType = eventType && event.key = some key

theorem AuditEvent.records_iff {event : AuditEvent} {eventType : EventType} {key : IdempotencyKey} :
    event.records eventType key = true ↔ event.eventType = eventType ∧ event.key = some key := by
  simp [records]

/-- The audit row is about what came of the dial of a key. -/
def AuditEvent.settles (event : AuditEvent) (key : IdempotencyKey) : Bool :=
  event.ofDial && event.key = some key

theorem AuditEvent.settles_iff {event : AuditEvent} {key : IdempotencyKey} :
    event.settles key = true ↔ event.ofDial = true ∧ event.key = some key := by
  simp [settles]

theorem AuditEvent.ofDial_of_type {event : AuditEvent}
    (h : event.eventType ≠ .dispatch ∧ event.eventType ≠ .transition) : event.ofDial = false := by
  simp [ofDial, h]

theorem AuditEvent.records_dispatch {event : AuditEvent} {key : IdempotencyKey}
    (h : event.records .dispatch key = true) : event.settles key = true := by
  obtain ⟨htype, hkey⟩ := records_iff.mp h
  exact settles_iff.mpr ⟨by simp [ofDial, htype], hkey⟩

/-- How many audit rows of a type are about a key. -/
def Db.keyAuditCount (db : Db) (eventType : EventType) (key : IdempotencyKey) : Nat :=
  db.audit.countP fun row => row.event.records eventType key

/-- How many audit rows say what came of the dial of a key. -/
def Db.settledCount (db : Db) (key : IdempotencyKey) : Nat :=
  db.audit.countP fun row => row.event.settles key

/-! ### One key in hand -/

inductive DialMode where
  | idle
  /-- `CLAIMED` is written, not yet committed. -/
  | claimed (key : IdempotencyKey)
  | owns (key : IdempotencyKey)
  | placed (key : IdempotencyKey)
  /-- What came of the dial is written, not yet committed. -/
  | recorded (key : IdempotencyKey)
  deriving DecidableEq

namespace DialMode

/-- The key that is claimed for good and not done with. -/
def token : DialMode → Option IdempotencyKey
  | owns key | placed key | recorded key => some key
  | idle | claimed _ => none

/-- Nothing is written that has to be committed. -/
def clean : DialMode → Bool
  | claimed _ | recorded _ => false
  | _ => true

def afterCommit : DialMode → DialMode
  | claimed key => owns key
  | placed _ | recorded _ => idle
  | mode => mode

def afterAudit (event : AuditEvent) (mode : DialMode) : DialMode :=
  match event.key with
  | some key =>
      if event.eventType = .claimed then claimed key
      else if event.ofDial = true then recorded key
      else mode
  | none => mode

def afterPlace (key : IdempotencyKey) : PlaceOutcome → DialMode
  | .raised => idle
  | _ => placed key

end DialMode

/-- A claim, then one dial of the key claimed, then at most one record of it. -/
def dialMonitor : Monitor Stmt Reply DialMode where
  start := .idle
  allows mode
    | .begin => mode.clean = true
    | .placeCall key _ => mode = .owns key
    | .emitAudit event => ∀ key, (event.records .claimed key = true → mode = .idle) ∧
        (event.settles key = true → mode = .placed key)
    | _ => True
  answers := Stmt.Answers
  next mode
    | .commit => fun _ => mode.afterCommit
    | .rollback => fun _ => .idle
    | .emitAudit event => fun _ => mode.afterAudit event
    | .placeCall key _ => fun (outcome : PlaceOutcome) => DialMode.afterPlace key outcome
    | _ => fun _ => mode

/-- Does nothing to the key in hand. -/
def Stmt.inert : Stmt → Bool
  | .placeCall _ _ => false
  | .emitAudit event => event.key.isNone || (event.eventType ≠ .claimed && !event.ofDial)
  | stmt => !stmt.delimits

theorem Stmt.inert_emitAudit {event : AuditEvent} : (Stmt.emitAudit event).inert = true ↔
    ∀ key, event.records .claimed key = false ∧ event.settles key = false := by
  cases hkey : event.key with
  | none => simp [inert, AuditEvent.records, AuditEvent.settles, hkey]
  | some key =>
      simp only [inert, AuditEvent.records, AuditEvent.settles, hkey, Option.isNone_some, Bool.false_or,
        Bool.and_eq_true, decide_eq_true_eq, Option.some.injEq, Bool.and_eq_false_iff,
        decide_eq_false_iff_not, Bool.not_eq_true']
      exact ⟨fun h _ => ⟨Or.inl h.1, Or.inl h.2⟩, fun h => ⟨(h key).1.resolve_right (· rfl),
        (h key).2.resolve_right (· rfl)⟩⟩

/-- What is not inert is a claim or the record of a dial. -/
theorem Stmt.not_inert_emitAudit {event : AuditEvent} (h : (Stmt.emitAudit event).inert = false) :
    ∃ key, event.records .claimed key = true ∨ event.settles key = true := by
  by_contra hnone
  simp only [not_exists, not_or, Bool.not_eq_true] at hnone
  rw [Stmt.inert_emitAudit.mpr hnone] at h
  cases h

theorem DialMode.afterAudit_claimed {event : AuditEvent} {key : IdempotencyKey}
    (h : event.records .claimed key = true) (mode : DialMode) : mode.afterAudit event = .claimed key := by
  obtain ⟨htype, hkey⟩ := AuditEvent.records_iff.mp h
  rw [afterAudit, hkey]
  exact if_pos htype

theorem DialMode.afterAudit_settles {event : AuditEvent} {key : IdempotencyKey}
    (h : event.settles key = true) (mode : DialMode) : mode.afterAudit event = .recorded key := by
  obtain ⟨hdial, hkey⟩ := AuditEvent.settles_iff.mp h
  have htype : event.eventType ≠ .claimed := by
    intro htype
    rw [AuditEvent.ofDial_of_type (by rw [htype]; exact ⟨nofun, nofun⟩)] at hdial
    cases hdial
  rw [afterAudit, hkey]
  exact (if_neg htype).trans (if_pos hdial)

theorem DialMode.afterAudit_inert {event : AuditEvent} (h : (Stmt.emitAudit event).inert = true)
    (mode : DialMode) : mode.afterAudit event = mode := by
  rw [Stmt.inert_emitAudit] at h
  rw [afterAudit]
  cases hkey : event.key with
  | none => rfl
  | some key =>
      obtain ⟨hclaimed, hsettles⟩ := h key
      simp only [AuditEvent.records, AuditEvent.settles, hkey, decide_true, Bool.and_true,
        decide_eq_false_iff_not] at hclaimed hsettles
      simp [hclaimed, hsettles]

theorem dialMonitor_inert {stmt : Stmt} (h : stmt.inert = true) (mode : DialMode) :
    dialMonitor.allows mode stmt ∧ ∀ reply, dialMonitor.answers stmt reply →
      dialMonitor.next mode stmt reply = mode := by
  cases stmt with
  | begin => cases h
  | commit => cases h
  | rollback => cases h
  | placeCall key phone => cases h
  | emitAudit event =>
      refine ⟨fun key => ?_, fun _ _ => DialMode.afterAudit_inert h mode⟩
      rw [(Stmt.inert_emitAudit.mp h key).1, (Stmt.inert_emitAudit.mp h key).2]
      exact ⟨nofun, nofun⟩
  | _ => exact ⟨trivial, fun _ _ => rfl⟩

/-- Leaves the mode as it is. -/
def Stays (mode : DialMode) (α : Type) (program : Co α) : Prop :=
  dialMonitor.Obeys (fun _ mode' => mode' = mode) (fun _ mode' => mode' = mode) program mode

section

variable {mode : DialMode} {α β : Type} {program : Co α}

theorem Stays.bind {f : α → Co β} {post : β → DialMode → Prop} {err : Err → DialMode → Prop}
    (h : Stays mode α program) (herr : ∀ error, err error mode)
    (hf : ∀ value, dialMonitor.Obeys post err (f value) mode) :
    dialMonitor.Obeys post err (program >>= f) mode := by
  apply Monitor.Obeys.bind (h.mono (fun _ _ h => h) fun error _ hmode => hmode ▸ herr error)
  intro value _ hmode
  rw [hmode]
  exact hf value

theorem Stays.of_only (h : program.Only fun stmt => stmt.inert = true) : Stays mode α program :=
  h.obeys fun _ hop => dialMonitor_inert hop mode

theorem inert_of_type {event : AuditEvent} (htype : event.eventType ≠ .claimed)
    (hdial : event.ofDial = false) : (Stmt.emitAudit event).inert = true := by
  simp [Stmt.inert, htype, hdial]

theorem note_inert {event : AuditEvent} (h : event.isNote = true) : (Stmt.emitAudit event).inert = true := by
  rw [AuditEvent.isNote, Bool.and_eq_true, Bool.and_eq_true] at h
  have hne : ∀ eventType : EventType, eventType.isNote = false → event.eventType ≠ eventType := by
    intro eventType hnot he
    rw [he, hnot] at h
    cases h.1.1
  exact inert_of_type (hne _ rfl) (AuditEvent.ofDial_of_type ⟨hne _ rfl, hne _ rfl⟩)

theorem plain_inert {stmt : Stmt} (h : stmt.plain = true) : stmt.inert = true := by
  cases stmt with
  | begin => cases h
  | commit => cases h
  | rollback => cases h
  | placeCall key phone => cases h
  | emitAudit event => exact note_inert (Stmt.plain_note h)
  | _ => rfl

theorem rollup_inert {event : AuditEvent} (h : event.rollsUp = true) : (Stmt.emitAudit event).inert = true := by
  have hkey : event.key = none := by simp [AuditEvent.key, AuditEvent.callId_of_rollsUp h]
  simp [Stmt.inert, hkey]

theorem Stays.perform {stmt : Stmt} (h : stmt.inert = true) (mode : DialMode) : Stays mode _ (perform stmt) :=
  ⟨(dialMonitor_inert h mode).1, fun reply hreply => (dialMonitor_inert h mode).2 reply hreply⟩

theorem transition_stays {args : Transition} (hroutine : args.Routine) (mode : DialMode) :
    Stays mode _ (transition args) := by
  apply Stays.of_only
  refine transition_only (fun _ => plain_inert) (fun _ => rollup_inert) fun row =>
    inert_of_type (fun he => ?_) (hroutine.not_ofDial row)
  have htype := hroutine.eventType
  rw [show args.eventType = .claimed from he] at htype
  cases htype

theorem stays_steps (mode : DialMode) : Conduct (Stays mode) where
  done _ := rfl
  fail _ := rfl
  bind h hf := Stays.bind h (fun _ => rfl) hf
  catching h hhandler := h.catching fun error _ hmode => hmode ▸ hhandler error
  plain _ hplain := .perform (plain_inert hplain) mode
  transition hroutine := transition_stays hroutine mode

theorem stays_conduct : TaskConduct (Stays .idle) := by
  refine (stays_steps .idle).ofDelimits fun stmt hdelimits => ?_
  cases stmt with
  | begin => exact ⟨rfl, fun _ _ => rfl⟩
  | commit => exact ⟨trivial, fun _ _ => rfl⟩
  | rollback => exact ⟨trivial, fun _ _ => rfl⟩
  | _ => cases hdelimits

/-- A transaction that is rolled back leaves nothing in hand. -/
theorem transaction_dials {body : Co α} {mid : α → DialMode → Prop} {post : α → DialMode → Prop}
    (hclean : mode.clean = true) (hbody : dialMonitor.Obeys mid (fun _ _ => True) body mode)
    (hcommit : ∀ value mode', mid value mode' → post value mode'.afterCommit) :
    dialMonitor.Obeys post (fun _ mode' => mode' = .idle) (transaction body) mode := by
  apply Monitor.Obeys.perform hclean
  intro _ _
  have hrollback : ∀ error mode', dialMonitor.Obeys mid (fun _ mode' => mode' = .idle)
      (do perform .rollback; raise error) mode' := fun _ _ => ⟨trivial, fun _ _ => rfl⟩
  apply Monitor.Obeys.bind (hbody.catching fun error mode' _ => hrollback error mode')
  exact fun value mode' hmid => ⟨trivial, fun _ _ => hcommit value mode' hmid⟩

/-! ### The dial of a tick -/

/-- After Phase 1. -/
def DialMode.ofClaim : Option CallRow → DialMode
  | none => idle
  | some row => owns row.key

theorem claimPhase_dials (campaign : CampaignRow) :
    dialMonitor.Obeys (fun claimed mode => mode = .ofClaim claimed) (fun _ mode => mode = .idle)
      (claimPhase campaign) .idle := by
  refine transaction_dials rfl ?_ fun _ _ hdone => hdone
  apply Monitor.Obeys.perform trivial
  intro _ _
  apply Monitor.Obeys.perform trivial
  intro _ _
  apply Monitor.Obeys.perform trivial
  intro _ _
  apply Monitor.Obeys.perform trivial
  intro reply _
  cases reply with
  | error error => trivial
  | ok found =>
      cases found with
      | none =>
          show DialMode.afterCommit .idle = .ofClaim none
          rfl
      | some claimed =>
          have hdone : DialMode.afterCommit (.claimed claimed.key) = .ofClaim (some claimed) := rfl
          apply Monitor.Obeys.perform
          · exact fun key => ⟨fun _ => rfl, fun h => absurd (AuditEvent.settles_iff.mp h).1 nofun⟩
          · intro _ _
            split
            · apply Stays.bind
              · exact Stays.of_only (maybePromoteToActive_only (fun _ => plain_inert) (fun _ => rollup_inert) _)
              · exact fun _ => trivial
              · exact fun _ => hdone
            · exact hdone

theorem placePhase_dials (claimed : CallRow) :
    dialMonitor.Obeys (fun _ mode => mode = .placed claimed.key) (fun _ mode => mode = .idle)
      (placePhase claimed) (.owns claimed.key) := by
  apply Monitor.Obeys.perform rfl
  intro outcome _
  cases outcome <;> rfl

/-- A transition that says what came of the dial. -/
theorem settling_dials {claimed : CallRow} {args : Transition} (hid : args.callId = claimed.id)
    (hstays : args.newEpoch = none) (hepoch : args.expectedEpoch = claimed.attemptEpoch)
    (hlive : args.newStatus.isTerminal = false) (hdial : ∀ row, (args.auditEvent row).ofDial = true) :
    dialMonitor.Obeys (fun _ mode => mode.afterCommit = .idle) (fun _ _ => True)
      (transition args) (.placed claimed.key) := by
  rw [transition]
  split
  · have hdone : DialMode.afterCommit (.placed claimed.key) = .idle := rfl
    exact hdone
  · apply Monitor.Obeys.perform trivial
    intro reply hanswers
    cases reply with
    | error error => trivial
    | ok found =>
        cases found with
        | none =>
            have hdone : DialMode.afterCommit (.placed claimed.key) = .idle := rfl
            exact hdone
        | some row =>
            have hsettles : (args.auditEvent row).settles claimed.key = true := by
              have hrow : row.attemptEpoch = claimed.attemptEpoch := by
                rw [(hanswers row rfl).2, hstays]
                exact hepoch
              rw [AuditEvent.settles_iff, CallRow.key, ← hrow, ← hid]
              exact ⟨hdial row, rfl⟩
            apply Monitor.Obeys.perform
            · refine fun key => ⟨fun h => ?_, fun h => ?_⟩
              · have hnot := hdial row
                rw [AuditEvent.ofDial_of_type
                  (by rw [(AuditEvent.records_iff.mp h).1]; exact ⟨by decide, by decide⟩)] at hnot
                cases hnot
              · have hkey := (AuditEvent.settles_iff.mp hsettles).2
                rw [(AuditEvent.settles_iff.mp h).2] at hkey
                rw [Option.some.inj hkey]
                rfl
            · intro _ _
              rw [if_neg (by rw [hlive]; exact Bool.false_ne_true)]
              have hdone : (DialMode.afterAudit (args.auditEvent row) (.placed claimed.key)).afterCommit =
                  .idle := by
                rw [DialMode.afterAudit_settles hsettles]
                rfl
              exact hdone

theorem recordDial_dials (campaign : CampaignRow) (claimed : CallRow) (outcome : DialOutcome) :
    dialMonitor.Obeys (fun _ mode => mode.afterCommit = .idle) (fun _ _ => True)
      (recordDial campaign claimed outcome) (.placed claimed.key) := by
  have hstays : ∀ {α : Type} {program : Co α}, Stays (.placed claimed.key) α program →
      dialMonitor.Obeys (fun _ mode => mode.afterCommit = .idle) (fun _ _ => True) program
        (.placed claimed.key) := fun h =>
    h.mono (fun _ _ hmode => hmode ▸ rfl) fun _ _ _ => trivial
  cases outcome with
  | ok handle => exact settling_dials rfl rfl rfl rfl fun _ => rfl
  | rejected reasonCode => exact hstays (transition_stays (rejectedTransition_routine claimed reasonCode) _)
  | unavailable =>
      rw [recordDial]
      split
      · apply Stays.bind ((stays_steps _).nextAttempt _ _)
        · exact fun _ => trivial
        · exact fun _ => settling_dials rfl rfl rfl rfl fun _ => rfl
      · exact hstays (transition_stays (unavailableExhaustedTransition_routine claimed) _)

theorem recordPhase_dials (campaign : CampaignRow) (claimed : CallRow) (outcome : DialOutcome) :
    dialMonitor.Obeys (fun _ mode => mode = .idle) (fun _ mode => mode = .idle)
      (recordPhase campaign claimed outcome) (.placed claimed.key) := by
  refine transaction_dials rfl ?_ fun _ _ hdone => hdone
  apply (recordDial_dials campaign claimed outcome).bind
  exact fun _ mode hmode => ⟨trivial, fun _ _ => ⟨trivial, fun _ _ => hmode⟩⟩

theorem dispatchOne_stays (campaign : CampaignRow) : Stays .idle _ (dispatchOne campaign) := by
  apply (claimPhase_dials campaign).bind
  intro found mode hmode
  rw [hmode]
  cases found with
  | none => rfl
  | some claimed =>
      apply (placePhase_dials claimed).bind
      intro outcome mode hmode
      rw [hmode]
      apply (recordPhase_dials campaign claimed outcome).bind
      exact fun _ mode hmode => hmode

theorem processOneRow_stays (deps : Deps) : Stays .idle _ (processOneRow deps) := by
  apply stays_conduct.catching
  · apply stays_conduct.transaction
    apply (stays_steps .idle).bind (@Stays.perform .claimUnprocessedOne rfl .idle)
    intro found
    cases found with
    | none => exact (stays_steps .idle).done _
    | some row =>
        have hmark : ∀ outcome : RowOutcome, Stays .idle _ (markProcessed row.id >>= fun _ => pure outcome) := fun outcome =>
          (stays_steps .idle).bind (.perform rfl _) fun _ => (stays_steps .idle).done outcome
        exact (stays_steps .idle).processRow (L := Stays .idle _) (stays_steps .idle).bind (fun outcome _ => hmark outcome) deps
  · exact fun _ => rfl

theorem dialMonitor_covers (deps : Deps) : Monitor.Covers dialMonitor deps := fun task =>
  (stays_conduct.task processOneRow_stays (fun _ hnote => .perform (note_inert hnote) _) dispatchOne_stays deps
    task).mono (fun _ _ _ => trivial) fun _ _ _ => trivial

end

/-! ### What is written on the way -/

/-- The audit rows about dials of an open transaction. -/
structure DialMode.Wrote (mode : DialMode) (audit : List AuditRow) : Prop where
  claimed : ∀ key, mode = .claimed key → ∃ row ∈ audit, row.event.records .claimed key = true
  settled : ∀ key, (audit.countP fun row => row.event.settles key) = if mode = .recorded key then 1 else 0

section

variable {mode : DialMode} {audit : List AuditRow} {row : AuditRow}

theorem DialMode.Wrote.of_clean (hclean : mode.clean = true)
    (h : ∀ key, (audit.countP fun row => row.event.settles key) = 0) : mode.Wrote audit where
  claimed key he := by
    rw [he] at hclean
    cases hclean
  settled key := by
    rw [h key, if_neg]
    intro he
    rw [he] at hclean
    cases hclean

theorem DialMode.Wrote.emitAudit (h : mode.Wrote audit)
    (hallows : dialMonitor.allows mode (.emitAudit row.event)) :
    (mode.afterAudit row.event).Wrote (audit ++ [row]) := by
  cases hinert : (Stmt.emitAudit row.event).inert with
  | true =>
      rw [DialMode.afterAudit_inert hinert]
      refine ⟨fun key he => ?_, fun key => ?_⟩
      · obtain ⟨old, hold, hrecords⟩ := h.claimed key he
        exact ⟨old, List.mem_append_left _ hold, hrecords⟩
      · rw [List.countP_append, h.settled key, List.countP_singleton,
          (Stmt.inert_emitAudit.mp hinert key).2]
        rfl
  | false =>
      obtain ⟨key, hclaimed | hsettles⟩ := Stmt.not_inert_emitAudit hinert
      · obtain rfl := (hallows key).1 hclaimed
        rw [DialMode.afterAudit_claimed hclaimed]
        refine ⟨fun other he => ?_, fun other => ?_⟩
        · obtain rfl := DialMode.claimed.inj he
          exact ⟨row, List.mem_append_right _ (List.mem_singleton_self _), hclaimed⟩
        · have hnot : row.event.settles other = false := by
            rw [AuditEvent.settles, AuditEvent.ofDial_of_type
              (by rw [(AuditEvent.records_iff.mp hclaimed).1]; exact ⟨nofun, nofun⟩)]
            rfl
          rw [List.countP_append, h.settled other, List.countP_singleton, hnot]
          rfl
      · obtain rfl := (hallows key).2 hsettles
        rw [DialMode.afterAudit_settles hsettles]
        refine ⟨nofun, fun other => ?_⟩
        obtain ⟨hdial, hkey⟩ := AuditEvent.settles_iff.mp hsettles
        rw [List.countP_append, h.settled other, List.countP_singleton]
        simp [AuditEvent.settles, hdial, hkey]

theorem exec_wrote {others : List Txn} {choice : Choice} {s s' : Shared} {txn txn' : Option Txn} {stmt : Stmt}
    {reply : Reply stmt} (h : ∀ t ∈ txn, mode.Wrote t.audit) (hallows : dialMonitor.allows mode stmt)
    (hexec : exec others choice s txn stmt = some (reply, s', txn')) :
    ∀ t ∈ txn', (dialMonitor.next mode stmt reply).Wrote t.audit := by
  intro t' ht'
  by_cases hemit : ∃ event, stmt = .emitAudit event
  · obtain ⟨event, rfl⟩ := hemit
    obtain ⟨t, rfl⟩ := exec_open hexec rfl
    obtain ⟨-, rfl⟩ := exec_emitAudit hexec
    cases ht'
    exact @DialMode.Wrote.emitAudit _ _ ⟨s.auditSeq, t.startedAt, event⟩ (h t rfl) hallows
  cases hdelimits : stmt.delimits with
  | true =>
      cases stmt with
      | begin =>
          obtain ⟨-, rfl⟩ := exec_begin hexec
          cases ht'
          exact .of_clean hallows fun _ => rfl
      | commit =>
          obtain ⟨t, -, -, rfl⟩ := exec_commit hexec
          cases ht'
      | rollback =>
          obtain ⟨-, rfl⟩ := exec_rollback hexec
          cases ht'
      | _ => cases hdelimits
  | false =>
      obtain ⟨t, ht, htakes⟩ := (exec_takes hdelimits (fun event he => hemit ⟨event, he⟩) hexec).2 t' ht'
      rw [htakes.audit]
      cases stmt with
      | placeCall key phone =>
          obtain rfl : mode = .owns key := hallows
          have hclean : (DialMode.afterPlace key reply).clean = true := by
            cases (reply : PlaceOutcome) <;> rfl
          exact .of_clean hclean fun key => (h t ht).settled key
      | emitAudit event => exact absurd ⟨event, rfl⟩ hemit
      | begin => cases hdelimits
      | commit => cases hdelimits
      | rollback => cases hdelimits
      | _ => exact h t ht

end

/-! ### What a commit claims -/

/-- The calls that a commit moves from one status to another, as it leaves them. -/
def Db.moved (db : Db) (t : Txn) (old new : CallStatus) : List CallRow :=
  (db.apply t).calls.filter fun row => row.status = new && (db.call? row.id).any fun before => before.status = old

/-- A tick claims the calls it moves from `QUEUED` to `DIALING`. -/
def claimedVersions (task : Task) (db : Db) (t : Txn) : List CallRow :=
  match task with
  | .tick => db.moved t .queued .dialing
  | _ => []

/-- A sweep reclaims the calls it moves from `DIALING` back to `QUEUED`. -/
def reclaimedVersions (task : Task) (db : Db) (t : Txn) : List CallRow :=
  match task with
  | .reclaim _ => db.moved t .dialing .queued
  | _ => []

/-- A commit claims one call, and says so. -/
structure ClaimedBy (s : Shared) (task : Task) (t : Txn) (before after : CallRow) : Prop where
  versions : claimedVersions task s.db t = [after]
  row : s.db.call? after.id = some before
  commit : (s.commit t).db.call? after.id = some after
  epoch : after.attemptEpoch = before.attemptEpoch + 1
  claimed : ∀ key, (t.audit.countP fun row => row.event.records .claimed key) = if key = after.key then 1 else 0

section

variable {s s' : Shared} {task : Task} {txn : Option Txn} {t : Txn} {inbox : Option InboxRow}
  {before after : CallRow} {event : AuditEvent} {folds : List AuditEvent} {old new : CallStatus}

theorem Folds.records (h : Folds s t after folds) {eventType : EventType} {key : IdempotencyKey} :
    (folds.countP fun event => event.records eventType key) = 0 := by
  cases h <;> simp [AuditEvent.records, AuditEvent.key, campaignPromoted, campaignCompleted]

theorem moved_same (hinv : Consistent s) (hdb : (s.commit t).db = s.db) (hne : old ≠ new) :
    s.db.moved t old new = [] := by
  have hcalls : (s.db.apply t).calls = s.db.calls := congrArg Db.calls hdb
  rw [Db.moved, hcalls, List.filter_eq_nil_iff]
  intro row hrow hmoved
  rw [hinv.call?_of_mem hrow, Bool.and_eq_true, decide_eq_true_eq, Option.any_some, decide_eq_true_eq] at hmoved
  exact hne (hmoved.2.symm.trans hmoved.1)

theorem Moves.moved (h : Moves s (some task) t inbox before after event) (hinv : Consistent s)
    (hne : old ≠ new) :
    s.db.moved t old new = if after.status = new ∧ before.status = old then [after] else [] := by
  have hids : ((s.commit t).db.calls.map CallRow.id).Nodup := by
    rw [show (s.commit t).db.calls = overlay CallRow.id t.calls s.db.calls from rfl, map_key_overlay]
    exact hinv.callIds
  have hlookup : lookup CallRow.id (s.commit t).db.calls after.id = some after := by
    have hcommit := h.call?_commit after.id
    rwa [if_pos rfl] at hcommit
  have hother : ∀ row ∈ s.db.calls, (row.status = new && (s.db.call? row.id).any fun b => b.status = old) = false := by
    intro row hrow
    rw [hinv.call?_of_mem hrow, Option.any_some]
    apply Bool.eq_false_iff.mpr
    intro hboth
    rw [Bool.and_eq_true, decide_eq_true_eq, decide_eq_true_eq] at hboth
    exact hne (hboth.2.symm.trans hboth.1)
  split
  · next hboth =>
    rw [← filter_key_eq hids hlookup]
    apply List.filter_congr
    intro row hrow
    rcases h.mem_commit.mp hrow with rfl | ⟨hold, hid⟩
    · simp [h.row, hboth]
    · rw [hother row hold, decide_eq_false hid]
  · next hnot =>
    rw [Db.moved, List.filter_eq_nil_iff]
    intro row hrow hmoved
    rcases h.mem_commit.mp hrow with rfl | ⟨hold, -⟩
    · rw [h.row] at hmoved
      simp only [Option.any_some, Bool.and_eq_true, decide_eq_true_eq] at hmoved
      exact hnot hmoved
    · rw [hother row hold] at hmoved
      cases hmoved

theorem countP_events {audit : List AuditRow} {events : List AuditEvent} (h : audit.map AuditRow.event = events)
    (eventType : EventType) (key : IdempotencyKey) :
    (audit.countP fun row => row.event.records eventType key) =
      events.countP fun event => event.records eventType key := by
  rw [← h, List.countP_map]
  rfl

/-- A transaction that is fit to commit claims one call or none, and the audit log says which. -/
theorem Ready.claims (h : Ready s (some task) t) (hinv : Consistent s) :
    (∃ before after, ClaimedBy s task t before after) ∨ (claimedVersions task s.db t = [] ∧
      ∀ key, (t.audit.countP fun row => row.event.records .claimed key) = 0) := by
  cases h with
  | quiet inbox hcalls hcampaigns hmarks hnotes =>
      refine Or.inr ⟨?_, fun key => List.countP_eq_zero.mpr fun row hrow hrecords => ?_⟩
      · cases task with
        | tick =>
            rw [claimedVersions, Db.moved, List.filter_eq_nil_iff]
            intro row hrow hmoved
            rw [show (s.db.apply t).calls = s.db.calls from Shared.calls_commit_nil hcalls] at hrow
            rw [hinv.call?_of_mem hrow] at hmoved
            simp only [Option.any_some, Bool.and_eq_true, decide_eq_true_eq] at hmoved
            rw [hmoved.1] at hmoved
            cases hmoved.2
        | _ => rfl
      · have hnote := hnotes row hrow
        rw [AuditEvent.isNote, (AuditEvent.records_iff.mp hrecords).1] at hnote
        cases hnote
  | moves inbox before after event folds hmoves hfolds hmarks haudit =>
      have hcount : ∀ key, (t.audit.countP fun row => row.event.records .claimed key) =
          if event.records .claimed key = true then 1 else 0 := by
        intro key
        rw [countP_events haudit, List.countP_cons, hfolds.records, Nat.zero_add]
      have hversions := hmoves.moved hinv (show CallStatus.queued ≠ .dialing from by decide)
      have hcommit := hmoves.call?_commit after.id
      rw [if_pos rfl] at hcommit
      have hrow := hmoves.row
      have hcause := hmoves.cause
      cases hcause with
      | claim campaign inFlight pending cursor htask hinbox hclaimable =>
          obtain rfl := Option.some.inj htask
          have hqueued := (Cause.claimable_queued hclaimable).2.1
          refine Or.inl ⟨before, _, ?_, hrow, hcommit, rfl, fun key => ?_⟩
          · rw [claimedVersions, hversions, if_pos ⟨rfl, hqueued⟩]
          · have hrecords : (claimedEvent campaign (before.claim t.startedAt) inFlight pending cursor).records
                .claimed key = true ↔ key = (before.claim t.startedAt).key := by
              rw [AuditEvent.records_iff]
              exact ⟨fun h => (Option.some.inj h.2).symm, fun h => ⟨rfl, h ▸ rfl⟩⟩
            rw [hcount]
            simp only [hrecords]
      | cas args hasks hhits hregresses =>
          have hstatus := (CallUpdate.hits_iff.mp hhits).2.1
          refine Or.inr ⟨?_, fun key => ?_⟩
          · cases task with
            | tick =>
                rw [claimedVersions, hversions, if_neg]
                rintro ⟨-, hqueued⟩
                rw [hstatus] at hqueued
                cases hasks <;> cases hqueued
            | _ => rfl
          · have htype := hasks.shape.eventType
            rw [hcount, if_neg]
            intro hrecords
            rw [show args.eventType = .claimed from (AuditEvent.records_iff.mp hrecords).1] at htype
            exact absurd htype (by decide)

/-- A commit that a process promises. -/
theorem Guar.claims (h : Guar ⟨some task, txn⟩ s s') (htxn : txn = some t) (hs' : s' = s.commit t)
    (hinv : Consistent s) :
    (∃ before after, ClaimedBy s task t before after) ∨ (claimedVersions task s.db t = [] ∧
      ∀ key, (t.audit.countP fun row => row.event.records .claimed key) = 0) := by
  cases h with
  | commit u htxn' hready =>
      obtain rfl := Option.some.inj (htxn.symm.trans htxn')
      exact hready.claims hinv
  | quiet hdb hnow hissued =>
      rw [hs'] at hdb
      refine Or.inr ⟨?_, fun key => ?_⟩
      · cases task with
        | tick => exact moved_same hinv hdb nofun
        | _ => rfl
      · have haudit : s.db.audit ++ t.audit = s.db.audit := congrArg Db.audit hdb
        rw [List.append_right_eq_self.mp haudit]
        rfl

/-- What a commit moves, it moves for a cause. -/
theorem Guar.moved (h : Guar ⟨some task, txn⟩ s s') (htxn : txn = some t) (hs' : s' = s.commit t)
    (hinv : Consistent s) (hne : old ≠ new) (hafter : after ∈ s.db.moved t old new) :
    ∃ inbox before event, Moves s (some task) t inbox before after event ∧ before.status = old ∧
      after.status = new := by
  cases h with
  | quiet hdb hnow hissued =>
      rw [hs'] at hdb
      rw [moved_same hinv hdb hne] at hafter
      cases hafter
  | commit u htxn' hready =>
      obtain rfl := Option.some.inj (htxn.symm.trans htxn')
      obtain ⟨hmem, hmoved⟩ := List.mem_filter.mp hafter
      rw [Bool.and_eq_true, decide_eq_true_eq, Option.any_eq_true] at hmoved
      obtain ⟨hnew, before, hrow, hold⟩ := hmoved
      rw [decide_eq_true_eq] at hold
      have hcommit := (hready.consistent hinv).call?_of_mem hmem
      have hchanged : after ≠ before := by
        rintro rfl
        exact hne (hold.symm.trans hnew)
      obtain ⟨inbox, event, folds, hmoves, -⟩ := hready.call_changed hrow hcommit hchanged
      exact ⟨inbox, before, event, hmoves, hold, hnew⟩

/-- A sweep that puts a call back gives it a new attempt. -/
theorem Guar.reclaims (h : Guar ⟨some task, txn⟩ s s') (htxn : txn = some t) (hs' : s' = s.commit t)
    (hinv : Consistent s) (hafter : after ∈ reclaimedVersions task s.db t) :
    ∃ before, s.db.call? after.id = some before ∧ s'.db.call? after.id = some after ∧
      after.attemptEpoch = before.attemptEpoch + 1 := by
  cases task with
  | reclaim found =>
      obtain ⟨inbox, before, event, hmoves, hold, hnew⟩ :=
        h.moved htxn hs' hinv (show CallStatus.dialing ≠ .queued from by decide) hafter
      have hcommit := hmoves.call?_commit after.id
      rw [if_pos rfl] at hcommit
      refine ⟨before, hmoves.row, hs' ▸ hcommit, ?_⟩
      cases hmoves.cause with
      | claim campaign inFlight pending cursor htask => cases htask
      | cas args hasks hhits hregresses =>
          cases hasks with
          | reclaimTerminal row reported hsnap hreported =>
              rw [show reported = .queued from hnew] at hreported
              cases hreported
          | reclaim row hsnap =>
              rw [(CallUpdate.hits_iff.mp hhits).2.2]
              rfl
  | _ => cases hafter

end

end VoiceCampaign

import VoiceCampaign.Protocol.Watch

/-!
# The order of the audit log

Audit ids are drawn from a sequence when the row is written, not when it commits. Rows that record a
change of one call or of one campaign are written under the lock of its row, so for each of them the ids
grow in the order of the commits.
-/

namespace VoiceCampaign

open Concurrency

/-- The event records a change of the row that `lock` locks. -/
def AuditEvent.about (event : AuditEvent) : RowLock → Bool
  | .call id => event.callId = some id && (event.stateBefore.isSome || event.stateAfter.isSome)
  | .campaign id =>
      (event.eventType = .campaignPromotedActive || event.eventType = .campaignCompleted) &&
        event.campaignId = some id
  | _ => false

theorem AuditEvent.about_note {event : AuditEvent} (h : event.isNote = true) (lock : RowLock) :
    event.about lock = false := by
  rw [AuditEvent.isNote, Bool.and_eq_true, Bool.and_eq_true, Option.isNone_iff_eq_none,
    Option.isNone_iff_eq_none] at h
  obtain ⟨⟨htype, hbefore⟩, hafter⟩ := h
  cases lock with
  | call id => simp [about, hbefore, hafter]
  | campaign id =>
      cases heq : event.eventType <;> simp [heq, EventType.isNote] at htype <;> simp [about, heq]
  | inbox id => rfl
  | cursor id => rfl

/-- The audit rows of `transition` are about the call. -/
theorem Transition.about {args : Transition} {row : CallRow} {lock : RowLock}
    (htype : args.eventType ≠ .campaignPromotedActive ∧ args.eventType ≠ .campaignCompleted)
    (h : (args.auditEvent row).about lock = true) : lock = .call args.callId := by
  cases lock with
  | call id =>
      simp only [AuditEvent.about, Transition.auditEvent, Bool.and_eq_true, decide_eq_true_eq,
        Option.some.injEq] at h
      rw [h.1]
  | campaign id => simp [AuditEvent.about, Transition.auditEvent, htype] at h
  | inbox id => cases h
  | cursor id => cases h

theorem claimedEvent_about {campaign : CampaignRow} {claimed : CallRow} {inFlight pending : Nat}
    {cursor : Option Time} {lock : RowLock}
    (h : (claimedEvent campaign claimed inFlight pending cursor).about lock = true) :
    lock = .call claimed.id := by
  cases lock with
  | call id =>
      simp only [AuditEvent.about, claimedEvent, Bool.and_eq_true, decide_eq_true_eq,
        Option.some.injEq] at h
      rw [h.1]
  | campaign id => simp [AuditEvent.about, claimedEvent] at h
  | inbox id => cases h
  | cursor id => cases h

theorem campaignPromoted_about {campaignId : CampaignId} {lock : RowLock}
    (h : (campaignPromoted campaignId).about lock = true) : lock = .campaign campaignId := by
  cases lock with
  | campaign id =>
      simp only [AuditEvent.about, campaignPromoted, Bool.and_eq_true, decide_eq_true_eq,
        Option.some.injEq] at h
      rw [h.2]
  | call id => simp [AuditEvent.about, campaignPromoted] at h
  | inbox id => cases h
  | cursor id => cases h

theorem campaignCompleted_about {campaignId : CampaignId} {counts : TerminalAggregate}
    {target : CampaignStatus} {lock : RowLock}
    (h : (campaignCompleted campaignId counts target).about lock = true) : lock = .campaign campaignId := by
  cases lock with
  | campaign id =>
      simp only [AuditEvent.about, campaignCompleted, Bool.and_eq_true, decide_eq_true_eq,
        Option.some.injEq] at h
      rw [h.2]
  | call id => simp [AuditEvent.about, campaignCompleted] at h
  | inbox id => cases h
  | cursor id => cases h

/-! ### Who writes an audit row holds the lock -/

/-- The row a statement has written. -/
def writtenRow : Except Err (Option CallRow) → Option CallRow
  | .ok row => row
  | .error _ => none

/-- The locks a statement is known to take. -/
def Stmt.takes : (stmt : Stmt) → Reply stmt → List RowLock
  | .updateCall _ | .claimNextQueued _ => fun reply =>
      ((writtenRow reply).map fun row => .call row.id).toList
  | .lockCampaign id => fun _ => [.campaign id]
  | .updateCampaign id _ _ => fun (updated : Bool) => bif updated then [.campaign id] else []
  | _ => fun _ => []

/-- A change is audited under the lock of its row only. -/
def lockMonitor : Monitor Stmt Reply (List RowLock) where
  start := []
  allows mode
    | .emitAudit event => ∀ lock, event.about lock = true → lock ∈ mode
    | _ => True
  answers := Stmt.Answers
  next mode stmt reply := bif stmt.delimits then [] else stmt.takes reply ++ mode

/-- From whatever locks it starts. -/
def Locked (α : Type) (program : Co α) : Prop :=
  ∀ mode, lockMonitor.Obeys (fun _ _ => True) (fun _ _ => True) program mode

theorem Locked.bind {α β : Type} {program : Co α} {f : α → Co β} (h : Locked α program)
    (hf : ∀ value, Locked β (f value)) : Locked β (program >>= f) :=
  fun mode => (h mode).bind fun value mode' _ => hf value mode'

theorem Locked.perform {stmt : Stmt} (hallows : ∀ mode, lockMonitor.allows mode stmt) :
    Locked _ (perform stmt) := fun mode => ⟨hallows mode, fun _ _ => trivial⟩

theorem Locked.emitAudit_of {event : AuditEvent} {mode : List RowLock}
    (h : ∀ lock, event.about lock = true → lock ∈ mode) :
    lockMonitor.Obeys (fun _ _ => True) (fun _ _ => True) (emitAudit event) mode := ⟨h, fun _ _ => trivial⟩

theorem maybePromoteToActive_locked (campaignId : CampaignId) : Locked _ (maybePromoteToActive campaignId) := by
  intro mode
  apply Monitor.Obeys.perform trivial
  intro (updated : Bool) _
  cases updated with
  | false => trivial
  | true =>
      apply Locked.emitAudit_of
      intro lock habout
      rw [campaignPromoted_about habout]
      exact List.mem_cons_self

theorem maybeTransitionCampaignTerminal_locked (campaignId : CampaignId) :
    Locked _ (maybeTransitionCampaignTerminal campaignId) := by
  refine Locked.bind (.perform fun _ => trivial) fun _ => Locked.bind (.perform fun _ => trivial) fun active => ?_
  split
  · exact fun _ => trivial
  · refine Locked.bind (.perform fun _ => trivial) fun counts mode => ?_
    apply Monitor.Obeys.perform trivial
    intro (updated : Bool) _
    cases updated with
    | false => trivial
    | true =>
        apply Locked.emitAudit_of
        intro lock habout
        rw [campaignCompleted_about habout]
        exact List.mem_cons_self

theorem transition_locked {args : Transition}
    (htype : args.eventType ≠ .campaignPromotedActive ∧ args.eventType ≠ .campaignCompleted) :
    Locked _ (transition args) := by
  rw [transition]
  split
  · exact fun _ => trivial
  · intro mode
    apply Monitor.Obeys.perform trivial
    intro reply hanswers
    cases reply with
    | error error => trivial
    | ok found =>
        cases found with
        | none => trivial
        | some row =>
            apply Monitor.Obeys.perform
            · intro lock habout
              rw [Transition.about htype habout, ← (hanswers row rfl).1]
              exact List.mem_cons_self
            · intro _ _
              split
              · exact (maybeTransitionCampaignTerminal_locked _ _).bind fun _ _ _ => trivial
              · trivial

theorem note_locked {event : AuditEvent} (h : event.isNote = true) : Locked _ (perform (.emitAudit event)) :=
  .perform fun mode lock habout => by
    rw [AuditEvent.about_note h] at habout
    cases habout

theorem locked_steps : Conduct Locked where
  done _ _ := trivial
  fail _ _ := trivial
  bind := .bind
  catching h hhandler mode := (h mode).catching fun error mode' _ => hhandler error mode'
  plain stmt hplain := by
    cases stmt with
    | emitAudit event => exact note_locked (Stmt.plain_note hplain)
    | _ => exact .perform fun _ => trivial
  transition hroutine := by
    have htype := hroutine.eventType
    exact transition_locked
      ⟨fun he => (by rw [he] at htype; cases htype), fun he => (by rw [he] at htype; cases htype)⟩

theorem locked_conduct : TaskConduct Locked := by
  refine locked_steps.ofDelimits fun stmt hdelimits => .perform fun mode => ?_
  cases stmt with
  | emitAudit event => cases hdelimits
  | _ => trivial

theorem claimPhase_locked (campaign : CampaignRow) : Locked _ (claimPhase campaign) := by
  apply locked_conduct.transaction
  refine Locked.bind (.perform fun _ => trivial) fun pending => Locked.bind (.perform fun _ => trivial)
    fun inFlight => Locked.bind (.perform fun _ => trivial) fun cursor mode => ?_
  apply Monitor.Obeys.perform trivial
  intro reply _
  cases reply with
  | error error => trivial
  | ok found =>
      cases found with
      | none => trivial
      | some claimed =>
          apply Monitor.Obeys.perform
          · intro lock habout
            rw [claimedEvent_about habout]
            exact List.mem_cons_self
          · intro _ _
            split
            · exact (maybePromoteToActive_locked _ _).bind fun _ _ _ => trivial
            · trivial

theorem lockMonitor_covers (deps : Deps) : Monitor.Covers lockMonitor deps := by
  intro task
  have hrow : ∀ deps, Locked _ (processOneRow deps) := by
    intro deps
    apply locked_conduct.catching
    · apply locked_conduct.transaction
      refine Locked.bind (.perform fun _ => trivial) fun found => ?_
      cases found with
      | none => exact fun _ => trivial
      | some row =>
          refine locked_steps.processRow .bind (fun outcome _ => ?_) deps
          exact Locked.bind (.perform fun _ => trivial) fun _ _ => trivial
    · exact fun _ _ => trivial
  have hdispatch : ∀ campaign, Locked _ (dispatchOne campaign) := by
    intro campaign
    apply locked_conduct.dispatchOne (claimPhase_locked campaign)
    · intro claimed
      refine Locked.bind (.perform fun _ => trivial) fun outcome => ?_
      cases outcome <;> exact fun _ => trivial
    · exact fun claimed handle => transition_locked ⟨nofun, nofun⟩
    · exact fun claimed nextAttempt => transition_locked ⟨nofun, nofun⟩
    · exact fun now => .perform fun _ => trivial
  exact locked_conduct.task hrow (fun _ => note_locked) hdispatch deps task lockMonitor.start

/-! ### Ids grow with the commits -/

/-- The committed log: ids below the sequence, and growing for each row that the log is about. -/
structure AuditOrdered (s : Shared) : Prop where
  drawn : ∀ row ∈ s.db.audit, row.id < s.auditSeq
  ids : ∀ lock, (s.db.audit.filter fun row => row.event.about lock).Pairwise fun a b => a.id < b.id

/-- The audit rows of an open transaction come after the committed ones, and its locks cover them. -/
structure Txn.Ordered (s : Shared) (mode : List RowLock) (t : Txn) : Prop where
  known : ∀ lock ∈ mode, lock ∈ t.locks
  held : ∀ row ∈ t.audit, ∀ lock, row.event.about lock = true → lock ∈ t.locks
  drawn : ∀ row ∈ t.audit, row.id < s.auditSeq
  ids : t.audit.Pairwise fun a b => a.id < b.id
  later : ∀ old ∈ s.db.audit, ∀ row ∈ t.audit, ∀ lock, old.event.about lock = true →
    row.event.about lock = true → old.id < row.id

section

variable {others : List Txn} {choice : Choice} {s s' : Shared} {txn txn' : Option Txn} {t u : Txn}
  {mode : List RowLock}

/-- `t'` has the audit rows of `t`, and its locks and more. -/
structure Txn.Takes (t t' : Txn) (more : List RowLock) : Prop where
  audit : t'.audit = t.audit
  locks : ∀ lock ∈ t.locks, lock ∈ t'.locks
  more : ∀ lock ∈ more, lock ∈ t'.locks

theorem Txn.Takes.refl (t : Txn) : t.Takes t [] := ⟨rfl, fun _ h => h, nofun⟩

theorem Txn.Takes.cons {lock : RowLock} {more : List RowLock} (haudit : u.audit = t.audit)
    (hlocks : u.locks = lock :: t.locks) (hmore : ∀ other ∈ more, other = lock) : t.Takes u more where
  audit := haudit
  locks other hother := by
    rw [hlocks]
    exact List.mem_cons_of_mem _ hother
  more other hother := by
    rw [hlocks, hmore other hother]
    exact List.mem_cons_self

theorem WriteOutcome.takes {candidate : CallRow → Prop} {version : CallRow → CallRow}
    {reply : Except Err (Option CallRow)} (h : WriteOutcome others s t candidate version reply txn') :
    ∀ t' ∈ txn', t.Takes t' ((writtenRow reply).map fun row => .call row.id).toList := by
  intro t' ht'
  cases h with
  | missed hnone =>
      cases ht'
      exact .refl t
  | violated =>
      cases ht'
      exact .refl t
  | written row t'' hrow hcandidate hwrites =>
      cases ht'
      rw [hwrites.txn]
      exact .cons rfl rfl fun other hother => List.mem_singleton.mp hother

/-- A statement within a transaction, other than the audit `INSERT`. -/
theorem exec_takes {stmt : Stmt} {reply : Reply stmt} (hdelimits : stmt.delimits = false)
    (hemit : ∀ event, stmt ≠ .emitAudit event)
    (h : exec others choice s txn stmt = some (reply, s', txn')) :
    s'.auditSeq = s.auditSeq ∧ ∀ t' ∈ txn', ∃ t ∈ txn, t.Takes t' (stmt.takes reply) := by
  have hsame : ∀ t' ∈ txn, ∃ t ∈ txn, t.Takes t' [] := fun t' ht' => ⟨t', ht', .refl t'⟩
  have hone : ∀ {u t : Txn} {more}, t.Takes u more → ∀ t' ∈ some u, ∃ t₀ ∈ some t, t₀.Takes t' more := by
    intro u t more htakes t' ht'
    cases ht'
    exact ⟨t, rfl, htakes⟩
  cases stmt with
  | begin => cases hdelimits
  | commit => cases hdelimits
  | rollback => cases hdelimits
  | emitAudit event => exact absurd rfl (hemit event)
  | updateCall update =>
      obtain ⟨t, rfl⟩ := exec_open h rfl
      obtain ⟨rfl, hwrite⟩ := exec_updateCall h
      exact ⟨rfl, fun t' ht' => ⟨t, rfl, hwrite.takes t' ht'⟩⟩
  | claimNextQueued campaignId =>
      obtain ⟨t, rfl⟩ := exec_open h rfl
      obtain ⟨rfl, hwrite⟩ := exec_claimNextQueued h
      exact ⟨rfl, fun t' ht' => ⟨t, rfl, hwrite.takes t' ht'⟩⟩
  | selectRetryDue campaignId =>
      obtain ⟨t, rfl⟩ := exec_open h rfl
      obtain ⟨rfl, ⟨-, rfl⟩ | ⟨row, -, -, -, -, rfl⟩⟩ := exec_selectRetryDue h
      · exact ⟨rfl, hsame⟩
      · exact ⟨rfl, hone (.cons rfl rfl nofun)⟩
  | lockCampaign campaignId =>
      obtain ⟨t, rfl⟩ := exec_open h rfl
      obtain ⟨rfl, -, rfl⟩ := exec_lockCampaign h
      exact ⟨rfl, hone (.cons rfl rfl fun other hother => List.mem_singleton.mp hother)⟩
  | updateCampaign campaignId expected new =>
      obtain ⟨t, rfl⟩ := exec_open h rfl
      obtain ⟨rfl, ⟨rfl, rfl, -⟩ | ⟨campaign, -, -, -, rfl, rfl⟩⟩ := exec_updateCampaign h
      · exact ⟨rfl, hsame⟩
      · exact ⟨rfl, hone (.cons rfl rfl fun other hother => List.mem_singleton.mp hother)⟩
  | updateLastDispatchAt campaignId ts =>
      obtain ⟨t, rfl⟩ := exec_open h rfl
      obtain ⟨rfl, -, rfl⟩ := exec_updateLastDispatchAt h
      exact ⟨rfl, hone (.cons rfl rfl nofun)⟩
  | claimUnprocessedOne =>
      obtain ⟨t, rfl⟩ := exec_open h rfl
      obtain ⟨rfl, ⟨-, rfl⟩ | ⟨row, -, -, -, -, rfl⟩⟩ := exec_claimUnprocessedOne h
      · exact ⟨rfl, hsame⟩
      · exact ⟨rfl, hone (.cons rfl rfl nofun)⟩
  | markProcessed inboxId =>
      obtain ⟨t, rfl⟩ := exec_open h rfl
      obtain ⟨rfl, ⟨rfl, -⟩ | ⟨row, -, -, rfl⟩⟩ := exec_markProcessed h
      · exact ⟨rfl, hsame⟩
      · exact ⟨rfl, hone (.cons rfl rfl nofun)⟩
  | _ =>
      cases h
      exact ⟨rfl, hsame⟩

/-- Only `BEGIN`, `COMMIT` and `ROLLBACK` take a coroutine into a transaction, or out of it. -/
theorem exec_isSome {stmt : Stmt} {reply : Reply stmt} (hdelimits : stmt.delimits = false)
    (h : exec others choice s txn stmt = some (reply, s', txn')) : txn'.isSome = txn.isSome := by
  cases stmt with
  | begin => cases hdelimits
  | commit => cases hdelimits
  | rollback => cases hdelimits
  | updateCall update =>
      obtain ⟨t, rfl⟩ := exec_open h rfl
      obtain ⟨-, hwrite⟩ := exec_updateCall h
      cases hwrite <;> rfl
  | claimNextQueued campaignId =>
      obtain ⟨t, rfl⟩ := exec_open h rfl
      obtain ⟨-, hwrite⟩ := exec_claimNextQueued h
      cases hwrite <;> rfl
  | datetimeNow | uniform | notify | select query | placeCall key phone | getStatus handle =>
      cases h
      rfl
  | _ =>
      obtain ⟨t, rfl⟩ := exec_open h rfl
      simp only [exec, Option.bind_some, Option.map_some] at h
      repeat' split at h
      all_goals cases h
      all_goals rfl

/-- A statement writes an audit row of its own, or none. -/
theorem exec_audit {stmt : Stmt} {reply : Reply stmt} (h : exec others choice s txn stmt = some (reply, s', txn')) :
    ∀ t' ∈ txn', ∀ entry ∈ t'.audit, (∃ t ∈ txn, entry ∈ t.audit) ∨ stmt = .emitAudit entry.event := by
  intro t' ht' entry hentry
  by_cases hemit : ∃ event, stmt = .emitAudit event
  · obtain ⟨event, rfl⟩ := hemit
    obtain ⟨t, rfl⟩ := exec_open h rfl
    obtain ⟨-, rfl⟩ := exec_emitAudit h
    cases ht'
    rcases List.mem_append.mp hentry with hold | hnew
    · exact Or.inl ⟨t, rfl, hold⟩
    · rw [List.mem_singleton.mp hnew]
      exact Or.inr rfl
  cases hdelimits : stmt.delimits with
  | true =>
      cases stmt with
      | begin =>
          obtain ⟨-, rfl⟩ := exec_begin h
          cases ht'
          cases hentry
      | commit =>
          obtain ⟨t, -, -, rfl⟩ := exec_commit h
          cases ht'
      | rollback =>
          obtain ⟨-, rfl⟩ := exec_rollback h
          cases ht'
      | _ => cases hdelimits
  | false =>
      obtain ⟨t, ht, htakes⟩ := (exec_takes hdelimits (fun event he => hemit ⟨event, he⟩) h).2 t' ht'
      exact Or.inl ⟨t, ht, htakes.audit ▸ hentry⟩

theorem Txn.Takes.ordered {more : List RowLock} (htakes : t.Takes u more) (h : t.Ordered s mode)
    (hdb : s'.db = s.db) (hseq : s'.auditSeq = s.auditSeq) : u.Ordered s' (more ++ mode) where
  known lock hlock := (List.mem_append.mp hlock).elim (htakes.more lock)
    fun hmode => htakes.locks lock (h.known lock hmode)
  held row hrow lock habout := htakes.locks lock (h.held row (htakes.audit ▸ hrow) lock habout)
  drawn row hrow := hseq ▸ h.drawn row (htakes.audit ▸ hrow)
  ids := htakes.audit ▸ h.ids
  later old hold row hrow := h.later old (hdb ▸ hold) row (htakes.audit ▸ hrow)

/-- A transaction that writes one more audit row, under the locks it has. -/
theorem Txn.Ordered.emitAudit (h : t.Ordered s mode) (hs : AuditOrdered s) {event : AuditEvent}
    (hevent : ∀ lock, event.about lock = true → lock ∈ mode) :
    Txn.Ordered { s with auditSeq := s.auditSeq + 1 } mode
      { t with audit := t.audit ++ [{ id := s.auditSeq, ts := t.startedAt, event }] } where
  known := h.known
  held row hrow lock habout := by
    rcases List.mem_append.mp hrow with hold | hnew
    · exact h.held row hold lock habout
    · rw [List.mem_singleton.mp hnew] at habout
      exact h.known lock (hevent lock habout)
  drawn row hrow := by
    rcases List.mem_append.mp hrow with hold | hnew
    · exact Nat.lt_succ_of_lt (h.drawn row hold)
    · rw [List.mem_singleton.mp hnew]
      exact Nat.lt_succ_self _
  ids := by
    rw [List.pairwise_append]
    refine ⟨h.ids, List.pairwise_singleton _ _, fun old hold row hrow => ?_⟩
    rw [List.mem_singleton.mp hrow]
    exact h.drawn old hold
  later old hold row hrow lock hboth habout := by
    rcases List.mem_append.mp hrow with hmem | hnew
    · exact h.later old hold row hmem lock hboth habout
    · rw [List.mem_singleton.mp hnew]
      exact hs.drawn old hold

/-- The log after a commit. -/
theorem Txn.Ordered.commit (h : t.Ordered s mode) (hs : AuditOrdered s) : AuditOrdered (s.commit t) where
  drawn row hrow := (List.mem_append.mp hrow).elim (hs.drawn row) (h.drawn row)
  ids lock := by
    show ((s.db.audit ++ t.audit).filter _).Pairwise _
    rw [List.filter_append, List.pairwise_append]
    refine ⟨hs.ids lock, h.ids.sublist List.filter_sublist, fun old hold row hrow => ?_⟩
    obtain ⟨hold, hboth⟩ := List.mem_filter.mp hold
    obtain ⟨hrow, habout⟩ := List.mem_filter.mp hrow
    exact h.later old hold row hrow lock hboth habout

/-- Another transaction, whose locks are its own, still comes after what `t` commits. -/
theorem Txn.Ordered.aside {mode' : List RowLock} (hu : u.Ordered s mode') (h : t.Ordered s mode)
    (hlocks : ∀ lock ∈ t.locks, lock ∉ u.locks) : u.Ordered (s.commit t) mode' where
  known := hu.known
  held := hu.held
  drawn := hu.drawn
  ids := hu.ids
  later old hold row hrow lock hboth habout := by
    rcases List.mem_append.mp hold with hbefore | hnew
    · exact hu.later old hbefore row hrow lock hboth habout
    · exact absurd (hu.held row hrow lock habout) (hlocks lock (h.held old hnew lock hboth))

end

/-! ### Every run -/

/-- Committed or not, the audit rows are in order. -/
structure LogOrdered (s : Sys) (modes : Nat → List RowLock) : Prop where
  watched : Watched lockMonitor s modes
  log : AuditOrdered s.shared
  txns : ∀ (index : Nat) (process : Process), s.procs[index]? = some process → ∀ t ∈ process.txn,
    t.Ordered s.shared (modes index)

section

variable {s s' : Shared} {t : Txn} {mode : List RowLock}

theorem Txn.Ordered.mono (h : t.Ordered s mode) (haudit : s'.db.audit = s.db.audit)
    (hseq : s.auditSeq ≤ s'.auditSeq) : t.Ordered s' mode where
  known := h.known
  held := h.held
  drawn row hrow := (h.drawn row hrow).trans_le hseq
  ids := h.ids
  later old hold := h.later old (haudit ▸ hold)

theorem AuditOrdered.mono (h : AuditOrdered s) (haudit : s'.db.audit = s.db.audit)
    (hseq : s.auditSeq ≤ s'.auditSeq) : AuditOrdered s' where
  drawn row hrow := (h.drawn row (haudit ▸ hrow)).trans_le hseq
  ids := haudit ▸ h.ids

theorem Txn.Ordered.opened (s : Shared) (now : Time) : Txn.Ordered s [] { startedAt := now } where
  known _ h := by cases h
  held _ h := by cases h
  drawn _ h := by cases h
  ids := .nil
  later _ _ _ h := by cases h

/-- The process that runs a statement, and the shared state it leaves. -/
theorem exec_ordered {others : List Txn} {choice : Choice} {txn txn' : Option Txn} {stmt : Stmt}
    {reply : Reply stmt} (hlog : AuditOrdered s) (htxn : ∀ t ∈ txn, t.Ordered s mode)
    (hallows : lockMonitor.allows mode stmt)
    (h : exec others choice s txn stmt = some (reply, s', txn')) :
    AuditOrdered s' ∧ (∀ t ∈ txn', t.Ordered s' (lockMonitor.next mode stmt reply)) ∧
      ((s'.db.audit = s.db.audit ∧ s.auditSeq ≤ s'.auditSeq) ∨ ∃ t ∈ txn, s' = s.commit t) := by
  cases hdelimits : stmt.delimits with
  | true =>
      cases stmt with
      | begin =>
          obtain ⟨rfl, rfl⟩ := exec_begin h
          refine ⟨hlog, fun t ht => ?_, Or.inl ⟨rfl, le_rfl⟩⟩
          rw [← Option.some.inj ht]
          exact .opened _ _
      | commit =>
          obtain ⟨t, rfl, rfl, rfl⟩ := exec_commit h
          exact ⟨(htxn t rfl).commit hlog, fun _ h => (by cases h), Or.inr ⟨t, rfl, rfl⟩⟩
      | rollback =>
          obtain ⟨rfl, rfl⟩ := exec_rollback h
          exact ⟨hlog, fun _ h => (by cases h), Or.inl ⟨rfl, le_rfl⟩⟩
      | _ => cases hdelimits
  | false =>
      have hnext : lockMonitor.next mode stmt reply = stmt.takes reply ++ mode := by
        simp [lockMonitor, hdelimits]
      rw [hnext]
      by_cases hemit : ∃ event, stmt = .emitAudit event
      · obtain ⟨event, rfl⟩ := hemit
        obtain ⟨t, rfl⟩ := exec_open h rfl
        obtain ⟨rfl, rfl⟩ := exec_emitAudit h
        refine ⟨hlog.mono rfl (Nat.le_succ _), fun t' ht' => ?_, Or.inl ⟨rfl, Nat.le_succ _⟩⟩
        cases ht'
        exact (htxn t rfl).emitAudit hlog hallows
      · obtain ⟨hseq, htakes⟩ := exec_takes hdelimits (fun event he => hemit ⟨event, he⟩) h
        have hdb : s'.db = s.db := (exec_quiet (fun he => by rw [he] at hdelimits; cases hdelimits) h).1
        refine ⟨hlog.mono (by rw [hdb]) hseq.ge, fun t' ht' => ?_, Or.inl ⟨by rw [hdb], hseq.ge⟩⟩
        obtain ⟨t, ht, htook⟩ := htakes t' ht'
        exact htook.ordered (htxn t ht) hdb hseq

end

section

variable {deps : Deps} {s s' : Sys} {modes : Nat → List RowLock} {action : Action}

theorem LogOrdered.step (h : LogOrdered s modes) (hs : Reachable deps s)
    (hstep : s.step deps action = some s') : ∃ modes', LogOrdered s' modes' := by
  obtain ⟨modes', hwatched, hstep'⟩ := h.watched.step (lockMonitor_covers deps) (fun _ _ h => h) hstep
  refine ⟨modes', hwatched, ?_, hstep'.txns h.txns ?_ ?_ ?_⟩
  · cases hstep' with
    | world action shared hworld => exact h.log.mono hworld.audit hworld.auditSeq.ge
    | run index choice task stmt next txn reply shared txn' hprocess hexec hallows =>
        exact (exec_ordered h.log (h.txns index _ hprocess) hallows hexec).1
    | crash index process hprocess => exact h.log
  · intro mode t shared hworld hordered
    exact hordered.mono hworld.audit hworld.auditSeq.ge
  · intro index choice stmt reply shared mode txn txn' htxn hallows hexec
    exact (exec_ordered h.log htxn hallows hexec).2.1
  · intro index choice task stmt next reply shared mode txn txn' other process u hprocess htxn hallows hexec
      hne hother hu hordered
    rcases (exec_ordered h.log htxn hallows hexec).2.2 with ⟨haudit, hseq⟩ | ⟨t, ht, rfl⟩
    · exact hordered.mono haudit hseq
    · exact hordered.aside (htxn t ht) (hs.locks_apart hprocess hother hne ht hu)

theorem Reachable.logOrdered (h : Reachable deps s) : ∃ modes, LogOrdered s modes := by
  induction h with
  | init now => exact ⟨_, .init lockMonitor now, ⟨fun _ h => (by cases h), fun _ => .nil⟩,
      fun _ _ h => by simp at h⟩
  | step action hs _ hstep ih =>
      obtain ⟨modes, hordered⟩ := ih
      exact hordered.step hs hstep

end

end VoiceCampaign

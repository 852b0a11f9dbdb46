import VoiceCampaign.Model.Runs
import VoiceCampaign.Protocol.Reactions

/-!
# Three ways to learn of a retryable outcome

A webhook, Phase 3 of the tick and the reclaim sweep can each learn that a dial may be tried again. The
first two leave the call in one and the same state. The sweep writes what the provider reported.
-/

namespace VoiceCampaign

open Concurrency Program

/-! ### The state of a call -/

structure CallState where
  status : CallStatus
  retriesRemaining : Nat
  nextAttemptAt : Option Time
  deriving DecidableEq, Repr

def CallRow.state (call : CallRow) : CallState := ⟨call.status, call.retriesRemaining, call.nextAttemptAt⟩

/-- The call is in `state` and no transaction is open. -/
def InState (id : CallId) (state : CallState) (s : Shared × Option Txn) : Prop :=
  s.2 = none ∧ (s.1.db.call? id).map CallRow.state = some state

/-- Where the world chooses `choice` throughout, the coroutine by itself leaves the call in `state`. -/
def Leaves (choice : Choice) {α : Type} (program : Co α) (s : Shared) (id : CallId) (state : CallState) : Prop :=
  ∃ result s', Ends (solo (· = choice)) program (s, none) result s' ∧ InState id state s'

/-- The instant a retry would be put off to. -/
def CallRow.dueTime (call : CallRow) (choice : Choice) (now : Time) (base : Nat) : Except Err Time :=
  (backoffDelta call.attemptEpoch base choice.jitter).bind (addTimedelta now)

/-- The state of a call whose attempt may be tried again: put off while there is budget, failed otherwise.
Where there is no such date the transaction is rolled back. -/
def CallRow.retried (call : CallRow) (choice : Choice) (now : Time) (base : Nat) : CallState :=
  if 0 < call.retriesRemaining then
    match call.dueTime choice now base with
    | .ok next => ⟨.retryPending, call.retriesRemaining - 1, some next⟩
    | .error _ => call.state
  else
    ⟨.failed, call.retriesRemaining, call.nextAttemptAt⟩

section

variable {α : Type} {choice : Choice} {s : Shared} {t : Txn} {call : CallRow} {state state' : CallState}

theorem Leaves.unique {program : Co α} {id : CallId} (h : Leaves choice program s id state)
    (h' : Leaves choice program s id state') : state = state' := by
  obtain ⟨result, s₁, hends, -, hstate⟩ := h
  obtain ⟨result', s₂, hends', -, hstate'⟩ := h'
  obtain ⟨-, rfl⟩ := solo_unique hends hends'
  exact Option.some.inj (hstate.symm.trans hstate')

theorem Leads.leaves {program : Co α} {id : CallId}
    (h : Leads (· = choice) (fun _ => InState id state) (fun _ => InState id state) program (s, none)) :
    Leaves choice program s id state := by
  obtain ⟨result, s', hends⟩ := h.exists_ends ⟨choice, rfl⟩
  obtain ⟨hok, herror⟩ := h.of_ends hends
  cases result with
  | ok value => exact ⟨_, s', hends, hok value rfl⟩
  | error error => exact ⟨_, s', hends, herror error rfl⟩

/-! ### The transaction that records the outcome -/

/-- The open transaction has put the call in `state`. -/
def Puts (call : CallRow) (state : CallState) (t : Txn) : Prop :=
  ∃ version, t.calls = [version] ∧ version.id = call.id ∧ version.state = state

theorem Puts.beside {t' : Txn} (h : Puts call state t) (hcalls : t'.calls = t.calls) : Puts call state t' := by
  obtain ⟨version, hversion, hid, hstate⟩ := h
  exact ⟨version, hcalls.trans hversion, hid, hstate⟩

theorem Puts.inState {s₁ : Shared} (h : Puts call state t) (hcall : s.db.call? call.id = some call)
    (hstill : Still s s₁) : InState call.id state (s₁.commit t, none) := by
  obtain ⟨version, hversion, hid, hstate⟩ := h
  have hfound : lookup CallRow.id (overlay CallRow.id t.calls s₁.db.calls) call.id = some version := by
    have hold : lookup CallRow.id s₁.db.calls (CallRow.id version) = some call := by
      rw [hstill.db, hid]
      exact hcall
    rw [hversion, lookup_overlay_singleton hold, if_pos hid.symm]
  refine ⟨rfl, ?_⟩
  show (lookup CallRow.id (overlay CallRow.id t.calls s₁.db.calls) call.id).map CallRow.state = _
  rw [hfound, ← hstate]
  rfl

/-- A body that puts the call in `state`, or raises where that is the state it is in. -/
theorem Leaves.of_transaction {body : Co α} (hcall : s.db.call? call.id = some call)
    (hbody : Leads (· = choice)
      (fun _ state₁ => ∃ t, state₁.2 = some t ∧ Still s state₁.1 ∧ Puts call state t)
      (fun _ state₁ => Still s state₁.1 ∧ state = call.state) body (s, some { startedAt := s.now })) :
    Leads (· = choice) (fun _ => InState call.id state) (fun _ => InState call.id state) (transaction body)
      (s, none) := by
  refine Leads.transaction (fun _ => Puts call state) (fun _ => state = call.state) hbody
    (fun _ s₁ t hstill hputs => hputs.inState hcall hstill) fun _ s₁ hstill he => ⟨rfl, ?_⟩
  show (s₁.db.call? call.id).map CallRow.state = _
  rw [hstill.db, hcall, he]
  rfl

/-- A compare-and-set on the row as it is, to a status outside the phone index. -/
theorem transition_puts {allowed : Choice → Prop} {args : Transition} (hids : (s.db.calls.map CallRow.id).Nodup)
    (hfresh : t.Fresh) (hrow : call ∈ s.db.calls) (hhits : args.hits call = true)
    (hregresses : args.regresses = false) (hphone : args.newStatus.holdsPhone = false) :
    Leads allowed (fun result state₁ => ∃ t', state₁.2 = some t' ∧ Still s state₁.1 ∧
        Puts call (args.set t.startedAt call).state t' ∧ result = .applied (args.set t.startedAt call))
      (fun _ _ => False) (transition args) (s, some t) := by
  refine (transition_leads hfresh args).mono ?_ ?_
  · rintro result ⟨s₁, txn₁⟩ ⟨t', rfl, hstill, hdone⟩
    cases hdone with
    | regressed hyes =>
        rw [hregresses] at hyes
        cases hyes
    | missed _ hnone =>
        rw [hnone call hrow] at hhits
        cases hhits
    | applied row t' _ hmem hhits' _ hstarted hcalls hcursors hinbox _ =>
        have hid : row.id = call.id :=
          (CallUpdate.hits_iff.mp hhits').1.trans (CallUpdate.hits_iff.mp hhits).1.symm
        obtain rfl := eq_of_key_eq hids hmem hrow hid
        exact ⟨t', rfl, hstill, ⟨_, hcalls, rfl, rfl⟩, rfl⟩
  · rintro error ⟨s₁, txn₁⟩ ⟨-, hraises⟩
    have hholds := hraises.holdsPhone
    rw [hphone] at hholds
    cases hholds

/-- `datetime.now(tz=UTC) + compute_backoff(..)`. -/
theorem nextAttempt_leads (base : Nat) {txn : Option Txn} :
    Leads (· = choice) (fun next state₁ => state₁ = (s, txn) ∧ call.dueTime choice s.now base = .ok next)
      (fun error state₁ => state₁ = (s, txn) ∧ call.dueTime choice s.now base = .error error)
      (nextAttempt call.attemptEpoch base) (s, txn) := by
  refine (nextAttempt_dates call.attemptEpoch base).mono ?_ ?_
  · rintro next state₁ ⟨rfl, _, rfl, hdate⟩
    exact ⟨rfl, hdate⟩
  · rintro error state₁ ⟨rfl, _, rfl, hdate⟩
    exact ⟨rfl, hdate⟩

/-- The policy: put the retry off while there is budget, and fail the call otherwise. -/
theorem retryOrFail_leads (hids : (s.db.calls.map CallRow.id).Nodup) (hrow : call ∈ s.db.calls) (hfresh : t.Fresh)
    (base : Nat) {retry : Time → Transition} {exhausted : Transition}
    (hretry : ∀ next, (retry next).hits call = true ∧ (retry next).regresses = false ∧
      (retry next).newStatus = .retryPending ∧
      ((retry next).set t.startedAt call).state = ⟨.retryPending, call.retriesRemaining - 1, some next⟩)
    (hexhausted : exhausted.hits call = true ∧ exhausted.regresses = false ∧ exhausted.newStatus = .failed ∧
      (exhausted.set t.startedAt call).state = ⟨.failed, call.retriesRemaining, call.nextAttemptAt⟩) :
    Leads (· = choice)
      (fun _ state₁ => ∃ t', state₁.2 = some t' ∧ Still s state₁.1 ∧ Puts call (call.retried choice s.now base) t')
      (fun _ state₁ => Still s state₁.1 ∧ call.retried choice s.now base = call.state)
      (if call.retriesRemaining > 0 then do
        let next ← nextAttempt call.attemptEpoch base
        transition (retry next)
      else transition exhausted) (s, some t) := by
  split
  · next hbudget =>
      have hretried : call.retried choice s.now base = match call.dueTime choice s.now base with
          | .ok next => ⟨.retryPending, call.retriesRemaining - 1, some next⟩
          | .error _ => call.state := if_pos hbudget
      refine Wp.andThen (nextAttempt_leads base) ?_ ?_
      · rintro error state₁ ⟨rfl, hdue⟩
        rw [hdue] at hretried
        exact ⟨.refl s, hretried⟩
      · rintro next state₁ ⟨rfl, hdue⟩
        replace hretried : call.retried choice s.now base =
            ⟨.retryPending, call.retriesRemaining - 1, some next⟩ := by rw [hretried, hdue]
        obtain ⟨hhits, hregresses, hstatus, hstate⟩ := hretry next
        refine (transition_puts hids hfresh hrow hhits hregresses (by rw [hstatus]; rfl)).mono ?_
          fun _ _ h => h.elim
        rintro result state₂ ⟨t', htxn, hstill, hputs, -⟩
        rw [hretried, ← hstate]
        exact ⟨t', htxn, hstill, hputs⟩
  · next hspent =>
      have hretried : call.retried choice s.now base = ⟨.failed, call.retriesRemaining, call.nextAttemptAt⟩ :=
        if_neg hspent
      obtain ⟨hhits, hregresses, hstatus, hstate⟩ := hexhausted
      refine (transition_puts hids hfresh hrow hhits hregresses (by rw [hstatus]; rfl)).mono ?_
        fun _ _ h => h.elim
      rintro result state₂ ⟨t', htxn, hstill, hputs, -⟩
      rw [hretried, ← hstate]
      exact ⟨t', htxn, hstill, hputs⟩

/-! ### The sweep -/

/-- The sweep writes what the provider reported. -/
theorem reclaimOne_leaves {handle : Handle} {outcome : CallStatus} (hinv : Consistent s) (hrow : call ∈ s.db.calls)
    (hdialing : call.status = .dialing) (hhandle : call.providerCallId = some handle)
    (hreported : choice.status = .reported outcome) (hterminal : outcome.isTerminal = true) :
    Leaves choice (reclaimOne call) s call.id ⟨outcome, call.retriesRemaining, call.nextAttemptAt⟩ := by
  have hinner : Leads (· = choice)
      (fun _ => InState call.id ⟨outcome, call.retriesRemaining, call.nextAttemptAt⟩)
      (fun _ => InState call.id ⟨outcome, call.retriesRemaining, call.nextAttemptAt⟩)
      (reclaimOneInner call) (s, none) := by
    rw [reclaimOneInner, hhandle]
    refine Leads.step (fun _ => rfl) fun choice' reply s₁ txn₁ hchoice hexec => ?_
    subst hchoice
    cases hexec
    rw [hreported]
    show Leads _ _ _ (if outcome.isTerminal = true then applyTerminal call outcome else applyReclaim call) _
    rw [if_pos hterminal]
    refine Wp.bind (Leaves.of_transaction (lookup_of_mem hinv.callIds hrow) ?_) ?_
    · have hhits : (reclaimTerminalTransition call outcome).hits call = true :=
        CallUpdate.hits_iff.mpr ⟨rfl, hdialing, rfl⟩
      have hphone : outcome.holdsPhone = false := by
        cases outcome with
        | queued | dialing | inProgress | retryPending => cases hterminal
        | completed | failed | noAnswer | busy => rfl
      refine (transition_puts hinv.callIds ⟨rfl, rfl, rfl⟩ hrow hhits rfl hphone).mono ?_ fun _ _ h => h.elim
      rintro result state₁ ⟨t', htxn, hstill, hputs, -⟩
      exact ⟨t', htxn, hstill, hputs⟩
    · intro result state₁ hstate
      show Leads _ _ _ (if result.isNoOp = true then _ else _) _
      split
      · exact hstate
      · exact hstate
  refine Leads.leaves ?_
  exact Wp.catching hinner fun _ _ hstate => hstate

/-! ### Phase 3 of the tick -/

/-- Phase 3 works on the row that Phase 1 has claimed: the attempt is still that one. -/
structure SameAttempt (claimed call : CallRow) : Prop where
  id : claimed.id = call.id
  attemptEpoch : claimed.attemptEpoch = call.attemptEpoch
  retriesRemaining : claimed.retriesRemaining = call.retriesRemaining

theorem recordPhase_leaves {claimed : CallRow} {campaign : CampaignRow} (hinv : Consistent s) (hrow : call ∈ s.db.calls)
    (hdialing : call.status = .dialing) (hsame : SameAttempt claimed call) :
    Leaves choice (recordPhase campaign claimed .unavailable) s call.id
      (call.retried choice s.now campaign.retryConfig.backoffBaseSeconds) := by
  obtain ⟨hid, hepoch, hbudget⟩ := hsame
  refine Leads.leaves (Leaves.of_transaction (lookup_of_mem hinv.callIds hrow) ?_)
  have hrecord : Leads (· = choice)
      (fun _ state₁ => ∃ t', state₁.2 = some t' ∧ Still s state₁.1 ∧
        Puts call (call.retried choice s.now campaign.retryConfig.backoffBaseSeconds) t')
      (fun _ state₁ => Still s state₁.1 ∧
        call.retried choice s.now campaign.retryConfig.backoffBaseSeconds = call.state)
      (recordDial campaign claimed .unavailable) (s, some { startedAt := s.now }) := by
    simp only [recordDial, hbudget, hepoch]
    refine retryOrFail_leads hinv.callIds hrow ⟨rfl, rfl, rfl⟩ _ ?_ ?_
    · intro next
      refine ⟨CallUpdate.hits_iff.mpr ⟨hid.symm, hdialing, hepoch.symm⟩, rfl, rfl, ?_⟩
      show CallState.mk _ (claimed.retriesRemaining - 1) _ = _
      rw [hbudget]
      rfl
    · exact ⟨CallUpdate.hits_iff.mpr ⟨hid.symm, hdialing, hepoch.symm⟩, rfl, rfl, rfl⟩
  refine Wp.bind hrecord ?_
  rintro result ⟨s₁, txn₁⟩ ⟨t₁, rfl, hstill, hputs⟩
  refine Leads.datetimeNow ?_
  refine Leads.last rfl fun choice' reply s₂ txn₂ _ hstill₂ hexec => ?_
  obtain ⟨-, -, rfl⟩ := exec_updateLastDispatchAt hexec
  exact ⟨_, rfl, hstill.trans hstill₂, hputs.beside rfl⟩

/-! ### The webhook processor -/

/-- The oldest unprocessed inbox row is an event about the call. -/
structure Reports (choice : Choice) (db : Db) (row : InboxRow) (event : ProviderEvent) (call : CallRow) : Prop where
  next : oldest InboxRow.receivedAt choice.pick (db.inbox.filter fun row => row.processedAt.isNone) = some row
  parsed : parseEvent row.payload = .ok event
  found : ∃ handle, event.providerCallId = .str handle ∧
    oldest (fun _ => 0) choice.pick (db.withHandle handle) = some call

section

variable {s₁ : Shared} {t₁ : Txn} {deps : Deps} {row : InboxRow} {event : ProviderEvent} {campaign : CampaignRow}

/-- The row marks itself processed at the end of the transaction. -/
theorem markProcessed_leads (id : InboxId) (value : α) (hstill : Still s s₁) (hputs : Puts call state t₁) :
    Leads (· = choice) (fun _ state₁ => ∃ t', state₁.2 = some t' ∧ Still s state₁.1 ∧ Puts call state t')
      (fun _ _ => False) (markProcessed id >>= fun _ => pure value) (s₁, some t₁) := by
  refine Leads.inside rfl fun choice' reply s₂ txn₂ _ hstill₂ hexec => ?_
  obtain ⟨-, ⟨rfl, -⟩ | ⟨row, -, -, rfl⟩⟩ := exec_markProcessed hexec
  · exact ⟨t₁, rfl, hstill.trans hstill₂, hputs⟩
  · exact ⟨_, rfl, hstill.trans hstill₂, hputs.beside rfl⟩

/-- A retryable event, in a transaction that has only taken locks. -/
theorem applyEvent_leads {locks : List RowLock} (hinv : Consistent s) (hrow : call ∈ s.db.calls)
    (hdialing : call.status = .dialing) (hcampaign : campaign ∈ s.db.campaigns)
    (howner : campaign.id = call.campaignId)
    (hretryable : event.statusEnum = .noAnswer ∨ event.statusEnum = .busy) :
    Leads (· = choice)
      (fun _ state₁ => ∃ t', state₁.2 = some t' ∧ Still s state₁.1 ∧
        Puts call (call.retried choice s.now campaign.retryConfig.backoffBaseSeconds) t')
      (fun _ state₁ => Still s state₁.1 ∧
        call.retried choice s.now campaign.retryConfig.backoffBaseSeconds = call.state)
      (applyEvent deps event call) (s, some { startedAt := s.now, locks }) := by
  have hterminal : event.statusEnum.isTerminal = true := by
    rcases hretryable with he | he <;> rw [he] <;> rfl
  have hlive : ∀ args : Transition, args.expectedStatus = call.status → args.regresses = false := by
    intro args he
    rw [Transition.regresses, he, hdialing]
    rfl
  rw [applyEvent, if_pos hterminal]
  refine Leads.step (fun _ => rfl) fun choice' reply s₁ txn₁ hchoice hexec => ?_
  obtain ⟨hreply, rfl, rfl⟩ := exec_select hexec
  subst hchoice
  replace hreply : reply = some campaign := by
    rw [hreply]
    show Query.eval (s₁.db.apply _) _ _ _ = _
    rw [Db.apply_locks, ← howner]
    exact lookup_of_mem hinv.campaignIds hcampaign
  rw [hreply, applyRetryableOutcome_eq hretryable]
  refine retryOrFail_leads hinv.callIds hrow ⟨rfl, rfl, rfl⟩ _ ?_ ?_
  · exact fun next => ⟨CallUpdate.hits_iff.mpr ⟨rfl, rfl, rfl⟩, hlive _ rfl, rfl, rfl⟩
  · exact ⟨CallUpdate.hits_iff.mpr ⟨rfl, rfl, rfl⟩, hlive _ rfl, rfl, rfl⟩

theorem processRow_leads {locks : List RowLock} (hinv : Consistent s) (hrow : call ∈ s.db.calls)
    (hdialing : call.status = .dialing) (hcampaign : campaign ∈ s.db.campaigns)
    (howner : campaign.id = call.campaignId) (hreports : Reports choice s.db row event call)
    (hretryable : event.statusEnum = .noAnswer ∨ event.statusEnum = .busy) :
    Leads (· = choice)
      (fun _ state₁ => ∃ t', state₁.2 = some t' ∧ Still s state₁.1 ∧
        Puts call (call.retried choice s.now campaign.retryConfig.backoffBaseSeconds) t')
      (fun _ state₁ => Still s state₁.1 ∧
        call.retried choice s.now campaign.retryConfig.backoffBaseSeconds = call.state)
      (processRow deps row) (s, some { startedAt := s.now, locks }) := by
  obtain ⟨-, hparsed, handle, hhandle, hfound⟩ := hreports
  have hchanges : event.statusEnum ≠ call.status := by
    intro he
    rw [he, hdialing] at hretryable
    rcases hretryable with he | he <;> cases he
  rw [processRow, hparsed]
  show Leads _ _ _ (getByProviderCallId event.providerCallId >>= _) _
  rw [hhandle]
  refine Leads.step (fun _ => rfl) fun choice' reply s₁ txn₁ hchoice hexec => ?_
  obtain ⟨hreply, rfl, rfl⟩ := exec_select hexec
  subst hchoice
  replace hreply : reply = some call := by
    rw [hreply]
    show Query.eval (s₁.db.apply _) _ _ _ = _
    rw [Db.apply_locks]
    exact hfound
  subst hreply
  show Leads _ _ _ (if event.statusEnum = call.status then _ else _) _
  rw [if_neg hchanges]
  refine Wp.bind (applyEvent_leads hinv hrow hdialing hcampaign howner hretryable) ?_
  rintro result ⟨s₂, txn₂⟩ ⟨t₂, rfl, hstill, hputs⟩
  have hignored : ∀ note : AuditEvent, Leads (· = choice')
      (fun _ state₁ => ∃ t', state₁.2 = some t' ∧ Still s₁ state₁.1 ∧
        Puts call (call.retried choice' s₁.now campaign.retryConfig.backoffBaseSeconds) t') (fun _ _ => False)
      (do
        emitAudit note
        markProcessed row.id
        pure RowOutcome.stale) (s₂, some t₂) := fun note =>
    Leads.emitAudit fun s₃ t₃ hstill₃ hbeside _ =>
      markProcessed_leads row.id _ (hstill.trans hstill₃) (hputs.beside hbeside.calls)
  cases result with
  | terminalRegression => exact (hignored _).mono (fun _ _ h => h) fun _ _ h => h.elim
  | noOp => exact (hignored _).mono (fun _ _ h => h) fun _ _ h => h.elim
  | applied version =>
      exact (markProcessed_leads row.id _ hstill hputs).mono (fun _ _ h => h) fun _ _ h => h.elim

theorem processOneRow_leaves (hinv : Consistent s) (hrow : call ∈ s.db.calls) (hdialing : call.status = .dialing)
    (hcampaign : campaign ∈ s.db.campaigns) (howner : campaign.id = call.campaignId)
    (hreports : Reports choice s.db row event call)
    (hretryable : event.statusEnum = .noAnswer ∨ event.statusEnum = .busy) :
    Leaves choice (processOneRow deps) s call.id
      (call.retried choice s.now campaign.retryConfig.backoffBaseSeconds) := by
  refine Leads.leaves (Wp.catching (Leaves.of_transaction (lookup_of_mem hinv.callIds hrow) ?_) fun _ _ h => h)
  refine Leads.step (fun _ => rfl) fun choice' reply s₁ txn₁ hchoice hexec => ?_
  subst hchoice
  have hcandidates : (s.db.inbox.filter fun row => row.processedAt.isNone && !held [] (.inbox row.id)) =
      s.db.inbox.filter fun row => row.processedAt.isNone :=
    List.filter_congr fun row _ => Bool.and_true _
  simp only [exec, Option.map_some, Db.apply_locks, hcandidates, hreports.next] at hexec
  cases hexec
  exact processRow_leads hinv hrow hdialing hcampaign howner hreports hretryable

end

/-! ### All three -/

/-- The webhook processor, Phase 3 and the sweep leave the call in one and the same state. -/
def PathsAgree (deps : Deps) (choice : Choice) (s : Shared) (campaign : CampaignRow) (claimed call : CallRow) : Prop :=
  ∃ state, Leaves choice (processOneRow deps) s call.id state ∧
    Leaves choice (recordPhase campaign claimed .unavailable) s call.id state ∧
    Leaves choice (reclaimOne call) s call.id state

/-- A call is not put off into the status it was reported with. -/
theorem retried_status_ne {outcome : CallStatus} (hdialing : call.status = .dialing)
    (hretryable : outcome = .noAnswer ∨ outcome = .busy) (now : Time) (base : Nat) :
    (call.retried choice now base).status ≠ outcome := by
  have hlive : (call.retried choice now base).status ≠ .noAnswer ∧ (call.retried choice now base).status ≠ .busy := by
    rw [CallRow.retried]
    split
    · split
      · exact ⟨nofun, nofun⟩
      · rw [CallRow.state, hdialing]
        exact ⟨nofun, nofun⟩
    · exact ⟨nofun, nofun⟩
  rcases hretryable with rfl | rfl
  · exact hlive.1
  · exact hlive.2

/-- The webhook processor and Phase 3 agree; the sweep never agrees with them. -/
theorem retryable_paths {deps : Deps} {sys : Sys} (hreachable : Reachable deps sys) {claimed : CallRow}
    {campaign : CampaignRow} {row : InboxRow} {event : ProviderEvent} {reported : CallStatus}
    (hrow : call ∈ sys.shared.db.calls) (hdialing : call.status = .dialing)
    (hcampaign : campaign ∈ sys.shared.db.campaigns) (howner : campaign.id = call.campaignId)
    (hreports : Reports choice sys.shared.db row event call)
    (hevent : event.statusEnum = .noAnswer ∨ event.statusEnum = .busy) (hsame : SameAttempt claimed call)
    (hstatus : choice.status = .reported reported) (hreported : reported = .noAnswer ∨ reported = .busy) :
    Leaves choice (processOneRow deps) sys.shared call.id
        (call.retried choice sys.shared.now campaign.retryConfig.backoffBaseSeconds) ∧
      Leaves choice (recordPhase campaign claimed .unavailable) sys.shared call.id
        (call.retried choice sys.shared.now campaign.retryConfig.backoffBaseSeconds) ∧
      Leaves choice (reclaimOne call) sys.shared call.id ⟨reported, call.retriesRemaining, call.nextAttemptAt⟩ ∧
      ¬ PathsAgree deps choice sys.shared campaign claimed call := by
  have hinv := hreachable.consistent
  obtain ⟨handle, -, hfound⟩ := hreports.found
  have hhandle : call.providerCallId = some handle :=
    of_decide_eq_true (List.mem_filter.mp (oldest_some hfound).1).2
  have hterminal : reported.isTerminal = true := by
    rcases hreported with rfl | rfl <;> rfl
  have hwebhook : Leaves choice (processOneRow deps) _ _ _ :=
    processOneRow_leaves hinv hrow hdialing hcampaign howner hreports hevent
  have hsweep := reclaimOne_leaves hinv hrow hdialing hhandle hstatus hterminal
  refine ⟨hwebhook, recordPhase_leaves hinv hrow hdialing hsame, hsweep, ?_⟩
  rintro ⟨state, hfirst, -, hlast⟩
  have he := (hwebhook.unique hfirst).trans (hlast.unique hsweep)
  exact retried_status_ne hdialing hreported _ _ (congrArg CallState.status he)

end

/-! ### One call -/

/-- The next inbox row reports `outcome` for the call. -/
def reportsOutcome (choice : Choice) (db : Db) (outcome : CallStatus) (call : CallRow) : Bool :=
  (oldest InboxRow.receivedAt choice.pick (db.inbox.filter fun row => row.processedAt.isNone)).any fun row =>
    match parseEvent row.payload with
    | .ok ⟨_, .str handle, status⟩ =>
        status = outcome && oldest (fun _ => 0) choice.pick (db.withHandle handle) = some call
    | _ => false

theorem reports_of_outcome {choice : Choice} {db : Db} {outcome : CallStatus} {call : CallRow}
    (h : reportsOutcome choice db outcome call = true) :
    ∃ row event, Reports choice db row event call ∧ event.statusEnum = outcome := by
  obtain ⟨row, hrow, hevent⟩ := (Option.any_eq_true _ _).mp h
  split at hevent
  · next eventId handle status hparsed =>
      rw [Bool.and_eq_true, decide_eq_true_eq, decide_eq_true_eq] at hevent
      exact ⟨row, _, ⟨hrow, hparsed, handle, rfl, hevent.2⟩, hevent.1⟩
  · cases hevent

/-- The one call is dialed and nobody answers, and the provider says so to whoever asks. -/
theorem one_call_unanswered : ∃ s, Reachable noonDeps s ∧ ∃ call ∈ s.shared.db.calls,
    ∃ campaign ∈ s.shared.db.campaigns, campaign.id = call.campaignId ∧ s.shared.now = 0 ∧
      call.state = ⟨.dialing, 2, none⟩ ∧ call.attemptEpoch = 1 ∧ campaign.retryConfig.backoffBaseSeconds = 30 ∧
      reportsOutcome { status := .reported .noAnswer } s.shared.db .noAnswer call = true := by
  obtain ⟨s, hs, hp⟩ := Reachable.of_any noonDeps (dialOne ++ deliver 0 "e" .noAnswer 1 0)
    (fun s => s.shared.db.calls.any fun call => s.shared.db.campaigns.any fun campaign =>
      campaign.id = call.campaignId && s.shared.now = 0 && call.state = ⟨.dialing, 2, none⟩ &&
      call.attemptEpoch = 1 && campaign.retryConfig.backoffBaseSeconds = 30 &&
      reportsOutcome { status := .reported .noAnswer } s.shared.db .noAnswer call) (by decide +kernel)
  simp only [List.any_eq_true, Bool.and_eq_true, decide_eq_true_eq] at hp
  obtain ⟨call, hcall, campaign, hcampaign, ⟨⟨⟨⟨howner, hnow⟩, hstate⟩, hepoch⟩, hbase⟩, hreports⟩ := hp
  exact ⟨s, hs, call, hcall, campaign, hcampaign, howner, hnow, hstate, hepoch, hbase, hreports⟩

/-- Two paths put the call off by thirty seconds; the sweep ends it, with its budget unspent. -/
theorem retryable_paths_one_call : ∃ s, Reachable noonDeps s ∧ ∃ call ∈ s.shared.db.calls,
    ∃ campaign ∈ s.shared.db.campaigns, campaign.id = call.campaignId ∧ call.state = ⟨.dialing, 2, none⟩ ∧
      Leaves { status := .reported .noAnswer } (processOneRow noonDeps) s.shared call.id
        ⟨.retryPending, 1, some (30 * second)⟩ ∧
      Leaves { status := .reported .noAnswer } (recordPhase campaign call .unavailable) s.shared call.id
        ⟨.retryPending, 1, some (30 * second)⟩ ∧
      Leaves { status := .reported .noAnswer } (reclaimOne call) s.shared call.id ⟨.noAnswer, 2, none⟩ := by
  obtain ⟨s, hs, call, hcall, campaign, hcampaign, howner, hnow, hstate, hepoch, hbase, hreports⟩ :=
    one_call_unanswered
  obtain ⟨row, event, hreports, hevent⟩ := reports_of_outcome hreports
  obtain ⟨hdialing, hbudget, hnext⟩ := CallState.mk.inj hstate
  obtain ⟨hwebhook, htick, hsweep, -⟩ := retryable_paths hs hcall hdialing hcampaign howner hreports
    (Or.inl hevent) ⟨rfl, rfl, rfl⟩ rfl (Or.inl rfl)
  have hretried : call.retried { status := .reported .noAnswer } s.shared.now
      campaign.retryConfig.backoffBaseSeconds = ⟨.retryPending, 1, some (30 * second)⟩ := by
    have hdue : (backoffDelta 1 (30 : Nat) ⟨0, by norm_num⟩).bind (addTimedelta 0) = .ok (30 * second) := by
      decide +kernel
    rw [CallRow.retried, CallRow.dueTime, hbudget, hepoch, hbase, hnow, hdue]
    rfl
  rw [hretried] at hwebhook htick
  rw [hbudget, hnext] at hsweep
  exact ⟨s, hs, call, hcall, campaign, hcampaign, howner, hstate, hwebhook, htick, hsweep⟩

theorem retryable_paths_disagree : ∃ s, Reachable noonDeps s ∧ ∃ call ∈ s.shared.db.calls,
    ∃ campaign ∈ s.shared.db.campaigns, campaign.id = call.campaignId ∧ call.state = ⟨.dialing, 2, none⟩ ∧
      reportsOutcome { status := .reported .noAnswer } s.shared.db .noAnswer call = true ∧
      ¬ PathsAgree noonDeps { status := .reported .noAnswer } s.shared campaign call call := by
  obtain ⟨s, hs, call, hcall, campaign, hcampaign, howner, -, hstate, -, -, hreported⟩ := one_call_unanswered
  obtain ⟨row, event, hreports, hevent⟩ := reports_of_outcome hreported
  obtain ⟨hdialing, hbudget, hnext⟩ := CallState.mk.inj hstate
  refine ⟨s, hs, call, hcall, campaign, hcampaign, howner, hstate, hreported, ?_⟩
  rintro ⟨state, hwebhook, -, hsweep⟩
  obtain ⟨handle, -, hfound⟩ := hreports.found
  have hhandle : call.providerCallId = some handle :=
    of_decide_eq_true (List.mem_filter.mp (oldest_some hfound).1).2
  have hput : state = call.retried _ _ _ := hwebhook.unique (processOneRow_leaves hs.consistent hcall hdialing
    hcampaign howner hreports (Or.inl hevent))
  have hended : state = ⟨.noAnswer, _, _⟩ :=
    hsweep.unique (reclaimOne_leaves hs.consistent hcall hdialing hhandle rfl rfl)
  exact retried_status_ne hdialing (Or.inl rfl) _ _ (congrArg CallState.status (hput.symm.trans hended))

end VoiceCampaign

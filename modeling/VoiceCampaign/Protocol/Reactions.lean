import VoiceCampaign.Protocol.SoloDrain

/-!
# How a call reacts to an event

Processed by itself, an event moves the call it is about as a function of the two. Intermediate statuses
are written through, a terminal call stays, and an outcome that may be tried again costs a retry while
there is one.
-/

namespace VoiceCampaign

open Concurrency Program

/-- What is left of a call: its status and its budget. -/
structure CallEnd where
  status : CallStatus
  retriesRemaining : Nat
  deriving DecidableEq, Repr

def CallRow.ending (call : CallRow) : CallEnd := ⟨call.status, call.retriesRemaining⟩

/-- What an event makes of a call that is not over. -/
def CallEnd.take (call : CallEnd) : CallStatus → CallEnd
  | .noAnswer | .busy =>
      if 0 < call.retriesRemaining then ⟨.retryPending, call.retriesRemaining - 1⟩
      else ⟨.failed, call.retriesRemaining⟩
  | told => ⟨told, call.retriesRemaining⟩

/-- What an event with status `told` makes of a call. -/
def CallEnd.react (call : CallEnd) (told : CallStatus) : CallEnd :=
  if told = call.status ∨ call.status.isTerminal = true then call else call.take told

/-- The instant a retry is put off to. -/
def retryDate (attemptEpoch : Nat) (baseSeconds : ℚ) (jitter : Jitter) (now : Time) : Except Err Time :=
  (backoffDelta attemptEpoch baseSeconds jitter).bind (addTimedelta now)

/-- The first retry of a call is put off by this much, before the jitter. -/
def Shared.backoffBase (deps : Deps) (s : Shared) (call : CallRow) : ℚ :=
  backoffBaseSeconds deps (s.db.campaign? call.campaignId)

/-- The new version of the call differs in what an event may change. -/
structure Reacts (told : CallStatus) (call version : CallRow) : Prop where
  id : version.id = call.id
  campaignId : version.campaignId = call.campaignId
  phone : version.phone = call.phone
  attemptEpoch : version.attemptEpoch = call.attemptEpoch
  providerCallId : version.providerCallId = call.providerCallId
  ending : version.ending = call.ending.react told

/-- Why the processing of an event raises. -/
inductive Unable (deps : Deps) (allowed : Choice → Prop) (s : Shared) (told : CallStatus) (call : CallRow) : Prop
  | noDate (hretry : told = .noAnswer ∨ told = .busy) (hbudget : 0 < call.retriesRemaining) (choice : Choice)
      (hchoice : allowed choice) (error : Err)
      (hdate : retryDate call.attemptEpoch (s.backoffBase deps call) choice.jitter s.now = .error error)
  | taken (hholds : told.holdsPhone = true) (htaken : phoneTaken s.db call = true)

/-- The transaction has made of the call what the event asks for, and where that is not the end of the call it
has left the campaigns alone. -/
structure Wrote (deps : Deps) (s : Shared) (told : CallStatus) (call : CallRow) (t : Txn) : Prop where
  calls : (t.calls = [] ∧ Reacts told call call) ∨ ∃ version, t.calls = [version] ∧ Reacts told call version
  campaigns : (call.ending.react told).status.isTerminal = false → t.campaigns = []
  dated : (told = .noAnswer ∨ told = .busy) → told ≠ call.status → 0 < call.retriesRemaining →
    ∃ jitter next, retryDate call.attemptEpoch (s.backoffBase deps call) jitter s.now = .ok next

section

variable {allowed : Choice → Prop} {deps : Deps} {s s' s₁ : Shared} {t t' : Txn} {told : CallStatus}
  {call version : CallRow} {handle : Handle}

theorem Reacts.same (h : call.ending.react told = call.ending) : Reacts told call call :=
  ⟨rfl, rfl, rfl, rfl, rfl, h.symm⟩

theorem CallEnd.react_same {ending : CallEnd} (h : told = ending.status ∨ ending.status.isTerminal = true) :
    ending.react told = ending := if_pos h

theorem CallEnd.take_of_not_retry {ending : CallEnd} (h : ¬ (told = .noAnswer ∨ told = .busy)) :
    ending.take told = ⟨told, ending.retriesRemaining⟩ := by
  cases told with
  | noAnswer => exact absurd (Or.inl rfl) h
  | busy => exact absurd (Or.inr rfl) h
  | _ => rfl

theorem Wrote.beside (h : Wrote deps s told call t) (hcalls : t'.calls = t.calls) (hcampaigns : t'.campaigns = t.campaigns) :
    Wrote deps s told call t' where
  calls := by
    rw [hcalls]
    exact h.calls
  campaigns hlive := hcampaigns.trans (h.campaigns hlive)
  dated := h.dated

theorem CallEnd.take_of_retry {ending : CallEnd} (h : told = .noAnswer ∨ told = .busy) :
    ending.take told = if 0 < ending.retriesRemaining then ⟨.retryPending, ending.retriesRemaining - 1⟩
      else ⟨.failed, ending.retriesRemaining⟩ := by
  rcases h with rfl | rfl <;> rfl

/-! ### `transition` -/

/-- A compare-and-set on the row as it is, which moves the call the way the event asks for. -/
theorem transition_wrote {args : Transition} (hids : (s.db.calls.map CallRow.id).Nodup) (hrow : call ∈ s.db.calls)
    (hfresh : t.Fresh) (hhits : args.hits call = true) (hepoch : args.newEpoch = none)
    (hhandle : args.columnUpdates.providerCallId = none) (hstays : args.regresses = true → call.ending.react told = call.ending)
    (hmoves : args.regresses = false → (args.set t.startedAt call).ending = call.ending.react told)
    (hphone : args.newStatus.holdsPhone = true → told.holdsPhone = true)
    (hdated : (told = .noAnswer ∨ told = .busy) → told ≠ call.status → 0 < call.retriesRemaining →
      ∃ jitter next, retryDate call.attemptEpoch (s.backoffBase deps call) jitter s.now = .ok next) :
    Leads allowed (fun _ state => ∃ t', state.2 = some t' ∧ Still s state.1 ∧ Wrote deps s told call t')
      (fun _ state => Still s state.1 ∧ Unable deps allowed s told call) (transition args) (s, some t) := by
  have honly : ∀ row ∈ s.db.calls, args.hits row = true → row = call := fun row hmem hhit =>
    eq_of_key_eq hids hmem hrow ((CallUpdate.hits_iff.mp hhit).1.trans (CallUpdate.hits_iff.mp hhits).1.symm)
  refine (transition_leads hfresh args).mono ?_ ?_
  · rintro result ⟨s₁, txn₁⟩ ⟨t', rfl, hstill, hdone⟩
    refine ⟨t', rfl, hstill, ?_⟩
    cases hdone with
    | regressed hregresses =>
        exact ⟨Or.inl ⟨hfresh.calls, .same (hstays hregresses)⟩, fun _ => hfresh.campaigns, hdated⟩
    | missed _ hnone =>
        rw [hnone call hrow] at hhits
        cases hhits
    | applied row t' hregresses hmem hhit _ _ hcalls _ _ hsame =>
        obtain rfl := honly row hmem hhit
        have hending := hmoves hregresses
        refine ⟨Or.inr ⟨_, hcalls, rfl, rfl, rfl, by simp [CallUpdate.set, hepoch], by simp [CallUpdate.set, hhandle],
          hending⟩, fun hlive => ?_, hdated⟩
        rw [← hending] at hlive
        exact (hsame hlive).trans hfresh.campaigns
  · rintro error ⟨s₁, txn₁⟩ ⟨hstill, hraises⟩
    obtain ⟨row, hmem, hhit, htaken⟩ := hraises.taken
    obtain rfl := honly row hmem hhit
    exact ⟨hstill, .taken (hphone hraises.holdsPhone) htaken⟩

/-! ### `apply_retryable_outcome` -/

/-- `datetime.now(tz=UTC) + compute_backoff(..)`. -/
theorem nextAttempt_dates (attemptEpoch : Nat) (base : ℚ) {txn : Option Txn} :
    Leads allowed
      (fun next state => state = (s, txn) ∧ ∃ choice, allowed choice ∧
        retryDate attemptEpoch base choice.jitter s.now = .ok next)
      (fun error state => state = (s, txn) ∧ ∃ choice, allowed choice ∧
        retryDate attemptEpoch base choice.jitter s.now = .error error)
      (nextAttempt attemptEpoch base) (s, txn) := by
  refine Leads.datetimeNow ?_
  have hdelta : Leads allowed
      (fun delta state => state = (s, txn) ∧ ∃ choice, allowed choice ∧
        backoffDelta attemptEpoch base choice.jitter = .ok delta)
      (fun error state => state = (s, txn) ∧ ∃ choice, allowed choice ∧
        backoffDelta attemptEpoch base choice.jitter = .error error)
      (computeBackoff attemptEpoch base) (s, txn) := by
    refine Leads.step (fun _ => rfl) fun choice jitter s₁ txn₁ hchoice hexec => ?_
    cases hexec
    cases hdelta : backoffDelta attemptEpoch base choice.jitter with
    | ok delta => exact ⟨rfl, choice, hchoice, hdelta⟩
    | error error => exact ⟨rfl, choice, hchoice, hdelta⟩
  refine Wp.andThen hdelta ?_ ?_
  · rintro error state ⟨rfl, choice, hchoice, hdelta⟩
    exact ⟨rfl, choice, hchoice, by rw [retryDate, hdelta]; rfl⟩
  · rintro delta state ⟨rfl, choice, hchoice, hdelta⟩
    show Leads _ _ _ (ofExcept (addTimedelta s.now delta)) _
    cases hnext : addTimedelta s.now delta with
    | ok next => exact ⟨rfl, choice, hchoice, by rw [retryDate, hdelta]; exact hnext⟩
    | error error => exact ⟨rfl, choice, hchoice, by rw [retryDate, hdelta]; exact hnext⟩

theorem applyRetryableOutcome_eq {args : RetryableOutcome} {base : ℚ}
    (hretryable : args.outcome = .noAnswer ∨ args.outcome = .busy) :
    applyRetryableOutcome args base = if args.retriesRemaining > 0 then do
        let next ← nextAttempt args.expectedEpoch base
        transition (args.retryTransition next)
      else transition args.exhaustedTransition := by
  rcases hretryable with he | he
  · rw [applyRetryableOutcome, he]
    rfl
  · rw [applyRetryableOutcome, he]
    rfl

/-! ### An event about the call -/

theorem applyEvent_wrote {event : ProviderEvent} (hids : (s.db.calls.map CallRow.id).Nodup) (hrow : call ∈ s.db.calls)
    (hfresh : t.Fresh) (htables : s.db.apply t = s.db) (hchanges : event.statusEnum ≠ call.status) :
    Leads allowed (fun _ state => ∃ t', state.2 = some t' ∧ Still s state.1 ∧ Wrote deps s event.statusEnum call t')
      (fun _ state => Still s state.1 ∧ Unable deps allowed s event.statusEnum call) (applyEvent deps event call)
      (s, some t) := by
  generalize htold : event.statusEnum = told at hchanges ⊢
  have hhits : ∀ update : CallUpdate, update.callId = call.id → update.expectedStatus = call.status →
      update.expectedEpoch = call.attemptEpoch → update.hits call = true := fun update hid hstatus hepoch =>
    CallUpdate.hits_iff.mpr ⟨hid.symm, hstatus.symm, hepoch.symm⟩
  have hterminal : ∀ args : Transition, args.expectedStatus = call.status → args.regresses = true →
      call.ending.react told = call.ending := by
    intro args hexpected hregresses
    rw [Transition.regresses, hexpected, Bool.and_eq_true] at hregresses
    exact CallEnd.react_same (Or.inr hregresses.1)
  have hlive : ∀ args : Transition, args.expectedStatus = call.status → args.regresses = false →
      (args.newStatus = call.status ∧ call.status.isTerminal = true) ∨ call.ending.react told = call.ending.take told := by
    intro args hexpected hregresses
    by_cases hover : call.status.isTerminal = true
    · refine Or.inl ⟨?_, hover⟩
      simpa [Transition.regresses, hexpected, hover] using hregresses
    · exact Or.inr (if_neg (not_or.mpr ⟨hchanges, hover⟩))
  by_cases hover : told.isTerminal = true
  · rw [applyEvent, htold, if_pos hover]
    refine Leads.step (fun _ => rfl) fun choice campaign s₁ txn₁ hchoice hexec => ?_
    obtain ⟨hreply, rfl, rfl⟩ := exec_select hexec
    have hbase : backoffBaseSeconds deps campaign = s₁.backoffBase deps call := by
      rw [hreply]
      show backoffBaseSeconds deps ((s₁.db.apply t).campaign? call.campaignId) = _
      rw [htables]
      rfl
    rw [hbase]
    by_cases hretry : told = .noAnswer ∨ told = .busy
    · have htake : call.ending.take told = if 0 < call.retriesRemaining then ⟨.retryPending, call.retriesRemaining - 1⟩
          else ⟨.failed, call.retriesRemaining⟩ := by rcases hretry with rfl | rfl <;> rfl
      rw [@applyRetryableOutcome_eq (webhookOutcome event call) (s₁.backoffBase deps call)
        (by rw [show (webhookOutcome event call).outcome = told from htold]; exact hretry)]
      show Leads _ _ _ (if call.retriesRemaining > 0 then _ else _) _
      split
      · next hbudget =>
          refine Wp.andThen (nextAttempt_dates call.attemptEpoch (s₁.backoffBase deps call)) ?_ ?_
          · rintro error state ⟨rfl, choice, hchoice, hdate⟩
            exact ⟨.refl s₁, .noDate hretry hbudget choice hchoice error hdate⟩
          · rintro next state ⟨rfl, choice, -, hdate⟩
            refine transition_wrote hids hrow hfresh (hhits _ rfl rfl rfl) rfl rfl (hterminal _ rfl) ?_ (by rintro ⟨⟩)
              fun _ _ _ => ⟨choice.jitter, next, hdate⟩
            intro hregresses
            rcases hlive _ rfl hregresses with ⟨hsame, hend⟩ | hmoves
            · rw [← hsame] at hend
              cases hend
            · rw [hmoves, CallEnd.take_of_retry hretry]
              exact (if_pos hbudget).symm
      · next hspent =>
          refine transition_wrote hids hrow hfresh (hhits _ rfl rfl rfl) rfl rfl (hterminal _ rfl) ?_ (by rintro ⟨⟩)
            fun _ _ hbudget => absurd hbudget hspent
          intro hregresses
          rcases hlive _ rfl hregresses with ⟨hsame, hend⟩ | hmoves
          · rw [CallEnd.react_same (Or.inr hend), CallRow.ending, CallRow.ending, ← hsame]
            rfl
          · rw [hmoves, CallEnd.take_of_retry hretry]
            exact (if_neg hspent).symm
    · have houtcome : applyRetryableOutcome (webhookOutcome event call) (s₁.backoffBase deps call) =
          transition (webhookOutcome event call).terminalTransition := by
        rw [applyRetryableOutcome, show (webhookOutcome event call).outcome = told from htold]
        cases told with
        | completed | failed => rfl
        | noAnswer => exact absurd (Or.inl rfl) hretry
        | busy => exact absurd (Or.inr rfl) hretry
        | _ => cases hover
      rw [houtcome]
      refine transition_wrote hids hrow hfresh (hhits _ rfl rfl rfl) rfl rfl (hterminal _ rfl) ?_ ?_
        fun h => absurd h hretry
      · intro hregresses
        rcases hlive _ rfl hregresses with ⟨hsame, -⟩ | hmoves
        · exact absurd (htold.symm.trans hsame) hchanges
        · rw [hmoves, CallEnd.take_of_not_retry hretry, ← htold]
          rfl
      · intro hholds
        rw [← htold]
        exact hholds
  · rw [applyEvent, htold, if_neg hover]
    refine transition_wrote hids hrow hfresh (hhits _ rfl rfl rfl) rfl rfl (hterminal _ rfl) ?_ ?_ ?_
    · intro hregresses
      have hretry : ¬ (told = .noAnswer ∨ told = .busy) := by
        rintro (rfl | rfl) <;> exact hover rfl
      rcases hlive _ rfl hregresses with ⟨hsame, -⟩ | hmoves
      · exact absurd (htold.symm.trans hsame) hchanges
      · rw [hmoves, CallEnd.take_of_not_retry hretry, ← htold]
        rfl
    · intro hholds
      rw [← htold]
      exact hholds
    · rintro (rfl | rfl) <;> exact absurd rfl hover

/-! ### A row about the call -/

theorem markProcessed_wrote (id : InboxId) (outcome : RowOutcome) (hstill : Still s s₁) (h : Wrote deps s told call t) :
    Leads allowed (fun _ state => ∃ t', state.2 = some t' ∧ Still s state.1 ∧ Wrote deps s told call t')
      (fun _ _ => False) (markProcessed id >>= fun _ => pure outcome) (s₁, some t) := by
  refine Leads.inside rfl fun choice reply s₂ txn₂ _ hstill₂ hexec => ?_
  obtain ⟨-, ⟨rfl, -⟩ | ⟨row, -, -, rfl⟩⟩ := exec_markProcessed hexec
  · exact ⟨t, rfl, hstill.trans hstill₂, h⟩
  · exact ⟨_, rfl, hstill.trans hstill₂, h.beside rfl rfl⟩

theorem processRow_wrote {row : InboxRow} {event : ProviderEvent} (hids : (s.db.calls.map CallRow.id).Nodup)
    (hown : s.db.withHandle handle = [call]) (hparse : parseEvent row.payload = .ok event)
    (hhandle : event.providerCallId = .str handle) :
    Leads allowed (fun _ state => ∃ t', state.2 = some t' ∧ Still s state.1 ∧ Wrote deps s event.statusEnum call t')
      (fun _ state => Still s state.1 ∧ Unable deps allowed s event.statusEnum call) (processRow deps row)
      (s, some { startedAt := s.now, locks := [.inbox row.id] }) := by
  have hmem : call ∈ s.db.withHandle handle := by rw [hown]; exact List.mem_singleton_self call
  have hrow : call ∈ s.db.calls := List.mem_of_mem_filter hmem
  rw [processRow, hparse]
  show Leads _ _ _ (getByProviderCallId event.providerCallId >>= _) _
  rw [hhandle]
  refine Leads.step (fun _ => rfl) fun choice reply s₁ txn₁ _ hexec => ?_
  obtain ⟨hreply, rfl, rfl⟩ := exec_select hexec
  replace hreply : reply = some call := by
    rw [hreply]
    show Query.eval (s₁.db.apply _) _ _ _ = _
    rw [Db.apply_locks, Query.eval, hown]
    exact oldest_cons _ (List.forall_mem_nil _)
  subst hreply
  show Leads _ _ _ (if event.statusEnum = call.status then _ else _) _
  split
  · next hsame =>
      refine (markProcessed_wrote row.id _ (.refl s₁) ?_).mono (fun _ _ h => h) fun _ _ h => h.elim
      exact ⟨Or.inl ⟨rfl, .same (CallEnd.react_same (Or.inl hsame))⟩, fun _ => rfl, fun _ hne => absurd hsame hne⟩
  · next hchanges =>
      refine Wp.bind (applyEvent_wrote hids hrow ⟨rfl, rfl, rfl⟩ (Db.apply_locks _ _ _) hchanges) ?_
      rintro result ⟨s₂, txn₂⟩ ⟨t₂, rfl, hstill, hwrote⟩
      have hignored : ∀ note : AuditEvent, Leads allowed
          (fun _ state => ∃ t', state.2 = some t' ∧ Still s₁ state.1 ∧ Wrote deps s₁ event.statusEnum call t')
          (fun _ _ => False) (do
            emitAudit note
            markProcessed row.id
            pure RowOutcome.stale) (s₂, some t₂) := fun note =>
        Leads.emitAudit fun s₃ t₃ hstill₃ hbeside hcampaigns =>
          markProcessed_wrote row.id _ (hstill.trans hstill₃) (hwrote.beside hbeside.calls hcampaigns)
      cases result with
      | terminalRegression => exact (hignored _).mono (fun _ _ h => h) fun _ _ h => h.elim
      | noOp => exact (hignored _).mono (fun _ _ h => h) fun _ _ h => h.elim
      | applied version =>
          exact (markProcessed_wrote row.id _ hstill hwrote).mono (fun _ _ h => h) fun _ _ h => h.elim

end

/-! ### One attempt -/

/-- The status an inbox row tells. -/
def InboxRow.told (row : InboxRow) : Option CallStatus :=
  (parseEvent row.payload).toOption.map ProviderEvent.statusEnum

/-- All rows that wait are about the call, which alone has the handle. -/
structure Listening (s : Shared) (handle : Handle) (call : CallRow) : Prop where
  callIds : (s.db.calls.map CallRow.id).Nodup
  inboxIds : (s.db.inbox.map InboxRow.id).Nodup
  own : s.db.withHandle handle = [call]
  waiting : ∀ row ∈ s.db.inbox, row.processedAt = none →
    ∃ event, parseEvent row.payload = .ok event ∧ event.providerCallId = .str handle

/-- A row about the call has been consumed. -/
structure Reaction (deps : Deps) (s s' : Shared) (row : InboxRow) (told : CallStatus) (call version : CallRow) : Prop where
  next : s.Next row
  tells : row.told = some told
  reacts : Reacts told call version
  now : s'.now = s.now
  calls : s'.db.calls = overlay CallRow.id [version] s.db.calls
  inbox : s'.db.inbox = overlay InboxRow.id [{ row with processedAt := some s.now }] s.db.inbox
  campaigns : version.status.isTerminal = false → s'.db.campaigns = s.db.campaigns
  dated : (told = .noAnswer ∨ told = .busy) → told ≠ call.status → 0 < call.retriesRemaining →
    ∃ jitter next, retryDate call.attemptEpoch (s.backoffBase deps call) jitter s.now = .ok next

/-- How an attempt ends where all rows are about the call. -/
inductive Reacted (deps : Deps) (allowed : Choice → Prop) (s : Shared) (call : CallRow) : RowOutcome → Shared → Prop
  | empty (s' : Shared) (hnone : ∀ row ∈ s.db.inbox, row.processedAt ≠ none) : Reacted deps allowed s call .empty s'
  | raised (s' : Shared) (row : InboxRow) (told : CallStatus) (hnext : s.Next row) (htold : row.told = some told)
      (hunable : Unable deps allowed s told call) : Reacted deps allowed s call .error s'
  | reacted (outcome : RowOutcome) (s' : Shared) (row : InboxRow) (told : CallStatus) (version : CallRow)
      (houtcome : outcome = .applied ∨ outcome = .stale) (hreaction : Reaction deps s s' row told call version) :
      Reacted deps allowed s call outcome s'

section

variable {allowed : Choice → Prop} {deps : Deps} {s s' : Shared} {handle : Handle} {call : CallRow}
  {outcome : RowOutcome}

theorem Listening.mem (h : Listening s handle call) : call ∈ s.db.calls ∧ call.providerCallId = some handle := by
  have hmem : call ∈ s.db.withHandle handle := by rw [h.own]; exact List.mem_singleton_self call
  exact ⟨List.mem_of_mem_filter hmem, of_decide_eq_true (List.mem_filter.mp hmem).2⟩

theorem InboxRow.told_of_parse {row : InboxRow} {event : ProviderEvent} (h : parseEvent row.payload = .ok event) :
    row.told = some event.statusEnum := by rw [InboxRow.told, h]; rfl

/-- A version of a row that is the row itself changes nothing. -/
theorem overlay_self {rows : List CallRow} (hids : (rows.map CallRow.id).Nodup) (hmem : call ∈ rows) :
    overlay CallRow.id [call] rows = rows := by
  refine (List.map_congr_left fun row hrow => ?_).trans (List.map_id' rows)
  rw [lookup_singleton]
  split
  · next hid => rw [eq_of_key_eq hids hmem hrow hid]; rfl
  · rfl

theorem processOneRow_reacts (h : Listening s handle call) :
    Leads allowed (fun outcome state => state.2 = none ∧ Reacted deps allowed s call outcome state.1)
      (fun _ _ => False) (processOneRow deps) (s, none) := by
  refine (processOneRow_leads
    (fun row outcome t => (outcome = .applied ∨ outcome = .stale) ∧
      t.inbox = [{ row with processedAt := some s.now }] ∧
      ∃ told, row.told = some told ∧ Wrote deps s told call t)
    (fun row => ∃ told, row.told = some told ∧ Unable deps allowed s told call) ?_).mono ?_ fun _ _ h => h
  · intro row hnext
    obtain ⟨event, hparse, hhandle⟩ := h.waiting row hnext.mem.1 hnext.mem.2
    refine (Wp.and (processRow_marks h.inboxIds hnext.mem.1 (.refl s) rfl rfl)
      (processRow_wrote h.callIds h.own hparse hhandle)).mono ?_ ?_
    · rintro outcome ⟨s₁, txn₁⟩ ⟨⟨houtcome, t, rfl, hstill, hstarted, hinbox⟩, t', ht', -, hwrote⟩
      obtain rfl := Option.some.inj ht'
      rw [hstarted] at hinbox
      exact ⟨t, rfl, hstill, houtcome, hinbox, _, InboxRow.told_of_parse hparse, hwrote⟩
    · rintro error state ⟨hstill, -, hunable⟩
      exact ⟨hstill, _, InboxRow.told_of_parse hparse, hunable⟩
  · rintro outcome ⟨s', txn⟩ ⟨rfl, hturned⟩
    refine ⟨rfl, ?_⟩
    cases hturned with
    | empty _ hstill hnone => exact .empty _ hnone
    | raised _ hstill row hnext hbad =>
        obtain ⟨told, htold, hunable⟩ := hbad
        exact .raised _ row told hnext htold hunable
    | committed _ s₁ t hstill row hnext hmid =>
        obtain ⟨houtcome, hinbox, told, htold, hwrote⟩ := hmid
        have hcalls : ∃ version, Reacts told call version ∧
            (s₁.commit t).db.calls = overlay CallRow.id [version] s.db.calls := by
          rcases hwrote.calls with ⟨hnone, hreacts⟩ | ⟨version, hone, hreacts⟩
          · refine ⟨call, hreacts, ?_⟩
            show overlay CallRow.id t.calls s₁.db.calls = _
            rw [hnone, overlay_nil, overlay_self h.callIds h.mem.1, hstill.db]
          · refine ⟨version, hreacts, ?_⟩
            show overlay CallRow.id t.calls s₁.db.calls = _
            rw [hone, hstill.db]
        obtain ⟨version, hreacts, hcalls⟩ := hcalls
        refine .reacted _ _ row told version houtcome ⟨hnext, htold, hreacts, hstill.now, hcalls, ?_, ?_, hwrote.dated⟩
        · show overlay InboxRow.id t.inbox s₁.db.inbox = _
          rw [hinbox, hstill.db]
        · intro hlive
          have hend : (call.ending.react told).status = version.status := by rw [← hreacts.ending]; rfl
          show overlay CampaignRow.id t.campaigns s₁.db.campaigns = _
          rw [hwrote.campaigns (hend ▸ hlive), overlay_nil, hstill.db]

/-- What has been consumed, the call has reacted to. -/
theorem Consumes.reaction (h : Consumes deps s s') (hlisten : Listening s handle call) :
    ∃ row told version, Reaction deps s s' row told call version := by
  obtain ⟨outcome, houtcome, hattempts⟩ := h
  have hreacted := ((Wp.of_ends (processOneRow_reacts hlisten) hattempts).1 outcome rfl).2
  cases hreacted with
  | empty | raised => rcases houtcome with h | h <;> cases h
  | reacted _ _ row told version _ hreaction => exact ⟨row, told, version, hreaction⟩

/-- A row can be consumed unless its event raises. -/
theorem exists_consumes (hlisten : Listening s handle call) {row : InboxRow} (hnext : s.Next row) (choice : Choice)
    (hable : ∀ row told, s.Next row → row.told = some told → ¬ Unable deps (· = choice) s told call) :
    ∃ s', Consumes deps s s' := by
  have hleads := @processOneRow_reacts (· = choice) deps s handle call hlisten
  obtain ⟨result, ⟨s', txn⟩, hends⟩ := hleads.exists_ends ⟨choice, rfl⟩
  obtain ⟨hok, herror⟩ := Wp.of_ends hleads hends
  cases result with
  | error error => exact (herror error rfl).elim
  | ok outcome =>
      obtain ⟨rfl, hreacted⟩ := hok outcome rfl
      cases hreacted with
      | empty _ hnone => exact absurd hnext.mem.2 (hnone row hnext.mem.1)
      | raised _ row told hnext htold hunable => exact absurd hunable (hable row told hnext htold)
      | reacted _ _ row told version houtcome _ =>
          refine ⟨s', outcome, houtcome, hends.mono ?_⟩
          rintro stmt state reply state' ⟨choice, -, hexec⟩
          exact ⟨choice, trivial, hexec⟩

end

end VoiceCampaign

import VoiceCampaign.Properties.Answers
import VoiceCampaign.Protocol.Heard

/-!
# Outcomes

With the mock provider, a call ends as the dial of the attempt it is at ended, unless that went unanswered with no
retry left.
-/

namespace VoiceCampaign

open Concurrency

theorem CallStatus.value_inj {a b : CallStatus} (h : a.value = b.value) : a = b := by
  have hback := congrArg CallStatus.ofValue h
  rwa [ofValue_value, ofValue_value, Option.some.injEq] at hback

/-! ### What ends a call -/

section

variable {s : Shared} {task : Option Task} {inbox : Option InboxRow} {now : Time} {before after : CallRow}
  {note : AuditEvent} {heard : Heard}

/-- The move of a call to a terminal status, where no dial has failed. -/
structure SaidToEnd (s : Shared) (heard : Heard) (inbox : Option InboxRow) (before after : CallRow) (handle : Handle)
    (outcome : CallStatus) : Prop where
  key : after.key = before.key
  sameHandle : after.providerCallId = before.providerCallId
  dialed : before.providerCallId ≠ none
  returned : Returned s.issued before.key handle
  said : (handle, outcome) ∈ heard.reported ∨ ∃ row, inbox = some row ∧ statusFor handle row.payload = some outcome
  status : after.status = outcome ∨
    ((outcome = .noAnswer ∨ outcome = .busy) ∧ after.status = .failed ∧ after.retriesRemaining = 0)

theorem statusFor_of_parse {payload : Payload} {event : ProviderEvent} {handle : Handle}
    (hparse : parseEvent payload = .ok event) (hevent : event.providerCallId = .str handle) :
    statusFor handle payload = some event.statusEnum := by
  obtain ⟨id, _, status⟩ := event
  obtain rfl : _ = Json.str handle := hevent
  rw [statusFor, hparse]
  exact if_pos rfl

/-- What a task says of the end of a call it has heard of the call the attempt was dialed as. -/
theorem Cause.saidToEnd (h : Cause s task inbox now before after note) (hrow : s.db.call? before.id = some before)
    (hbears : heard.Bears note) (hplaced : ∀ outcome ∈ heard.placed, ∃ handle, outcome = .handle handle)
    (hunspent : ∀ row, inbox = some row → row.asksRetry = true → before.attemptEpoch ∉ s.db.retryEpochs before.id)
    (hended : after.status.isTerminal = true) : ∃ handle outcome, SaidToEnd s heard inbox before after handle outcome := by
  have hfailed : note.dialFailed = true → False := fun hfailed => by
    obtain ⟨outcome, hmem, hnot⟩ := hbears.dialFailed hfailed
    obtain ⟨handle, he⟩ := hplaced outcome hmem
    exact hnot handle he
  cases h with
  | claim campaign inFlight pending cursor htask hnone hclaimable => cases hended
  | cas args hasks hhits hregresses =>
      obtain ⟨hid, -, hepoch⟩ := CallUpdate.hits_iff.mp hhits
      cases hasks with
      | retryDue snap hsnap => cases hended
      | dispatch claimed handle hsnap hissued => cases hended
      | rejected claimed reasonCode hsnap =>
          exact (hfailed (by simp [AuditEvent.dialFailed, Transition.auditEvent, rejectedTransition, toString])).elim
      | unavailable claimed nextAttempt hsnap hbudget => cases hended
      | unavailableExhausted claimed hsnap hbudget =>
          exact (hfailed (by
            simp [AuditEvent.dialFailed, Transition.auditEvent, unavailableExhaustedTransition])).elim
      | reclaim row hsnap => cases hended
      | reclaimTerminal row reported hsnap hreported =>
          obtain ⟨⟨handle, outcome⟩, hmem, hstate, hextra⟩ := hbears.confirmed rfl
          obtain rfl : reported = outcome := CallStatus.value_inj (Option.some.inj hstate)
          have hhandle : row.providerCallId = some handle := by
            replace hextra : [("provider_call_id", row.providerCallId.elim Json.null Json.str)] =
              [("provider_call_id", Json.str handle)] := hextra
            cases hcall : row.providerCallId with
            | none => simp [hcall] at hextra
            | some other =>
                rw [hcall] at hextra
                simpa using hextra
          have hkey : row.key = before.key := by
            rw [CallRow.key, CallRow.key, hid, hepoch]
            rfl
          refine ⟨handle, reported, rfl, rfl, ?_, hkey ▸ hsnap.sound.handle handle hhandle, Or.inl hmem, Or.inl rfl⟩
          exact hsnap.providerCallId hrow hkey (by rw [hhandle]; exact Option.some_ne_none _)
      | webhook row event snap handle args hsnap hparse hevent hhandle hnew hargs =>
          have hkey : snap.key = before.key := by
            rw [CallRow.key, CallRow.key, hid, hepoch]
            cases hargs <;> rfl
          have hdialed := hsnap.providerCallId hrow hkey (by rw [hhandle]; exact Option.some_ne_none _)
          have hreturned : Returned s.issued before.key handle := hkey ▸ hsnap.sound.handle handle hhandle
          have hsaid : (handle, event.statusEnum) ∈ heard.reported ∨ ∃ told, some row = some told ∧
              statusFor handle told.payload = some event.statusEnum :=
            Or.inr ⟨row, rfl, statusFor_of_parse hparse hevent⟩
          cases hargs with
          | writeThrough hlive => exact absurd (hlive.symm.trans hended) Bool.false_ne_true
          | asIs hterminal => exact ⟨handle, _, rfl, rfl, hdialed, hreturned, hsaid, Or.inl rfl⟩
          | retry nextAttempt hretry hbudget => cases hended
          | exhausted hretry hbudget =>
              have hasks : row.asksRetry = true := by
                rw [InboxRow.asksRetry, hparse]
                simpa using hretry
              have hsame := hsnap.retriesRemaining hrow hkey (hunspent row rfl hasks)
              exact ⟨handle, _, rfl, rfl, hdialed, hreturned, hsaid, Or.inr ⟨hretry, rfl, hsame ▸ hbudget⟩⟩

end

/-- Why a row of the next state is terminal. -/
inductive Ended (s : Sys) (modes : Nat → Heard) (row : CallRow) : Prop
  | stays (old : CallRow) (hold : old ∈ s.shared.db.calls) (hterminal : old.status.isTerminal = true)
      (hsame : row = { old with updatedAt := row.updatedAt })
  | ends (index : Nat) (before : CallRow) (inbox : Option InboxRow) (handle : Handle) (outcome : CallStatus)
      (hbefore : before ∈ s.shared.db.calls) (hinbox : ∀ told ∈ inbox, told ∈ s.shared.db.inbox)
      (h : SaidToEnd s.shared (modes index) inbox before row handle outcome)

section

variable {deps : Deps} {s s' : Sys} {action : Action} {modes : Nat → Heard} {row : CallRow}

theorem Ended.of_mem (hrow : row ∈ s.shared.db.calls) (hterminal : row.status.isTerminal = true) : Ended s modes row :=
  .stays row hrow hterminal rfl

theorem Moves.ended {t : Txn} {inbox : Option InboxRow} {before after : CallRow} {note : AuditEvent} {task : Task}
    {index : Nat} (hs : Reachable deps s) (hmoves : Moves s.shared (some task) t inbox before after note)
    (hmarks : Marks s.shared (some task) t inbox) (hbears : (modes index).Bears note)
    (hplaced : ∀ outcome ∈ (modes index).placed, ∃ handle, outcome = .handle handle)
    (hsix : s.shared.db.SixStatuses) (honce : s.shared.db.UnansweredOnce) (hterminal : after.status.isTerminal = true) :
    Ended s modes after := by
  have hbefore : s.shared.db.call? before.id = some before := hmoves.before_id ▸ hmoves.row
  cases hlive : before.status.isTerminal with
  | true => exact .stays before hmoves.before_mem hlive (hmoves.evolves.terminal hlive)
  | false =>
      have hinbox : ∀ told ∈ inbox, told ∈ s.shared.db.inbox ∧ task = .drain := by
        rintro told rfl
        cases hmarks with
        | marked _ htask hfound hunprocessed hlock hwrites => exact ⟨(lookup_some hfound).1, Option.some.inj htask⟩
      obtain ⟨handle, outcome, hends⟩ := hmoves.cause.saidToEnd hbefore hbears hplaced (fun told htold hasks => by
        subst htold
        obtain rfl := (hinbox told rfl).2
        exact hs.unspent hsix honce hmoves hmarks hasks) hterminal
      exact .ends index before inbox handle outcome hmoves.before_mem (fun told htold => (hinbox told htold).1) hends

/-- Each call that is over has been over or ends at this step. -/
theorem Reachable.ended (hs : Reachable deps s) (hheard : HeardBy s modes)
    (hplaced : ∀ index, ∀ outcome ∈ (modes index).placed, ∃ handle, outcome = .handle handle)
    (hsix : s.shared.db.SixStatuses) (honce : s.shared.db.UnansweredOnce) (hstep : s.step deps action = some s')
    (hrow : row ∈ s'.shared.db.calls) (hterminal : row.status.isTerminal = true) : Ended s modes row := by
  rcases Sys.step_cases hstep with ⟨shared, hworld, rfl⟩ |
    ⟨index, choice, task, stmt, next, txn, reply, shared, txn', rfl, hprocess, hexec, rfl⟩ |
    ⟨index, process, rfl, hprocess, rfl⟩
  · replace hrow : row ∈ shared.db.calls := hrow
    cases hworld with
    | posted body createdAt campaignId callIds db hposted =>
        rcases hposted.mem_calls.mp hrow with hold | hnew
        · exact .of_mem hold hterminal
        · rw [(hposted.queued row hnew).2.1] at hterminal
          cases hterminal
    | ingested payload receivedAt inboxId db hingested =>
        rw [hingested.rest] at hrow
        exact .of_mem hrow hterminal
    | _ => exact .of_mem hrow hterminal
  · replace hrow : row ∈ shared.db.calls := hrow
    have hwrote := hheard.wrote index _ hprocess
    have hguar := (hs.run hprocess hexec).2.2
    cases hguar with
    | quiet hdb hnow hissued =>
        rw [hdb] at hrow
        exact .of_mem hrow hterminal
    | commit t htxn hready =>
        cases hready with
        | quiet inbox hcalls hcampaigns hmarks hnotes =>
            rw [Shared.calls_commit_nil hcalls] at hrow
            exact .of_mem hrow hterminal
        | moves inbox before after note folds hmoves hfolds hmarks haudit =>
            rcases hmoves.mem_commit.mp hrow with rfl | ⟨hold, -⟩
            · obtain ⟨entry, hentry, rfl⟩ := List.mem_map.mp (haudit ▸ List.mem_cons_self (a := note))
              exact hmoves.ended hs hmarks (hwrote t htxn entry hentry) (hplaced index) hsix honce hterminal
            · exact .of_mem hold hterminal
  · exact .of_mem hrow hterminal

end

/-! ### What the provider has said -/

section

variable {deps : Deps} {mock : MockSettings} {d d' : Deployment} {action : DeploymentAction} {modes : Nat → Heard}
  {callId handle : Handle} {outcome status : CallStatus} {row : CallRow}

/-- At some time up to now the call stood at `status` with the provider. -/
def Deployment.Stood (deps : Deps) (mock : MockSettings) (d : Deployment) (callId : Handle) (status : CallStatus) : Prop :=
  ∃ d₀ state, Deployed deps mock d₀ ∧ d₀.Leads deps mock d ∧ d₀.provider.state? callId = some state ∧
    state.status = status

theorem Deployment.Stood.step (h : d.Stood deps mock callId status) (hstep : d.step deps mock action = some d') :
    d'.Stood deps mock callId status := by
  obtain ⟨d₀, state, hd₀, hleads, hstate, hstatus⟩ := h
  exact ⟨d₀, state, hd₀, .step action hleads hstep, hstate, hstatus⟩

/-- The row ends as the dial of its attempt, or in `FAILED` because that went unanswered with no retry left. -/
structure Deployment.EndsAs (deps : Deps) (mock : MockSettings) (d : Deployment) (row : CallRow) (handle : Handle)
    (outcome : CallStatus) : Prop where
  providerCallId : row.providerCallId = some handle
  returned : Returned d.sys.shared.issued row.key handle
  stood : d.Stood deps mock handle outcome
  status : row.status = outcome ∨ (outcome = .noAnswer ∧ row.status = .failed ∧ row.retriesRemaining = 0)

/-- What processes and inbox say of a call was so, and each call that has ended ended so. -/
structure Deployment.Candid (deps : Deps) (mock : MockSettings) (d : Deployment) (modes : Nat → Heard) : Prop where
  heard : HeardBy d.sys modes
  placed : ∀ index, ∀ outcome ∈ (modes index).placed, ∃ handle, outcome = .handle handle
  reported : ∀ index, ∀ report ∈ (modes index).reported, d.Stood deps mock report.1 report.2
  arrived : ∀ arrival ∈ d.sys.shared.db.arrivals, ∀ callId status, statusFor callId arrival.2 = some status →
    d.Stood deps mock callId status
  ended : ∀ row ∈ d.sys.shared.db.calls, row.status.isTerminal = true → ∃ handle outcome,
    d.EndsAs deps mock row handle outcome

/-- A simulated call is on one of the courses. -/
theorem OnCourse.mem {told : List CallStatus} (h : OnCourse told status) :
    ∃ outcome ∈ simulatedOutcomes, status ∈ trajectory outcome := by
  obtain ⟨outcome, houtcome, hstart, hmore | hlast⟩ := h
  · exact ⟨outcome, houtcome, hmore.subset (List.mem_append_right _ (List.mem_singleton_self _))⟩
  · exact ⟨outcome, houtcome, hstart.subset (List.mem_of_getLast? hlast)⟩

theorem Deployment.Stood.not_busy (h : d.Stood deps mock callId status) : status ≠ .busy := by
  obtain ⟨d₀, state, hd₀, -, hstate, rfl⟩ := h
  obtain ⟨outcome, houtcome, hmem⟩ := ((DeployedBy.serves hd₀).attuned.course state (lookup_some hstate).1).mem
  have hcases : ∀ outcome ∈ simulatedOutcomes, ∀ status ∈ trajectory outcome, status ≠ .busy := by decide
  exact hcases outcome houtcome state.status hmem

/-- What a process hears of a call is how it stands. -/
theorem Deployment.Candid.hears (h : d.Candid deps mock modes) (hd : Deployed deps mock d)
    (hstep : d.step deps mock action = some d') {after : Nat → Heard} {choice : Action}
    (hhears : ∀ index, Hears d.sys choice index (modes index) (after index))
    (hplace : ∀ index choice' task key phone next txn, choice = .run index choice' →
      d.sys.procs[index]? = some ⟨task, .call (.placeCall key phone) next, txn⟩ →
      ∃ handle, choice'.place = .handle handle)
    (hstatus : ∀ index choice' task handle next txn, choice = .run index choice' →
      d.sys.procs[index]? = some ⟨task, .call (.getStatus handle) next, txn⟩ →
      choice'.status = d.provider.getStatus handle) :
    (∀ index, ∀ outcome ∈ (after index).placed, ∃ handle, outcome = .handle handle) ∧
      ∀ index, ∀ report ∈ (after index).reported, d'.Stood deps mock report.1 report.2 := by
  refine ⟨fun index outcome hmem => ?_, fun index report hmem => ?_⟩
  · rcases (hhears index).placed outcome hmem with hold | ⟨choice', task, key, phone, next, txn, hrun, hprocess, rfl⟩
    · exact h.placed index outcome hold
    · exact hplace index choice' task key phone next txn hrun hprocess
  · rcases (hhears index).reported report hmem with hold | ⟨choice', task, next, txn, hrun, hprocess, hreply⟩
    · exact (h.reported index report hold).step hstep
    · rw [hstatus index choice' task report.1 next txn hrun hprocess, MockProvider.getStatus] at hreply
      split at hreply
      · next state hstate =>
          have hstood : d.Stood deps mock report.1 report.2 :=
            ⟨d, state, hd, .refl, hstate, StatusOutcome.reported.inj hreply⟩
          exact hstood.step hstep
      · cases hreply

/-- A call that has ended stays as it ended. -/
theorem Deployment.EndsAs.step (h : d.EndsAs deps mock row handle outcome) (hstep : d.step deps mock action = some d')
    (hissued : ∀ dial ∈ d.sys.shared.issued, dial ∈ d'.sys.shared.issued) {after : CallRow}
    (hsame : after = { row with updatedAt := after.updatedAt }) : d'.EndsAs deps mock after handle outcome := by
  rw [hsame]
  exact ⟨h.providerCallId, hissued _ h.returned, h.stood.step hstep, h.status⟩

theorem Deployment.Candid.ends (h : d.Candid deps mock modes) (hs : Reachable deps d.sys)
    (hstep : d.step deps mock action = some d') (hissued : ∀ dial ∈ d.sys.shared.issued, dial ∈ d'.sys.shared.issued)
    (hended : Ended d.sys modes row) : ∃ handle outcome, d'.EndsAs deps mock row handle outcome := by
  cases hended with
  | stays old hold hterminal hsame =>
      obtain ⟨handle, outcome, hends⟩ := h.ended old hold hterminal
      exact ⟨handle, outcome, hends.step hstep hissued hsame⟩
  | ends index before inbox handle outcome hbefore hinbox hends =>
      have hstood : d.Stood deps mock handle outcome := by
        rcases hends.said with hreport | ⟨told, htold, hstatus⟩
        · exact h.reported index _ hreport
        · exact h.arrived _ (List.mem_map_of_mem (hinbox told htold)) handle outcome hstatus
      obtain ⟨other, hother⟩ := Option.ne_none_iff_exists'.mp hends.dialed
      have hdial := (hs.consistent.sound before hbefore).handle other hother
      obtain rfl : other = handle := congrArg Dial.handle (eq_of_key_eq hs.dialedOnce hdial hends.returned rfl)
      refine ⟨other, outcome, hends.sameHandle.trans hother, hends.key ▸ hissued _ hends.returned, hstood.step hstep, ?_⟩
      refine hends.status.imp_right fun ⟨hasked, hfailed⟩ => ⟨?_, hfailed⟩
      exact hasked.resolve_right hstood.not_busy

theorem Deployment.Candid.init (now : Time) :
    Deployment.Candid deps mock { sys := { shared := { now } } } fun _ => {} where
  heard := .init now
  placed _ := List.forall_mem_nil _
  reported _ := List.forall_mem_nil _
  arrived := List.forall_mem_nil _
  ended := List.forall_mem_nil _

/-- The service takes a step. -/
theorem Deployment.Candid.serves (h : d.Candid deps mock modes) (hd : Deployed deps mock d)
    (hstep : d.step deps mock action = some d') {served : Action} (hserved : d.sys.step deps served = some d'.sys)
    (harrivals : ∀ arrival ∈ d'.sys.shared.db.arrivals, arrival ∈ d.sys.shared.db.arrivals ∨
      ∀ callId status, statusFor callId arrival.2 = some status → d.Stood deps mock callId status)
    (hplace : ∀ index choice task key phone next txn, served = .run index choice →
      d.sys.procs[index]? = some ⟨task, .call (.placeCall key phone) next, txn⟩ → ∃ handle, choice.place = .handle handle)
    (hstatus : ∀ index choice task handle next txn, served = .run index choice →
      d.sys.procs[index]? = some ⟨task, .call (.getStatus handle) next, txn⟩ →
      choice.status = d.provider.getStatus handle) : ∃ modes', d'.Candid deps mock modes' := by
  obtain ⟨hs, hattuned⟩ := DeployedBy.serves hd
  obtain ⟨modes', hheard, hhears⟩ := h.heard.step hserved
  obtain ⟨hplaced, hreported⟩ := h.hears hd hstep hhears hplace hstatus
  refine ⟨modes', hheard, hplaced, hreported, fun arrival harrival callId status hsays => ?_, fun row hrow hterminal => ?_⟩
  · rcases harrivals arrival harrival with hold | hnew
    · exact (h.arrived arrival hold callId status hsays).step hstep
    · exact (hnew callId status hsays).step hstep
  · exact h.ends hs hstep (hs.grows hserved).issued
      (hs.ended h.heard h.placed hattuned.sixStatuses hattuned.unansweredOnce hserved hrow hterminal)

/-- The service stands still. -/
theorem Deployment.Candid.still (h : d.Candid deps mock modes) (hs : Reachable deps d.sys)
    (hstep : d.step deps mock action = some d') (hsys : d'.sys.shared = d.sys.shared) {modes' : Nat → Heard}
    (hheard : HeardBy d'.sys modes') (hless : ∀ index, (modes' index).Before (modes index)) :
    d'.Candid deps mock modes' where
  heard := hheard
  placed index outcome hmem := h.placed index outcome ((hless index).placed hmem)
  reported index report hmem := (h.reported index report ((hless index).reported hmem)).step hstep
  arrived arrival harrival callId status hsays := (h.arrived arrival (hsys ▸ harrival) callId status hsays).step hstep
  ended _ hrow hterminal :=
    h.ends hs hstep (fun _ hdial => hsys.symm ▸ hdial) (.of_mem (hsys ▸ hrow) hterminal)

theorem Deployment.Candid.step (h : d.Candid deps mock modes) (hd : Deployed deps mock d)
    (hstep : d.step deps mock action = some d') : ∃ modes', d'.Candid deps mock modes' := by
  obtain ⟨hs, hattuned⟩ := DeployedBy.serves hd
  cases Deployment.step_cases hstep with
  | served served sys haside hserved =>
      have hrun : ∀ index choice, served ≠ .run index choice := by
        rintro index choice rfl
        cases haside
      have harrivals := hs.arrivals_step hserved fun payload receivedAt inboxId he => by
        rw [he] at haside
        cases haside
      refine h.serves hd hstep hserved (fun arrival harrival => Or.inl (harrivals ▸ harrival)) ?_ ?_
      · exact fun index choice _ _ _ _ _ he => absurd he (hrun index choice)
      · exact fun index choice _ _ _ _ he => absurd he (hrun index choice)
  | placed index pick jitter token choice task key phone next txn sys hprocess hfresh hchoice hserved =>
      have harrivals := hs.arrivals_step hserved fun payload receivedAt inboxId he => by cases he
      refine h.serves hd hstep hserved (fun arrival harrival => Or.inl (harrivals ▸ harrival)) ?_ ?_
      · rintro other choice' task' key' phone' next' txn' ⟨⟩ hother
        exact ⟨_, hchoice⟩
      · rintro other choice' task' handle next' txn' ⟨⟩ hother
        cases hprocess.symm.trans hother
  | ran index pick jitter token choice task stmt next txn sys hprocess hplace hstatus hserved =>
      have harrivals := hs.arrivals_step hserved fun payload receivedAt inboxId he => by cases he
      refine h.serves hd hstep hserved (fun arrival harrival => Or.inl (harrivals ▸ harrival)) ?_ ?_
      · rintro other choice' task' key phone next' txn' ⟨⟩ hother
        cases hprocess.symm.trans hother
        exact absurd rfl (hplace key phone)
      · rintro other choice' task' handle next' txn' ⟨⟩ hother
        cases hprocess.symm.trans hother
        exact hstatus handle rfl
  | simulated index choice callId op next reply sys provider htask hexec =>
      obtain ⟨heffect, -, hserved⟩ := execSim_effect hs.providers hexec
      have harrivals : ∀ arrival ∈ sys.shared.db.arrivals, arrival ∈ d.sys.shared.db.arrivals ∨
          ∀ callId status, statusFor callId arrival.2 = some status → d.Stood deps mock callId status := by
        generalize sys.shared.db.arrivals = arrivals at heffect
        cases heffect with
        | delivered payload =>
            obtain ⟨state, seq, hpush, -⟩ := hattuned.pushes htask
            intro arrival harrival
            rw [hpush.newArrivals, List.mem_append, List.mem_singleton] at harrival
            refine harrival.imp_right fun hnew callId status hsays => ?_
            rw [hnew, hpush.payload, statusFor_eventPayload] at hsays
            split at hsays
            · next he =>
                rw [← he, ← hpush.handle, ← Option.some.inj hsays]
                exact ⟨d, state, hd, .refl, lookup_of_mem hattuned.handles hpush.known, rfl⟩
            · cases hsays
        | _ => exact fun _ => Or.inl
      rcases hserved with rfl | ⟨payload, receivedAt, inboxId, hserved⟩
      · exact ⟨modes, h.still hs hstep rfl h.heard fun _ => .refl _⟩
      · exact h.serves hd hstep hserved harrivals (by rintro _ _ _ _ _ _ _ ⟨⟩) (by rintro _ _ _ _ _ _ ⟨⟩)
  | restarted =>
      refine ⟨fun _ => {}, h.still hs hstep rfl ⟨⟨?_, fun _ _ => rfl⟩, ?_⟩ fun _ => .empty _⟩
      · intro index process hprocess
        obtain ⟨old, -, rfl⟩ := Option.map_eq_some_iff.mp ((List.getElem?_map ..).symm.trans hprocess)
        trivial
      · intro index process hprocess t ht
        obtain ⟨old, -, rfl⟩ := Option.map_eq_some_iff.mp ((List.getElem?_map ..).symm.trans hprocess)
        cases ht

end

end VoiceCampaign

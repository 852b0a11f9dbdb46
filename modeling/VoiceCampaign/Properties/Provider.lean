import VoiceCampaign.Properties.Attempts
import VoiceCampaign.Protocol.Deployed

/-!
# The service and the mock provider

Each dial is simulated once, what arrives of it is its course in order, and all that is ever said of its outcome
agrees.
-/

namespace VoiceCampaign

open Concurrency

section

variable {deps : Deps} {mock : MockSettings} {d d' : Deployment} {action : DeploymentAction} {callId : Handle}
  {outcome : CallStatus}

/-! ### Dials -/

/-- What holds of the dials of a run, and of the next one. -/
structure DialsSimulatedOnce (deps : Deps) (mock : MockSettings) (d : Deployment) : Prop where
  keys : (d.sys.shared.issued.map Dial.key).Nodup
  handles : (d.sys.shared.issued.map Dial.handle).Nodup
  /-- No row carries the handle of another attempt. -/
  current : ∀ row ∈ d.sys.shared.db.calls, ∀ handle, row.providerCallId = some handle →
    Current d.sys.shared.issued row handle
  /-- No key comes back to the provider. -/
  simulated : ∀ index pick jitter token d' task key phone next txn,
    d.sys.procs[index]? = some ⟨task, .call (.placeCall key phone) next, txn⟩ →
    d.step deps mock (.run index pick jitter token) = some d' →
    d.provider.known? key = none ∧ d'.provider.tasks.length = d.provider.tasks.length + 1

theorem Attuned.distinctHandles {provider : MockProvider} {issued : List Dial} {arrivals : List (String × Payload)}
    (h : Attuned provider issued arrivals) : DistinctHandles issued := fun _ ha _ hb hhandle =>
  congrArg Dial.key (eq_of_key_eq h.issuedOnce ha hb hhandle)

/-- What has arrived of the calls, and what the next push adds. -/
structure EventsOnCourse (deps : Deps) (mock : MockSettings) (d : Deployment) : Prop where
  course : ∀ dial ∈ d.sys.shared.issued, ∃ outcome ∈ simulatedOutcomes,
    told d.sys.shared.db.arrivals dial.handle <+: trajectory outcome
  known : ∀ row ∈ d.sys.shared.db.inbox, ∃ dial ∈ d.sys.shared.issued, ∃ status,
    statusFor dial.handle row.payload = some status
  /-- No event is taken for one that has arrived. -/
  recorded : ∀ index callId choice payload next d', choice.fault = none →
    d.provider.tasks[index]? = some ⟨callId, .call (.sink payload) next⟩ →
    d.step deps mock (.simulate index choice) = some d' →
    ∃ eventId, d'.sys.shared.db.inbox = d.sys.shared.db.inbox ++
      [⟨choice.inboxId, "mock", eventId, payload, choice.receivedAt, none⟩]

/-- `d'` lies ahead of `d` on a run. -/
inductive Deployment.Leads (deps : Deps) (mock : MockSettings) (d : Deployment) : Deployment → Prop
  | refl : Leads deps mock d d
  | step {d' d'' : Deployment} (action : DeploymentAction) (hd : Leads deps mock d d')
      (hstep : d'.step deps mock action = some d'') : Leads deps mock d d''

/-- All that is known of how a call ended is that it ended in `outcome`. -/
structure Deployment.Settles (d : Deployment) (callId : Handle) (outcome : CallStatus) : Prop where
  issued : ∃ dial ∈ d.sys.shared.issued, dial.handle = callId
  course : OnCourse (told d.sys.shared.db.arrivals callId) outcome
  reported : ∀ state ∈ d.provider.states, state.providerCallId = callId → state.status = outcome

/-- An outcome stays what it is. -/
theorem Deployment.Settles.steps (h : d.Settles callId outcome) (hd : d.Serves deps)
    (hterminal : outcome.isTerminal = true) (hstep : Steps deps mock d action d') : d'.Settles callId outcome := by
  obtain ⟨hs, hattuned⟩ := hd
  have hsame : ∀ {sys : Sys} {provider : MockProvider}, sys.shared.issued = d.sys.shared.issued →
      sys.shared.db.arrivals = d.sys.shared.db.arrivals →
      (∀ state ∈ provider.states, state.providerCallId = callId → state.status = outcome) →
      Settles ⟨sys, provider⟩ callId outcome := fun hissued harrivals hreported =>
    ⟨hissued ▸ h.issued, harrivals ▸ h.course, hreported⟩
  cases hstep with
  | served action sys haside hstep =>
      refine hsame (Sys.issued_step hstep ?_) (hs.arrivals_step hstep ?_) h.reported
      · rintro index choice task key phone next txn rfl
        cases haside
      · rintro payload receivedAt inboxId rfl
        cases haside
  | placed index pick jitter token choice task key phone next txn sys hprocess hfresh hchoice hstep =>
      have hknown := hattuned.known?_eq_none (hs.undialed hprocess)
      have harrivals := hs.arrivals_step hstep fun payload receivedAt inboxId he => by cases he
      refine ⟨?_, harrivals ▸ h.course, ?_⟩
      · obtain ⟨dial, hdial, hhandle⟩ := h.issued
        exact ⟨dial, (hs.grows hstep).issued dial hdial, hhandle⟩
      · rw [MockProvider.placeCall, hknown]
        refine List.forall_mem_cons.mpr ⟨fun he => ?_, h.reported⟩
        obtain ⟨dial, hdial, hhandle⟩ := h.issued
        exact absurd (hhandle.trans he.symm) (hfresh dial hdial)
  | ran index pick jitter token choice task stmt next txn sys hprocess hplace hstatus hstep =>
      refine hsame (Sys.issued_step hstep ?_) (hs.arrivals_step hstep ?_) h.reported
      · rintro _ _ _ key phone _ _ ⟨⟩ hother
        cases hprocess.symm.trans hother
        exact hplace key phone rfl
      · rintro payload receivedAt inboxId ⟨⟩
  | simulated index choice other op next reply sys provider htask hexec =>
      obtain ⟨heffect, hissued, -⟩ := execSim_effect hs.providers hexec
      generalize harrivals : sys.shared.db.arrivals = arrivals at heffect
      cases heffect with
      | setStatus status =>
          obtain ⟨state, hstate, hid, seq, ⟨⟨hlive, -⟩, -⟩, -, -⟩ := hattuned.tasks _ (List.mem_of_getElem? htask)
          refine hsame hissued harrivals fun moved hmoved he => ?_
          rcases MockProvider.mem_setStatus.mp hmoved with ⟨hold, -⟩ | ⟨old, hold, hsim, rfl⟩
          · exact h.reported moved hold he
          · -- a call that has ended does not move
            have hended := h.reported state hstate (hid.trans (hsim.symm.trans he))
            rw [show state.status = outcome from hended, hterminal] at hlive
            cases hlive
      | delivered payload =>
          obtain ⟨state, seq, hpush, -⟩ := hattuned.pushes htask
          refine ⟨hissued ▸ h.issued, ?_, h.reported⟩
          rw [harrivals, hpush.newArrivals, hpush.payload, told_append, told_singleton]
          split
          · next he =>
              rw [← h.reported state hpush.known (hpush.handle.trans he), ← he]
              exact hpush.course
          · rw [List.append_nil]
            exact h.course
      | _ => exact hsame hissued harrivals h.reported
  | restarted => exact ⟨h.issued, h.course, List.forall_mem_nil _⟩

/-- The provider knows the call that a row has been dialed as. -/
structure HandleKnown (provider : MockProvider) (row : CallRow) (handle : Handle) (state : MockCallState) : Prop where
  known : provider.state? handle = some state
  key : state.idempotencyKey = ⟨row.id, row.attemptEpoch⟩
  reported : provider.getStatus handle = .reported state.status

theorem Deployment.Serves.knows (hd : d.Serves deps) (h : ∀ dial ∈ d.sys.shared.issued,
      dial.handle ∈ d.provider.states.map MockCallState.providerCallId) (hkeeps : action.keepsProcess = true)
    (hstep : Steps deps mock d action d') : ∀ dial ∈ d'.sys.shared.issued,
      dial.handle ∈ d'.provider.states.map MockCallState.providerCallId := by
  obtain ⟨hs, hattuned⟩ := hd
  cases hstep with
  | served action sys haside hstep =>
      rw [Sys.issued_step hstep fun index choice task key phone next txn he _ => by rw [he] at haside; cases haside]
      exact h
  | placed index pick jitter token choice task key phone next txn sys hprocess hfresh hchoice hstep =>
      have hknown := hattuned.known?_eq_none (hs.undialed hprocess)
      rw [Sys.issued_place hstep hchoice hprocess, MockProvider.placeCall, hknown]
      exact List.forall_mem_cons.mpr ⟨List.mem_cons_self, fun dial hdial => List.mem_cons_of_mem _ (h dial hdial)⟩
  | ran index pick jitter token choice task stmt next txn sys hprocess hplace hstatus hstep =>
      have hissued := Sys.issued_step hstep fun other choice' task' key phone next' txn' he hother => by
        cases he
        cases hprocess.symm.trans hother
        exact hplace key phone rfl
      rw [hissued]
      exact h
  | simulated index choice other op next reply sys provider htask hexec =>
      obtain ⟨heffect, hissued, -⟩ := execSim_effect hs.providers hexec
      rw [hissued]
      generalize sys.shared.db.arrivals = arrivals at heffect
      cases heffect with
      | setStatus status =>
          rw [MockProvider.map_setStatus MockCallState.providerCallId fun _ _ => rfl]
          exact h
      | _ => exact h
  | restarted => cases hkeeps

end

end VoiceCampaign

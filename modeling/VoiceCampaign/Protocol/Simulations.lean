import VoiceCampaign.Concurrency.Monitor
import VoiceCampaign.Model.Provider
import Mathlib.Data.List.Infix

/-!
# Simulations

What a simulation pushes, read off its text: the statuses of one course in order, each under an event
identifier of its own, and never further than the status its call stands at.
-/

namespace VoiceCampaign

open Concurrency

/-! ### Event identifiers -/

/-- The last separator of an identifier is where the sequence number starts. -/
theorem split_at_last {α : Type} {sep : α} {a b c d : List α} (hb : sep ∉ b) (hd : sep ∉ d)
    (h : a ++ sep :: b = c ++ sep :: d) : a = c ∧ b = d := by
  obtain ⟨e, rfl, hrest⟩ | ⟨e, rfl, hrest⟩ := List.append_eq_append_iff.mp h
  · cases e with
    | nil => exact ⟨(List.append_nil a).symm, (List.cons.inj hrest).2⟩
    | cons first rest =>
        have hmem : sep ∈ b := by
          rw [(List.cons.inj hrest).2]
          exact List.mem_append_right _ List.mem_cons_self
        exact absurd hmem hb
  · cases e with
    | nil => exact ⟨List.append_nil c, (List.cons.inj hrest).2.symm⟩
    | cons first rest =>
        have hmem : sep ∈ d := by
          rw [(List.cons.inj hrest).2]
          exact List.mem_append_right _ List.mem_cons_self
        exact absurd hmem hd

theorem colon_notMem_digits (n : Nat) : ':' ∉ Nat.toDigits 10 n := fun h =>
  absurd (Nat.isDigit_of_mem_toDigits (by decide) (by decide) h) (by decide)

theorem toDigits_inj {m n : Nat} (h : Nat.toDigits 10 m = Nat.toDigits 10 n) : m = n := by
  have hback := congrArg (Nat.ofDigitChars 10 · 0) h
  simpa only [Nat.ofDigitChars_toDigits (show 1 < 10 by decide) (show 10 ≤ 10 by decide)] using hback

namespace MockProvider

theorem toList_eventId (callId : Handle) (seq : Nat) :
    (eventId callId seq).toList = callId.toList ++ ':' :: Nat.toDigits 10 seq := by
  simp [eventId, toString, Nat.toList_repr]

/-- An event identifier determines the call and the sequence number. -/
theorem eventId_inj {callId callId' : Handle} {seq seq' : Nat} (h : eventId callId seq = eventId callId' seq') :
    callId = callId' ∧ seq = seq' := by
  have hchars := congrArg String.toList h
  rw [toList_eventId, toList_eventId] at hchars
  obtain ⟨hid, hseq⟩ := split_at_last (colon_notMem_digits seq) (colon_notMem_digits seq') hchars
  exact ⟨String.toList_injective hid, toDigits_inj hseq⟩

theorem eventId_ne_empty (callId : Handle) (seq : Nat) : eventId callId seq ≠ "" := by
  intro h
  have hchars := congrArg String.toList h
  rw [toList_eventId] at hchars
  simp at hchars

@[simp] theorem parseEvent_eventPayload (callId : Handle) (seq : Nat) (status : CallStatus) :
    parseEvent (eventPayload callId seq status) = .ok ⟨.str (eventId callId seq), .str callId, status⟩ := by
  have hstatus : callStatusOf (.str status.value) = .ok status := by
    rw [callStatusOf, CallStatus.ofValue_value]
  rw [parseEvent]
  simp only [eventPayload, Payload.item, Payload.get?, List.find?_cons, decide_true, Option.map_some]
  exact congrArg (fun result : Except Err CallStatus => result.map fun s =>
    ProviderEvent.mk (.str (eventId callId seq)) (.str callId) s) hstatus

@[simp] theorem ingestEventId_eventPayload (callId : Handle) (seq : Nat) (status : CallStatus) :
    ingestEventId (eventPayload callId seq status) = some (eventId callId seq) := by
  simp [ingestEventId, eventPayload, Payload.get?, eventId_ne_empty]

end MockProvider

/-! ### Courses -/

/-- How a simulated call may end. -/
def simulatedOutcomes : List CallStatus := [.failed, .noAnswer, .completed]

/-- The statuses of a call, up to its outcome. -/
def trajectory : CallStatus → List CallStatus
  | .completed => [.dialing, .inProgress, .completed]
  | outcome => [.dialing, outcome]

/-- `told` has been pushed of a call that stands at `status`: the last of it, or the next to push. -/
def OnCourse (told : List CallStatus) (status : CallStatus) : Prop :=
  ∃ outcome ∈ simulatedOutcomes, told <+: trajectory outcome ∧
    (told ++ [status] <+: trajectory outcome ∨ told.getLast? = some status)

instance (told : List CallStatus) (status : CallStatus) : Decidable (OnCourse told status) :=
  inferInstanceAs (Decidable (∃ outcome ∈ simulatedOutcomes, _))

/-- A call stands at the outcome that has been pushed. -/
theorem OnCourse.outcome {told : List CallStatus} {status other : CallStatus} (h : OnCourse told status)
    (hother : other ∈ told) (hend : other.isTerminal = true) : other = status := by
  obtain ⟨outcome, houtcome, hprefix, hstands⟩ := h
  have hcases : ∀ outcome ∈ simulatedOutcomes, ∀ told ∈ (trajectory outcome).inits, ∀ other ∈ told,
      other.isTerminal = true → told = trajectory outcome ∧ other = outcome := by decide
  obtain ⟨rfl, rfl⟩ := hcases outcome houtcome told (List.mem_inits _ _ |>.mpr hprefix) other hother hend
  rcases hstands with hmore | hlast
  · have hlen := hmore.length_le
    simp at hlen
  · have hends : ∀ outcome ∈ simulatedOutcomes, (trajectory outcome).getLast? = some outcome := by decide
    rw [hends other houtcome] at hlast
    exact Option.some.inj hlast

theorem outcomeOf_mem (settings : MockSettings) (roll : ℚ) :
    MockProvider.outcomeOf settings roll ∈ simulatedOutcomes := by
  rw [MockProvider.outcomeOf]
  split
  · decide
  · split <;> decide

/-! ### What a simulation pushes -/

/-- What has been pushed, where the call stands, and the sequence number drawn for the next event. -/
structure SimMode where
  told : List CallStatus := []
  status : CallStatus := .dialing
  seq : Option Nat := none

def SimMode.afterSink (mode : SimMode) : Except Err Unit → SimMode
  | .ok () => { told := mode.told ++ [mode.status], status := mode.status }
  | .error _ => { mode with seq := none }

/-- A call keeps to its course up to an outcome, and each event says where it stands, under a number of its own. -/
def simMonitor (callId : Handle) : Monitor SimOp SimReply SimMode where
  start := {}
  allows mode
    | .setStatus status => mode.status.isTerminal = false ∧ OnCourse mode.told status
    | .sink payload => OnCourse (mode.told ++ [mode.status]) mode.status ∧
        ∃ seq, mode.seq = some seq ∧ payload = MockProvider.eventPayload callId seq mode.status
    | _ => True
  answers _ _ := True
  next mode
    | .setStatus status => fun _ => { mode with status }
    | .nextSeq => fun (seq : Nat) => { mode with seq := some seq }
    | .sink _ => fun (delivered : Except Err Unit) => mode.afterSink delivered
    | _ => fun _ => mode

/-- The simulation keeps to the course of its call, from where it stands on. -/
def SimCo.Keeps (code : SimCo Unit) (callId : Handle) (mode : SimMode) : Prop :=
  (simMonitor callId).Obeys (fun _ _ => True) (fun _ _ => True) code mode

section

variable {callId : Handle} {status : CallStatus} {mode : SimMode}

theorem emit_keeps (hstatus : mode.status = status) (h : OnCourse (mode.told ++ [status]) status) :
    (simMonitor callId).Obeys (fun _ mode' => mode' = { told := mode.told ++ [status], status })
      (fun _ _ => True) (MockProvider.emit callId status) mode := by
  subst hstatus
  apply Monitor.Obeys.perform
  · trivial
  · intro seq _
    apply Monitor.Obeys.perform
    · exact ⟨h, seq, rfl, rfl⟩
    · intro delivered _
      cases delivered with
      | ok value => exact rfl
      | error error => trivial

/-- The call moves on to a status, which is pushed. -/
theorem move_keeps {next : Unit → SimCo Unit} (hset : mode.status.isTerminal = false ∧ OnCourse mode.told status)
    (hpush : OnCourse (mode.told ++ [status]) status)
    (hnext : (next ()).Keeps callId { told := mode.told ++ [status], status }) :
    (do MockProvider.perform (.setStatus status); MockProvider.emit callId status >>= next : SimCo Unit).Keeps
      callId mode := by
  apply Monitor.Obeys.perform hset
  intro _ _
  apply (@emit_keeps callId status { mode with status } rfl hpush).bind
  rintro _ _ rfl
  exact hnext

/-- The last status of the call. -/
theorem finish_keeps (hset : mode.status.isTerminal = false ∧ OnCourse mode.told status)
    (hpush : OnCourse (mode.told ++ [status]) status) :
    (do MockProvider.perform (.setStatus status); MockProvider.emit callId status : SimCo Unit).Keeps callId mode := by
  apply Monitor.Obeys.perform hset
  intro _ _
  exact (@emit_keeps callId status { mode with status } rfl hpush).mono (fun _ _ _ => trivial) fun _ _ _ => trivial

theorem sleep_keeps {next : Unit → SimCo Unit} {seconds : ℚ} (hnext : (next ()).Keeps callId mode) :
    (MockProvider.perform (.sleep seconds) >>= next : SimCo Unit).Keeps callId mode :=
  ⟨trivial, fun _ _ => hnext⟩

theorem course_keeps (settings : MockSettings) {outcome : CallStatus} (houtcome : outcome ∈ simulatedOutcomes) :
    (MockProvider.course settings callId outcome).Keeps callId {} := by
  rw [simulatedOutcomes, List.mem_cons, List.mem_cons, List.mem_singleton] at houtcome
  apply @move_keeps callId .dialing {} _ (by decide) (by decide)
  apply sleep_keeps
  obtain rfl | rfl | rfl := houtcome
  · exact @finish_keeps callId .failed ⟨[.dialing], .dialing, none⟩ (by decide) (by decide)
  · exact @finish_keeps callId .noAnswer ⟨[.dialing], .dialing, none⟩ (by decide) (by decide)
  · apply @move_keeps callId .inProgress ⟨[.dialing], .dialing, none⟩ _ (by decide) (by decide)
    apply sleep_keeps
    exact @finish_keeps callId .completed ⟨[.dialing, .inProgress], .inProgress, none⟩ (by decide) (by decide)

theorem simulate_keeps (settings : MockSettings) (callId : Handle) :
    (MockProvider.simulate settings callId).Keeps callId {} := by
  apply Monitor.Obeys.perform trivial
  intro roll _
  exact (course_keeps settings (outcomeOf_mem settings roll)).catching fun _ _ _ => trivial

end

end VoiceCampaign

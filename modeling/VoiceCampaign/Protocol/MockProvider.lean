import VoiceCampaign.Protocol.Simulations

/-!
# The provider and what has come from it

The handles it has issued and the events that have arrived: each handle has its own key, each event its own
identifier, and what has arrived of a call is the course of that call up to where it stands.
-/

namespace VoiceCampaign

open Concurrency

/-! ### Arrivals -/

/-- The identifier and the body of an event in the inbox, in the order of their arrival. -/
def Db.arrivals (db : Db) : List (String × Payload) := db.inbox.map fun row => (row.providerEventId, row.payload)

/-- What a body says about a call. -/
def statusFor (callId : Handle) (payload : Payload) : Option CallStatus :=
  match parseEvent payload with
  | .ok ⟨_, .str handle, status⟩ => if handle = callId then some status else none
  | _ => none

/-- What has arrived about a call. -/
def told (arrivals : List (String × Payload)) (callId : Handle) : List CallStatus :=
  arrivals.filterMap fun arrival => statusFor callId arrival.2

section

variable {arrivals more : List (String × Payload)} {callId other : Handle} {seq : Nat} {status : CallStatus}

theorem statusFor_eventPayload : statusFor other (MockProvider.eventPayload callId seq status) =
    if callId = other then some status else none := by
  rw [statusFor, MockProvider.parseEvent_eventPayload]

theorem told_append : told (arrivals ++ more) callId = told arrivals callId ++ told more callId :=
  List.filterMap_append

theorem told_singleton : told [(MockProvider.eventId callId seq, MockProvider.eventPayload callId seq status)] other =
    if callId = other then [status] else [] := by
  simp only [told, List.filterMap_cons, List.filterMap_nil, statusFor_eventPayload]
  by_cases h : callId = other <;> simp [h]

end

/-! ### The provider next to the handles issued and the events arrived -/

/-- Where a simulation stands, next to the status of its call and to what has arrived of it. -/
structure Simulation.At (sim : Simulation) (status : CallStatus) (eventSeq : Nat) (arrivals : List (String × Payload))
    (seq : Option Nat) : Prop where
  keeps : sim.code.Keeps sim.callId ⟨told arrivals sim.callId, status, seq⟩
  drawn : ∀ n ∈ seq, n ≤ eventSeq
  unused : ∀ n ∈ seq, ∀ arrival ∈ arrivals, ∀ m, arrival.1 = MockProvider.eventId sim.callId m → m < n

structure Attuned (provider : MockProvider) (issued : List Dial) (arrivals : List (String × Payload)) : Prop where
  issuedOnce : (issued.map Dial.handle).Nodup
  returned : ∀ dial ∈ issued, dial.returned = true
  byIdem : provider.byIdem = provider.states.map fun state => (state.idempotencyKey, state.providerCallId)
  handles : (provider.states.map MockCallState.providerCallId).Nodup
  placed : ∀ state ∈ provider.states, ⟨state.idempotencyKey, state.providerCallId, true⟩ ∈ issued
  event : ∀ arrival ∈ arrivals, ∃ dial ∈ issued, ∃ seq status, arrival.1 = MockProvider.eventId dial.handle seq ∧
    arrival.2 = MockProvider.eventPayload dial.handle seq status ∧
    ∀ state ∈ provider.states, state.providerCallId = dial.handle → seq ≤ provider.eventSeq
  once : (arrivals.map Prod.fst).Nodup
  course : ∀ state ∈ provider.states, OnCourse (told arrivals state.providerCallId) state.status
  /-- Also of the calls of earlier processes. -/
  past : ∀ dial ∈ issued, ∃ status, OnCourse (told arrivals dial.handle) status
  taskOnce : (provider.tasks.map Simulation.callId).Nodup
  tasks : ∀ sim ∈ provider.tasks, ∃ state ∈ provider.states, state.providerCallId = sim.callId ∧
    ∃ seq, sim.At state.status provider.eventSeq arrivals seq

section

variable {provider : MockProvider} {issued : List Dial} {arrivals more : List (String × Payload)} {callId : Handle}
  {key : IdempotencyKey}

theorem Attuned.empty : Attuned {} [] [] where
  issuedOnce := .nil
  returned := List.forall_mem_nil _
  byIdem := rfl
  handles := .nil
  placed := List.forall_mem_nil _
  event := List.forall_mem_nil _
  once := .nil
  course := List.forall_mem_nil _
  past := List.forall_mem_nil _
  taskOnce := .nil
  tasks := List.forall_mem_nil _

/-- The process ends: another provider knows nothing of the calls. -/
theorem Attuned.restart (h : Attuned provider issued arrivals) : Attuned {} issued arrivals where
  issuedOnce := h.issuedOnce
  returned := h.returned
  byIdem := rfl
  handles := .nil
  placed := List.forall_mem_nil _
  event arrival harrival := by
    obtain ⟨dial, hdial, seq, status, hid, hbody, -⟩ := h.event arrival harrival
    exact ⟨dial, hdial, seq, status, hid, hbody, List.forall_mem_nil _⟩
  once := h.once
  course := List.forall_mem_nil _
  past := h.past
  taskOnce := .nil
  tasks := List.forall_mem_nil _

/-- The provider knows the keys of its calls. -/
theorem Attuned.known?_eq_none (h : Attuned provider issued arrivals) (hkey : ∀ dial ∈ issued, dial.key ≠ key) :
    provider.known? key = none := by
  rw [MockProvider.known?, Option.map_eq_none_iff, List.find?_eq_none, h.byIdem]
  intro entry hentry
  obtain ⟨state, hstate, rfl⟩ := List.mem_map.mp hentry
  simpa using hkey _ (h.placed state hstate)

/-- Nothing has arrived about a handle that has not been issued. -/
theorem Attuned.told_fresh (h : Attuned provider issued arrivals) (hfresh : ∀ dial ∈ issued, dial.handle ≠ callId) :
    told arrivals callId = [] := by
  rw [told, List.filterMap_eq_nil_iff]
  intro arrival harrival
  obtain ⟨dial, hdial, seq, status, -, hbody, -⟩ := h.event arrival harrival
  rw [hbody, statusFor_eventPayload, if_neg (hfresh dial hdial)]

/-- A new call. -/
theorem Attuned.place (h : Attuned provider issued arrivals) (mock : MockSettings) (phone : String)
    (hfresh : ∀ dial ∈ issued, dial.handle ≠ callId) (hkey : ∀ dial ∈ issued, dial.key ≠ key) :
    (provider.placeCall mock callId key phone).1 = callId ∧
      Attuned (provider.placeCall mock callId key phone).2 (⟨key, callId, true⟩ :: issued) arrivals := by
  have hnew : ∀ state ∈ provider.states, state.providerCallId ≠ callId := fun state hstate =>
    hfresh _ (h.placed state hstate)
  have htold := h.told_fresh hfresh
  have hstart : OnCourse (told arrivals callId) .dialing := htold ▸ by decide
  rw [MockProvider.placeCall, h.known?_eq_none hkey]
  refine ⟨rfl, ?_⟩
  constructor
  · exact List.nodup_cons.mpr ⟨by simpa using hfresh, h.issuedOnce⟩
  · exact List.forall_mem_cons.mpr ⟨rfl, h.returned⟩
  · exact congrArg (List.cons _) h.byIdem
  · exact List.nodup_cons.mpr ⟨by simpa using hnew, h.handles⟩
  · exact List.forall_mem_cons.mpr ⟨List.mem_cons_self, fun state hstate => List.mem_cons_of_mem _ (h.placed state hstate)⟩
  · intro arrival harrival
    obtain ⟨dial, hdial, seq, status, hid, hbody, hseq⟩ := h.event arrival harrival
    refine ⟨dial, List.mem_cons_of_mem _ hdial, seq, status, hid, hbody, List.forall_mem_cons.mpr ⟨?_, hseq⟩⟩
    exact fun he => absurd he.symm (hfresh dial hdial)
  · exact h.once
  · exact List.forall_mem_cons.mpr ⟨hstart, h.course⟩
  · exact List.forall_mem_cons.mpr ⟨⟨.dialing, hstart⟩, h.past⟩
  · rw [List.map_append, List.nodup_append]
    refine ⟨h.taskOnce, List.nodup_singleton _, fun old hold new hmem he => ?_⟩
    obtain ⟨sim, hsim, rfl⟩ := List.mem_map.mp hold
    obtain ⟨state, hstate, hid, -⟩ := h.tasks sim hsim
    exact hnew state hstate (hid.trans (he.trans (List.mem_singleton.mp hmem)))
  · intro sim hsim
    rcases List.mem_append.mp hsim with hold | hmem
    · obtain ⟨state, hstate, hat⟩ := h.tasks sim hold
      exact ⟨state, List.mem_cons_of_mem _ hstate, hat⟩
    · rw [List.mem_singleton.mp hmem]
      refine ⟨_, List.mem_cons_self, rfl, none, ?_, nofun, nofun⟩
      show (MockProvider.simulate mock callId).Keeps callId ⟨told arrivals callId, .dialing, none⟩
      rw [htold]
      exact simulate_keeps mock callId

end

/-! ### A simulation goes on -/

/-- What ingest adds to the arrivals: an identifier that is there already adds nothing. -/
def newArrivals (arrivals : List (String × Payload)) (payload : Payload) : List (String × Payload) :=
  match ingestEventId payload with
  | some eventId => if eventId ∈ arrivals.map Prod.fst then [] else [(eventId, payload)]
  | none => []

/-- What an operation of the simulation of `callId` does. -/
inductive SimEffect (provider : MockProvider) (arrivals : List (String × Payload)) (callId : Handle) :
    (op : SimOp) → SimReply op → MockProvider → List (String × Payload) → Prop
  | random (roll : ℚ) : SimEffect provider arrivals callId .random roll provider arrivals
  | setStatus (status : CallStatus) :
      SimEffect provider arrivals callId (.setStatus status) () (provider.setStatus callId status) arrivals
  | nextSeq : SimEffect provider arrivals callId .nextSeq (provider.eventSeq + 1)
      { provider with eventSeq := provider.eventSeq + 1 } arrivals
  | raised (payload : Payload) (error : Err) :
      SimEffect provider arrivals callId (.sink payload) (.error error) provider arrivals
  | delivered (payload : Payload) :
      SimEffect provider arrivals callId (.sink payload) (.ok ()) provider (arrivals ++ newArrivals arrivals payload)
  | sleep (seconds : ℚ) : SimEffect provider arrivals callId (.sleep seconds) () provider arrivals

section

variable {provider : MockProvider} {issued : List Dial} {arrivals more : List (String × Payload)} {callId : Handle}
  {status : CallStatus} {index : Nat} {code : SimCo Unit}

/-- What has arrived about another call. -/
theorem told_other {other : Handle} (hother : other ≠ callId)
    (hmore : ∀ arrival ∈ more, ∃ seq status, arrival.2 = MockProvider.eventPayload callId seq status) :
    told (arrivals ++ more) other = told arrivals other := by
  have hnone : told more other = [] := by
    rw [told, List.filterMap_eq_nil_iff]
    intro arrival harrival
    obtain ⟨seq, status, hbody⟩ := hmore arrival harrival
    rw [hbody, statusFor_eventPayload, if_neg (Ne.symm hother)]
  rw [told_append, hnone, List.append_nil]

namespace MockProvider

theorem mem_setStatus {state : MockCallState} : state ∈ (provider.setStatus callId status).states ↔
    (state ∈ provider.states ∧ state.providerCallId ≠ callId) ∨
      ∃ old ∈ provider.states, old.providerCallId = callId ∧ state = { old with status } := by
  simp only [setStatus, List.mem_map]
  constructor
  · rintro ⟨old, hold, rfl⟩
    split
    · next hsame => exact Or.inr ⟨old, hold, hsame, rfl⟩
    · next hother => exact Or.inl ⟨hold, hother⟩
  · rintro (⟨hstate, hother⟩ | ⟨old, hold, hsame, rfl⟩)
    · exact ⟨state, hstate, if_neg hother⟩
    · exact ⟨old, hold, if_pos hsame⟩

/-- Setting a status leaves keys and handles alone. -/
theorem map_setStatus {β : Type} (f : MockCallState → β) (hf : ∀ state status, f { state with status } = f state) :
    (provider.setStatus callId status).states.map f = provider.states.map f := by
  rw [setStatus, List.map_map]
  refine List.map_congr_left fun state _ => ?_
  rw [Function.comp_apply]
  split
  · exact hf state status
  · rfl

/-- To the status it has. -/
theorem setStatus_same (hnodup : (provider.states.map MockCallState.providerCallId).Nodup) {state : MockCallState}
    (hstate : state ∈ provider.states) : provider.setStatus state.providerCallId state.status = provider := by
  have hsame : provider.states.map (fun other =>
      if other.providerCallId = state.providerCallId then { other with status := state.status } else other) =
      provider.states := by
    refine (List.map_congr_left fun other hother => ?_).trans (List.map_id _)
    split
    · next hid => rw [eq_of_key_eq hnodup hother hstate hid, id]
    · rfl
  rw [setStatus, hsame]

end MockProvider

/-- A simulation goes on: it may have set the status of its call and drawn numbers, and what has arrived since is
its own. -/
theorem Attuned.advance (h : Attuned provider issued arrivals) {code' : SimCo Unit} {eventSeq : Nat}
    (htask : provider.tasks[index]? = some ⟨callId, code⟩) (hle : provider.eventSeq ≤ eventSeq)
    (hmore : ∀ arrival ∈ more, ∃ seq status, arrival = (MockProvider.eventId callId seq,
      MockProvider.eventPayload callId seq status) ∧ seq ≤ eventSeq)
    (honce : ((arrivals ++ more).map Prod.fst).Nodup) (hcourse : OnCourse (told (arrivals ++ more) callId) status)
    (hat : ∃ seq, Simulation.At ⟨callId, code'⟩ status eventSeq (arrivals ++ more) seq) :
    Attuned { provider.setStatus callId status with tasks := provider.tasks.set index ⟨callId, code'⟩, eventSeq }
      issued (arrivals ++ more) := by
  have hids : (provider.tasks.set index ⟨callId, code'⟩).map Simulation.callId =
      provider.tasks.map Simulation.callId := by
    obtain ⟨hlt, hget⟩ := List.getElem?_eq_some_iff.mp htask
    have hmapped : index < (provider.tasks.map Simulation.callId).length := by simpa using hlt
    have hsame : callId = (provider.tasks.map Simulation.callId)[index] := by
      rw [List.getElem_map, hget]
    rw [List.map_set]
    conv_lhs => rw [show (⟨callId, code'⟩ : Simulation).callId = callId from rfl, hsame]
    exact List.set_getElem_self _
  have hothers : ∀ other ≠ callId, told (arrivals ++ more) other = told arrivals other := fun other hother =>
    told_other hother fun arrival harrival => by
      obtain ⟨seq, status, rfl, -⟩ := hmore arrival harrival
      exact ⟨seq, status, rfl⟩
  obtain ⟨mine, hmine, hmineId, -⟩ := h.tasks ⟨callId, code⟩ (List.mem_of_getElem? htask)
  constructor
  · exact h.issuedOnce
  · exact h.returned
  · exact h.byIdem.trans (MockProvider.map_setStatus _ fun _ _ => rfl).symm
  · exact (MockProvider.map_setStatus MockCallState.providerCallId fun _ _ => rfl).symm ▸ h.handles
  · intro state hstate
    rcases MockProvider.mem_setStatus.mp hstate with ⟨hold, -⟩ | ⟨old, hold, -, rfl⟩
    · exact h.placed state hold
    · exact h.placed old hold
  · intro arrival harrival
    have hknown : ∀ {handle : Handle} {seq : Nat},
        (∀ state ∈ provider.states, state.providerCallId = handle → seq ≤ provider.eventSeq) →
        ∀ state ∈ (provider.setStatus callId status).states, state.providerCallId = handle → seq ≤ eventSeq := by
      intro handle seq hseq state hstate hid
      rcases MockProvider.mem_setStatus.mp hstate with ⟨hold, -⟩ | ⟨old, hold, -, rfl⟩
      · exact (hseq state hold hid).trans hle
      · exact (hseq old hold hid).trans hle
    rcases List.mem_append.mp harrival with hold | hnew
    · obtain ⟨dial, hdial, seq, status, hid, hbody, hseq⟩ := h.event arrival hold
      exact ⟨dial, hdial, seq, status, hid, hbody, hknown hseq⟩
    · obtain ⟨seq, status, rfl, hseq⟩ := hmore arrival hnew
      have hdial := h.placed mine hmine
      rw [show mine.providerCallId = callId from hmineId] at hdial
      exact ⟨_, hdial, seq, status, rfl, rfl, fun _ _ _ => hseq⟩
  · exact honce
  · intro state hstate
    rcases MockProvider.mem_setStatus.mp hstate with ⟨hold, hother⟩ | ⟨old, hold, hid, rfl⟩
    · rw [hothers _ hother]
      exact h.course state hold
    · show OnCourse (told (arrivals ++ more) old.providerCallId) status
      rw [hid]
      exact hcourse
  · intro dial hdial
    by_cases hother : dial.handle = callId
    · exact ⟨status, hother ▸ hcourse⟩
    · obtain ⟨status, hpast⟩ := h.past dial hdial
      exact ⟨status, (hothers _ hother).symm ▸ hpast⟩
  · exact hids ▸ h.taskOnce
  · intro sim hsim
    obtain ⟨other, hget⟩ := List.mem_iff_getElem?.mp hsim
    by_cases hsame : other = index
    · rw [hsame, List.getElem?_set_self (List.getElem?_eq_some_iff.mp htask).1] at hget
      obtain rfl := Option.some.inj hget
      exact ⟨_, MockProvider.mem_setStatus.mpr (Or.inr ⟨mine, hmine, hmineId, rfl⟩), hmineId, hat⟩
    · -- another simulation, of another call
      rw [List.getElem?_set_ne (Ne.symm hsame)] at hget
      have hother : sim.callId ≠ callId := by
        intro he
        have hlt := (List.getElem?_eq_some_iff.mp hget).1
        refine hsame ((List.getElem?_inj (by simpa using hlt) h.taskOnce).mp ?_)
        rw [List.getElem?_map, List.getElem?_map, hget, htask, Option.map_some, Option.map_some, he]
      obtain ⟨state, hstate, hid, seq, hkeeps, hdrawn, hunused⟩ := h.tasks sim (List.mem_of_getElem? hget)
      refine ⟨state, MockProvider.mem_setStatus.mpr (Or.inl ⟨hstate, hid ▸ hother⟩), hid, seq, ?_, ?_, ?_⟩
      · rw [hothers _ hother]
        exact hkeeps
      · exact fun n hn => (hdrawn n hn).trans hle
      · intro n hn arrival harrival m hm
        rcases List.mem_append.mp harrival with hold | hnew
        · exact hunused n hn arrival hold m hm
        · obtain ⟨seq', status', rfl, -⟩ := hmore arrival hnew
          exact absurd (MockProvider.eventId_inj hm).1.symm hother

/-- A number just drawn is above those of all events that have arrived. -/
theorem Attuned.unused (h : Attuned provider issued arrivals) {state : MockCallState} (hstate : state ∈ provider.states)
    {arrival : String × Payload} (harrival : arrival ∈ arrivals) {m : Nat}
    (hm : arrival.1 = MockProvider.eventId state.providerCallId m) : m < provider.eventSeq + 1 := by
  obtain ⟨dial, -, seq, status, hid, -, hseq⟩ := h.event arrival harrival
  obtain ⟨hhandle, rfl⟩ := MockProvider.eventId_inj (hm.symm.trans hid)
  exact Nat.lt_succ_of_le (hseq state hstate hhandle)

/-- What a simulation is about to push: where its call stands, under a number that no event has had. -/
structure Pushes (provider : MockProvider) (arrivals : List (String × Payload)) (callId : Handle) (payload : Payload)
    (state : MockCallState) (seq : Nat) : Prop where
  known : state ∈ provider.states
  handle : state.providerCallId = callId
  payload : payload = MockProvider.eventPayload callId seq state.status
  drawn : seq ≤ provider.eventSeq
  course : OnCourse (told arrivals callId ++ [state.status]) state.status
  fresh : ∀ arrival ∈ arrivals, arrival.1 ≠ MockProvider.eventId callId seq

theorem Pushes.newArrivals {payload : Payload} {state : MockCallState} {seq : Nat}
    (h : Pushes provider arrivals callId payload state seq) :
    newArrivals arrivals payload = [(MockProvider.eventId callId seq, payload)] := by
  rw [h.payload, VoiceCampaign.newArrivals, MockProvider.ingestEventId_eventPayload]
  refine if_neg fun hmem => ?_
  obtain ⟨arrival, harrival, he⟩ := List.mem_map.mp hmem
  exact h.fresh arrival harrival he

theorem Attuned.pushes (h : Attuned provider issued arrivals) {payload : Payload}
    {next : Except Err Unit → SimCo Unit} (htask : provider.tasks[index]? = some ⟨callId, .call (.sink payload) next⟩) :
    ∃ state seq, Pushes provider arrivals callId payload state seq ∧
      (next (.ok ())).Keeps callId ⟨told arrivals callId ++ [state.status], state.status, none⟩ := by
  obtain ⟨state, hstate, hid, seq, ⟨hallows, hnext⟩, hdrawn, hunused⟩ := h.tasks _ (List.mem_of_getElem? htask)
  obtain ⟨hpush, n, rfl, hbody⟩ := hallows
  exact ⟨state, n, ⟨hstate, hid, hbody, hdrawn n rfl, hpush, fun arrival harrival he =>
    absurd (hunused n rfl arrival harrival n he) (Nat.lt_irrefl n)⟩, hnext (.ok ()) trivial⟩

/-- An operation of a simulation. -/
theorem Attuned.simulates (h : Attuned provider issued arrivals) {op : SimOp} {next : SimReply op → SimCo Unit}
    {reply : SimReply op} {provider' : MockProvider} {arrivals' : List (String × Payload)}
    (htask : provider.tasks[index]? = some ⟨callId, .call op next⟩)
    (heffect : SimEffect provider arrivals callId op reply provider' arrivals') :
    Attuned { provider' with tasks := provider'.tasks.set index ⟨callId, next reply⟩ } issued arrivals' := by
  obtain ⟨state, hstate, hid, seq, ⟨hallows, hnext⟩, hdrawn, hunused⟩ := h.tasks _ (List.mem_of_getElem? htask)
  obtain rfl : state.providerCallId = callId := hid
  have hsame := MockProvider.setStatus_same h.handles hstate
  have hcourse := h.course state hstate
  -- what does not touch the calls, but may draw a number
  have hstays : ∀ {seq' : Option Nat} {eventSeq : Nat}, provider.eventSeq ≤ eventSeq →
      Simulation.At ⟨state.providerCallId, next reply⟩ state.status eventSeq arrivals seq' →
      Attuned { provider with
        tasks := provider.tasks.set index ⟨state.providerCallId, next reply⟩, eventSeq } issued arrivals := by
    intro seq' eventSeq hle hat
    have hadvance := @Attuned.advance _ _ _ [] _ state.status _ _ h _ _ htask hle (List.forall_mem_nil _)
      (by simpa using h.once) (by simpa using hcourse) ⟨seq', by simpa using hat⟩
    rwa [hsame, List.append_nil] at hadvance
  cases heffect with
  | random roll => exact hstays le_rfl ⟨hnext roll trivial, hdrawn, hunused⟩
  | sleep seconds => exact hstays le_rfl ⟨hnext () trivial, hdrawn, hunused⟩
  | raised payload error => exact hstays le_rfl ⟨hnext (.error error) trivial, nofun, nofun⟩
  | nextSeq =>
      refine hstays (Nat.le_succ _) ⟨hnext _ trivial, ?_, ?_⟩
      · rintro _ ⟨⟩
        exact le_rfl
      · rintro _ ⟨⟩ arrival harrival m hm
        exact h.unused hstate harrival hm
  | setStatus status =>
      have hset : OnCourse (told arrivals state.providerCallId) status := hallows.2
      have hadvance := @Attuned.advance _ _ _ [] _ status _ _ h (next ()) _ htask le_rfl (List.forall_mem_nil _)
        (by simpa using h.once) (by simpa using hset) ⟨seq, by simpa using ⟨hnext () trivial, hdrawn, hunused⟩⟩
      rwa [List.append_nil] at hadvance
  | delivered payload =>
      obtain ⟨other, n, hpush, hkeeps⟩ := h.pushes htask
      obtain rfl := eq_of_key_eq h.handles hpush.known hstate hpush.handle
      have htold : told (arrivals ++ [(MockProvider.eventId other.providerCallId n, payload)]) other.providerCallId =
          told arrivals other.providerCallId ++ [other.status] := by
        rw [hpush.payload, told_append, told_singleton, if_pos rfl]
      rw [hpush.newArrivals]
      have hadvance := @Attuned.advance _ _ _ [_] _ other.status _ _ h (next (.ok ())) _ htask le_rfl
        (List.forall_mem_singleton.mpr ⟨n, other.status, by rw [hpush.payload], hpush.drawn⟩) ?_
        (htold.symm ▸ hpush.course) ⟨none, ⟨htold.symm ▸ hkeeps, nofun, nofun⟩⟩
      · rwa [hsame] at hadvance
      · rw [List.map_append, List.nodup_append]
        refine ⟨h.once, List.nodup_singleton _, fun old hold new hmem he => ?_⟩
        obtain ⟨arrival, harrival, rfl⟩ := List.mem_map.mp hold
        exact hpush.fresh arrival harrival (he.trans (List.mem_singleton.mp hmem))

end

end VoiceCampaign

import VoiceCampaign.Protocol.MockProvider
import VoiceCampaign.Properties.Delivery
import VoiceCampaign.Properties.Keys

/-!
# The service with its provider

Every run of the service and its provider is a run of the service, and the provider stays attuned to it: no key is
dialed twice, so that each handle is issued for a key of its own and no event is taken for another.
-/

namespace VoiceCampaign

open Concurrency

/-! ### Dials of the service -/

section

variable {deps : Deps} {s s' : Sys} {action : Action}

/-- A dial that was accepted was placed. -/
theorem Observed.issued_placed {seen : List Dialing} (h : Observed deps Sys.dialing s seen) :
    ∀ dial ∈ s.shared.issued, dial.key ∈ placedKeys seen := by
  induction h with
  | init now => exact List.forall_mem_nil _
  | @step s s' seen action hs hstep ih =>
      have hold : ∀ dial ∈ s.shared.issued, dial.key ∈ placedKeys (seen ++ s.dialing action) := fun dial hdial => by
        rw [placedKeys_append]
        exact List.mem_append_left _ (ih dial hdial)
      rcases Sys.step_cases hstep with ⟨shared, hworld, rfl⟩ |
        ⟨index, choice, task, stmt, next, txn, reply, shared, txn', rfl, hprocess, hexec, rfl⟩ |
        ⟨index, process, rfl, hprocess, rfl⟩
      · intro dial hdial
        have hsame : shared.issued = s.shared.issued := by cases hworld <;> rfl
        exact hold dial (hsame ▸ hdial)
      · intro dial hdial
        by_cases hcommit : stmt = .commit
        · subst hcommit
          obtain ⟨t, -, rfl, -⟩ := exec_commit hexec
          exact hold dial hdial
        · obtain ⟨-, -, hsame | ⟨key, phone, rfl, hissue⟩⟩ := exec_tables hcommit hexec
          · exact hold dial (hsame ▸ hdial)
          · rcases Choice.key_of_mem_issue (hissue ▸ hdial : dial ∈ _) with hmem | rfl
            · exact hold dial hmem
            · rw [placedKeys_append, Sys.dialing, hprocess]
              exact List.mem_append_right _ (List.mem_singleton_self _)
      · exact hold

/-- A key that is about to be dialed has not been. -/
theorem Reachable.undialed (hs : Reachable deps s) {index : Nat} {task : Task} {key : IdempotencyKey} {phone : String}
    {next : PlaceOutcome → Co Unit} {txn : Option Txn}
    (hprocess : s.procs[index]? = some ⟨task, .call (.placeCall key phone) next, txn⟩) :
    ∀ dial ∈ s.shared.issued, dial.key ≠ key := by
  rintro dial hdial rfl
  obtain ⟨seen, hseen⟩ := hs.observed Sys.dialing
  obtain ⟨modes, hwatched, -, hdialers⟩ := hseen.dialWatched
  have howns : modes index = .owns dial.key := (hwatched.obeys index _ hprocess).1
  exact hdialers.unplaced index dial.key howns (hseen.issued_placed dial hdial)

/-- The dials a step adds. -/
theorem Sys.issued_step (hstep : s.step deps action = some s')
    (hplace : ∀ index choice task key phone next txn, action = .run index choice →
      s.procs[index]? ≠ some ⟨task, .call (.placeCall key phone) next, txn⟩) :
    s'.shared.issued = s.shared.issued := by
  rcases Sys.step_cases hstep with ⟨shared, hworld, rfl⟩ |
    ⟨index, choice, task, stmt, next, txn, reply, shared, txn', rfl, hprocess, hexec, rfl⟩ |
    ⟨index, process, rfl, hprocess, rfl⟩
  · show shared.issued = s.shared.issued
    cases hworld <;> rfl
  · by_cases hcommit : stmt = .commit
    · subst hcommit
      obtain ⟨t, -, rfl, -⟩ := exec_commit hexec
      rfl
    · obtain ⟨-, -, hsame | ⟨key, phone, rfl, hissue⟩⟩ := exec_tables hcommit hexec
      · exact hsame
      · exact absurd hprocess (hplace index choice task key phone next txn rfl)
  · rfl

/-- The dial that `place_call` adds, and nothing else happens. -/
theorem Sys.issued_place {index : Nat} {choice : Choice} {handle : Handle}
    (hstep : s.step deps (.run index choice) = some s') (hchoice : choice.place = .handle handle) {task : Task}
    {key : IdempotencyKey} {phone : String} {next : PlaceOutcome → Co Unit} {txn : Option Txn}
    (hprocess : s.procs[index]? = some ⟨task, .call (.placeCall key phone) next, txn⟩) :
    s'.shared.issued = ⟨key, handle, true⟩ :: s.shared.issued := by
  rw [Sys.step, Sys.runProcess, hprocess] at hstep
  simp only [exec, Option.some.injEq] at hstep
  rw [← hstep]
  show choice.issue key s.shared.issued = _
  rw [Choice.issue, hchoice]

/-! ### Arrivals -/

/-- A drain marks rows that have arrived. -/
theorem Guar.arrivals {l : Party} {s s' : Shared} (h : Guar l s s') (hinv : Consistent s) :
    s'.db.arrivals = s.db.arrivals := by
  have hmarks : ∀ {task t inbox}, Marks s task t inbox → (s.commit t).db.arrivals = s.db.arrivals := by
    intro task t inbox hmarks
    refine map_overlay _ fun row hrow new hnew => ?_
    cases hmarks with
    | unmarked hinbox =>
        rw [hinbox] at hnew
        cases hnew
    | marked old htask hold hunprocessed hlock hinbox =>
        rw [hinbox, lookup_singleton] at hnew
        split at hnew
        · next hid =>
            obtain rfl := Option.some.inj hnew
            rw [← eq_of_key_eq hinv.inboxIds (lookup_some hold).1 hrow hid]
        · cases hnew
  cases h with
  | quiet hdb hnow hissued => rw [hdb]
  | commit t htxn hready =>
      cases hready with
      | quiet inbox hcalls hcampaigns hmarked hnotes => exact hmarks hmarked
      | moves inbox before after event folds hmoves hfolds hmarked haudit => exact hmarks hmarked

/-- Only ingest adds to the arrivals. -/
theorem Reachable.arrivals_step (hs : Reachable deps s) (hstep : s.step deps action = some s')
    (hingest : ∀ payload receivedAt inboxId, action ≠ .ingest payload receivedAt inboxId) :
    s'.shared.db.arrivals = s.shared.db.arrivals := by
  rcases Sys.step_cases hstep with ⟨shared, hworld, rfl⟩ |
    ⟨index, choice, task, stmt, next, txn, reply, shared, txn', rfl, hprocess, hexec, rfl⟩ |
    ⟨index, process, rfl, hprocess, rfl⟩
  · show shared.db.arrivals = s.shared.db.arrivals
    rw [Db.arrivals, (hworld.inbox hingest).1]
    rfl
  · exact (hs.run hprocess hexec).2.2.arrivals hs.consistent
  · rfl

theorem Sys.arrivals_ingest {payload : Payload} {receivedAt : Time} {inboxId : InboxId}
    (hstep : s.step deps (.ingest payload receivedAt inboxId) = some s')
    (hprovider : ∀ row ∈ s.shared.db.inbox, row.provider = "mock") :
    s'.shared.db.arrivals = s.shared.db.arrivals ++ newArrivals s.shared.db.arrivals payload := by
  have hmem : ∀ eventId, eventId ∈ s.shared.db.arrivals.map Prod.fst ↔
      ∃ row ∈ s.shared.db.inbox, row.event = ("mock", eventId) := by
    intro eventId
    simp only [Db.arrivals, List.map_map, List.mem_map, Function.comp_apply, InboxRow.event, Prod.mk.injEq]
    exact exists_congr fun row => and_congr_right fun hrow =>
      (and_iff_right (hprovider row hrow)).symm
  rw [newArrivals]
  cases Sys.ingest_cases hstep with
  | refused hid => rw [hid, List.append_nil]
  | again eventId row hid hrow hevent =>
      rw [hid]
      dsimp only
      rw [if_pos ((hmem eventId).mpr ⟨row, hrow, hevent⟩), List.append_nil]
      rfl
  | first eventId row hid hfresh hrow =>
      rw [hid]
      dsimp only
      rw [if_neg fun h => by
        obtain ⟨other, hother, hevent⟩ := (hmem eventId).mp h
        exact hfresh other hother hevent]
      subst hrow
      exact List.map_append

/-- No key is dialed twice. -/
theorem Reachable.dialedOnce (hs : Reachable deps s) : (s.shared.issued.map Dial.key).Nodup := by
  induction hs with
  | init now => exact .nil
  | @step s s' action hs _ hstep ih =>
      replace hs : Reachable deps s := hs
      by_cases hplace : ∃ index choice task key phone next txn, action = .run index choice ∧
          s.procs[index]? = some ⟨task, .call (.placeCall key phone) next, txn⟩
      · obtain ⟨index, choice, task, key, phone, next, txn, rfl, hprocess⟩ := hplace
        have hissue : s'.shared.issued = choice.issue key s.shared.issued := by
          rw [Sys.step, Sys.runProcess, hprocess] at hstep
          simp only [exec, Option.some.injEq] at hstep
          rw [← hstep]
        have hnew : ∀ dial : Dial, dial.key = key → ((dial :: s.shared.issued).map Dial.key).Nodup := by
          intro dial hdial
          refine List.nodup_cons.mpr ⟨fun hmem => ?_, ih⟩
          obtain ⟨old, hold, he⟩ := List.mem_map.mp hmem
          exact hs.undialed hprocess old hold (he.trans hdial)
        rw [hissue, Choice.issue]
        split
        · exact hnew _ rfl
        · exact hnew _ rfl
        · exact ih
      · have hsame := Sys.issued_step hstep fun index choice task key phone next txn he hprocess =>
          hplace ⟨index, choice, task, key, phone, next, txn, he, hprocess⟩
        exact hsame ▸ ih

end

/-! ### Steps of the deployment -/

section

variable {deps : Deps} {mock : MockSettings} {d d' : Deployment} {action : DeploymentAction}

/-- The kinds of step: the service moves by itself, places a call or runs another statement; a simulation goes on; the
process is replaced. -/
inductive Deployment.Steps (deps : Deps) (mock : MockSettings) (d : Deployment) : DeploymentAction → Deployment → Prop
  | served (action : Action) (sys : Sys) (haside : action.aside = true) (hstep : d.sys.step deps action = some sys) :
      Steps deps mock d (.serve action) ⟨sys, d.provider⟩
  | placed (index pick : Nat) (jitter : Jitter) (token : String) (choice : Choice) (task : Task) (key : IdempotencyKey)
      (phone : String) (next : PlaceOutcome → Co Unit) (txn : Option Txn) (sys : Sys)
      (hprocess : d.sys.procs[index]? = some ⟨task, .call (.placeCall key phone) next, txn⟩)
      (hfresh : ∀ dial ∈ d.sys.shared.issued, dial.handle ≠ "mock-" ++ token)
      (hchoice : choice.place = .handle (d.provider.placeCall mock ("mock-" ++ token) key phone).1)
      (hstep : d.sys.step deps (.run index choice) = some sys) :
      Steps deps mock d (.run index pick jitter token) ⟨sys, (d.provider.placeCall mock ("mock-" ++ token) key phone).2⟩
  | ran (index pick : Nat) (jitter : Jitter) (token : String) (choice : Choice) (task : Task) (stmt : Stmt)
      (next : Reply stmt → Co Unit) (txn : Option Txn) (sys : Sys)
      (hprocess : d.sys.procs[index]? = some ⟨task, .call stmt next, txn⟩)
      (hplace : ∀ key phone, stmt ≠ .placeCall key phone)
      (hstatus : ∀ handle, stmt = .getStatus handle → choice.status = d.provider.getStatus handle)
      (hstep : d.sys.step deps (.run index choice) = some sys) :
      Steps deps mock d (.run index pick jitter token) ⟨sys, d.provider⟩
  | simulated (index : Nat) (choice : SimChoice) (callId : Handle) (op : SimOp) (next : SimReply op → SimCo Unit)
      (reply : SimReply op) (sys : Sys) (provider : MockProvider)
      (htask : d.provider.tasks[index]? = some ⟨callId, .call op next⟩)
      (hexec : d.execSim deps callId choice op = some (reply, sys, provider)) :
      Steps deps mock d (.simulate index choice)
        ⟨sys, { provider with tasks := provider.tasks.set index ⟨callId, next reply⟩ }⟩
  | restarted : Steps deps mock d .restart d.restart

theorem Deployment.step_cases (hstep : d.step deps mock action = some d') : Steps deps mock d action d' := by
  cases action with
  | serve action =>
      rw [step] at hstep
      split at hstep
      · next haside =>
          obtain ⟨sys, hsys, rfl⟩ := Option.map_eq_some_iff.mp hstep
          exact .served action sys haside hsys
      · cases hstep
  | run index pick jitter token =>
      rw [step] at hstep
      split at hstep
      · next task stmt next txn hprocess =>
          split at hstep
          · cases hstep
          · next hfresh =>
              obtain ⟨sys, hsys, rfl⟩ := Option.map_eq_some_iff.mp hstep
              cases stmt with
              | placeCall key phone =>
                  refine .placed index pick jitter token _ task key phone next txn sys hprocess ?_ rfl hsys
                  simpa [redraws] using hfresh
              | getStatus handle =>
                  refine .ran index pick jitter token _ task _ next txn sys hprocess nofun ?_ hsys
                  rintro _ ⟨⟩
                  rfl
              | _ => exact .ran index pick jitter token _ task _ next txn sys hprocess nofun nofun hsys
      · cases hstep
  | simulate index choice =>
      rw [step, runSimulation] at hstep
      split at hstep
      · next callId op next htask =>
          split at hstep
          · next reply sys provider hexec =>
              cases hstep
              exact .simulated index choice callId op next reply sys provider htask hexec
          · cases hstep
      · cases hstep
  | restart =>
      cases hstep
      exact .restarted

/-- What an operation of a simulation does to the provider, to the dials and to the arrivals, and that the service
takes a step or none. -/
theorem Deployment.execSim_effect {callId : Handle} {choice : SimChoice} {op : SimOp} {reply : SimReply op} {sys : Sys}
    {provider : MockProvider} (hprovider : ∀ row ∈ d.sys.shared.db.inbox, row.provider = "mock")
    (h : d.execSim deps callId choice op = some (reply, sys, provider)) :
    SimEffect d.provider d.sys.shared.db.arrivals callId op reply provider sys.shared.db.arrivals ∧
      sys.shared.issued = d.sys.shared.issued ∧ (sys = d.sys ∨ ∃ payload receivedAt inboxId,
        d.sys.step deps (.ingest payload receivedAt inboxId) = some sys) := by
  cases op with
  | random =>
      cases h
      exact ⟨.random _, rfl, Or.inl rfl⟩
  | setStatus status =>
      cases h
      exact ⟨.setStatus status, rfl, Or.inl rfl⟩
  | nextSeq =>
      cases h
      exact ⟨.nextSeq, rfl, Or.inl rfl⟩
  | sleep seconds =>
      cases h
      exact ⟨.sleep seconds, rfl, Or.inl rfl⟩
  | sink payload =>
      rw [execSim] at h
      split at h
      · next error hfault =>
          cases h
          exact ⟨.raised payload error, rfl, Or.inl rfl⟩
      · obtain ⟨sys', hstep, he⟩ := Option.map_eq_some_iff.mp h
        cases he
        refine ⟨?_, Sys.issued_step hstep ?_, Or.inr ⟨_, _, _, hstep⟩⟩
        · rw [Sys.arrivals_ingest hstep hprovider]
          exact .delivered payload
        · intro index choice task key phone next txn he
          cases he

/-! ### Every run -/

structure Deployment.Serves (deps : Deps) (d : Deployment) : Prop where
  reachable : Reachable deps d.sys
  attuned : Attuned d.provider d.sys.shared.issued d.sys.shared.db.arrivals

theorem Reachable.providers {s : Sys} (hs : Reachable deps s) : ∀ row ∈ s.shared.db.inbox, row.provider = "mock" := by
  obtain ⟨seen, hseen⟩ := hs.observed Sys.deliveries
  exact hseen.delivered.2.provider

theorem Deployment.Serves.steps (h : d.Serves deps) (hstep : Steps deps mock d action d') : d'.Serves deps := by
  obtain ⟨hs, hattuned⟩ := h
  cases hstep with
  | served action sys haside hstep =>
      refine ⟨.step action hs trivial hstep, ?_⟩
      have hissued := Sys.issued_step hstep fun index choice task key phone next txn he _ => by
        rw [he] at haside
        cases haside
      have harrivals := hs.arrivals_step hstep fun payload receivedAt inboxId he => by
        rw [he] at haside
        cases haside
      rwa [hissued, harrivals]
  | placed index pick jitter token choice task key phone next txn sys hprocess hfresh hchoice hstep =>
      obtain ⟨hhandle, hplaced⟩ := hattuned.place mock phone hfresh (hs.undialed hprocess)
      refine ⟨.step _ hs trivial hstep, ?_⟩
      have harrivals := hs.arrivals_step hstep fun payload receivedAt inboxId he => by cases he
      rw [harrivals, Sys.issued_place hstep hchoice hprocess, hhandle]
      exact hplaced
  | ran index pick jitter token choice task stmt next txn sys hprocess hplace hstatus hstep =>
      refine ⟨.step _ hs trivial hstep, ?_⟩
      have hissued := Sys.issued_step hstep fun other choice' task' key phone next' txn' he hother => by
        cases he
        rw [hprocess] at hother
        cases hother
        exact hplace key phone rfl
      have harrivals := hs.arrivals_step hstep fun payload receivedAt inboxId he => by cases he
      rwa [hissued, harrivals]
  | simulated index choice callId op next reply sys provider htask hexec =>
      obtain ⟨heffect, hissued, hsys⟩ := execSim_effect hs.providers hexec
      refine ⟨?_, ?_⟩
      · rcases hsys with rfl | ⟨payload, receivedAt, inboxId, hstep⟩
        · exact hs
        · exact .step _ hs trivial hstep
      · rw [hissued]
        exact hattuned.simulates htask heffect
  | restarted => exact ⟨hs.dead fun _ _ => trivial, hattuned.restart⟩

theorem DeployedBy.serves {allowed : DeploymentAction → Prop} (hd : DeployedBy deps mock allowed d) : d.Serves deps := by
  induction hd with
  | init now => exact ⟨.init now, .empty⟩
  | step action _ _ hstep ih => exact ih.steps (Deployment.step_cases hstep)

end

end VoiceCampaign

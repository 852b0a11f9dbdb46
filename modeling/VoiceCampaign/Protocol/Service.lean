import VoiceCampaign.Model.Service
import VoiceCampaign.Protocol.Reachable

/-!
# The service process as a part of the system

The process does to the tables what some run of the system does, so what holds of the tables in every
reachable state holds in every state of the process. Only the wake flag is its own.
-/

namespace VoiceCampaign

open Concurrency

/-- A statement does not read the wake flag, and only `notify` writes it. -/
theorem exec_withWake {others : List Txn} {choice : Choice} {s : Shared} {txn : Option Txn} {stmt : Stmt}
    (hnotify : stmt ≠ .notify) (wake : Bool) :
    exec others choice { s with wake } txn stmt = (exec others choice s txn stmt).map
      fun result => (result.1, { result.2.1 with wake }, result.2.2) := by
  cases stmt with
  | notify => exact absurd rfl hnotify
  | updateCall update =>
      cases txn with
      | none => rfl
      | some t =>
          simp only [exec, Option.bind_some]
          split
          · rfl
          · cases writeCall others s.db t (update.set t.startedAt _) with
            | none => rfl
            | some written => cases written <;> rfl
  | claimNextQueued campaignId =>
      cases txn with
      | none => rfl
      | some t =>
          simp only [exec, Option.bind_some]
          split
          · rfl
          · next call _ =>
            cases writeCall others s.db t (call.claim t.startedAt) with
            | none => rfl
            | some written => cases written <;> rfl
  | begin | lockCampaign campaignId | updateCampaign campaignId expected new | updateLastDispatchAt campaignId ts
  | selectRetryDue campaignId | claimUnprocessedOne | markProcessed inboxId =>
      cases txn with
      | none => rfl
      | some t =>
          simp only [exec, Option.bind_some, Option.map_some]
          repeat' split
          all_goals rfl
  | _ => cases txn <;> rfl

section

variable {others : List Txn} {choice : Choice} {s s' : Shared} {txn txn' : Option Txn} {stmt : Stmt}
  {reply : Reply stmt}

theorem exec_wake (h : exec others choice s txn stmt = some (reply, s', txn')) (wake : Bool) :
    ∃ wake', exec others choice { s with wake } txn stmt = some (reply, { s' with wake := wake' }, txn') := by
  by_cases hnotify : stmt = .notify
  · subst hnotify
    cases h
    exact ⟨true, rfl⟩
  · refine ⟨wake, ?_⟩
    rw [exec_withWake hnotify, h]
    rfl

theorem exec_flag (h : exec others choice s txn stmt = some (reply, s', txn')) (hnotify : stmt ≠ .notify) :
    s'.wake = s.wake := by
  have hsame := @exec_withWake others choice s txn stmt hnotify s.wake
  rw [h] at hsame
  exact congrArg (fun result => result.2.1.wake) (Option.some.inj hsame)

end

/-! ### The process as a run of the system -/

/-- Nobody is told what the coroutine returns. -/
def Coroutine.process (coroutine : Coroutine) : Process where
  task := coroutine.task
  code := coroutine.code >>= fun _ => pure ()
  txn := coroutine.txn

theorem Task.coroutine_code (deps : Deps) (task : Task) :
    (task.coroutine deps >>= fun _ => pure ()) = task.code deps := by
  cases task <;> exact Program.bind_assoc _ _ _

section

variable {deps : Deps} {s s' : Service} {event : Event} {gone : List Process} {w : Bool}

/-- The system that the process is in, next to the coroutines `gone` of processes that have ended. -/
def Service.within (s : Service) (gone : List Process) (w : Bool) : Sys where
  shared := { s.shared with wake := w }
  procs := gone ++ s.procs.map Coroutine.process

theorem Service.within_txns (hgone : gone.filterMap Process.txn = []) : (s.within gone w).txns = s.txns := by
  rw [Sys.txns, Service.within, List.filterMap_append, hgone, List.filterMap_map]
  rfl

theorem Service.within_get (index : Nat) :
    (s.within gone w).procs[gone.length + index]? = (s.procs[index]?).map Coroutine.process := by
  rw [Service.within, List.getElem?_append_right (Nat.le_add_right _ _), Nat.add_sub_cancel_left, List.getElem?_map]

theorem Service.within_othersOf (hgone : gone.filterMap Process.txn = []) (index : Nat) :
    (s.within gone w).othersOf (gone.length + index) = s.othersOf index := by
  rw [Sys.othersOf, Service.within, List.eraseIdx_append_of_length_le (Nat.le_add_right _ _),
    Nat.add_sub_cancel_left, List.filterMap_append, hgone, List.eraseIdx_map, List.filterMap_map]
  rfl

theorem Service.within_spawn (tasks : List Task) :
    (s.within gone w).spawn deps tasks = (s.spawn deps tasks).within gone w := by
  have hcode : ∀ task : Task, Coroutine.process { task, code := task.coroutine deps } =
      { task, code := task.code deps } := fun task => by rw [Coroutine.process, Task.coroutine_code]
  simp [Sys.spawn, Service.spawn, Service.within, Function.comp_def, hcode]

theorem Service.within_startSweep (rows : List CallRow) :
    (s.within gone w).spawn deps (rows.map .reclaim) = (s.startSweep deps rows).within gone w := by
  cases rows with
  | nil => simp [Sys.spawn, startSweep]
  | cons row rest => exact within_spawn _

/-- What an event is to the system, next to `gone` coroutines of processes that have ended. -/
def Event.action (gone : Nat) : Event → Option Action
  | .elapse micros => some (.elapse micros)
  | .post body createdAt campaignId callIds => some (.post body createdAt campaignId callIds)
  | .ingest payload receivedAt inboxId => some (.ingest payload receivedAt inboxId)
  | .drain => some .drain
  | .sweep => some .sweep
  | .run index choice => some (.run (gone + index) choice)
  | .tick => some .tick
  | .join _ | .resume _ | .clear | .ticked | .slept => none

/-- The process does what the system can do, or something that the system does not see. -/
theorem Service.step_within (hgone : gone.filterMap Process.txn = []) (h : s.step deps event = some s') (w : Bool) :
    ∃ w', s'.within gone w' = s.within gone w ∨ ∃ action, event.action gone.length = some action ∧
      (s.within gone w).step deps action = some (s'.within gone w') := by
  have htxns : (s.within gone w).txns = s.txns := within_txns hgone
  have hunseen : ∀ s₁ : Service, s₁.shared = { s.shared with wake := s₁.shared.wake } → s₁.procs = s.procs →
      s₁.within gone w = s.within gone w := by
    intro s₁ hshared hprocs
    rw [within, within, hshared, hprocs]
  cases event with
  | elapse micros =>
      cases h
      exact ⟨w, Or.inr ⟨_, rfl, rfl⟩⟩
  | post body createdAt campaignId callIds =>
      rw [step] at h
      split at h
      · next db hcreate =>
          cases h
          refine ⟨true, Or.inr ⟨_, rfl, ?_⟩⟩
          rw [Sys.step, htxns]
          dsimp only [within]
          rw [hcreate]
      · cases h
        exact ⟨w, Or.inl rfl⟩
      · cases h
  | ingest payload receivedAt inboxId =>
      rw [step] at h
      split at h
      · cases h
        exact ⟨w, Or.inl rfl⟩
      · next eventId hid =>
          split at h
          · next db hinsert =>
              cases h
              refine ⟨w, Or.inr ⟨_, rfl, ?_⟩⟩
              rw [← within_spawn, Sys.step, hid, htxns]
              dsimp only [within]
              rw [hinsert]
          · cases h
  | drain =>
      cases h
      exact ⟨w, Or.inr ⟨_, rfl, congrArg some (within_spawn _)⟩⟩
  | sweep =>
      cases h
      exact ⟨w, Or.inr ⟨_, rfl, congrArg some (within_startSweep _)⟩⟩
  | run index choice =>
      rw [step, runCoroutine] at h
      split at h
      · next task stmt next txn hcoroutine =>
          split at h
          · next reply shared txn' hexec =>
              cases h
              obtain ⟨w', hwithin⟩ := exec_wake hexec w
              refine ⟨w', Or.inr ⟨_, rfl, ?_⟩⟩
              have hget : (s.within gone w).procs[gone.length + index]? =
                  some ⟨task, .call stmt fun reply => next reply >>= fun _ => pure (), txn⟩ := by
                rw [within_get, hcoroutine]
                rfl
              rw [Sys.step, Sys.runProcess, hget, within_othersOf hgone]
              dsimp only [within]
              rw [hwithin]
              refine congrArg some ?_
              simp [List.set_append_right, Coroutine.process, List.map_set]
          · cases h
      · cases h
  | join index =>
      rw [step, join] at h
      split at h
      · cases h
      · split at h
        · split at h <;> cases h <;> exact ⟨w, Or.inl (hunseen _ rfl rfl)⟩
        · cases h
  | resume timedOut =>
      rw [step] at h
      split at h
      · cases h
        exact ⟨w, Or.inl rfl⟩
      · cases h
  | clear =>
      rw [step] at h
      split at h
      · cases h
        exact ⟨w, Or.inl rfl⟩
      · cases h
  | tick =>
      rw [step] at h
      split at h
      · cases h
        exact ⟨w, Or.inr ⟨_, rfl, congrArg some (within_spawn _)⟩⟩
      · cases h
  | ticked =>
      rw [step] at h
      split at h
      · split at h
        · cases h
          exact ⟨w, Or.inl rfl⟩
        · cases h
          exact ⟨w, Or.inl rfl⟩
        · cases h
      · cases h
  | slept =>
      rw [step] at h
      split at h
      · cases h
        exact ⟨w, Or.inl rfl⟩
      · cases h

/-- Every state of the process is a reachable state of the system, but for the flag. -/
theorem Service.Reached.within (h : Reached deps s) : ∃ gone w, gone.filterMap Process.txn = [] ∧
    Reachable deps (s.within gone w) := by
  induction h with
  | @start sys hsys hidle =>
      refine ⟨sys.procs, sys.shared.wake, hidle, ?_⟩
      rw [Service.within]
      simpa using hsys
  | step event _ hstep ih =>
      obtain ⟨gone, w, hgone, hreachable⟩ := ih
      obtain ⟨w', hwithin⟩ := step_within hgone hstep w
      refine ⟨gone, w', hgone, ?_⟩
      rcases hwithin with he | ⟨action, -, hstep'⟩
      · exact he ▸ hreachable
      · exact .step action hreachable trivial hstep'

theorem Service.Reached.consistent (h : Reached deps s) : Consistent s.shared := by
  obtain ⟨gone, w, -, hreachable⟩ := h.within
  obtain ⟨h₁, h₂, h₃, h₄, h₅, h₆, h₇, h₈, h₉, h₁₀, h₁₁, h₁₂, h₁₃, h₁₄, h₁₅⟩ := hreachable.consistent
  exact ⟨h₁, h₂, h₃, h₄, h₅, h₆, h₇, h₈, h₉, h₁₀, h₁₁, h₁₂, h₁₃, h₁₄, h₁₅⟩

/-! ### What an event does -/

/-- The coroutine has returned or raised. -/
def Coroutine.over (coroutine : Coroutine) : Prop := ∀ stmt next, coroutine.code ≠ .call stmt next

inductive Service.Stepped (deps : Deps) (s : Service) : Event → Service → Prop
  /-- The world moves, and drains start. -/
  | world (event : Event) (shared : Shared) (tasks : List Task) (hwake : s.shared.wake = true → shared.wake = true)
      (htasks : ∀ task ∈ tasks, task = .drain) : Stepped deps s event ({ s with shared }.spawn deps tasks)
  | swept (row : CallRow) (rest : List CallRow) :
      Stepped deps s .sweep { s.spawn deps ((row :: rest).map .reclaim) with
        sweeps := s.sweeps ++ [List.range' s.procs.length (row :: rest).length] }
  | ran (index : Nat) (choice : Choice) (task : Task) (stmt : Stmt) (next : Reply stmt → Co Outcome)
      (txn : Option Txn) (reply : Reply stmt) (shared : Shared) (txn' : Option Txn)
      (hcoroutine : s.procs[index]? = some ⟨task, .call stmt next, txn⟩)
      (hexec : exec (s.othersOf index) choice s.shared txn stmt = some (reply, shared, txn')) :
      Stepped deps s (.run index choice) { s with shared, procs := s.procs.set index ⟨task, next reply, txn'⟩ }
  /-- The flag goes up where a task has freed a slot. -/
  | joined (index : Nat) (tasks : List Nat) (wake : Bool) (hgroup : s.sweeps[index]? = some tasks)
      (hdone : ∀ task ∈ tasks, (s.outcome? task).isSome = true) (hwake : s.shared.wake = true → wake = true)
      (hfreed : ∀ task ∈ tasks, ∀ outcome, s.outcome? task = some outcome → outcome.freed = true → wake = true) :
      Stepped deps s (.join index) { s with shared := { s.shared with wake }, sweeps := s.sweeps.eraseIdx index }
  /-- The loop moves on from where it stands, but for the two steps below. -/
  | moved (event : Event) (loop : LoopAt) (hresumed : s.loop ≠ .resumed) (hcleared : s.loop ≠ .cleared)
      (hticked : ∀ index, s.loop = .ticking index → ∀ coroutine, s.procs[index]? = some coroutine → coroutine.over) :
      Stepped deps s event { s with loop }
  | cleared (hresumed : s.loop = .resumed) :
      Stepped deps s .clear { s with shared := { s.shared with wake := false }, loop := .cleared }
  | began (hcleared : s.loop = .cleared) :
      Stepped deps s .tick { s.spawn deps [.tick] with loop := .ticking s.procs.length }

/-- Where the loop goes when its tick is over. -/
theorem Service.Stepped.ticked {index : Nat} {coroutine : Coroutine} (hticking : s.loop = .ticking index)
    (hget : s.procs[index]? = some coroutine) (hover : coroutine.over) (loop : LoopAt) :
    Stepped deps s .ticked { s with loop } := by
  refine .moved _ loop (by rw [hticking]; nofun) (by rw [hticking]; nofun) ?_
  intro index' hticking' coroutine' hcoroutine
  obtain rfl := LoopAt.ticking.inj (hticking.symm.trans hticking')
  rw [hget] at hcoroutine
  exact Option.some.inj hcoroutine ▸ hover

theorem Service.ticked_cases (h : s.step deps .ticked = some s') : Stepped deps s .ticked s' := by
  rw [step] at h
  split at h
  · next index hticking =>
      split at h
      · next task value txn hget =>
          rw [← Option.some.inj h]
          exact .ticked hticking hget (fun _ _ he => nomatch he) _
      · next task error txn hget =>
          rw [← Option.some.inj h]
          exact .ticked hticking hget (fun _ _ he => nomatch he) _
      · cases h
  · cases h

theorem Service.step_cases (h : s.step deps event = some s') : Stepped deps s event s' := by
  have hworld : ∀ (event : Event) (shared : Shared), (s.shared.wake = true → shared.wake = true) →
      Stepped deps s event { s with shared } := by
    intro event shared hwake
    have hnone : ({ s with shared } : Service) = ({ s with shared } : Service).spawn deps [] := by simp [spawn]
    rw [hnone]
    exact .world event shared [] hwake nofun
  cases event with
  | elapse micros =>
      cases h
      exact hworld _ _ id
  | post body createdAt campaignId callIds =>
      rw [step] at h
      split at h
      · cases h
        exact hworld _ _ fun _ => rfl
      · cases h
        exact hworld _ _ id
      · cases h
  | ingest payload receivedAt inboxId =>
      rw [step] at h
      split at h
      · cases h
        exact hworld _ _ id
      · split at h
        · next db _ =>
            cases h
            exact .world _ { s.shared with db } [.drain] id fun task htask => List.mem_singleton.mp htask
        · cases h
  | drain =>
      cases h
      exact .world _ s.shared [.drain] id fun task htask => List.mem_singleton.mp htask
  | sweep =>
      obtain rfl := Option.some.inj h
      cases s.shared.db.findStuckDialing deps.settings.stuckReclaimSeconds s.shared.now with
      | nil => exact hworld _ _ id
      | cons row rest => exact .swept row rest
  | run index choice =>
      rw [step, runCoroutine] at h
      split at h
      · next task stmt next txn hcoroutine =>
          split at h
          · next reply shared txn' hexec =>
              cases h
              exact .ran index choice task stmt next txn reply shared txn' hcoroutine hexec
          · cases h
      · cases h
  | join index =>
      rw [step, join] at h
      split at h
      · cases h
      · next tasks hgroup =>
          split at h
          · next hdone =>
              rw [List.all_eq_true] at hdone
              split at h
              · cases h
                exact .joined index tasks true hgroup hdone (fun _ => rfl) fun _ _ _ _ _ => rfl
              · next hkept =>
                  cases h
                  refine .joined index tasks s.shared.wake hgroup hdone id fun task htask outcome hsome hfreed => ?_
                  refine absurd (List.any_eq_true.mpr ⟨task, htask, ?_⟩) hkept
                  rw [hsome]
                  exact hfreed
          · cases h
  | resume timedOut =>
      rw [step] at h
      split at h
      · next hwaiting =>
          rw [← Option.some.inj h]
          refine .moved _ .resumed ?_ ?_ ?_ <;> rw [hwaiting.1] <;> nofun
      · cases h
  | clear =>
      rw [step] at h
      split at h
      · next hresumed =>
          rw [← Option.some.inj h]
          exact .cleared hresumed
      · cases h
  | tick =>
      rw [step] at h
      split at h
      · next hcleared =>
          rw [← Option.some.inj h]
          exact .began hcleared
      · cases h
  | ticked => exact ticked_cases h
  | slept =>
      rw [step] at h
      split at h
      · next hsleeping =>
          rw [← Option.some.inj h]
          refine .moved _ .waiting ?_ ?_ ?_ <;> rw [hsleeping] <;> nofun
      · cases h

end

end VoiceCampaign

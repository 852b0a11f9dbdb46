import VoiceCampaign.Protocol.Drain
import VoiceCampaign.Protocol.Tick
import VoiceCampaign.Protocol.Reclaim
import VoiceCampaign.Protocol.Requests

/-!
# Every run of the system

The processes of the system as a pool of threads. A discipline that hosts the system stays secure in
every run, and the discipline of `Rules.lean` hosts it: so every reachable state is consistent, and
every step of a process keeps its promises.
-/

namespace VoiceCampaign

open Concurrency Discipline

/-! ### Processes as threads -/

namespace Process

/-- It has a statement to run. -/
def live (process : Process) : Bool :=
  match process.code with
  | .call _ _ => true
  | _ => false

def party (process : Process) : Party := ⟨if process.live then some process.task else none, process.txn⟩

def thread (process : Process) : Thread Stmt Reply Err Party := ⟨process.code, process.party⟩

end Process

namespace Sys

def threads (s : Sys) : List (Thread Stmt Reply Err Party) := s.procs.map Process.thread

/-- The other processes, as process `index` sees them. -/
def partiesOf (s : Sys) (index : Nat) : List Party := (s.threads.eraseIdx index).map Thread.loc

theorem txnsOf_partiesOf (s : Sys) (index : Nat) : txnsOf (s.partiesOf index) = s.othersOf index := by
  rw [partiesOf, threads, List.eraseIdx_map, List.map_map, txnsOf, List.filterMap_map]
  rfl

theorem threads_get {s : Sys} {index : Nat} {process : Process} (h : s.procs[index]? = some process) :
    s.threads[index]? = some process.thread := by
  rw [threads, List.getElem?_map, h]
  rfl

theorem threads_set (s : Sys) (index : Nat) (process : Process) :
    (s.procs.set index process).map Process.thread = s.threads.set index process.thread := by
  rw [threads, List.map_set]

theorem mem_txns {s : Sys} {thread : Thread Stmt Reply Err Party} (h : thread ∈ s.threads) :
    ∀ t ∈ thread.loc.txn, t ∈ s.txns := by
  obtain ⟨process, hprocess, rfl⟩ := List.mem_map.mp h
  exact fun t ht => List.mem_filterMap.mpr ⟨process, hprocess, ht⟩

/-- The tasks an action starts. -/
def spawns (deps : Deps) (s : Sys) : Action → List Task
  | .ingest payload _ _ => if (ingestEventId payload).isSome then [.drain] else []
  | .tick => [.tick]
  | .drain => [.drain]
  | .sweep => (s.shared.db.findStuckDialing deps.settings.stuckReclaimSeconds s.shared.now).map .reclaim
  | _ => []

/-- What an action that runs no process does to the shared state. -/
inductive World (deps : Deps) (s : Sys) : Action → Shared → Prop
  | elapse (micros : Nat) : World deps s (.elapse micros) { s.shared with now := s.shared.now + micros }
  | posted (body : CampaignCreate) (createdAt : Time) (campaignId : CampaignId) (callIds : List CallId)
      (db : Db) (hposted : Posted s.txns s.shared.db db
        (body.campaignRow deps.settings createdAt campaignId) (body.callRows createdAt campaignId callIds)) :
      World deps s (.post body createdAt campaignId callIds) { s.shared with db, wake := true }
  | ingested (payload : Payload) (receivedAt : Time) (inboxId : InboxId) (db : Db)
      (hingested : Ingested s.shared.db db) :
      World deps s (.ingest payload receivedAt inboxId) { s.shared with db }
  | still (action : Action) (hrun : ∀ index choice, action ≠ .run index choice)
      (hcrash : ∀ index, action ≠ .crash index) : World deps s action s.shared

theorem World.grows {deps : Deps} {s : Sys} {action : Action} {shared : Shared}
    (h : World deps s action shared) : Grows s.shared shared := by
  cases h with
  | elapse micros =>
      exact (Rely.elapse s.shared micros ⟨none, none⟩).toGrows
  | posted body createdAt campaignId callIds db hposted =>
      exact (hposted.at_wake.rely le_rfl rfl (l := ⟨none, none⟩) nofun).toGrows
  | ingested payload receivedAt inboxId db hingested => exact (hingested.rely ⟨none, none⟩).toGrows
  | still action hrun hcrash => exact .refl _

/-- The world leaves the calls that are there as they are. -/
theorem World.call? {deps : Deps} {s : Sys} {action : Action} {shared : Shared}
    (h : World deps s action shared) {id : CallId} {row : CallRow} (hrow : s.shared.db.call? id = some row) :
    shared.db.call? id = some row := by
  cases h with
  | elapse micros => exact hrow
  | posted body createdAt campaignId callIds db hposted => exact hposted.at_wake.call?_old hrow
  | ingested payload receivedAt inboxId db hingested =>
      rw [hingested.rest]
      exact hrow
  | still action hrun hcrash => exact hrow

theorem World.inbox? {deps : Deps} {s : Sys} {action : Action} {shared : Shared}
    (h : World deps s action shared) {id : InboxId} {row : InboxRow}
    (hrow : s.shared.db.inbox? id = some row) : shared.db.inbox? id = some row := by
  cases h with
  | elapse micros => exact hrow
  | posted body createdAt campaignId callIds db hposted =>
      show db.inbox? id = some row
      rw [Db.inbox?, hposted.inbox]
      exact hrow
  | ingested payload receivedAt inboxId db hingested =>
      obtain ⟨more, hrows⟩ := hingested.rows
      show db.inbox? id = some row
      rw [Db.inbox?] at hrow ⊢
      rw [hrows, lookup_append, hrow]
      rfl
  | still action hrun hcrash => exact hrow

theorem World.audit {deps : Deps} {s : Sys} {action : Action} {shared : Shared}
    (h : World deps s action shared) : shared.db.audit = s.shared.db.audit := by
  cases h with
  | elapse micros => rfl
  | posted body createdAt campaignId callIds db hposted => exact hposted.audit
  | ingested payload receivedAt inboxId db hingested =>
      rw [hingested.rest]
  | still action hrun hcrash => rfl

theorem World.auditSeq {deps : Deps} {s : Sys} {action : Action} {shared : Shared}
    (h : World deps s action shared) : shared.auditSeq = s.shared.auditSeq := by
  cases h <;> rfl

theorem World.cursors {deps : Deps} {s : Sys} {action : Action} {shared : Shared}
    (h : World deps s action shared) : shared.db.cursors = s.shared.db.cursors := by
  cases h with
  | elapse micros => rfl
  | posted body createdAt campaignId callIds db hposted => exact hposted.cursors
  | ingested payload receivedAt inboxId db hingested =>
      rw [hingested.rest]
  | still action hrun hcrash => rfl

/-- The three kinds of step: the world moves and tasks start, a process runs, a process dies. -/
theorem step_cases {deps : Deps} {s s' : Sys} {action : Action} (h : s.step deps action = some s') :
    (∃ shared, World deps s action shared ∧ s' = { s with shared }.spawn deps (spawns deps s action)) ∨
      (∃ index choice task stmt next txn reply shared txn', action = .run index choice ∧
        s.procs[index]? = some ⟨task, .call stmt next, txn⟩ ∧
        exec (s.othersOf index) choice s.shared txn stmt = some (reply, shared, txn') ∧
        s' = ⟨shared, s.procs.set index ⟨task, next reply, txn'⟩⟩) ∨
      ∃ index process, action = .crash index ∧ s.procs[index]? = some process ∧
        s' = { s with procs := s.procs.set index ⟨process.task, .done (), none⟩ } := by
  have hnone : ∀ shared : Shared, ({ s with shared } : Sys) = ({ s with shared } : Sys).spawn deps [] :=
    fun shared => by simp [spawn]
  cases action with
  | elapse micros =>
      cases h
      exact Or.inl ⟨_, .elapse micros, hnone _⟩
  | post body createdAt campaignId callIds =>
      rw [step] at h
      split at h
      · next db hcreate =>
          cases h
          exact Or.inl ⟨_, .posted body createdAt campaignId callIds db (createCampaign_ok hcreate), hnone _⟩
      · cases h
        exact Or.inl ⟨_, .still _ nofun nofun, hnone _⟩
      · cases h
  | ingest payload receivedAt inboxId =>
      rw [step] at h
      split at h
      · next hnot =>
          cases h
          refine Or.inl ⟨_, .still _ nofun nofun, ?_⟩
          rw [spawns, hnot]
          exact hnone _
      · next eventId hid =>
          split at h
          · next db hinsert =>
              cases h
              refine Or.inl ⟨_, .ingested payload receivedAt inboxId db (insertInbox_some hinsert), ?_⟩
              rw [spawns, hid]
              rfl
          · cases h
  | tick =>
      cases h
      exact Or.inl ⟨_, .still _ nofun nofun, rfl⟩
  | drain =>
      cases h
      exact Or.inl ⟨_, .still _ nofun nofun, rfl⟩
  | sweep =>
      cases h
      exact Or.inl ⟨_, .still _ nofun nofun, rfl⟩
  | run index choice =>
      rw [step, runProcess] at h
      split at h
      · next task stmt next txn hprocess =>
          split at h
          · next reply shared txn' hexec =>
              cases h
              exact Or.inr (Or.inl ⟨index, choice, task, stmt, next, txn, reply, shared, txn', rfl,
                hprocess, hexec, rfl⟩)
          · cases h
      · cases h
  | crash index =>
      rw [step] at h
      split at h
      · next process hprocess =>
          cases h
          exact Or.inr (Or.inr ⟨index, process, rfl, hprocess, rfl⟩)
      · cases h

end Sys

theorem ReachableBy.mono {deps : Deps} {allowed allowed' : Sys → Action → Prop} {s : Sys}
    (h : ReachableBy deps allowed s) (hallowed : ∀ s action, allowed s action → allowed' s action) :
    ReachableBy deps allowed' s := by
  induction h with
  | init now => exact .init now
  | step action _ hmeets hstep ih => exact .step action ih (hallowed _ _ hmeets) hstep

theorem ReachableBy.reachable {deps : Deps} {allowed : Sys → Action → Prop} {s : Sys}
    (h : ReachableBy deps allowed s) : Reachable deps s := h.mono fun _ _ _ => trivial

/-- All coroutines die. -/
theorem ReachableBy.dead {deps : Deps} {allowed : Sys → Action → Prop} {s : Sys} (h : ReachableBy deps allowed s)
    (hallowed : ∀ s index, allowed s (.crash index)) : ReachableBy deps allowed
      { s with procs := s.procs.map fun process => { task := process.task, code := .done () } } := by
  have hfrom : ∀ (dead live : List Process), ReachableBy deps allowed { s with procs := dead ++ live } →
      ReachableBy deps allowed
        { s with procs := dead ++ live.map fun process => { task := process.task, code := .done () } } := by
    intro dead live
    induction live generalizing dead with
    | nil => exact id
    | cons process rest ih =>
        intro h
        have hcrash : ({ s with procs := dead ++ process :: rest } : Sys).step deps (.crash dead.length) =
            some { s with procs := dead ++ ⟨process.task, .done (), none⟩ :: rest } := by
          rw [Sys.step]
          simp [List.set_append_right]
        have hafter : ReachableBy deps allowed { s with procs := dead ++ ⟨process.task, .done (), none⟩ :: rest } :=
          .step _ h (hallowed _ _) hcrash
        have hnext := ih (dead ++ [⟨process.task, .done (), none⟩]) (by simpa using hafter)
        simpa using hnext
  exact hfrom [] s.procs h

/-! ### Hosting -/

/-- A discipline under which the actions that are `allowed`, in states of which something is `known`,
start safe tasks, run statements of its own, and otherwise do what every thread tolerates. -/
structure Hosts {σ : Type} (deps : Deps) (known : Sys → Prop) (allowed : Sys → Action → Prop)
    (D : Discipline Stmt Reply σ Party) (view : σ → Shared) : Prop where
  exec : ∀ {s x index choice task stmt next txn reply shared txn'}, known s →
    allowed s (.run index choice) → view x = s.shared → Secure D x s.threads →
    s.procs[index]? = some ⟨task, .call stmt next, txn⟩ →
    exec (s.othersOf index) choice s.shared txn stmt = some (reply, shared, txn') →
    ∃ x', view x' = shared ∧ D.exec (s.partiesOf index) x ⟨some task, txn⟩ stmt reply x' ⟨some task, txn'⟩
  world : ∀ {s x action shared}, known s → allowed s action → view x = s.shared → D.inv x →
    Sys.World deps s action shared → ∃ x', view x' = shared ∧ D.inv x' ∧
      ∀ thread ∈ s.threads, D.rely thread.loc x x'
  starts : ∀ {s x task shared} {action : Action}, known s → allowed s action →
    task ∈ Sys.spawns deps s action → Grows s.shared shared → view x = shared → D.inv x →
    D.Safe (fun _ _ _ => True) (fun _ _ _ => True) (task.code deps) x ⟨some task, none⟩
  meets : ∀ {s task} {action : Action}, known s → allowed s action →
    task ∈ Sys.spawns deps s action → ∀ thread ∈ s.threads, D.compat ⟨some task, none⟩ thread.loc
  mates : ∀ {s} {action : Action}, known s → allowed s action →
    (Sys.spawns deps s action).Pairwise fun a b => D.compat ⟨some a, none⟩ ⟨some b, none⟩
  ended : ∀ {task txn l}, D.compat ⟨some task, txn⟩ l → D.compat ⟨none, txn⟩ l
  dead : ∀ {task txn l}, D.compat ⟨task, txn⟩ l → D.compat ⟨none, none⟩ l

section

variable {σ : Type} {deps : Deps} {known : Sys → Prop} {allowed : Sys → Action → Prop}
  {D : Discipline Stmt Reply σ Party} {view : σ → Shared}

/-- A process whose code is over is safe. -/
theorem Process.safe_of_over {x : σ} {process : Process} (hlive : process.live = false) :
    process.thread.Safe D x := by
  cases hcode : process.code with
  | done value =>
      rw [Thread.Safe, Process.thread, hcode]
      exact fun _ _ _ => trivial
  | fail error =>
      rw [Thread.Safe, Process.thread, hcode]
      exact fun _ _ _ => trivial
  | call op next =>
      rw [Process.live, hcode] at hlive
      cases hlive

/-- A process as a thread, whether or not its code is over. -/
theorem Hosts.thread (h : Hosts deps known allowed D view) {x : σ} (process : Process)
    (hsafe : D.Safe (fun _ _ _ => True) (fun _ _ _ => True) process.code x ⟨some process.task, process.txn⟩) :
    process.thread.Safe D x ∧
      ∀ l, D.compat ⟨some process.task, process.txn⟩ l → D.compat process.party l := by
  cases hlive : process.live with
  | true =>
      rw [Thread.Safe, Process.thread, Process.party, hlive]
      exact ⟨hsafe, fun _ h => h⟩
  | false =>
      refine ⟨Process.safe_of_over hlive, fun l hcompat => ?_⟩
      rw [Process.party, hlive]
      exact h.ended hcompat

/-- One action of the system. -/
theorem Hosts.step (h : Hosts deps known allowed D view) {s s' : Sys} {x : σ} {action : Action}
    (hview : view x = s.shared) (hsecure : Secure D x s.threads) (hknown : known s)
    (hallowed : allowed s action) (hstep : s.step deps action = some s') :
    ∃ x', view x' = s'.shared ∧ Secure D x' s'.threads := by
  rcases Sys.step_cases hstep with ⟨shared, hworld, rfl⟩ |
    ⟨index, choice, task, stmt, next, txn, reply, shared, txn', rfl, hprocess, hexec, rfl⟩ |
    ⟨index, process, rfl, hprocess, rfl⟩
  · obtain ⟨x', hview', hinv', hrely⟩ := h.world hknown hallowed hview hsecure.inv hworld
    have hthreads : (({ s with shared } : Sys).spawn deps (Sys.spawns deps s action)).threads =
        s.threads ++ (Sys.spawns deps s action).map fun task => Process.thread ⟨task, task.code deps, none⟩ := by
      simp [Sys.threads, Sys.spawn, Function.comp_def]
    have hstarts := fun task htask => h.thread ⟨task, task.code deps, none⟩
      (h.starts hknown hallowed htask hworld.grows hview' hinv')
    refine ⟨x', hview', ?_⟩
    rw [hthreads]
    refine (hsecure.env hinv' hrely).append ?_ ?_ ?_
    · rintro _ hmem
      obtain ⟨task, htask, rfl⟩ := List.mem_map.mp hmem
      exact (hstarts task htask).1
    · rintro _ hmem thread hthread
      obtain ⟨task, htask, rfl⟩ := List.mem_map.mp hmem
      exact (hstarts task htask).2 _ (h.meets hknown hallowed htask thread hthread)
    · refine List.pairwise_map.mpr ((h.mates hknown hallowed).imp_of_mem fun {task other} htask hother hmates => ?_)
      exact D.compat_symm ((hstarts other hother).2 _ (D.compat_symm ((hstarts task htask).2 _ hmates)))
  · obtain ⟨x', hview', hexec'⟩ := h.exec hknown hallowed hview hsecure hprocess hexec
    obtain ⟨hsecure', -, -⟩ := hsecure.run (Sys.threads_get hprocess) hexec'
    have hlt : index < s.threads.length := (List.getElem?_eq_some_iff.mp (Sys.threads_get hprocess)).1
    have hget : (s.threads.set index ⟨next reply, ⟨some task, txn'⟩⟩)[index]? =
        some ⟨next reply, ⟨some task, txn'⟩⟩ := List.getElem?_set_self hlt
    obtain ⟨hsafe, hcompat⟩ := h.thread ⟨task, next reply, txn'⟩
      (hsecure'.safe _ (List.mem_of_getElem? hget))
    refine ⟨x', hview', ?_⟩
    have hreplace := hsecure'.replace hget hsafe hcompat
    rw [List.set_set] at hreplace
    rw [Sys.threads, Sys.threads_set]
    exact hreplace
  · refine ⟨x, hview, ?_⟩
    rw [Sys.threads, Sys.threads_set]
    exact hsecure.replace (Sys.threads_get hprocess) (Process.safe_of_over rfl) fun l => h.dead

end

/-! ### The discipline hosts the system -/

theorem Consistent.empty (now : Time) : Consistent { now } where
  callIds := .nil
  campaignIds := .nil
  inboxIds := .nil
  phones := fun _ h => nomatch h
  sound := fun _ h => nomatch h
  claimed := fun _ h => nomatch h
  owner := fun _ h => nomatch h
  staffed := fun _ h => nomatch h
  status := fun _ h => nomatch h
  promoted := fun _ h => nomatch h
  rolledUp := fun _ h => nomatch h
  budget := fun _ h => nomatch h
  paced := fun _ h => nomatch h
  auditCall := fun _ h => nomatch h
  auditCampaign := fun _ h => nomatch h

theorem commit_guar {others : List Party} {s s' : Shared} {l l' : Party} {t : Txn} {reply : Unit}
    (htxn : l.txn = some t) (hready : Ready s l.task t)
    (hexec : discipline.exec others s l .commit reply s' l') : Guar l s s' := by
  obtain ⟨-, choice, hrun⟩ := hexec
  obtain ⟨t', htxn', rfl, -⟩ := exec_commit hrun
  obtain rfl := Option.some.inj (htxn.symm.trans htxn')
  exact .commit t htxn hready

theorem drainCommits (deps : Deps) : DrainCommits deps discipline id where
  empty _ htxn hblank _ hexec := commit_guar htxn (hblank.ready _ _) hexec
  done htask htxn _ hdone _ hexec := commit_guar htxn (htask ▸ hdone.ready) hexec

theorem tickCommits : TickCommits discipline id fun _ _ => True where
  read _ _ _ _ := trivial
  steady _ _ _ := trivial
  still htask htxn _ hready _ hexec := ⟨commit_guar htxn (htask ▸ hready) hexec, fun _ h => h⟩
  claim htask htxn _ _ _ hsettled hinbox hexec :=
    commit_guar htxn (htask ▸ hsettled.ready (.unmarked hinbox)) hexec

/-- Every task of the service keeps its promises. -/
theorem task_safe (deps : Deps) {s : Shared} {task : Task} (hseen : ∀ row, task = .reclaim row → Seen s row) :
    discipline.Safe (fun _ _ _ => True) (fun _ _ _ => True) (task.code deps) s ⟨some task, none⟩ := by
  cases task with
  | tick => exact tick_safe deps above_self tickCommits rfl rfl
  | drain => exact processPendingInbox_safe above_self (drainCommits deps) rfl rfl
  | reclaim row => exact reclaimOne_safe (hseen row rfl) rfl rfl deps

namespace Sys

variable {deps : Deps} {s : Sys} {action : Action} {shared : Shared}

theorem World.consistent (h : World deps s action shared) (hinv : Consistent s.shared) :
    Consistent shared := by
  cases h with
  | elapse micros => exact hinv.of_db rfl fun _ h => h
  | posted body createdAt campaignId callIds db hposted =>
      exact hposted.at_wake.consistent hinv rfl
  | ingested payload receivedAt inboxId db hingested => exact hingested.consistent hinv
  | still action hrun hcrash => exact hinv

theorem World.rely (h : World deps s action shared) {l : Party} (hl : ∀ t ∈ l.txn, t ∈ s.txns) :
    Rely l s.shared shared := by
  cases h with
  | elapse micros => exact .elapse s.shared micros l
  | posted body createdAt campaignId callIds db hposted =>
      exact hposted.at_wake.rely le_rfl rfl hl
  | ingested payload receivedAt inboxId db hingested => exact hingested.rely l
  | still action hrun hcrash => exact .refl _ _

/-- Only a sweep starts reclaim tasks, for the rows it finds. -/
theorem spawns_reclaim {row : CallRow} (h : .reclaim row ∈ spawns deps s action) : action = .sweep ∧
    row ∈ s.shared.db.findStuckDialing deps.settings.stuckReclaimSeconds s.shared.now := by
  cases action with
  | sweep =>
      obtain ⟨found, hfound, he⟩ := List.mem_map.mp h
      cases he
      exact ⟨rfl, hfound⟩
  | ingest payload receivedAt inboxId =>
      rw [spawns] at h
      split at h
      · rw [List.mem_singleton] at h
        cases h
      · cases h
  | tick =>
      rw [spawns, List.mem_singleton] at h
      cases h
  | drain =>
      rw [spawns, List.mem_singleton] at h
      cases h
  | _ => cases h

end Sys

theorem discipline_hosts (deps : Deps) :
    Hosts deps (fun s => Consistent s.shared) (fun _ _ => True) discipline id where
  exec {s x index choice task stmt next txn reply shared txn'} _ _ hview _ _ hexec := by
    obtain rfl : x = s.shared := hview
    refine ⟨shared, rfl, rfl, choice, ?_⟩
    rw [Sys.txnsOf_partiesOf]
    exact hexec
  world {s x action shared} hconsistent _ hview _ hworld := by
    obtain rfl : x = s.shared := hview
    exact ⟨shared, rfl, hworld.consistent hconsistent, fun thread hthread =>
      hworld.rely (Sys.mem_txns hthread)⟩
  starts {s x task shared action} hconsistent _ htask hgrows hview _ := by
    obtain rfl : x = shared := hview
    refine task_safe deps fun row hrow => ?_
    subst hrow
    exact (hconsistent.seen_of_mem (List.mem_filter.mp (Sys.spawns_reclaim htask).2).1).mono hgrows
  meets _ _ _ _ _ := ⟨nofun, nofun⟩
  mates _ _ := List.pairwise_of_forall fun _ _ => ⟨nofun, nofun⟩
  ended h := ⟨h.locks, h.phones⟩
  dead _ := ⟨nofun, nofun⟩

namespace Reachable

variable {deps : Deps} {s s' : Sys}

/-- In every reachable state the tables are consistent and the processes keep their promises. -/
theorem secure (h : Reachable deps s) : Secure discipline s.shared s.threads := by
  induction h with
  | init now => exact ⟨.empty now, nofun, fun i j a b _ ha => by cases ha⟩
  | step action _ _ hstep ih =>
      obtain ⟨_, rfl, hsecure⟩ := (discipline_hosts deps).step rfl ih ih.inv trivial hstep
      exact hsecure

theorem consistent (h : Reachable deps s) : Consistent s.shared := h.secure.inv

/-- No row is locked by two open transactions. -/
theorem locks_apart (h : Reachable deps s) {i j : Nat} {a b : Process} {t u : Txn}
    (ha : s.procs[i]? = some a) (hb : s.procs[j]? = some b) (hne : j ≠ i) (ht : t ∈ a.txn) (hu : u ∈ b.txn) :
    ∀ lock ∈ t.locks, lock ∉ u.locks :=
  (h.secure.compat i j _ _ (Ne.symm hne) (Sys.threads_get ha) (Sys.threads_get hb)).locks t ht u hu

end Reachable

/-! ### Steps -/

/-- A step of a process: what it had established, and what it promised. -/
theorem Reachable.run {deps : Deps} {s : Sys} (h : Reachable deps s) {index : Nat} {choice : Choice}
    {task : Task} {stmt : Stmt} {next : Reply stmt → Co Unit} {txn txn' : Option Txn} {reply : Reply stmt}
    {shared : Shared} (hprocess : s.procs[index]? = some ⟨task, .call stmt next, txn⟩)
    (hexec : exec (s.othersOf index) choice s.shared txn stmt = some (reply, shared, txn')) :
    discipline.exec (s.partiesOf index) s.shared ⟨some task, txn⟩ stmt reply shared ⟨some task, txn'⟩ ∧
      Asked s.shared ⟨some task, txn⟩ stmt ∧ Guar ⟨some task, txn⟩ s.shared shared := by
  have hrun : discipline.exec (s.partiesOf index) s.shared ⟨some task, txn⟩ stmt reply shared
      ⟨some task, txn'⟩ := by
    refine ⟨rfl, choice, ?_⟩
    rw [Sys.txnsOf_partiesOf]
    exact hexec
  obtain ⟨-, hasked, hguar⟩ := h.secure.run (Sys.threads_get hprocess) hrun
  exact ⟨hrun, hasked, hguar⟩

theorem Reachable.guar {deps : Deps} {s s' : Sys} (h : Reachable deps s) {index : Nat} {choice : Choice}
    (hstep : s.step deps (.run index choice) = some s') :
    ∃ process, s.procs[index]? = some process ∧
      Guar ⟨some process.task, process.txn⟩ s.shared s'.shared := by
  rcases Sys.step_cases hstep with ⟨shared, hworld, rfl⟩ |
    ⟨_, _, task, stmt, next, txn, reply, shared, txn', ⟨⟩, hprocess, hexec, rfl⟩ |
    ⟨_, process, ⟨⟩, hprocess, rfl⟩
  · cases hworld with
    | still _ hrun _ => exact absurd rfl (hrun index choice)
  · exact ⟨_, hprocess, (h.run hprocess hexec).2.2⟩

/-- No process creates a call. -/
theorem Guar.call?_none {l : Party} {s s' : Shared} (h : Guar l s s') {id : CallId}
    (hnone : s.db.call? id = none) : s'.db.call? id = none := by
  cases h with
  | quiet hdb hnow hissued => rw [hdb, hnone]
  | commit t htxn hready =>
      cases hready with
      | quiet inbox hcalls hcampaigns hmarks hnotes => rw [Shared.call?_commit_nil hcalls, hnone]
      | moves inbox before after event folds hmoves hfolds hmarks haudit =>
          rw [hmoves.call?_commit, if_neg, hnone]
          rintro rfl
          rw [hmoves.row] at hnone
          cases hnone

/-- Every call was there before. -/
theorem Guar.origin {l : Party} {s s' : Shared} (h : Guar l s s') (hinv : Consistent s) {row : CallRow}
    (hrow : row ∈ s'.db.calls) : ∃ old ∈ s.db.calls, old.Evolves row := by
  have hsome := (h.consistent hinv).call?_of_mem hrow
  cases hbefore : s.db.call? row.id with
  | none => cases (h.call?_none hbefore).symm.trans hsome
  | some old =>
      obtain ⟨row', hrow', hevolves⟩ := h.grows.call _ _ hbefore
      obtain rfl := Option.some.inj (hsome.symm.trans hrow')
      exact ⟨old, (lookup_some hbefore).1, hevolves⟩

/-- Every campaign was there before. -/
theorem Guar.campaign_origin {l : Party} {s s' : Shared} (h : Guar l s s') (hinv : Consistent s) {row : CampaignRow}
    (hrow : row ∈ s'.db.campaigns) : ∃ old ∈ s.db.campaigns, old.Evolves row := by
  have hids : s'.db.campaigns.map CampaignRow.id = s.db.campaigns.map CampaignRow.id := by
    cases h with
    | quiet hdb _ _ => rw [hdb]
    | commit t _ _ => exact map_key_overlay _ _
  obtain ⟨old, hold, hid⟩ := List.mem_map.mp (hids ▸ List.mem_map_of_mem hrow)
  obtain ⟨row', hrow', hevolves⟩ := h.grows.campaign _ _ (lookup_of_mem hinv.campaignIds hold)
  obtain ⟨hmem, hid'⟩ := lookup_some hrow'
  obtain rfl := eq_of_key_eq (h.consistent hinv).campaignIds hmem hrow (hid'.trans hid)
  exact ⟨old, hold, hevolves⟩

/-- A new call has been posted, and waits to be claimed. -/
theorem Reachable.call_created {deps : Deps} {s s' : Sys} {action : Action} (h : Reachable deps s)
    (hstep : s.step deps action = some s') {id : CallId} {row : CallRow} (hnone : s.shared.db.call? id = none)
    (hrow : s'.shared.db.call? id = some row) :
    row.status = .queued ∧ row.attemptEpoch = 0 ∧ row.providerCallId = none := by
  rcases Sys.step_cases hstep with ⟨shared, hworld, rfl⟩ |
    ⟨index, choice, task, stmt, next, txn, reply, shared, txn', rfl, hprocess, hexec, rfl⟩ |
    ⟨index, process, rfl, hprocess, rfl⟩
  · replace hrow : shared.db.call? id = some row := hrow
    cases hworld with
    | elapse micros => exact absurd (hnone.symm.trans hrow) nofun
    | posted body createdAt campaignId callIds db hposted =>
        obtain ⟨-, hqueued, hepoch, hhandle, -⟩ := hposted.queued row (hposted.at_wake.call?_new hrow hnone).1
        exact ⟨hqueued, hepoch, hhandle⟩
    | ingested payload receivedAt inboxId db hingested =>
        rw [hingested.rest] at hrow
        exact absurd (hnone.symm.trans hrow) nofun
    | still action hrun hcrash => exact absurd (hnone.symm.trans hrow) nofun
  · exact absurd (((h.run hprocess hexec).2.2.call?_none hnone).symm.trans hrow) nofun
  · exact absurd (hnone.symm.trans hrow) nofun

/-- What holds of the empty tables, and is kept by the world and by every promised step, holds in every
reachable state. -/
theorem Reachable.invariant {deps : Deps} {P : Shared → Prop} (hinit : ∀ now, P { now })
    (hworld : ∀ {s action shared}, Reachable deps s → P s.shared → Sys.World deps s action shared → P shared)
    (hguar : ∀ {l s s'}, Consistent s → P s → Guar l s s' → P s') {s : Sys} (h : Reachable deps s) :
    P s.shared := by
  induction h with
  | init now => exact hinit now
  | @step s s' action hs _ hstep ih =>
      replace hs : Reachable deps s := hs
      rcases Sys.step_cases hstep with ⟨shared, hmoved, rfl⟩ |
        ⟨index, choice, task, stmt, next, txn, reply, shared, txn', rfl, hprocess, hexec, rfl⟩ |
        ⟨index, process, rfl, hprocess, rfl⟩
      · exact hworld hs ih hmoved
      · exact hguar hs.consistent ih (hs.run hprocess hexec).2.2
      · exact ih

end VoiceCampaign

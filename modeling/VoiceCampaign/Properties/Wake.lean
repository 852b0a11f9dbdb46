import VoiceCampaign.Model.Runs
import VoiceCampaign.Protocol.Service
import VoiceCampaign.Protocol.Watch

/-!
# The wake signal

A coroutine that ends a call owes the scheduler a notify. The webhook processor and the sweep pay, whatever
the others do meanwhile and wherever the loop stands, and the loop cannot miss it. The tick never pays.
-/

namespace VoiceCampaign

open Concurrency Program

/-! ### What a coroutine owes -/

structure Debt where
  /-- The open transaction has ended a call. -/
  written : Bool := false
  /-- A committed one has, and nobody has been told. -/
  owes : Bool := false

def Debt.Unpaid (d : Debt) : Prop := d.owes = true

def wakeMonitor : Monitor Stmt Reply Debt where
  start := {}
  allows _ _ := True
  answers _ _ := True
  next debt
    | .begin, _ => { debt with written := false }
    | .rollback, _ => { debt with written := false }
    | .commit, _ => ⟨false, debt.owes || debt.written⟩
    | .notify, _ => { debt with owes := false }
    | .updateCall _, .ok (some row) => { debt with written := debt.written || row.status.isTerminal }
    | _, _ => debt

/-- Neither delimits a transaction, nor writes a call, nor notifies. -/
def Stmt.bystander : Stmt → Bool
  | .begin | .rollback | .commit | .notify | .updateCall _ => false
  | _ => true

theorem wakeMonitor_bystander {stmt : Stmt} (h : stmt.bystander = true) (debt : Debt) (reply : Reply stmt) :
    wakeMonitor.next debt stmt reply = debt := by
  cases stmt with
  | begin | rollback | commit | notify | updateCall update => cases h
  | _ => rfl

section

variable {α : Type} {o : Bool} {d : Debt}

theorem debt_of_only {program : Co α} (h : program.Only fun stmt => stmt.bystander = true) (d : Debt) :
    wakeMonitor.Obeys (fun _ d' => d' = d) (fun _ d' => d' = d) program d :=
  h.obeys fun _ hstmt => ⟨trivial, fun reply _ => wakeMonitor_bystander hstmt d reply⟩

theorem bystander_perform {stmt : Stmt} {next : Reply stmt → Co α} (hstmt : stmt.bystander = true)
    (hnext : ∀ reply, (next reply).Only fun stmt => stmt.bystander = true) :
    (perform stmt >>= next).Only fun stmt => stmt.bystander = true := ⟨hstmt, hnext⟩

theorem maybeTransitionCampaignTerminal_bystander (campaignId : CampaignId) :
    (maybeTransitionCampaignTerminal campaignId).Only fun stmt => stmt.bystander = true := by
  refine bystander_perform rfl fun _ => bystander_perform rfl fun active => ?_
  split
  · trivial
  refine bystander_perform rfl fun counts => bystander_perform rfl fun updated => ?_
  split
  · exact .perform_last rfl
  · trivial

/-- Where a transition ends a call, it says so. -/
theorem transition_debt (args : Transition) (hd : d.written = false) :
    wakeMonitor.Obeys (fun result d' => d'.owes = d.owes ∧ (d'.written = true → result.isNoOp = false))
      (fun _ d' => d'.owes = d.owes) (transition args) d := by
  rw [transition]
  split
  · exact ⟨rfl, fun hwritten => absurd hwritten (by rw [hd]; exact Bool.false_ne_true)⟩
  refine ⟨trivial, fun reply _ => ?_⟩
  cases reply with
  | error error => rfl
  | ok found =>
      cases found with
      | none => exact ⟨rfl, fun hwritten => absurd hwritten (by show d.written ≠ true; rw [hd]; exact Bool.false_ne_true)⟩
      | some row =>
          refine ⟨trivial, fun _ _ => ?_⟩
          show wakeMonitor.Obeys _ _ (if args.newStatus.isTerminal = true then _ else _) _
          split
          · refine ((debt_of_only (maybeTransitionCampaignTerminal_bystander _) _).mono (fun _ _ h => h) ?_).bind ?_
            · rintro error _ rfl
              rfl
            · rintro _ _ rfl
              exact ⟨rfl, fun _ => rfl⟩
          · exact ⟨rfl, fun _ => rfl⟩

/-- A transaction leaves a debt where its body has ended a call. -/
theorem transaction_debt {body : Co α} {p : α → Prop} (hbody : wakeMonitor.Obeys
      (fun value d' => d'.owes = d.owes ∧ (d'.written = true → p value)) (fun _ d' => d'.owes = d.owes) body
      { d with written := false }) :
    wakeMonitor.Obeys (fun value d' => d'.written = false ∧ (d'.owes = true → d.owes = true ∨ p value))
      (fun _ d' => d'.written = false ∧ d'.owes = d.owes) (transaction body) d := by
  refine ⟨trivial, fun _ _ => ?_⟩
  have hcaught : wakeMonitor.Obeys (fun value d' => d'.owes = d.owes ∧ (d'.written = true → p value))
      (fun _ d' => d'.written = false ∧ d'.owes = d.owes)
      (body.catching fun error => do perform .rollback; raise error) { d with written := false } :=
    hbody.catching fun error d' howes => ⟨trivial, fun _ _ => ⟨rfl, howes⟩⟩
  refine hcaught.bind fun value d' hmid => ⟨trivial, fun _ _ => ⟨rfl, fun howes => ?_⟩⟩
  rcases Bool.or_eq_true_iff.mp howes with howes | hwritten
  · exact Or.inl (hmid.1 ▸ howes)
  · exact Or.inr (hmid.2 hwritten)

/-- Bystanders first. -/
theorem Program.Only.debt_bind {β : Type} {program : Co β} {f : β → Co α} {post : α → Debt → Prop}
    {err : Err → Debt → Prop} (h : program.Only fun stmt => stmt.bystander = true) (herr : ∀ error, err error d)
    (hf : ∀ value, wakeMonitor.Obeys post err (f value) d) : wakeMonitor.Obeys post err (program >>= f) d := by
  refine ((debt_of_only h d).mono (fun _ _ he => he) ?_).bind ?_
  · rintro error _ rfl
    exact herr error
  · rintro value _ rfl
    exact hf value

theorem nextAttempt_bystander (attemptEpoch : Nat) (base : ℚ) :
    (nextAttempt attemptEpoch base).Only fun stmt => stmt.bystander = true :=
  bystander_perform rfl fun _ => (bystander_perform rfl fun _ => ofExcept_only _).bind fun _ => ofExcept_only _

/-! ### The webhook processor -/

theorem applyEvent_debt (deps : Deps) (event : ProviderEvent) (call : CallRow) (hd : d.written = false) :
    wakeMonitor.Obeys (fun result d' => d'.owes = d.owes ∧ (d'.written = true → result.isNoOp = false))
      (fun _ d' => d'.owes = d.owes) (applyEvent deps event call) d := by
  rw [applyEvent]
  split
  · refine Program.Only.debt_bind (.perform_last rfl) (fun _ => rfl) fun campaign => ?_
    refine Program.Only.debt_bind (ofExcept_only _) (fun _ => rfl) fun decision => ?_
    split
    · exact transition_debt _ hd
    split
    · exact Program.Only.debt_bind (nextAttempt_bystander _ _) (fun _ => rfl) fun next => transition_debt _ hd
    · exact transition_debt _ hd
  · exact transition_debt _ hd

theorem processRow_debt (deps : Deps) (row : InboxRow) (hd : d.written = false) :
    wakeMonitor.Obeys (fun outcome d' => d'.owes = d.owes ∧ (d'.written = true → outcome = .applied))
      (fun _ d' => d'.owes = d.owes) (processRow deps row) d := by
  have hmark : ∀ (outcome : RowOutcome) (d' : Debt), d'.owes = d.owes → (d'.written = true → outcome = .applied) →
      wakeMonitor.Obeys (fun outcome d' => d'.owes = d.owes ∧ (d'.written = true → outcome = .applied))
        (fun _ d' => d'.owes = d.owes) (markProcessed row.id >>= fun _ => pure outcome) d' :=
    fun outcome d' howes hwritten => Program.Only.debt_bind (.perform_last rfl) (fun _ => howes)
      fun _ => ⟨howes, hwritten⟩
  have hidle : d.written = true → RowOutcome.stale = .applied := fun hwritten => absurd hwritten (by rw [hd]; nofun)
  refine Program.Only.debt_bind (ofExcept_only _) (fun _ => rfl) fun event => ?_
  have hhandle : (getByProviderCallId event.providerCallId).Only fun stmt => stmt.bystander = true := by
    cases event.providerCallId with
    | str handle => exact .perform_last rfl
    | _ => trivial
  refine Program.Only.debt_bind hhandle (fun _ => rfl) fun found => ?_
  cases found with
  | none => exact Program.Only.debt_bind (.perform_last rfl) (fun _ => rfl) fun _ => hmark .stale d rfl hidle
  | some call =>
      dsimp only
      split
      · exact hmark .stale d rfl hidle
      refine (applyEvent_debt deps event call hd).bind fun result d' hmid => ?_
      cases result with
      | terminalRegression | noOp =>
          refine Program.Only.debt_bind (.perform_last rfl) (fun _ => hmid.1) fun _ => ?_
          exact hmark .stale d' hmid.1 fun hwritten => Bool.noConfusion (hmid.2 hwritten)
      | applied version => exact hmark .applied d' hmid.1 fun _ => rfl

theorem processOneRow_debt (deps : Deps) :
    wakeMonitor.Obeys (fun outcome d' => d'.owes = true → d.owes = true ∨ outcome = .applied)
      (fun _ _ => False) (processOneRow deps) d := by
  have hbody : wakeMonitor.Obeys (fun outcome d' => d'.owes = d.owes ∧ (d'.written = true → outcome = .applied))
      (fun _ d' => d'.owes = d.owes) (perform .claimUnprocessedOne >>= fun found =>
        found.elim (pure .empty) (processRow deps)) { d with written := false } := by
    refine Program.Only.debt_bind (.perform_last rfl) (fun _ => rfl) fun found => ?_
    cases found with
    | none => exact ⟨rfl, fun hwritten => absurd hwritten Bool.false_ne_true⟩
    | some row => exact processRow_debt deps row (d := { d with written := false }) rfl
  rw [processOneRow_eq]
  refine ((transaction_debt hbody).mono (fun _ _ h => h.2) fun _ _ h => h).catching ?_
  intro error d' howes howed
  exact Or.inl (howes.2 ▸ howed)

/-- The drain pays for all the rows it has applied at once. -/
theorem processPendingInbox_debt (deps : Deps) :
    wakeMonitor.Obeys (fun _ d' => d'.owes = false) (fun _ _ => False) (processPendingInbox deps) {} := by
  have hdrain : ∀ fuel (d : Debt) appliedAny processed, (d.owes = true → appliedAny = true) →
      wakeMonitor.Obeys (fun result d' => d'.owes = true → result.1 = true) (fun _ _ => False)
        (drainInbox deps fuel appliedAny processed) d := by
    intro fuel
    induction fuel with
    | zero => exact fun d appliedAny processed h => h
    | succ fuel ih =>
        intro d appliedAny processed h
        refine (processOneRow_debt deps).bind fun outcome d' hd' => ?_
        have happlied : d'.owes = true → (appliedAny || decide (outcome = .applied)) = true := by
          intro howes
          rcases hd' howes with howed | rfl
          · rw [h howed]
            rfl
          · simp
        split
        · next hempty =>
            intro howes
            rcases hd' howes with howed | he
            · exact h howed
            · rw [hempty] at he
              cases he
        · exact ih d' _ _ happlied
  refine (hdrain _ {} false 0 nofun).bind ?_
  rintro ⟨appliedAny, processed⟩ d hd
  dsimp only at hd ⊢
  split
  · exact ⟨trivial, fun _ _ => rfl⟩
  · next hnone =>
      show d.owes = false
      exact Bool.eq_false_iff.mpr fun howes => hnone (hd howes)

/-! ### The sweep -/

/-- A task that has ended a call tells its sweep. -/
theorem reclaimOne_debt (row : CallRow) :
    wakeMonitor.Obeys (fun outcome d' => d'.owes = true → outcome.freed = true) (fun _ _ => False)
      (reclaimOne row) {} := by
  have hsettle : ∀ (args : Transition) (applied : ReclaimOutcome), applied.freed = true →
      wakeMonitor.Obeys (fun outcome d' => d'.owes = true → outcome.freed = true) (fun _ d' => d'.owes = false)
        (do
          let result ← transaction (transition args)
          if result.isNoOp then pure ⟨row.id, .skippedNoOp⟩ else pure applied : Co ReclaimOutcome) {} := by
    intro args applied hfreed
    refine ((transaction_debt (transition_debt args rfl)).mono (fun _ _ h => h) fun _ _ h => h.2).bind ?_
    rintro result d ⟨-, howes⟩
    split
    · next hnoOp =>
        intro howed
        rcases howes howed with he | he
        · cases he
        · rw [hnoOp] at he
          cases he
    · exact fun _ => hfreed
  have hinner : wakeMonitor.Obeys (fun outcome d' => d'.owes = true → outcome.freed = true)
      (fun _ d' => d'.owes = false) (reclaimOneInner row) {} := by
    rw [reclaimOneInner]
    cases row.providerCallId with
    | none => exact hsettle _ _ rfl
    | some handle =>
        have hask : (bestEffortGetStatus handle).Only fun stmt => stmt.bystander = true := by
          refine bystander_perform rfl fun outcome => ?_
          cases outcome <;> trivial
        refine Program.Only.debt_bind hask (fun _ => rfl) fun reported => ?_
        cases reported with
        | none => exact hsettle _ _ rfl
        | some status =>
            dsimp only
            split
            · exact hsettle _ _ rfl
            · exact hsettle _ _ rfl
  refine hinner.catching fun error d hd howes => ?_
  rw [hd] at howes
  cases howes

end

/-! ### Every coroutine -/

/-- A reclaim task tells its sweep that it has freed a slot. -/
def Outcome.freed : Outcome → Bool
  | .reclaimed outcome => outcome.freed
  | .ticked _ | .drained _ => false

/-- A drain ends without debts, and a reclaim task tells its sweep of them. -/
def Task.settles : Task → Outcome → Debt → Prop
  | .tick, _, _ => True
  | .drain, _, d => d.owes = false
  | .reclaim _, outcome, d => d.owes = true → outcome.freed = true

theorem coroutine_settles (deps : Deps) (task : Task) :
    wakeMonitor.Obeys task.settles (fun _ _ => task = .tick) (task.coroutine deps) {} := by
  cases task with
  | tick =>
      have hany : ∀ (program : Co Outcome) (d : Debt),
          wakeMonitor.Obeys Task.tick.settles (fun _ _ => Task.tick = .tick) program d := by
        intro program
        induction program with
        | done value => exact fun d => trivial
        | fail error => exact fun d => rfl
        | call stmt next ih => exact fun d => ⟨trivial, fun reply _ => ih reply _⟩
      exact hany _ _
  | drain =>
      refine ((processPendingInbox_debt deps).mono (fun _ _ h => h) fun _ _ h => h.elim).bind ?_
      exact fun processed d hd => hd
  | reclaim row =>
      refine ((reclaimOne_debt row).mono (fun _ _ h => h) fun _ _ h => h.elim).bind ?_
      exact fun outcome d hd => hd

/-- The transaction puts a call in a terminal status. -/
def Txn.endsCall (t : Txn) : Bool := t.calls.any fun version => version.status.isTerminal

/-- The monitor notices. -/
theorem endsCall_exec {others : List Txn} {choice : Choice} {s s' : Shared} {txn txn' : Option Txn} {stmt : Stmt}
    {reply : Reply stmt} {d : Debt} (h : exec others choice s txn stmt = some (reply, s', txn'))
    (hd : ∀ t ∈ txn, t.endsCall = true → d.written = true) :
    ∀ t' ∈ txn', t'.endsCall = true → (wakeMonitor.next d stmt reply).written = true := by
  intro t' ht' hends
  by_cases hwrites : stmt.writesCall = true
  · have hput : ∀ (version : CallRow) (t : Txn), txn = some t →
        t' = { t with locks := .call version.id :: t.locks, calls := put CallRow.id version t.calls } →
        d.written = true ∨ version.status.isTerminal = true := by
      rintro version t rfl rfl
      obtain ⟨found, hfound, hterminal⟩ := List.any_eq_true.mp hends
      rcases List.mem_cons.mp hfound with rfl | hold
      · exact Or.inr hterminal
      · exact Or.inl (hd t rfl (List.any_eq_true.mpr ⟨found, (List.mem_filter.mp hold).1, hterminal⟩))
    cases stmt with
    | updateCall update =>
        obtain ⟨t, rfl⟩ := exec_open h rfl
        obtain ⟨-, hwritten⟩ := exec_updateCall h
        cases hwritten with
        | missed _ => exact hd t' ht' hends
        | violated => exact hd t' ht' hends
        | written row t₁ _ _ hputs =>
            obtain rfl := Option.some.inj ht'
            exact Bool.or_eq_true_iff.mpr (hput _ t rfl hputs.txn)
    | claimNextQueued campaignId =>
        obtain ⟨t, rfl⟩ := exec_open h rfl
        obtain ⟨-, hwritten⟩ := exec_claimNextQueued h
        cases hwritten with
        | missed _ => exact hd t' ht' hends
        | violated => exact hd t' ht' hends
        | written row t₁ _ _ hputs =>
            obtain rfl := Option.some.inj ht'
            exact (hput _ t rfl hputs.txn).resolve_right nofun
    | _ => cases hwrites
  · rcases exec_calls (Bool.not_eq_true _ ▸ hwrites) h t' ht' with hnone | ⟨t, ht, hsame⟩
    · rw [Txn.endsCall, hnone] at hends
      cases hends
    · have hwritten := hd t ht (by rw [Txn.endsCall, ← hsame]; exact hends)
      cases stmt with
      | updateCall _ | claimNextQueued _ => exact absurd rfl hwrites
      | begin =>
          obtain ⟨-, rfl⟩ := exec_begin h
          obtain rfl := Option.some.inj ht'
          cases hends
      | rollback =>
          cases h
          cases ht'
      | commit =>
          obtain ⟨_, -, -, rfl⟩ := exec_commit h
          cases ht'
      | _ => exact hwritten

/-! ### Every run of the process -/

namespace Service

/-- A sweep under way awaits the coroutine. -/
def awaits (s : Service) (index : Nat) : Prop := ∃ tasks ∈ s.sweeps, index ∈ tasks

/-- Coroutine `index`, a drain or a reclaim task, is bound to notify, or to have its sweep do so. -/
def OwesAt (s : Service) (index : Nat) : Prop :=
  ∃ coroutine : Coroutine, s.procs[index]? = some coroutine ∧ coroutine.task ≠ .tick ∧
    coroutine.code.Inevitably (· = .notify) fun outcome => outcome.freed = true ∧ s.awaits index

def Owes (s : Service) : Prop := ∃ index, s.OwesAt index

/-- The loop cannot miss what has happened: the flag is up, or the loop is past its wait, or somebody is bound
to raise the flag. -/
def Heard (s : Service) : Prop :=
  s.shared.wake = true ∨ s.loop = .resumed ∨ s.loop = .cleared ∨ s.Owes

structure Accountable (s : Service) : Prop where
  debts : ∀ (index : Nat) (coroutine : Coroutine), s.procs[index]? = some coroutine → ∃ d : Debt,
    wakeMonitor.Obeys coroutine.task.settles (fun _ _ => coroutine.task = .tick) coroutine.code d ∧
      ∀ t ∈ coroutine.txn, t.endsCall = true → d.written = true
  awaited : ∀ (index : Nat) (coroutine : Coroutine) (row : CallRow), s.procs[index]? = some coroutine → coroutine.task = .reclaim row →
    ¬ coroutine.over → s.awaits index
  ticking : ∀ (index : Nat) (coroutine : Coroutine), s.procs[index]? = some coroutine → coroutine.task = .tick → ¬ coroutine.over →
    s.loop = .ticking index

variable {deps : Deps} {s s' : Service} {event : Event}

theorem Accountable.start (shared : Shared) : Accountable { shared } where
  debts _ _ h := by simp at h
  awaited _ _ _ h := by simp at h
  ticking _ _ h := by simp at h

/-- Coroutines of the process after some have started. -/
theorem spawn_get {tasks : List Task} {index : Nat} {coroutine : Coroutine}
    (h : (s.spawn deps tasks).procs[index]? = some coroutine) :
    s.procs[index]? = some coroutine ∨ (s.procs.length ≤ index ∧ index < s.procs.length + tasks.length ∧
      ∃ task ∈ tasks, coroutine = { task, code := task.coroutine deps }) := by
  rw [spawn, List.getElem?_append] at h
  split at h
  · exact Or.inl h
  · next hge =>
      rw [List.getElem?_map] at h
      obtain ⟨task, htask, rfl⟩ := Option.map_eq_some_iff.mp h
      have hlt := (List.getElem?_eq_some_iff.mp htask).1
      exact Or.inr ⟨by omega, by omega, task, List.mem_of_getElem? htask, rfl⟩

theorem spawn_get_old {tasks : List Task} {index : Nat} {coroutine : Coroutine}
    (h : s.procs[index]? = some coroutine) : (s.spawn deps tasks).procs[index]? = some coroutine := by
  rw [spawn, List.getElem?_append_left (List.getElem?_eq_some_iff.mp h).1, h]

theorem set_get {index i : Nat} {new coroutine : Coroutine}
    (h : (s.procs.set i new)[index]? = some coroutine) :
    (index = i ∧ coroutine = new) ∨ (index ≠ i ∧ s.procs[index]? = some coroutine) := by
  rw [List.getElem?_set] at h
  split at h
  · next he =>
      split at h
      · exact Or.inl ⟨he.symm, (Option.some.inj h).symm⟩
      · cases h
  · next hne => exact Or.inr ⟨Ne.symm hne, h⟩

/-- A task that has returned to its sweep. -/
theorem outcome?_some {index : Nat} {outcome : ReclaimOutcome} (h : s.outcome? index = some outcome) :
    ∃ task txn, s.procs[index]? = some ⟨task, .done (.reclaimed outcome), txn⟩ := by
  rw [outcome?] at h
  split at h
  · next task found txn hget =>
      obtain rfl := Option.some.inj h
      exact ⟨task, txn, hget⟩
  · cases h

theorem awaits_mono {groups : List (List Nat)} {index : Nat} (h : s.awaits index)
    (hgroups : ∀ tasks ∈ s.sweeps, tasks ∈ groups) : ({ s with sweeps := groups } : Service).awaits index := by
  obtain ⟨tasks, htasks, hindex⟩ := h
  exact ⟨tasks, hgroups tasks htasks, hindex⟩

/-- A sweep that returns has not awaited the coroutine, or the coroutine has told it. -/
theorem awaits_join {index group : Nat} {tasks : List Nat} (h : s.awaits index) (hgroup : s.sweeps[group]? = some tasks) :
    index ∈ tasks ∨ ∃ others ∈ s.sweeps.eraseIdx group, index ∈ others := by
  obtain ⟨found, hfound, hindex⟩ := h
  obtain ⟨other, hother⟩ := List.mem_iff_getElem?.mp hfound
  by_cases he : other = group
  · rw [he, hgroup] at hother
    exact Or.inl (Option.some.inj hother ▸ hindex)
  · exact Or.inr ⟨found, List.mem_eraseIdx_iff_getElem?.mpr ⟨other, he, hother⟩, hindex⟩

theorem Accountable.step (h : s.Accountable) (hstep : s.step deps event = some s') : s'.Accountable := by
  have hfresh : ∀ task : Task, ∃ d : Debt,
      wakeMonitor.Obeys task.settles (fun _ _ => task = .tick) (task.coroutine deps) d ∧
        ∀ t ∈ (none : Option Txn), t.endsCall = true → d.written = true :=
    fun task => ⟨{}, coroutine_settles deps task, nofun⟩
  have hspawned : ∀ (tasks : List Task) (index : Nat) (coroutine : Coroutine),
      (s.spawn deps tasks).procs[index]? = some coroutine → ∃ d : Debt,
        wakeMonitor.Obeys coroutine.task.settles (fun _ _ => coroutine.task = .tick) coroutine.code d ∧
          ∀ t ∈ coroutine.txn, t.endsCall = true → d.written = true := by
    intro tasks index coroutine hget
    rcases spawn_get hget with hold | ⟨-, -, task, -, rfl⟩
    · exact h.debts index coroutine hold
    · exact hfresh task
  cases step_cases hstep with
  | world event shared tasks hwake htasks =>
      refine ⟨hspawned tasks, ?_, ?_⟩
      · intro index coroutine row hget htask hover
        rcases spawn_get hget with hold | ⟨-, -, task, hmem, rfl⟩
        · exact h.awaited index coroutine row hold htask hover
        · cases (htasks task hmem).symm.trans htask
      · intro index coroutine hget htask hover
        rcases spawn_get hget with hold | ⟨-, -, task, hmem, rfl⟩
        · exact h.ticking index coroutine hold htask hover
        · cases (htasks task hmem).symm.trans htask
  | swept row rest =>
      refine ⟨hspawned _, ?_, ?_⟩
      · intro index coroutine row' hget htask hover
        rcases spawn_get hget with hold | ⟨hge, hlt, task, hmem, rfl⟩
        · obtain ⟨tasks, htasks, hindex⟩ := h.awaited index coroutine row' hold htask hover
          exact ⟨tasks, List.mem_append_left _ htasks, hindex⟩
        · refine ⟨_, List.mem_append_right _ (List.mem_singleton.mpr rfl), ?_⟩
          rw [List.length_map] at hlt
          exact List.mem_range'_1.mpr ⟨hge, hlt⟩
      · intro index coroutine hget htask hover
        rcases spawn_get hget with hold | ⟨-, -, task, hmem, rfl⟩
        · exact h.ticking index coroutine hold htask hover
        · obtain ⟨_, -, rfl⟩ := List.mem_map.mp hmem
          cases htask
  | ran index choice task stmt next txn reply shared txn' hcoroutine hexec =>
      refine ⟨?_, ?_, ?_⟩
      · intro other coroutine hget
        rcases set_get hget with ⟨rfl, rfl⟩ | ⟨-, hold⟩
        · obtain ⟨d, hobeys, hwritten⟩ := h.debts _ _ hcoroutine
          exact ⟨_, hobeys.2 reply trivial, endsCall_exec hexec hwritten⟩
        · exact h.debts other coroutine hold
      · intro other coroutine row hget htask hover
        rcases set_get hget with ⟨rfl, rfl⟩ | ⟨-, hold⟩
        · exact h.awaited _ _ row hcoroutine htask fun hdone => hdone _ _ rfl
        · exact h.awaited other coroutine row hold htask hover
      · intro other coroutine hget htask hover
        rcases set_get hget with ⟨rfl, rfl⟩ | ⟨-, hold⟩
        · exact h.ticking _ _ hcoroutine htask fun hdone => hdone _ _ rfl
        · exact h.ticking other coroutine hold htask hover
  | joined group tasks wake hgroup hdone hwake hfreed =>
      refine ⟨h.debts, ?_, h.ticking⟩
      intro index coroutine row hget htask hover
      rcases awaits_join (h.awaited index coroutine row hget htask hover) hgroup with hmem | hother
      · obtain ⟨outcome, hsome⟩ := Option.isSome_iff_exists.mp (hdone index hmem)
        obtain ⟨task, txn, hreturned⟩ := outcome?_some hsome
        obtain rfl := Option.some.inj (hget.symm.trans hreturned)
        exact absurd (fun _ _ he => nomatch he) hover
      · exact hother
  | moved event loop hresumed hcleared hticked =>
      refine ⟨h.debts, h.awaited, ?_⟩
      intro index coroutine hget htask hover
      exact absurd (hticked index (h.ticking index coroutine hget htask hover) coroutine hget) hover
  | cleared hresumed =>
      refine ⟨h.debts, h.awaited, ?_⟩
      intro index coroutine hget htask hover
      cases hresumed.symm.trans (h.ticking index coroutine hget htask hover)
  | began hcleared =>
      refine ⟨hspawned _, ?_, ?_⟩
      · intro index coroutine row hget htask hover
        rcases spawn_get hget with hold | ⟨-, -, task, hmem, rfl⟩
        · exact h.awaited index coroutine row hold htask hover
        · cases (List.mem_singleton.mp hmem).symm.trans htask
      · intro index coroutine hget htask hover
        rcases spawn_get hget with hold | ⟨hge, hlt, -⟩
        · cases hcleared.symm.trans (h.ticking index coroutine hold htask hover)
        · exact congrArg LoopAt.ticking (Nat.le_antisymm hge (Nat.lt_succ_iff.mp hlt))

theorem Reached.accountable (h : Reached deps s) : s.Accountable := by
  induction h with
  | start _ _ => exact .start _
  | step event _ hstep ih => exact ih.step hstep

/-! ### No wake is lost -/

theorem OwesAt.spawn {index : Nat} (h : s.OwesAt index) (deps : Deps) (tasks : List Task) :
    (s.spawn deps tasks).OwesAt index := by
  obtain ⟨coroutine, hget, htask, hbound⟩ := h
  exact ⟨coroutine, spawn_get_old hget, htask, hbound⟩

/-- Whoever owes a notify goes on owing it until the flag is up. -/
theorem Owes.step (h : s.Owes) (hstep : s.step deps event = some s') : s'.shared.wake = true ∨ s'.Owes := by
  obtain ⟨index, howes⟩ := h
  cases step_cases hstep with
  | world event shared tasks hwake htasks => exact Or.inr ⟨index, howes.spawn deps tasks⟩
  | began hcleared => exact Or.inr ⟨index, howes.spawn deps [.tick]⟩
  | moved event loop hresumed hcleared hticked => exact Or.inr ⟨index, howes⟩
  | cleared hresumed => exact Or.inr ⟨index, howes⟩
  | swept row rest =>
      obtain ⟨coroutine, hget, htask, hbound⟩ := howes
      refine Or.inr ⟨index, coroutine, spawn_get_old hget, htask, hbound.mono fun outcome hfreed => ⟨hfreed.1, ?_⟩⟩
      exact awaits_mono hfreed.2 fun tasks htasks => List.mem_append_left _ htasks
  | ran i choice task stmt next txn reply shared txn' hcoroutine hexec =>
      obtain ⟨coroutine, hget, htask, hbound⟩ := howes
      by_cases he : index = i
      · subst he
        rw [hcoroutine] at hget
        cases hget
        rcases hbound with rfl | hnext
        · left
          cases hexec
          rfl
        · have hlt := (List.getElem?_eq_some_iff.mp hcoroutine).1
          exact Or.inr ⟨index, _, List.getElem?_set_self hlt, htask, hnext reply⟩
      · refine Or.inr ⟨index, coroutine, ?_, htask, hbound⟩
        show (s.procs.set i _)[index]? = _
        rw [List.getElem?_set_ne (Ne.symm he), hget]
  | joined group tasks wake hgroup hdone hwake hfreed =>
      obtain ⟨coroutine, hget, htask, hbound⟩ := howes
      by_cases hmem : index ∈ tasks
      · -- the coroutine has returned, so it is what it told its sweep that counts
        obtain ⟨outcome, hsome⟩ := Option.isSome_iff_exists.mp (hdone index hmem)
        obtain ⟨task, txn, hreturned⟩ := outcome?_some hsome
        obtain rfl := Option.some.inj (hget.symm.trans hreturned)
        exact Or.inl (hfreed index hmem outcome hsome hbound.1)
      · refine Or.inr ⟨index, coroutine, hget, htask, hbound.mono fun outcome hfreed => ⟨hfreed.1, ?_⟩⟩
        exact (awaits_join hfreed.2 hgroup).resolve_left hmem

/-- What the loop has heard it does not miss, as long as it begins no tick. -/
theorem Heard.step (h : s.Heard) (hstep : s.step deps event = some s') (htick : event ≠ .tick) : s'.Heard := by
  rcases h with hwake | hresumed | hcleared | howes
  · cases step_cases hstep with
    | world event shared tasks hkept htasks => exact Or.inl (hkept hwake)
    | swept row rest => exact Or.inl hwake
    | ran i choice task stmt next txn reply shared txn' hcoroutine hexec =>
        left
        by_cases hnotify : stmt = .notify
        · subst hnotify
          cases hexec
          rfl
        · exact (exec_flag hexec hnotify).trans hwake
    | joined group tasks wake hgroup hdone hkept hfreed => exact Or.inl (hkept hwake)
    | moved event loop _ _ _ => exact Or.inl hwake
    | cleared hresumed => exact Or.inr (Or.inr (Or.inl rfl))
    | began _ => exact absurd rfl htick
  · cases step_cases hstep with
    | world event shared tasks hkept htasks => exact Or.inr (Or.inl hresumed)
    | swept row rest => exact Or.inr (Or.inl hresumed)
    | ran => exact Or.inr (Or.inl hresumed)
    | joined => exact Or.inr (Or.inl hresumed)
    | moved event loop hne _ _ => exact absurd hresumed hne
    | cleared hresumed => exact Or.inr (Or.inr (Or.inl rfl))
    | began _ => exact absurd rfl htick
  · cases step_cases hstep with
    | world event shared tasks hkept htasks => exact Or.inr (Or.inr (Or.inl hcleared))
    | swept row rest => exact Or.inr (Or.inr (Or.inl hcleared))
    | ran => exact Or.inr (Or.inr (Or.inl hcleared))
    | joined => exact Or.inr (Or.inr (Or.inl hcleared))
    | moved event loop _ hne _ => exact absurd hcleared hne
    | cleared hresumed => exact Or.inr (Or.inr (Or.inl rfl))
    | began _ => exact absurd rfl htick
  · rcases howes.step hstep with hwake | howes
    · exact Or.inl hwake
    · exact Or.inr (Or.inr (Or.inr howes))

/-- `s'` lies ahead of `s`, and the loop has begun no tick in between. -/
inductive BeforeTick (deps : Deps) (s : Service) : Service → Prop
  | refl : BeforeTick deps s s
  | step {s' s'' : Service} (event : Event) (hs : BeforeTick deps s s') (htick : event ≠ .tick)
      (hstep : s'.step deps event = some s'') : BeforeTick deps s s''

theorem Heard.before (h : s.Heard) (hbefore : BeforeTick deps s s') : s'.Heard := by
  induction hbefore with
  | refl => exact h
  | step event _ htick hstep ih => exact ih.step hstep htick

/-! ### Every completion -/

/-- The task whose coroutine is about to commit that a call has ended. -/
def completes (s : Service) (index : Nat) : Option Task :=
  match s.procs[index]? with
  | some { task, code := .call .commit _, txn := some t } => if t.endsCall = true then some task else none
  | _ => none

theorem completes_some {index : Nat} {task : Task} (h : s.completes index = some task) :
    ∃ next t, s.procs[index]? = some ⟨task, .call .commit next, some t⟩ ∧ t.endsCall = true := by
  rw [completes] at h
  split at h
  · next task' next t hget =>
      split at h
      · next hends =>
          obtain rfl := Option.some.inj h
          exact ⟨next, t, hget, hends⟩
      · cases h
  · cases h

/-- Until the loop begins a tick it cannot miss that something has happened; and where it waits and nobody is on
the way to notify, its wait returns without a timeout and it begins one. -/
structure Wakes (deps : Deps) (s : Service) : Prop where
  heard : ∀ s', BeforeTick deps s s' → s'.Heard
  ticks : ∀ s', BeforeTick deps s s' → s'.loop = .waiting → ¬ s'.Owes →
    ∃ s'', s'.runEvents deps [.resume false, .clear, .tick] = some s''

theorem Heard.wakes (h : s.Heard) (deps : Deps) : Wakes deps s where
  heard _ hbefore := h.before hbefore
  ticks s' hbefore hwaiting hnone := by
    have hwake : s'.shared.wake = true := by
      rcases h.before hbefore with hwake | hresumed | hcleared | howes
      · exact hwake
      · cases hwaiting.symm.trans hresumed
      · cases hwaiting.symm.trans hcleared
      · exact absurd howes hnone
    rw [runEvents, Service.step, if_pos ⟨hwaiting, Or.inl hwake⟩]
    exact ⟨_, rfl⟩

/-- Whoever has committed that a call has ended, unless it is a tick, owes a notify. -/
theorem Accountable.owes (h : s.Accountable) {index : Nat} {task : Task} {next : Reply Stmt.commit → Co Outcome}
    {t : Txn} (hget : s.procs[index]? = some ⟨task, .call .commit next, some t⟩) (hends : t.endsCall = true)
    (htask : task ≠ .tick) {shared : Shared} :
    ({ s with shared, procs := s.procs.set index ⟨task, next (), none⟩ } : Service).OwesAt index := by
  have hlt := (List.getElem?_eq_some_iff.mp hget).1
  obtain ⟨d, hobeys, hwritten⟩ := h.debts index _ hget
  have howed : (wakeMonitor.next d .commit ()).Unpaid := Bool.or_eq_true_iff.mpr (Or.inr (hwritten t rfl hends))
  refine ⟨_, List.getElem?_set_self hlt, htask, ?_⟩
  refine inevitably_of_obeys (hobeys.2 () trivial) howed (fun _ _ => trivial) ?_ ?_ fun _ _ he => absurd he htask
  · intro d stmt reply howes hnotify
    cases stmt with
    | notify => exact absurd rfl hnotify
    | commit => exact Bool.or_eq_true_iff.mpr (Or.inl howes)
    | updateCall update =>
        cases reply with
        | error error => exact howes
        | ok found => cases found <;> exact howes
    | _ => exact howes
  · intro outcome d hsettles howes
    cases task with
    | tick => exact absurd rfl htask
    | drain =>
        rw [Debt.Unpaid, show d.owes = false from hsettles] at howes
        cases howes
    | reclaim row => exact ⟨hsettles howes, h.awaited index _ row hget rfl fun hover => hover _ _ rfl⟩

/-- The end of a call is heard unless it is a tick that commits it, with the flag down and nobody about to notify
for another one. -/
theorem completion_wakes_iff (hs : Reached deps s) {index : Nat} {choice : Choice} {task : Task}
    (hstep : s.step deps (.run index choice) = some s') (hcompletes : s.completes index = some task) :
    Wakes deps s' ↔ task ≠ .tick ∨ s.shared.wake = true ∨ s.Owes := by
  obtain ⟨next, t, hget, hends⟩ := completes_some hcompletes
  have hcommit : s' = { s with shared := s.shared.commit t, procs := s.procs.set index ⟨task, next (), none⟩ } := by
    rw [step, runCoroutine, hget] at hstep
    exact (Option.some.inj hstep).symm
  constructor
  · intro hwakes
    by_contra hnone
    rw [not_or, not_or, not_ne_iff] at hnone
    obtain ⟨rfl, hflag, hnobody⟩ := hnone
    have hloop : s.loop = .ticking index := hs.accountable.ticking index _ hget rfl fun hover => hover _ _ rfl
    rcases hwakes.heard s' .refl with hwake | hresumed | hcleared | ⟨other, coroutine, hother, htask, hbound⟩
    · rw [hcommit] at hwake
      exact hflag hwake
    · rw [hcommit] at hresumed
      cases hloop.symm.trans hresumed
    · rw [hcommit] at hcleared
      cases hloop.symm.trans hcleared
    · rw [hcommit] at hother hbound
      rcases set_get hother with ⟨rfl, rfl⟩ | ⟨hne, hold⟩
      · exact htask rfl
      · exact hnobody ⟨other, coroutine, hold, htask, hbound⟩
  · intro h
    refine Heard.wakes ?_ deps
    rcases h with htask | hwake | howes
    · rw [hcommit]
      exact Or.inr (Or.inr (Or.inr ⟨index, hs.accountable.owes hget hends htask⟩))
    · exact Heard.step (Or.inl hwake) hstep Event.noConfusion
    · exact Heard.step (Or.inr (Or.inr (Or.inr howes))) hstep Event.noConfusion

end Service

/-! ### Two calls -/

/-- Two calls, one at a time, each to be dialed once. -/
def twoShots : CampaignCreate := openPair atMostOne noRetries

/-- The campaign is posted, the loop wakes up and begins a tick, and `place_call` ends as `place`. -/
def tickOnce (place : PlaceOutcome) (count : Nat) : List Event :=
  [.post twoShots 0 0 [0, 1], .resume false, .clear, .tick] ++ List.replicate count (.run 0 { place })

/-- The process from its start, on empty tables. -/
theorem Service.Reached.of_any (deps : Deps) (events : List Event) (p : Service → Bool)
    (h : (Service.runEvents deps {} events).any p = true) : ∃ s, Service.Reached deps s ∧ p s = true := by
  have hrun : ∀ {s s' : Service} {events : List Event}, Reached deps s → s.runEvents deps events = some s' →
      Reached deps s' := by
    intro s s' events hs hrun
    induction events generalizing s with
    | nil => exact Option.some.inj hrun ▸ hs
    | cons event rest ih =>
        obtain ⟨mid, hstep, hrest⟩ := Option.bind_eq_some_iff.mp hrun
        exact ih (.step event hs hstep) hrest
  obtain ⟨s, hs, hp⟩ := (Option.any_eq_true _ _).mp h
  exact ⟨s, hrun (.start (.init 0) rfl) hs, hp⟩

def Task.isTick : Task → Bool
  | .tick => true
  | .drain | .reclaim _ => false

def Coroutine.isOver (coroutine : Coroutine) : Bool :=
  match coroutine.code with
  | .done _ | .fail _ => true
  | .call _ _ => false

theorem Coroutine.over_of_isOver {coroutine : Coroutine} (h : coroutine.isOver = true) : coroutine.over := by
  intro stmt next he
  rw [isOver, he] at h
  cases h

/-- The webhook processor commits that the first call is completed. -/
theorem completion_wakes_webhook : ∃ s s' task, Service.Reached noonDeps s ∧ s.step noonDeps (.run 1 {}) = some s' ∧
    s.completes 1 = some task ∧ task ≠ .tick ∧ Service.Wakes noonDeps s' := by
  obtain ⟨s, hs, hp⟩ := Service.Reached.of_any noonDeps (tickOnce (.handle "h") 20 ++
      [.ticked, .ingest (webhook "e" "h" .completed) 0 0] ++ List.replicate 9 (.run 1 {}))
    (fun s => (s.step noonDeps (.run 1 {})).isSome && (s.completes 1).any fun task => !task.isTick)
    (by decide +kernel)
  rw [Bool.and_eq_true, Option.isSome_iff_exists, Option.any_eq_true] at hp
  obtain ⟨⟨s', hstep⟩, task, hcompletes, htask⟩ := hp
  have hne : task ≠ .tick := by
    rintro rfl
    cases htask
  exact ⟨s, s', task, hs, hstep, hcompletes, hne,
    (Service.completion_wakes_iff hs hstep hcompletes).mpr (Or.inl hne)⟩

/-- The provider rejects the first call, and the loop waits although the second one could be dialed. -/
theorem completion_lost : ∃ s s' s'', Service.Reached noonDeps s ∧ s.step noonDeps (.run 0 {}) = some s' ∧
    (∃ task, s.completes 0 = some task) ∧ s'.step noonDeps .ticked = some s'' ∧ s''.loop = .waiting ∧
      s''.shared.wake = false ∧ s''.shared.db.calls.map CallRow.status = [.failed, .queued] ∧
      (∀ coroutine ∈ s''.procs, coroutine.over) ∧ ¬ Service.Wakes noonDeps s' := by
  obtain ⟨s, hs, hp⟩ := Service.Reached.of_any noonDeps (tickOnce (.rejected "invalid") 21)
    (fun s => (s.completes 0).isSome && (s.step noonDeps (.run 0 {})).any fun s' =>
      (s'.step noonDeps .ticked).any fun s'' => s''.loop = .waiting && !s''.shared.wake &&
        s''.shared.db.calls.map CallRow.status = [.failed, .queued] && s''.procs.all fun coroutine =>
          coroutine.task.isTick && coroutine.isOver) (by decide +kernel)
  simp only [Bool.and_eq_true, Option.isSome_iff_exists, Option.any_eq_true, List.all_eq_true, decide_eq_true_eq,
    Bool.not_eq_true'] at hp
  obtain ⟨hcompletes, s', hstep, s'', hticked, ⟨⟨hwaiting, hwake⟩, hcalls⟩, hprocs⟩ := hp
  refine ⟨s, s', s'', hs, hstep, hcompletes, hticked, hwaiting, hwake, hcalls, ?_, ?_⟩
  · exact fun coroutine hcoroutine => Coroutine.over_of_isOver (hprocs coroutine hcoroutine).2
  · intro hwakes
    rcases hwakes.heard s'' (.step .ticked .refl Event.noConfusion hticked) with h | h | h | ⟨index, coroutine, hget, htask, -⟩
    · rw [hwake] at h
      cases h
    · cases hwaiting.symm.trans h
    · cases hwaiting.symm.trans h
    · have hisTick := (hprocs coroutine (List.mem_of_getElem? hget)).1
      cases hcase : coroutine.task with
      | tick => exact htask hcase
      | drain | reclaim row =>
          rw [hcase] at hisTick
          cases hisTick

end VoiceCampaign

import VoiceCampaign.Protocol.Service
import VoiceCampaign.Protocol.Sweep

/-!
# The runs of a sweep

What each task of a sweep has done so far is written in the tables and in its open transaction, and no task
stands in the way of another one's row: their rows and phones differ. They only ever wait for the lock of a
campaign, and who holds that can go on.
-/

namespace VoiceCampaign

open Concurrency Discipline

namespace SweepRow

/-- No other transaction holds the row or a place next to it in the phone index. -/
structure Clear (r : SweepRow) (others : List Txn) (db : Db) : Prop where
  free : held others (.call r.row.id) = false
  uncontended : phoneContended others db r.row = false

/-- What a task that stands at `mode` has done, in a sweep that began at `since`. -/
inductive At (r : SweepRow) (since : Time) (s : Shared) : Option Txn → SweepMode → Prop
  | outside (hrow : s.db.call? r.row.id = some r.row) : At r since s none .outside
  | opened (t : Txn) (hrow : s.db.call? r.row.id = some r.row) (hsince : since ≤ t.startedAt)
      (hnow : t.startedAt ≤ s.now) (hlocks : t.locks = []) (hcalls : t.calls = []) :
      At r since s (some t) .opened
  | written (t : Txn) (locked : Bool) (hrow : s.db.call? r.row.id = some r.row) (hsince : since ≤ t.startedAt)
      (hnow : t.startedAt ≤ s.now)
      (hlocks : ∀ lock, lock ∈ t.locks ↔
        lock = .call r.row.id ∨ (locked = true ∧ lock = .campaign r.row.campaignId))
      (hcalls : t.calls = [r.settled t.startedAt]) : At r since s (some t) (.written locked)
  | committed (now : Time) (hrow : s.db.call? r.row.id = some (r.settled now)) (hsince : since ≤ now)
      (hnow : now ≤ s.now) : At r since s none .committed

variable {r : SweepRow} {others : List Txn} {choice : Choice} {since : Time} {s s' : Shared} {t : Txn}
  {txn txn' : Option Txn} {mode : SweepMode} {stmt : Stmt} {reply : Reply stmt}

/-! ### One statement -/

/-- The row passes to its next version. -/
theorem writeCall_settled (hinv : Consistent s) (hdialing : r.row.status = .dialing)
    (hclear : r.Clear others s.db) (hrow : s.db.call? r.row.id = some r.row) (hcalls : t.calls = []) :
    writeCall others s.db t (r.settled t.startedAt) = some (.ok { t with
      locks := .call r.row.id :: t.locks
      calls := [r.settled t.startedAt] }) := by
  have huncontended : phoneContended others s.db (r.settled t.startedAt) = false := hclear.uncontended
  have huntaken : phoneTaken (s.db.apply t) (r.settled t.startedAt) = false := by
    have hsame : (s.db.apply t).calls = s.db.calls := Shared.calls_commit_nil (s := s) hcalls
    rw [phoneTaken, hsame, List.any_eq_false]
    intro other hother htaken
    simp only [Bool.and_eq_true, decide_eq_true_eq] at htaken
    obtain ⟨⟨hne, hphone⟩, hholds⟩ := htaken
    obtain ⟨hmem, -⟩ := lookup_some hrow
    exact hne (hinv.phones other hother r.row hmem hholds (by rw [hdialing]; rfl) hphone)
  have hfree : held others (.call (r.settled t.startedAt).id) = false := hclear.free
  rw [writeCall, hfree, huncontended, huntaken, Bool.and_false, hcalls]
  rfl

theorem exec_updateCall_settled (hinv : Consistent s) (hdialing : r.row.status = .dialing)
    (hclear : r.Clear others s.db) (hrow : s.db.call? r.row.id = some r.row) (hcalls : t.calls = []) :
    exec others choice s (some t) (.updateCall r.transition.toCallUpdate) =
      some (.ok (some (r.settled t.startedAt)), s, some { t with
        locks := .call r.row.id :: t.locks
        calls := [r.settled t.startedAt] }) := by
  have hsame : (s.db.apply t).calls = s.db.calls := Shared.calls_commit_nil (s := s) hcalls
  obtain ⟨hmem, -⟩ := lookup_some hrow
  have hhits : r.transition.hits r.row = true := r.transition_hits.mpr ⟨rfl, hdialing, rfl⟩
  have hfind : (s.db.apply t).calls.find? r.transition.hits = some r.row := by
    rw [hsame]
    obtain ⟨found, hfound⟩ := Option.isSome_iff_exists.mp (List.find?_isSome.mpr ⟨r.row, hmem, hhits⟩)
    rw [hfound]
    have hid : found.id = r.row.id := (r.transition_hits.mp (List.find?_some hfound)).1
    exact congrArg some (eq_of_key_eq hinv.callIds (List.mem_of_find?_eq_some hfound) hmem hid)
  simp only [exec, Option.bind_some]
  rw [hfind]
  show (writeCall others s.db t (r.settled t.startedAt)).map _ = _
  rw [writeCall_settled hinv hdialing hclear hrow hcalls]
  rfl

/-- The commit of a task. -/
theorem call?_commit_settled (hrow : s.db.call? r.row.id = some r.row) (hcalls : t.calls = [r.settled t.startedAt])
    (id : CallId) : (s.commit t).db.call? id =
      if id = r.row.id then some (r.settled t.startedAt) else s.db.call? id := by
  have hold : lookup CallRow.id s.db.calls (r.settled t.startedAt).id = some r.row := hrow
  show lookup CallRow.id (overlay CallRow.id t.calls s.db.calls) id = _
  rw [hcalls]
  exact lookup_overlay_singleton hold id

/-- What one statement of a task leaves alone. -/
structure Frame (r : SweepRow) (s s' : Shared) : Prop where
  calls : ∀ id, id ≠ r.row.id → s'.db.call? id = s.db.call? id
  campaigns : s'.db.campaigns.map CampaignRow.id = s.db.campaigns.map CampaignRow.id
  now : s'.now = s.now
  wake : s'.wake = s.wake

theorem At.frame (hat : r.At since s txn mode) (hallows : r.Allows mode stmt)
    (hexec : exec others choice s txn stmt = some (reply, s', txn')) : r.Frame s s' := by
  have hnow : s'.now = s.now := exec_now hexec
  have hwake : s'.wake = s.wake := exec_flag hexec fun h => by subst h; cases hallows
  by_cases hcommit : stmt = .commit
  · subst hcommit
    obtain ⟨t, rfl, rfl, rfl⟩ := exec_commit hexec
    cases hallows with
    | commit locked hcalm =>
        cases hat with
        | written _ _ hrow hsince hnow' hlocks hcalls =>
            refine ⟨fun id hid => ?_, map_key_overlay _ _, hnow, hwake⟩
            rw [call?_commit_settled hrow hcalls, if_neg hid]
  · obtain ⟨hdb, -, -⟩ := exec_quiet hcommit hexec
    exact ⟨fun id _ => by rw [hdb], by rw [hdb], hnow, hwake⟩

/-- A statement of another task leaves this one where it stands. -/
theorem At.other {r' : SweepRow} (hat : r.At since s txn mode) (hne : r.row.id ≠ r'.row.id)
    (hframe : r'.Frame s s') : r.At since s' txn mode := by
  have hcall := hframe.calls r.row.id hne
  have hnow := hframe.now
  cases hat with
  | outside hrow => exact .outside (hcall.trans hrow)
  | opened t hrow hsince hlater hlocks hcalls =>
      exact .opened t (hcall.trans hrow) hsince (hlater.trans_eq hnow.symm) hlocks hcalls
  | written t locked hrow hsince hlater hlocks hcalls =>
      exact .written t locked (hcall.trans hrow) hsince (hlater.trans_eq hnow.symm) hlocks hcalls
  | committed now hrow hsince hlater =>
      exact .committed now (hcall.trans hrow) hsince (hlater.trans_eq hnow.symm)

theorem At.elapse (hat : r.At since s txn mode) (micros : Nat) :
    r.At since { s with now := s.now + micros } txn mode := by
  have hlater : s.now ≤ s.now + micros := Int.le_add_of_nonneg_right (Int.natCast_nonneg micros)
  cases hat with
  | outside hrow => exact .outside hrow
  | opened t hrow hsince hnow hlocks hcalls => exact .opened t hrow hsince (hnow.trans hlater) hlocks hcalls
  | written t locked hrow hsince hnow hlocks hcalls =>
      exact .written t locked hrow hsince (hnow.trans hlater) hlocks hcalls
  | committed now hrow hsince hnow => exact .committed now hrow hsince (hnow.trans hlater)

/-- The locks of a task. -/
theorem At.locks (hat : r.At since s (some t) mode) {lock : RowLock} (hlock : lock ∈ t.locks) :
    lock = .call r.row.id ∨ (mode = .written true ∧ lock = .campaign r.row.campaignId) := by
  cases hat with
  | opened _ _ _ _ hlocks _ =>
      rw [hlocks] at hlock
      cases hlock
  | written _ locked _ _ _ hlocks _ =>
      rcases (hlocks lock).mp hlock with hcall | ⟨rfl, hcampaign⟩
      · exact Or.inl hcall
      · exact Or.inr ⟨rfl, hcampaign⟩

/-- The row versions of a task. -/
theorem At.version (hat : r.At since s (some t) mode) {version : CallRow} (hversion : version ∈ t.calls) :
    version.id = r.row.id ∧ version.phone = r.row.phone := by
  cases hat with
  | opened _ _ _ _ _ hcalls =>
      rw [hcalls] at hversion
      cases hversion
  | written _ _ _ _ _ _ hcalls =>
      rw [hcalls, List.mem_singleton] at hversion
      rw [hversion]
      exact ⟨rfl, rfl⟩

/-- The task itself moves on as its monitor says. -/
theorem At.step (hinv : Consistent s) (hdialing : r.row.status = .dialing) (hclear : r.Clear others s.db)
    (hat : r.At since s txn mode) (hsince : since ≤ s.now) (hallows : r.Allows mode stmt)
    (hexec : exec others { status := r.status } s txn stmt = some (reply, s', txn')) :
    r.monitor.answers stmt reply ∧ r.At since s' txn' (r.monitor.next mode stmt reply) := by
  cases hallows with
  | getStatus handle =>
      cases hat with
      | outside hrow =>
          cases hexec
          exact ⟨rfl, .outside hrow⟩
  | begin =>
      cases hat with
      | outside hrow =>
          obtain ⟨rfl, rfl⟩ := exec_begin hexec
          exact ⟨trivial, .opened _ hrow hsince le_rfl rfl rfl⟩
  | updateCall =>
      cases hat with
      | opened t hrow hbegun hnow hlocks hcalls =>
          rw [exec_updateCall_settled hinv hdialing hclear hrow hcalls] at hexec
          cases hexec
          refine ⟨⟨t.startedAt, rfl⟩, .written _ false hrow hbegun hnow (fun lock => ?_) rfl⟩
          simp [hlocks]
  | emitAudit locked event =>
      cases hat with
      | written t _ hrow hbegun hnow hlocks hcalls =>
          obtain ⟨rfl, rfl⟩ := exec_emitAudit hexec
          exact ⟨trivial, .written _ locked hrow hbegun hnow hlocks hcalls⟩
  | lockCampaign =>
      cases hat with
      | written t _ hrow hbegun hnow hlocks hcalls =>
          obtain ⟨rfl, -, rfl⟩ := exec_lockCampaign hexec
          refine ⟨trivial, .written _ true hrow hbegun hnow (fun lock => ?_) hcalls⟩
          rw [List.mem_cons, hlocks lock]
          simp [or_comm]
  | select query =>
      cases hat with
      | written t _ hrow hbegun hnow hlocks hcalls =>
          obtain ⟨-, rfl, rfl⟩ := exec_select hexec
          exact ⟨trivial, .written t true hrow hbegun hnow hlocks hcalls⟩
  | updateCampaign expected new =>
      cases hat with
      | written t _ hrow hbegun hnow hlocks hcalls =>
          obtain ⟨rfl, ⟨-, rfl, -⟩ | ⟨campaign, -, -, -, -, rfl⟩⟩ := exec_updateCampaign hexec
          · exact ⟨trivial, .written t true hrow hbegun hnow hlocks hcalls⟩
          · refine ⟨trivial, .written _ true hrow hbegun hnow (fun lock => ?_) hcalls⟩
            rw [List.mem_cons, hlocks lock]
            exact ⟨fun h => h.elim (fun hlock => Or.inr ⟨rfl, hlock⟩) id, Or.inr⟩
  | commit locked hcalm =>
      cases hat with
      | written t _ hrow hbegun hnow hlocks hcalls =>
          obtain ⟨_, hsame, rfl, rfl⟩ := exec_commit hexec
          obtain rfl := Option.some.inj hsame
          refine ⟨trivial, .committed t.startedAt ?_ hbegun hnow⟩
          rw [call?_commit_settled hrow hcalls, if_pos rfl]
  | rollback _ hopen =>
      obtain ⟨rfl, rfl⟩ := exec_rollback hexec
      cases hat with
      | outside hrow => cases hopen
      | opened t hrow hbegun hnow hlocks hcalls => exact ⟨trivial, .outside hrow⟩
      | written t _ hrow hbegun hnow hlocks hcalls => exact ⟨trivial, .outside hrow⟩
      | committed now hrow hbegun hnow => cases hopen

/-- Where a task cannot go on, it asks for the lock of its campaign, and another transaction has it. -/
theorem At.waits (hinv : Consistent s) (hdialing : r.row.status = .dialing) (hclear : r.Clear others s.db)
    (hat : r.At since s txn mode) (hallows : r.Allows mode stmt)
    (hexcludes : ∀ t ∈ txn, ∀ lock ∈ t.locks, held others lock = false)
    (hstuck : exec others choice s txn stmt = none) :
    mode = .written false ∧ stmt = .lockCampaign r.row.campaignId ∧
      held others (.campaign r.row.campaignId) = true := by
  cases hallows with
  | getStatus handle => cases hstuck
  | begin =>
      cases hat with
      | outside hrow => cases hstuck
  | updateCall =>
      cases hat with
      | opened t hrow hbegun hnow hlocks hcalls =>
          rw [exec_updateCall_settled hinv hdialing hclear hrow hcalls] at hstuck
          cases hstuck
  | lockCampaign =>
      cases hat with
      | written t _ hrow hbegun hnow hlocks hcalls =>
          refine ⟨rfl, rfl, ?_⟩
          by_contra hfree
          rw [Bool.not_eq_true] at hfree
          simp only [exec, Option.bind_some, hfree, Bool.false_eq_true, if_false] at hstuck
          cases hstuck
  | updateCampaign expected new =>
      cases hat with
      | written t _ hrow hbegun hnow hlocks hcalls =>
          have hfree := hexcludes t rfl _ ((hlocks _).mpr (Or.inr ⟨rfl, rfl⟩))
          simp only [exec, Option.bind_some, hfree, Bool.false_eq_true, if_false] at hstuck
          split at hstuck
          · cases hstuck
          · split at hstuck <;> cases hstuck
  | rollback _ hopen => cases hstuck
  | emitAudit locked event | select query | commit locked hcalm =>
      cases hat with
      | written t _ hrow hbegun hnow hlocks hcalls => cases hstuck

end SweepRow

/-! ### The whole sweep -/

namespace SweepTask

/-- The task, as the others see it. -/
def thread (task : SweepTask) : Thread Stmt Reply Err Party :=
  ⟨task.code >>= fun _ => pure (), ⟨some (.reclaim task.stuck.row), task.txn⟩⟩

/-- The task has done what its code is past, and nothing else. -/
def OnTrack (task : SweepTask) (since : Time) (s : Shared) : Prop :=
  ∃ mode, task.stuck.At since s task.txn mode ∧
    task.stuck.monitor.Obeys (fun outcome mode => outcome = task.stuck.outcome ∧
      mode = if task.stuck.fault.isSome = true then .outside else .committed) (fun _ _ => False) task.code mode

end SweepTask

/-- The rows a sweep has found, in any order. -/
structure StuckRows (s : Shared) (rows : List SweepRow) : Prop where
  ids : (rows.map fun r => r.row.id).Nodup
  found : ∀ r ∈ rows, s.db.call? r.row.id = some r.row
  dialing : ∀ r ∈ rows, r.row.status = .dialing

theorem StuckRows.of_find {s : Shared} (hinv : Consistent s) {rows : List SweepRow} {seconds : Nat}
    (h : (rows.map SweepRow.row).Perm (s.db.findStuckDialing seconds s.now)) : StuckRows s rows := by
  have hids : ((s.db.findStuckDialing seconds s.now).map CallRow.id).Nodup :=
    hinv.callIds.sublist (List.filter_sublist.map _)
  have hmem : ∀ r ∈ rows, r.row ∈ s.db.calls ∧ r.row.stuckDialing seconds s.now = true := fun r hr =>
    List.mem_filter.mp (h.mem_iff.mp (List.mem_map_of_mem hr))
  refine ⟨?_, fun r hr => hinv.call?_of_mem (hmem r hr).1, fun r hr => ?_⟩
  · rw [← (h.map CallRow.id).nodup_iff, List.map_map] at hids
    exact hids
  · have hstuck := (hmem r hr).2
    rw [CallRow.stuckDialing, Bool.and_eq_true, decide_eq_true_eq] at hstuck
    exact hstuck.1

theorem StuckRows.distinct {s : Shared} {rows : List SweepRow} (h : StuckRows s rows) {i j : Nat}
    {a b : SweepRow} (hij : i ≠ j) (ha : rows[i]? = some a) (hb : rows[j]? = some b) : a.row.id ≠ b.row.id := by
  intro hid
  have hlt : i < (rows.map fun r => r.row.id).length := by
    rw [List.length_map]
    exact (List.getElem?_eq_some_iff.mp ha).1
  refine hij ((List.getElem?_inj hlt h.ids).mp ?_)
  rw [List.getElem?_map, List.getElem?_map, ha, hb]
  exact congrArg some hid

namespace Sweep

def threads (s : Sweep) : List (Thread Stmt Reply Err Party) := s.tasks.map SweepTask.thread

/-- Every state of a sweep: consistent tables, tasks on their track, and nothing else changed since it began. -/
structure Underway (before : Shared) (rows : List SweepRow) (s : Sweep) : Prop where
  secure : Secure discipline s.shared s.threads
  tasks : s.tasks.map SweepTask.stuck = rows
  onTrack : ∀ task ∈ s.tasks, task.OnTrack before.now s.shared
  others : ∀ id, (∀ r ∈ rows, r.row.id ≠ id) → s.shared.db.call? id = before.db.call? id
  campaigns : s.shared.db.campaigns.map CampaignRow.id = before.db.campaigns.map CampaignRow.id
  now : before.now ≤ s.shared.now
  wake : s.shared.wake = before.wake

variable {before : Shared} {rows : List SweepRow} {s s' : Sweep} {index : Nat} {task : SweepTask}

theorem mem_othersOf {t : Txn} : t ∈ s.othersOf index ↔
    ∃ j other, j ≠ index ∧ s.tasks[j]? = some other ∧ other.txn = some t := by
  rw [othersOf, List.mem_filterMap]
  constructor
  · rintro ⟨other, hother, htxn⟩
    obtain ⟨j, hj, hget⟩ := List.mem_eraseIdx_iff_getElem?.mp hother
    exact ⟨j, other, hj, hget, htxn⟩
  · rintro ⟨j, other, hj, hget, htxn⟩
    exact ⟨other, List.mem_eraseIdx_iff_getElem?.mpr ⟨j, hj, hget⟩, htxn⟩

theorem held_othersOf {lock : RowLock} (h : held (s.othersOf index) lock = true) :
    ∃ j other t, j ≠ index ∧ s.tasks[j]? = some other ∧ other.txn = some t ∧ lock ∈ t.locks := by
  obtain ⟨t, ht, hlock⟩ := List.any_eq_true.mp h
  obtain ⟨j, other, hj, hget, htxn⟩ := mem_othersOf.mp ht
  exact ⟨j, other, t, hj, hget, htxn, of_decide_eq_true hlock⟩

theorem Underway.stuck (h : Underway before rows s) (hget : s.tasks[index]? = some task) :
    rows[index]? = some task.stuck := by
  rw [← h.tasks, List.getElem?_map, hget]
  rfl

theorem Underway.stuck_mem (h : Underway before rows s) (hget : s.tasks[index]? = some task) :
    task.stuck ∈ rows := List.mem_of_getElem? (h.stuck hget)

/-- Two tasks have two rows, with two phones. -/
theorem Underway.apart (h : Underway before rows s) (hbefore : Consistent before) (hrows : StuckRows before rows)
    {j : Nat} {other : SweepTask} (hj : j ≠ index) (hget : s.tasks[index]? = some task)
    (hother : s.tasks[j]? = some other) :
    other.stuck.row.id ≠ task.stuck.row.id ∧ other.stuck.row.phone ≠ task.stuck.row.phone := by
  have hids := hrows.distinct hj (h.stuck hother) (h.stuck hget)
  have hholds : ∀ r ∈ rows, r.row ∈ before.db.calls ∧ r.row.status.holdsPhone = true := fun r hr =>
    ⟨(lookup_some (hrows.found r hr)).1, by rw [hrows.dialing r hr]; rfl⟩
  obtain ⟨hmem, hphone⟩ := hholds _ (h.stuck_mem hget)
  obtain ⟨hmem', hphone'⟩ := hholds _ (h.stuck_mem hother)
  exact ⟨hids, fun hsame => hids (hbefore.phones _ hmem' _ hmem hphone' hphone hsame)⟩

theorem Underway.clear (h : Underway before rows s) (hbefore : Consistent before) (hrows : StuckRows before rows)
    (hget : s.tasks[index]? = some task) : task.stuck.Clear (s.othersOf index) s.shared.db := by
  constructor
  · by_contra hheld
    rw [Bool.not_eq_false] at hheld
    obtain ⟨j, other, t, hj, hother, htxn, hlock⟩ := held_othersOf hheld
    obtain ⟨mode, hat, -⟩ := h.onTrack other (List.mem_of_getElem? hother)
    rw [htxn] at hat
    rcases hat.locks hlock with hsame | ⟨-, hcampaign⟩
    · exact (h.apart hbefore hrows hj hget hother).1 (RowLock.call.inj hsame).symm
    · cases hcampaign
  · rw [phoneContended, List.any_eq_false]
    intro t ht hversion
    obtain ⟨j, other, hj, hother, htxn⟩ := mem_othersOf.mp ht
    obtain ⟨mode, hat, -⟩ := h.onTrack other (List.mem_of_getElem? hother)
    obtain ⟨version, hmem, hphone⟩ := List.any_eq_true.mp hversion
    simp only [Bool.and_eq_true, decide_eq_true_eq] at hphone
    rw [htxn] at hat
    exact (h.apart hbefore hrows hj hget hother).2 ((hat.version hmem).2.symm.trans hphone.1.2)

/-- Open transactions share no lock. -/
theorem Underway.excludes (h : Underway before rows s) (hget : s.tasks[index]? = some task) :
    ∀ t ∈ task.txn, ∀ lock ∈ t.locks, held (s.othersOf index) lock = false := by
  intro t ht lock hlock
  by_contra hheld
  rw [Bool.not_eq_false] at hheld
  obtain ⟨j, other, u, hj, hother, hu, hlock'⟩ := held_othersOf hheld
  have hthread : ∀ {k : Nat} {found : SweepTask}, s.tasks[k]? = some found →
      s.threads[k]? = some found.thread := fun hfound => by
    rw [threads, List.getElem?_map, hfound]
    rfl
  have hcompat := h.secure.compat index j _ _ (Ne.symm hj) (hthread hget) (hthread hother)
  exact hcompat.locks t ht u hu lock hlock hlock'

/-! ### Runs -/

/-- The sweep begins. -/
theorem Underway.start (hbefore : Consistent before) (hrows : StuckRows before rows) :
    Underway before rows (start before rows) := by
  have htask : ∀ task ∈ (Sweep.start before rows).tasks, ∃ r ∈ rows, task = ⟨r, r.reclaimOne, none⟩ := by
    intro task hmem
    obtain ⟨r, hr, rfl⟩ := List.mem_map.mp hmem
    exact ⟨r, hr, rfl⟩
  have hthread : ∀ thread ∈ (Sweep.start before rows).threads, ∃ r ∈ rows,
      thread = SweepTask.thread ⟨r, r.reclaimOne, none⟩ := by
    intro thread hmem
    obtain ⟨task, hmem', rfl⟩ := List.mem_map.mp hmem
    obtain ⟨r, hr, rfl⟩ := htask task hmem'
    exact ⟨r, hr, rfl⟩
  refine ⟨?_, ?_, ?_, fun _ _ => rfl, rfl, le_rfl, rfl⟩
  · have hempty : Secure discipline before ([] : List (Thread Stmt Reply Err Party)) :=
      ⟨hbefore, (fun _ h => nomatch h), fun i _ _ _ _ h => by rw [List.getElem?_nil] at h; cases h⟩
    refine hempty.append (fun thread hmem => ?_) (fun _ _ _ h => nomatch h)
      (List.pairwise_of_forall_mem_list fun a ha b _ => ?_)
    · obtain ⟨r, hr, rfl⟩ := hthread thread hmem
      exact r.reclaimOne_safe ⟨before, hbefore, .refl before, (lookup_some (hrows.found r hr)).1⟩
    · obtain ⟨r, -, rfl⟩ := hthread a ha
      exact ⟨nofun, nofun⟩
  · rw [Sweep.start, List.map_map]
    exact List.map_id rows
  · intro task hmem
    obtain ⟨r, hr, rfl⟩ := htask task hmem
    exact ⟨.outside, .outside (hrows.found r hr), r.reclaimOne_obeys⟩

theorem step_run {stuck : SweepRow} {stmt : Stmt} {next : Reply stmt → Co ReclaimOutcome} {txn : Option Txn}
    (hget : s.tasks[index]? = some ⟨stuck, .call stmt next, txn⟩) : s.step (.run index) =
      (exec (s.othersOf index) { status := stuck.status } s.shared txn stmt).map fun result =>
        { shared := result.2.1, tasks := s.tasks.set index ⟨stuck, next result.1, result.2.2⟩ } := by
  rw [step, hget]
  cases hexec : exec (s.othersOf index) { status := stuck.status } s.shared txn stmt <;> simp [hexec]

/-- The two kinds of step. -/
theorem step_cases {event : SweepEvent} (h : s.step event = some s') :
    (∃ micros, event = .elapse micros ∧ s' = { s with shared := { s.shared with now := s.shared.now + micros } }) ∨
      ∃ index stuck stmt next txn reply shared txn', event = .run index ∧
        s.tasks[index]? = some ⟨stuck, .call stmt next, txn⟩ ∧
        exec (s.othersOf index) { status := stuck.status } s.shared txn stmt = some (reply, shared, txn') ∧
        s' = ⟨shared, s.tasks.set index ⟨stuck, next reply, txn'⟩⟩ := by
  cases event with
  | elapse micros =>
      cases h
      exact Or.inl ⟨micros, rfl, rfl⟩
  | run index =>
      rw [step] at h
      split at h
      · next stuck stmt next txn hget =>
          split at h
          · next reply shared txn' hexec =>
              cases h
              exact Or.inr ⟨index, stuck, stmt, next, txn, reply, shared, txn', rfl, hget, hexec, rfl⟩
          · cases h
      · cases h

theorem Underway.step (h : Underway before rows s) (hbefore : Consistent before) (hrows : StuckRows before rows)
    {event : SweepEvent} (hstep : s.step event = some s') : Underway before rows s' := by
  rcases step_cases hstep with ⟨micros, -, rfl⟩ |
    ⟨index, stuck, stmt, next, txn, reply, shared, txn', -, hget, hexec, rfl⟩
  · have hlater : s.shared.now ≤ s.shared.now + micros := Int.le_add_of_nonneg_right (Int.natCast_nonneg micros)
    have hinv : Consistent { s.shared with now := s.shared.now + micros } :=
      h.secure.inv.of_db rfl fun _ hentry => hentry
    refine ⟨h.secure.env hinv fun thread _ => .elapse _ micros _, h.tasks, fun task hmem => ?_, h.others,
      h.campaigns, h.now.trans hlater, h.wake⟩
    obtain ⟨mode, hat, hobeys⟩ := h.onTrack task hmem
    exact ⟨mode, hat.elapse micros, hobeys⟩
  · obtain ⟨mode, hat, hobeys⟩ := h.onTrack _ (List.mem_of_getElem? hget)
    have hframe := hat.frame hobeys.1 hexec
    obtain ⟨hanswers, hat'⟩ := hat.step h.secure.inv (hrows.dialing _ (h.stuck_mem hget))
      (h.clear hbefore hrows hget) h.now hobeys.1 hexec
    have hthread : s.threads[index]? = some
        ⟨.call stmt fun reply => next reply >>= fun _ => pure (), ⟨some (.reclaim stuck.row), txn⟩⟩ := by
      rw [threads, List.getElem?_map, hget]
      rfl
    have hothers : txnsOf ((s.threads.eraseIdx index).map Thread.loc) = s.othersOf index := by
      rw [threads, List.eraseIdx_map, List.map_map, txnsOf, List.filterMap_map]
      rfl
    have hrun : discipline.exec ((s.threads.eraseIdx index).map Thread.loc) s.shared
        ⟨some (.reclaim stuck.row), txn⟩ stmt reply shared ⟨some (.reclaim stuck.row), txn'⟩ :=
      ⟨rfl, { status := stuck.status }, hothers.symm ▸ hexec⟩
    obtain ⟨hsecure, -, -⟩ := h.secure.run hthread hrun
    refine ⟨?_, ?_, fun task hmem => ?_, fun id hid => ?_, hframe.campaigns.trans h.campaigns,
      h.now.trans_eq hframe.now.symm, hframe.wake.trans h.wake⟩
    · rw [threads, List.map_set]
      exact hsecure
    · obtain ⟨hlt, hstuck⟩ := List.getElem?_eq_some_iff.mp (h.stuck hget)
      rw [List.map_set, h.tasks, ← hstuck]
      exact List.set_getElem_self hlt
    · obtain ⟨j, hj⟩ := List.mem_iff_getElem?.mp hmem
      by_cases hindex : index = j
      · subst hindex
        rw [List.getElem?_set_self (List.getElem?_eq_some_iff.mp hget).1] at hj
        obtain rfl := Option.some.inj hj
        exact ⟨_, hat', hobeys.2 reply hanswers⟩
      · rw [List.getElem?_set_ne hindex] at hj
        obtain ⟨mode', hother, hobeys'⟩ := h.onTrack task (List.mem_of_getElem? hj)
        exact ⟨mode', hother.other (h.apart hbefore hrows (Ne.symm hindex) hget hj).1 hframe, hobeys'⟩
    · rw [hframe.calls id fun hsame => hid _ (h.stuck_mem hget) hsame.symm]
      exact h.others id hid

theorem Underway.run (h : Underway before rows s) (hbefore : Consistent before) (hrows : StuckRows before rows)
    {events : List SweepEvent} (hrun : s.run events = some s') : Underway before rows s' := by
  induction events generalizing s with
  | nil =>
      cases hrun
      exact h
  | cons event rest ih =>
      obtain ⟨mid, hstep, hrest⟩ := Option.bind_eq_some_iff.mp hrun
      exact ih (h.step hbefore hrows hstep) hrest

/-! ### The end -/

/-- A task that has not returned is at a statement. -/
theorem Underway.waiting (h : Underway before rows s) (hmem : task ∈ s.tasks) (hwaits : task.outcome? = none) :
    ∃ stmt next, task.code = .call stmt next := by
  obtain ⟨mode, -, hobeys⟩ := h.onTrack task hmem
  cases hcode : task.code with
  | done outcome =>
      rw [SweepTask.outcome?, hcode] at hwaits
      cases hwaits
  | fail error =>
      rw [hcode] at hobeys
      exact hobeys.elim
  | call stmt next => exact ⟨stmt, next, rfl⟩

/-- A task with an open transaction has not returned. -/
theorem Underway.unfinished (h : Underway before rows s) (hmem : task ∈ s.tasks) {t : Txn}
    (htxn : task.txn = some t) : task.outcome? = none := by
  obtain ⟨mode, hat, hobeys⟩ := h.onTrack task hmem
  cases hcode : task.code with
  | done outcome =>
      rw [hcode] at hobeys
      obtain ⟨-, hmode⟩ := hobeys
      rw [htxn] at hat
      split at hmode <;> subst hmode <;> cases hat
  | fail error => rw [SweepTask.outcome?, hcode]
  | call stmt next => rw [SweepTask.outcome?, hcode]

/-- Where a task cannot go on, another one holds the lock of its campaign. -/
theorem Underway.blocked (h : Underway before rows s) (hbefore : Consistent before)
    (hrows : StuckRows before rows) (hget : s.tasks[index]? = some task) (hwaits : task.outcome? = none)
    (hblocked : s.step (.run index) = none) : ∃ mode, task.stuck.At before.now s.shared task.txn mode ∧
      mode = .written false ∧ held (s.othersOf index) (.campaign task.stuck.row.campaignId) = true := by
  obtain ⟨stmt, next, hcode⟩ := h.waiting (List.mem_of_getElem? hget) hwaits
  obtain ⟨mode, hat, hobeys⟩ := h.onTrack task (List.mem_of_getElem? hget)
  rw [hcode] at hobeys
  have hcall : s.tasks[index]? = some ⟨task.stuck, .call stmt next, task.txn⟩ := by rw [hget, ← hcode]
  have hstep := step_run hcall
  rw [hblocked] at hstep
  obtain ⟨hmode, -, hheld⟩ := hat.waits h.secure.inv (hrows.dialing _ (h.stuck_mem hget))
    (h.clear hbefore hrows hget) hobeys.1 (h.excludes hget) (Option.map_eq_none_iff.mp hstep.symm)
  exact ⟨mode, hat, hmode, hheld⟩

/-- While a task has not returned, one can go on. -/
theorem Underway.progress (h : Underway before rows s) (hbefore : Consistent before)
    (hrows : StuckRows before rows) (hunfinished : s.outcomes? = none) :
    ∃ index, (s.step (.run index)).isSome = true := by
  obtain ⟨task, hmem, hwaits⟩ : ∃ task ∈ s.tasks, task.outcome? = none := by
    by_contra hall
    have hsome : (s.tasks.all fun task => task.outcome?.isSome) = true := by
      rw [List.all_eq_true]
      intro task hmem
      rw [Option.isSome_iff_ne_none]
      exact fun hnone => hall ⟨task, hmem, hnone⟩
    rw [outcomes?, if_pos hsome] at hunfinished
    cases hunfinished
  obtain ⟨index, hget⟩ := List.mem_iff_getElem?.mp hmem
  cases hstep : s.step (.run index) with
  | some s' => exact ⟨index, by rw [hstep]; rfl⟩
  | none =>
      obtain ⟨_, -, -, hheld⟩ := h.blocked hbefore hrows hget hwaits hstep
      obtain ⟨j, other, t, hj, hother, htxn, hlock⟩ := held_othersOf hheld
      refine ⟨j, Option.isSome_iff_ne_none.mpr fun hblocked => ?_⟩
      obtain ⟨mode, hat, rfl, -⟩ := h.blocked hbefore hrows hother
        (h.unfinished (List.mem_of_getElem? hother) htxn) hblocked
      -- who holds the lock of its campaign does not wait for it
      rw [htxn] at hat
      rcases hat.locks hlock with hcall | ⟨hlocked, -⟩
      · cases hcall
      · cases hlocked

/-- A task runs no more statements than it has. -/
theorem count_run_le {events : List SweepEvent} {n : Nat} (hrun : s.run events = some s')
    (hwithin : ∀ task, s.tasks[index]? = some task → task.code.Within n) : events.count (.run index) ≤ n := by
  induction events generalizing s n with
  | nil => exact Nat.zero_le n
  | cons event rest ih =>
      obtain ⟨mid, hstep, hrest⟩ := Option.bind_eq_some_iff.mp hrun
      rcases step_cases hstep with ⟨micros, rfl, rfl⟩ |
        ⟨j, stuck, stmt, next, txn, reply, shared, txn', rfl, hget, -, rfl⟩
      · have hne : SweepEvent.elapse micros ≠ .run index := nofun
        rw [List.count_cons_of_ne hne]
        exact ih hrest hwithin
      · by_cases hindex : j = index
        · subst hindex
          have hlength : j < s.tasks.length := (List.getElem?_eq_some_iff.mp hget).1
          rw [List.count_cons_self]
          cases n with
          | zero => exact (hwithin _ hget).elim
          | succ n =>
              refine Nat.succ_le_succ (ih hrest fun task htask => ?_)
              rw [List.getElem?_set_self hlength] at htask
              obtain rfl := Option.some.inj htask
              exact hwithin _ hget reply
        · rw [List.count_cons_of_ne fun hsame => hindex (SweepEvent.run.inj hsame)]
          refine ih hrest fun task htask => hwithin task ?_
          rw [List.getElem?_set_ne hindex] at htask
          exact htask

/-- Where all tasks have returned, each has returned what its row says, and has done it. -/
theorem Underway.ended (h : Underway before rows s) {outcomes : List ReclaimOutcome}
    (hends : s.outcomes? = some outcomes) : outcomes = rows.map SweepRow.outcome ∧
      ∀ r ∈ rows, r.At before.now s.shared none (if r.fault.isSome = true then .outside else .committed) := by
  rw [outcomes?] at hends
  split at hends
  case isFalse => cases hends
  case isTrue hall =>
    have htask : ∀ task ∈ s.tasks, task.outcome? = some task.stuck.outcome ∧ task.stuck.At before.now s.shared none
        (if task.stuck.fault.isSome = true then .outside else .committed) := by
      intro task hmem
      have hsome := List.all_eq_true.mp hall task hmem
      obtain ⟨mode, hat, hobeys⟩ := h.onTrack task hmem
      have htxn : task.txn = none := by
        by_contra hopen
        obtain ⟨t, ht⟩ := Option.ne_none_iff_exists'.mp hopen
        rw [h.unfinished hmem ht] at hsome
        cases hsome
      cases hcode : task.code with
      | done outcome =>
          rw [hcode] at hobeys
          obtain ⟨rfl, rfl⟩ := hobeys
          rw [htxn] at hat
          exact ⟨by rw [SweepTask.outcome?, hcode], hat⟩
      | fail error =>
          rw [SweepTask.outcome?, hcode] at hsome
          cases hsome
      | call stmt next =>
          rw [SweepTask.outcome?, hcode] at hsome
          cases hsome
    constructor
    · rw [← Option.some.inj hends, ← h.tasks, List.map_map]
      clear hends hall
      generalize s.tasks = tasks at htask
      induction tasks with
      | nil => rfl
      | cons first rest ih =>
          rw [List.filterMap_cons_some (htask first List.mem_cons_self).1, List.map_cons,
            ih fun task hmem => htask task (List.mem_cons_of_mem _ hmem)]
          rfl
    · intro r hr
      rw [← h.tasks] at hr
      obtain ⟨task, hmem, rfl⟩ := List.mem_map.mp hr
      exact (htask task hmem).2

/-- The wake flag apart, the sweep leaves what its tasks have left. -/
theorem finish_eq {outcomes : List ReclaimOutcome} {after : Shared} (h : s.finish = some (outcomes, after)) :
    s.outcomes? = some outcomes ∧ after.db = s.shared.db ∧ after.now = s.shared.now ∧
      after.wake = (s.shared.wake || outcomes.any ReclaimOutcome.freed) := by
  obtain ⟨found, hends, heq⟩ := Option.map_eq_some_iff.mp h
  obtain ⟨rfl, rfl⟩ := Prod.mk.inj heq
  cases hfreed : found.any ReclaimOutcome.freed with
  | true => exact ⟨hends, rfl, rfl, (Bool.or_true _).symm⟩
  | false => exact ⟨hends, rfl, rfl, (Bool.or_false _).symm⟩

end Sweep

end VoiceCampaign

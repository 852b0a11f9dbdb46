import VoiceCampaign.Model.Runs
import VoiceCampaign.Protocol.Commits
import VoiceCampaign.Protocol.Dials

/-!
# Sweeps

A sweep finds its rows, and each reclaim task acts on what was found. In between the attempt may go on: the
compare-and-set of the task looks at status and epoch alone, and a row without a handle is taken for one
that was never dialed. What the sweep relies on is a condition on the other steps of the run.
-/

namespace VoiceCampaign

open Concurrency

/-! ### Reclaims under way -/

/-- The rows whose reclaim tasks are not over. -/
def Sys.reclaims (s : Sys) : List CallRow :=
  s.procs.filterMap fun process =>
    match process.task with
    | .reclaim row => if process.live = true then some row else none
    | _ => none

section

variable {deps : Deps} {s s' : Sys} {action : Action} {row : CallRow}

theorem mem_reclaims : row ∈ s.reclaims ↔
    ∃ process ∈ s.procs, process.task = .reclaim row ∧ process.live = true := by
  rw [Sys.reclaims, List.mem_filterMap]
  refine exists_congr fun process => and_congr_right fun _ => ?_
  cases process.task with
  | reclaim found =>
      dsimp only
      split
      · next hlive => simp [hlive]
      · next hlive => simp [hlive]
  | _ => simp

/-- A reclaim under way was so before, or its row has just been found. -/
theorem reclaims_step (hstep : s.step deps action = some s') (h : row ∈ s'.reclaims) :
    row ∈ s.reclaims ∨ (action = .sweep ∧ s'.shared = s.shared ∧
      row ∈ s.shared.db.findStuckDialing deps.settings.stuckReclaimSeconds s.shared.now) := by
  obtain ⟨process, hprocess, htask, hlive⟩ := mem_reclaims.mp h
  rcases Sys.step_cases hstep with ⟨shared, hworld, rfl⟩ |
    ⟨index, choice, task, stmt, next, txn, reply, shared, txn', rfl, hbefore, hexec, rfl⟩ |
    ⟨index, dead, rfl, hbefore, rfl⟩
  · rcases List.mem_append.mp hprocess with hold | hnew
    · exact Or.inl (mem_reclaims.mpr ⟨process, hold, htask, hlive⟩)
    · obtain ⟨task, hspawned, rfl⟩ := List.mem_map.mp hnew
      obtain rfl : task = .reclaim row := htask
      obtain ⟨rfl, hfound⟩ := Sys.spawns_reclaim hspawned
      refine Or.inr ⟨rfl, ?_, hfound⟩
      cases hworld with
      | still _ _ _ => rfl
  · rcases List.mem_or_eq_of_mem_set hprocess with hold | rfl
    · exact Or.inl (mem_reclaims.mpr ⟨process, hold, htask, hlive⟩)
    · exact Or.inl (mem_reclaims.mpr ⟨_, List.mem_of_getElem? hbefore, htask, rfl⟩)
  · rcases List.mem_or_eq_of_mem_set hprocess with hold | rfl
    · exact Or.inl (mem_reclaims.mpr ⟨process, hold, htask, hlive⟩)
    · cases hlive

end

/-! ### Rows that are still stuck -/

/-- No transaction commits a call as `DIALING` at an attempt that a sweep has found and not done with. -/
def SweepsUndisturbed (s : Sys) (action : Action) : Prop :=
  ∀ rewrite ∈ s.rewrites action, rewrite.2.status = .dialing →
    ∀ row ∈ s.reclaims, row.id = rewrite.2.id → row.attemptEpoch ≠ rewrite.2.attemptEpoch

instance (s : Sys) (action : Action) : Decidable (SweepsUndisturbed s action) := by
  unfold SweepsUndisturbed
  infer_instance

/-- The row a sweep found is as it was, or a compare-and-set on its attempt will miss. -/
def Stuck (db : Db) (row : CallRow) : Prop :=
  ∃ call, db.call? row.id = some call ∧
    (call = row ∨ call.status ≠ .dialing ∨ call.attemptEpoch ≠ row.attemptEpoch)

section

variable {deps : Deps} {s s' : Sys} {action : Action} {row before after : CallRow}

/-- One step, at which the row is found or stays found. -/
theorem SweepsUndisturbed.stuck (h : SweepsUndisturbed s action) (hs : Reachable deps s)
    (hstep : s.step deps action = some s') (hrow : row ∈ s.reclaims) (hstuck : Stuck s.shared.db row) :
    Stuck s'.shared.db row := by
  obtain ⟨call, hcall, hcases⟩ := hstuck
  obtain ⟨call', hcall', -⟩ := (hs.grows hstep).call _ call hcall
  refine ⟨call', hcall', ?_⟩
  by_cases hchanged : call' = call
  · rwa [hchanged]
  obtain ⟨task, t, hcommits⟩ := hs.changed hstep hcall hcall' hchanged
  by_cases hdialing : call'.status = .dialing
  · have hne := h _ hcommits.mem_rewrites hdialing row hrow
    exact Or.inr (Or.inr (Ne.symm (hne (lookup_some hcall').2.symm)))
  · exact Or.inr (Or.inl hdialing)

theorem ReachableBy.stuck (h : ReachableBy deps SweepsUndisturbed s) : ∀ row ∈ s.reclaims, Stuck s.shared.db row := by
  induction h with
  | init now => exact fun _ h => nomatch h
  | step action hs hundisturbed hstep ih =>
      intro row hrow
      rcases reclaims_step hstep hrow with hold | ⟨-, hsame, hfound⟩
      · exact hundisturbed.stuck hs.reachable hstep hold (ih row hold)
      · rw [hsame]
        exact ⟨row, hs.reachable.consistent.call?_of_mem (List.mem_filter.mp hfound).1, Or.inl rfl⟩

/-- A reclaim task asks for its compare-and-set on the attempt of its row. -/
theorem Commits.reclaimed {t : Txn} (h : Commits s action s' (.reclaim row) t before after) :
    before.id = row.id ∧ before.status = .dialing ∧ before.attemptEpoch = row.attemptEpoch := by
  obtain ⟨inbox, event, folds, hmoves, -⟩ := h.moves
  cases hmoves.cause with
  | claim campaign inFlight pending cursor htask hinbox hclaimable => cases htask
  | cas args hasks hhits hregresses =>
      obtain ⟨hid, hstatus, hepoch⟩ := CallUpdate.hits_iff.mp hhits
      cases hasks with
      | reclaimTerminal _ reported hsnap hreported => exact ⟨hid, hstatus, hepoch⟩
      | reclaim _ hsnap => exact ⟨hid, hstatus, hepoch⟩

/-- The task that commits is under way. -/
theorem Commits.reclaims {t : Txn} (h : Commits s action s' (.reclaim row) t before after) :
    row ∈ s.reclaims := by
  obtain ⟨index, choice, next, -, hprocess, -⟩ := h.step
  exact mem_reclaims.mpr ⟨_, List.mem_of_getElem? hprocess, rfl, rfl⟩

/-- A sweep changes a call only while it is the very row that was found. -/
theorem sweep_touches_stuck (h : ReachableBy deps SweepsUndisturbed s)
    (hstep : s.step deps action = some s') {index : Nat} {choice : Choice} {process : Process}
    (haction : action = .run index choice) (hprocess : s.procs[index]? = some process)
    (htask : process.task = .reclaim row) {id : CallId} (hbefore : s.shared.db.call? id = some before)
    (hafter : s'.shared.db.call? id = some after) (hchanged : after ≠ before) :
    id = row.id ∧ before.updatedAt = row.updatedAt ∧ before.providerCallId = row.providerCallId := by
  obtain ⟨task, t, hcommits⟩ := h.reachable.changed hstep hbefore hafter hchanged
  obtain ⟨_, _, next, hrun, hcommitting, -⟩ := hcommits.step
  rw [haction] at hrun
  cases hrun
  rw [hprocess] at hcommitting
  obtain rfl := Option.some.inj hcommitting
  obtain rfl : task = .reclaim row := htask
  obtain ⟨hid, hdialing, hepoch⟩ := hcommits.reclaimed
  obtain ⟨call, hcall, hstuck⟩ := h.stuck row hcommits.reclaims
  obtain rfl : id = row.id := (lookup_some hbefore).2.symm.trans hid
  obtain rfl := Option.some.inj (hbefore.symm.trans hcall)
  rcases hstuck with rfl | hstatus | hne
  · exact ⟨rfl, rfl, rfl⟩
  · exact absurd hdialing hstatus
  · exact absurd hepoch hne

end

/-- Process `index`, which reclaims `row`, changes the call from `before` to `after` with its next statement. -/
structure Reclaiming (s : Sys) (index : Nat) (row before after : CallRow) (s' : Sys) : Prop where
  process : ∃ process, s.procs[index]? = some process ∧ process.task = .reclaim row
  step : s.step noonDeps (.run index {}) = some s'
  old : s.shared.db.call? row.id = some before
  new : s'.shared.db.call? row.id = some after
  changed : after ≠ before

/-- Look for such a step. -/
def reclaimingAny (index : Nat) (p : CallRow → CallRow → Sys → Bool) (s : Sys) : Bool :=
  s.procs[index]?.any fun process =>
    match process.task with
    | .reclaim row => (s.step noonDeps (.run index {})).any fun s' =>
        (s.shared.db.call? row.id).any fun before => (s'.shared.db.call? row.id).any fun after =>
          after ≠ before && p row before s'
    | _ => false

theorem Reclaiming.of_any {index : Nat} {p : CallRow → CallRow → Sys → Bool} {s : Sys}
    (h : reclaimingAny index p s = true) :
    ∃ row before after s', Reclaiming s index row before after s' ∧ p row before s' = true := by
  obtain ⟨process, hprocess, h⟩ := (Option.any_eq_true _ _).mp h
  cases htask : process.task with
  | reclaim row =>
      rw [htask] at h
      obtain ⟨s', hstep, h⟩ := (Option.any_eq_true _ _).mp h
      obtain ⟨before, hbefore, h⟩ := (Option.any_eq_true _ _).mp h
      obtain ⟨after, hafter, h⟩ := (Option.any_eq_true _ _).mp h
      rw [Bool.and_eq_true, decide_eq_true_eq] at h
      exact ⟨row, before, after, s', ⟨⟨process, hprocess, htask⟩, hstep, hbefore, hafter, h.1⟩, h.2⟩
  | _ =>
      rw [htask] at h
      cases h

/-- Nobody hears of the call for longer than the grace window. -/
theorem sweep_touches_stuck_one_call : ∃ s row before after s', ReachableBy noonDeps SweepsUndisturbed s ∧
    Reclaiming s 1 row before after s' ∧ before.updatedAt = row.updatedAt ∧
    before.providerCallId = row.providerCallId := by
  obtain ⟨s, hs, hp⟩ := ReachableBy.of_any noonDeps (fun s action => decide (SweepsUndisturbed s action))
    (dialOne ++ [.elapse (631 * 1000000), .sweep] ++ runs 1 4) (reclaimingAny 1 fun _ _ _ => true)
    (by decide +kernel)
  obtain ⟨row, before, after, s', hreclaiming, -⟩ := Reclaiming.of_any hp
  obtain ⟨process, hprocess, htask⟩ := hreclaiming.process
  have hreach := hs.mono fun _ _ h => of_decide_eq_true h
  obtain ⟨-, hupdated, hhandle⟩ := sweep_touches_stuck hreach hreclaiming.step rfl hprocess htask
    hreclaiming.old hreclaiming.new hreclaiming.changed
  exact ⟨s, row, before, after, s', hreach, hreclaiming, hupdated, hhandle⟩

/-- The dial took its time: its handle is recorded after the sweep has found the row without one, and the
row is requeued all the same. -/
def lateRecord : List Action :=
  [.post oneCall 0 0 [0], .tick] ++ runs 0 14 ++ [.elapse (631 * 1000000), .sweep] ++ runs 0 6 ++ runs 1 3

theorem sweep_touches_stuck_recorded : ∃ s row before after s', Reachable noonDeps s ∧
    Reclaiming s 1 row before after s' ∧ after.status = .queued ∧
    ¬ (before.updatedAt = row.updatedAt ∧ before.providerCallId = row.providerCallId) := by
  obtain ⟨s, hs, hp⟩ := Reachable.of_any noonDeps lateRecord
    (reclaimingAny 1 fun row before s' => (s'.shared.db.call? row.id).any (fun after => after.status = .queued) &&
      !(before.updatedAt = row.updatedAt && before.providerCallId = row.providerCallId)) (by decide +kernel)
  obtain ⟨row, before, after, s', hreclaiming, h⟩ := Reclaiming.of_any hp
  rw [hreclaiming.new] at h
  simp only [Option.any_some, Bool.and_eq_true, decide_eq_true_eq, Bool.not_eq_true',
    Bool.and_eq_false_iff, decide_eq_false_iff_not] at h
  exact ⟨s, row, before, after, s', hs, hreclaiming, h.1, fun hsame =>
    h.2.elim (· hsame.1) (· hsame.2)⟩

/-! ### Rows without a handle -/

/-- The key that an action dials. -/
def Sys.dials (s : Sys) : Action → Option IdempotencyKey
  | .run index _ =>
      match s.procs[index]? with
      | some ⟨_, .call (.placeCall key _) _, _⟩ => some key
      | _ => none
  | _ => none

/-- The rows without a handle that an action finds stuck. -/
def Sys.foundWithoutHandle (deps : Deps) (s : Sys) : Action → List CallRow
  | .sweep => (s.shared.db.findStuckDialing deps.settings.stuckReclaimSeconds s.shared.now).filter
      fun row => row.providerCallId.isNone
  | _ => []

/-- The provider has accepted a dial of the key. -/
def Shared.accepted (s : Shared) (key : IdempotencyKey) : Bool := s.issued.any fun dial => dial.key = key

/-- The attempt is the one its call is in, and no sweep is at it. -/
def Sys.attempting (s : Sys) (key : IdempotencyKey) : Bool :=
  (s.shared.db.call? key.callId).any (fun call => call.status = .dialing && call.attemptEpoch = key.attemptEpoch) &&
    s.reclaims.all fun row => row.key ≠ key

/-- A row that is found without a handle has not been dialed, and an attempt is dialed only while no sweep
has found it. -/
def DialsInTime (deps : Deps) (s : Sys) (action : Action) : Prop :=
  (∀ row ∈ s.foundWithoutHandle deps action, s.shared.accepted row.key = false) ∧
    ∀ key ∈ s.dials action, s.attempting key = true

instance (deps : Deps) (s : Sys) (action : Action) : Decidable (DialsInTime deps s action) := by
  unfold DialsInTime
  infer_instance

section

variable {deps : Deps} {s s' s'' : Sys} {action : Action} {row before after : CallRow} {key : IdempotencyKey}

theorem accepted_iff {s : Shared} : s.accepted key = true ↔ ∃ dial ∈ s.issued, dial.key = key := by
  simp [Shared.accepted]

/-- The provider accepts what is dialed. -/
theorem accepted_step (hstep : s.step deps action = some s') (h : s'.shared.accepted key = true) :
    s.shared.accepted key = true ∨ s.dials action = some key := by
  obtain ⟨dial, hdial, rfl⟩ := accepted_iff.mp h
  have hold : dial ∈ s.shared.issued → s.shared.accepted dial.key = true := fun h =>
    accepted_iff.mpr ⟨dial, h, rfl⟩
  rcases Sys.step_cases hstep with ⟨shared, hworld, rfl⟩ |
    ⟨index, choice, task, stmt, next, txn, reply, shared, txn', rfl, hprocess, hexec, rfl⟩ |
    ⟨index, dead, rfl, hprocess, rfl⟩
  · cases hworld <;> exact Or.inl (hold hdial)
  · by_cases hcommit : stmt = .commit
    · subst hcommit
      obtain ⟨t, rfl, rfl, rfl⟩ := exec_commit hexec
      exact Or.inl (hold hdial)
    · obtain ⟨-, -, hsame | ⟨placed, phone, rfl, hissue⟩⟩ := exec_tables hcommit hexec
      · exact Or.inl (hold (hsame ▸ hdial))
      · rcases Choice.key_of_mem_issue (hissue ▸ hdial) with hissued | hkey
        · exact Or.inl (hold hissued)
        · rw [Sys.dials, hprocess, hkey]
          exact Or.inr rfl
  · exact Or.inl (hold hdial)

/-- Who has no handle and is to be reclaimed has not been dialed. -/
theorem ReachableBy.unaccepted (h : ReachableBy deps (DialsInTime deps) s) :
    ∀ row ∈ s.reclaims, row.providerCallId = none → s.shared.accepted row.key = false := by
  induction h with
  | init now => exact fun _ h => nomatch h
  | @step s s' action hs hintime hstep ih =>
      intro row hrow hnone
      by_contra haccepted
      rw [Bool.not_eq_false] at haccepted
      rcases reclaims_step hstep hrow with hold | ⟨rfl, hsame, hfound⟩
      · rcases accepted_step hstep haccepted with hbefore | hdials
        · rw [ih row hold hnone] at hbefore
          cases hbefore
        · have hattempting := hintime.2 _ hdials
          rw [Sys.attempting, Bool.and_eq_true] at hattempting
          exact absurd rfl (of_decide_eq_true (List.all_eq_true.mp hattempting.2 row hold))
      · rw [hsame, hintime.1 row (List.mem_filter.mpr ⟨hfound, by rw [hnone]; rfl⟩)] at haccepted
        cases haccepted

/-- An attempt that is past and has not been dialed never will be. -/
theorem Continues.unaccepted (h : Continues deps (DialsInTime deps) s s') (hs : Reachable deps s)
    (haccepted : s.shared.accepted key = false) {call : CallRow}
    (hcall : s.shared.db.call? key.callId = some call) (hpast : key.attemptEpoch < call.attemptEpoch) :
    s'.shared.accepted key = false ∧ ∃ call, s'.shared.db.call? key.callId = some call ∧
      key.attemptEpoch < call.attemptEpoch := by
  induction h with
  | refl => exact ⟨haccepted, call, hcall, hpast⟩
  | @step s' s'' action hrun hintime hstep ih =>
      obtain ⟨hnot, found, hfound, hlt⟩ := ih
      have hreach : Reachable deps s' := ReachableBy.continues hs (hrun.mono fun _ _ _ => trivial)
      obtain ⟨found', hfound', hevolves⟩ := (hreach.grows hstep).call _ found hfound
      refine ⟨?_, found', hfound', hlt.trans_le hevolves.attemptEpoch⟩
      by_contra h
      rw [Bool.not_eq_false] at h
      rcases accepted_step hstep h with hbefore | hdials
      · rw [hnot] at hbefore
        cases hbefore
      · have hattempting := hintime.2 _ hdials
        rw [Sys.attempting, hfound, Bool.and_eq_true, Option.any_some, Bool.and_eq_true,
          decide_eq_true_eq, decide_eq_true_eq] at hattempting
        omega

/-- A requeue begins the next attempt. -/
theorem Commits.requeued {t : Txn} (h : Commits s action s' (.reclaim row) t before after)
    (hqueued : after.status = .queued) : after.attemptEpoch = row.attemptEpoch + 1 := by
  obtain ⟨inbox, event, folds, hmoves, -⟩ := h.moves
  cases hmoves.cause with
  | claim campaign inFlight pending cursor htask hinbox hclaimable => cases htask
  | cas args hasks hhits hregresses =>
      cases hasks with
      | reclaimTerminal _ reported hsnap hreported =>
          rw [show reported = .queued from hqueued] at hreported
          cases hreported
      | reclaim _ hsnap => rfl

end

end VoiceCampaign

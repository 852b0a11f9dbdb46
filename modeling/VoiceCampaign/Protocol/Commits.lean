import VoiceCampaign.Protocol.Reachable

/-!
# What a step does to the calls

A call that is there stays there, and one that a step changes has been rewritten by the commit of a
transaction that moved it.
-/

namespace VoiceCampaign

open Concurrency

variable {deps : Deps} {s s' : Sys} {action : Action}

/-- The call rows an action rewrites, as they are and as it leaves them. -/
def Sys.rewrites (s : Sys) : Action → List (CallRow × CallRow)
  | .run index _ =>
      match s.procs[index]? with
      | some ⟨_, .call .commit _, some t⟩ =>
          t.calls.filterMap fun version => (s.shared.db.call? version.id).map fun row => (row, version)
      | _ => []
  | _ => []

/-- No step of the system takes anything back. -/
theorem Reachable.grows (hs : Reachable deps s) (hstep : s.step deps action = some s') :
    Grows s.shared s'.shared := by
  rcases Sys.step_cases hstep with ⟨shared, hworld, rfl⟩ |
    ⟨index, choice, task, stmt, next, txn, reply, shared, txn', rfl, hprocess, hexec, rfl⟩ |
    ⟨index, process, rfl, hprocess, rfl⟩
  · exact hworld.grows
  · exact (hs.run hprocess hexec).2.2.grows
  · exact .refl _

/-- A call that a commit changes is one that the transaction moved. -/
theorem Guar.call_changed {l : Party} {s s' : Shared} {t : Txn} (h : Guar l s s') (htxn : l.txn = some t)
    (hs' : s' = s.commit t) {id : CallId} {before after : CallRow} (hbefore : s.db.call? id = some before)
    (hafter : s'.db.call? id = some after) (hchanged : after ≠ before) :
    ∃ inbox event folds, Moves s l.task t inbox before after event ∧ Folds s t after folds ∧
      Marks s l.task t inbox ∧ t.audit.map AuditRow.event = event :: folds := by
  cases h with
  | quiet hdb hnow hissued =>
      rw [hdb, hbefore] at hafter
      exact absurd (Option.some.inj hafter).symm hchanged
  | commit u htxn' hready =>
      obtain rfl := Option.some.inj (htxn.symm.trans htxn')
      exact hready.call_changed hbefore hafter hchanged

/-- What is committed with an audit row was fit to be. -/
theorem Guar.ready {l : Party} {s s' : Shared} {t : Txn} (h : Guar l s s') (htxn : l.txn = some t)
    (hs' : s' = s.commit t) (haudit : t.audit ≠ []) : Ready s l.task t := by
  cases h with
  | quiet hdb hnow hissued =>
      -- the audit log has grown
      rw [hs'] at hdb
      have hsame : s.db.audit ++ t.audit = s.db.audit := congrArg Db.audit hdb
      exact absurd (List.append_right_eq_self.mp hsame) haudit
  | commit u htxn' hready =>
      obtain rfl := Option.some.inj (htxn.symm.trans htxn')
      exact hready

theorem Reachable.commit_ready (hs : Reachable deps s) {index : Nat} {choice : Choice} {task : Task}
    {next : Unit → Co Unit} {t : Txn} (hprocess : s.procs[index]? = some ⟨task, .call .commit next, some t⟩)
    (hstep : s.step deps (.run index choice) = some s') (haudit : t.audit ≠ []) :
    s'.shared = s.shared.commit t ∧ Ready s.shared (some task) t := by
  rw [Sys.step, Sys.runProcess, hprocess] at hstep
  have hshared : s'.shared = s.shared.commit t := by
    simp only [exec, Option.map_some, Option.some.injEq] at hstep
    rw [← hstep]
    rfl
  refine ⟨hshared, ?_⟩
  have hguar : Guar ⟨some task, some t⟩ s.shared (s.shared.commit t) :=
    (@Reachable.run _ _ hs index choice _ _ _ _ _ _ _ hprocess (by rfl)).2.2
  exact hguar.ready rfl rfl haudit

/-- A step that commits the transaction `t` of a process at `task`, which moves the call `before`. -/
structure Commits (s : Sys) (action : Action) (s' : Sys) (task : Task) (t : Txn) (before after : CallRow) :
    Prop where
  step : ∃ index choice next, action = .run index choice ∧
    s.procs[index]? = some ⟨task, .call .commit next, some t⟩ ∧
    s'.procs = s.procs.set index ⟨task, next (), none⟩
  shared : s'.shared = s.shared.commit t
  moves : ∃ inbox event folds, Moves s.shared (some task) t inbox before after event ∧
    Folds s.shared t after folds ∧ Marks s.shared (some task) t inbox ∧
    t.audit.map AuditRow.event = event :: folds

/-- Only a commit changes a call. -/
theorem Reachable.changed (hs : Reachable deps s) (hstep : s.step deps action = some s') {id : CallId}
    {before after : CallRow} (hbefore : s.shared.db.call? id = some before)
    (hafter : s'.shared.db.call? id = some after) (hchanged : after ≠ before) :
    ∃ task t, Commits s action s' task t before after := by
  rcases Sys.step_cases hstep with ⟨shared, hworld, rfl⟩ |
    ⟨index, choice, task, stmt, next, txn, reply, shared, txn', rfl, hprocess, hexec, rfl⟩ |
    ⟨index, process, rfl, hprocess, rfl⟩
  · exact absurd (Option.some.inj ((hworld.call? hbefore).symm.trans hafter)).symm hchanged
  · by_cases hstmt : stmt = .commit
    · subst hstmt
      obtain ⟨t, rfl, rfl, rfl⟩ := exec_commit hexec
      have hmoved := (hs.run hprocess hexec).2.2.call_changed rfl rfl hbefore hafter hchanged
      exact ⟨task, t, ⟨index, choice, next, rfl, hprocess, rfl⟩, rfl, hmoved⟩
    · obtain ⟨hdb, -, -⟩ := exec_quiet hstmt hexec
      rw [show shared.db = s.shared.db from hdb, hbefore] at hafter
      exact absurd (Option.some.inj hafter).symm hchanged
  · exact absurd (Option.some.inj (hbefore.symm.trans hafter)).symm hchanged

theorem Commits.mem_rewrites {task : Task} {t : Txn} {before after : CallRow}
    (h : Commits s action s' task t before after) : (before, after) ∈ s.rewrites action := by
  obtain ⟨index, choice, next, rfl, hprocess, -⟩ := h.step
  obtain ⟨inbox, event, folds, hmoves, -⟩ := h.moves
  rw [Sys.rewrites, hprocess]
  refine List.mem_filterMap.mpr ⟨after, ?_, ?_⟩
  · rw [hmoves.calls]
    exact List.mem_singleton_self after
  · rw [hmoves.row]
    rfl

theorem Commits.before_id {task : Task} {t : Txn} {before after : CallRow}
    (h : Commits s action s' task t before after) : before.id = after.id := by
  obtain ⟨inbox, event, folds, hmoves, -⟩ := h.moves
  exact hmoves.before_id

end VoiceCampaign

import VoiceCampaign.Concurrency.Sequence
import VoiceCampaign.Protocol.Trail

/-!
# Audit ids

An audit row gets its id when it is inserted, from a sequence that all transactions draw from, and shows up when
its transaction commits. So ids are never given twice, though they may show up out of order.
-/

namespace VoiceCampaign

open Concurrency

/-- The ids of the audit rows of an open transaction. -/
def auditIds (txn : Option Txn) : List Nat := txn.elim [] fun t => t.audit.map AuditRow.id

/-- The ids that the open transaction of a process holds. -/
def Sys.heldIds (s : Sys) (index : Nat) : List Nat := auditIds (s.procs[index]?.bind Process.txn)

/-- Every id is below the sequence and stands in one place. -/
def Sys.DrawnOnce (s : Sys) : Prop :=
  Drawn s.shared.auditSeq (s.shared.db.audit.map AuditRow.id) s.heldIds

section

variable {deps : Deps} {s s' : Sys} {shared : Shared} {action : Action}

theorem Sys.heldIds_spawn (tasks : List Task) : (({ s with shared } : Sys).spawn deps tasks).heldIds = s.heldIds := by
  funext index
  by_cases hlt : index < s.procs.length
  · rw [heldIds, spawn, List.getElem?_append_left hlt]
    rfl
  · rw [heldIds, spawn, List.getElem?_append_right (Nat.le_of_not_lt hlt), List.getElem?_map, heldIds,
      List.getElem?_eq_none (Nat.le_of_not_lt hlt)]
    cases tasks[index - s.procs.length]? <;> rfl

theorem Sys.heldIds_set {index : Nat} (hlt : index < s.procs.length) (process : Process) :
    Sys.heldIds ⟨shared, s.procs.set index process⟩ = Function.update s.heldIds index (auditIds process.txn) := by
  funext other
  by_cases hother : other = index
  · rw [hother, heldIds, List.getElem?_set_self hlt, Function.update_self]
    rfl
  · rw [heldIds, List.getElem?_set_ne (Ne.symm hother), Function.update_of_ne hother]
    rfl

/-- What a statement does to the sequence, the log and the ids of its own transaction. -/
theorem exec_draws {others : List Txn} {choice : Choice} {s s' : Shared} {txn txn' : Option Txn} {stmt : Stmt}
    {reply : Reply stmt} (h : exec others choice s txn stmt = some (reply, s', txn')) :
    (s'.auditSeq = s.auditSeq ∧ s'.db.audit = s.db.audit ∧ (auditIds txn' = auditIds txn ∨ auditIds txn' = [])) ∨
    (s'.auditSeq = s.auditSeq + 1 ∧ s'.db.audit = s.db.audit ∧ auditIds txn' = auditIds txn ++ [s.auditSeq]) ∨
    (s'.auditSeq = s.auditSeq ∧ s'.db.audit.map AuditRow.id = s.db.audit.map AuditRow.id ++ auditIds txn ∧
      auditIds txn' = []) := by
  by_cases hemit : ∃ event, stmt = .emitAudit event
  · obtain ⟨event, rfl⟩ := hemit
    obtain ⟨t, rfl⟩ := exec_open h rfl
    obtain ⟨rfl, rfl⟩ := exec_emitAudit h
    exact Or.inr (Or.inl ⟨rfl, rfl, List.map_append⟩)
  cases hdelimits : stmt.delimits with
  | true =>
      cases stmt with
      | begin =>
          obtain ⟨rfl, rfl⟩ := exec_begin h
          exact Or.inl ⟨rfl, rfl, Or.inr rfl⟩
      | commit =>
          obtain ⟨t, rfl, rfl, rfl⟩ := exec_commit h
          exact Or.inr (Or.inr ⟨rfl, List.map_append, rfl⟩)
      | rollback =>
          obtain ⟨rfl, rfl⟩ := exec_rollback h
          exact Or.inl ⟨rfl, rfl, Or.inr rfl⟩
      | _ => cases hdelimits
  | false =>
      obtain ⟨hseq, htakes⟩ := exec_takes hdelimits (fun event he => hemit ⟨event, he⟩) h
      have hdb : s'.db = s.db := (exec_quiet (fun he => by rw [he] at hdelimits; cases hdelimits) h).1
      refine Or.inl ⟨hseq, by rw [hdb], ?_⟩
      cases txn' with
      | none => exact Or.inr rfl
      | some t' =>
          obtain ⟨t, ht, htook⟩ := htakes t' rfl
          rw [Option.mem_def.mp ht]
          exact Or.inl (congrArg (List.map AuditRow.id) htook.audit)

theorem Sys.DrawnOnce.step (h : s.DrawnOnce) (hstep : s.step deps action = some s') : s'.DrawnOnce := by
  rcases Sys.step_cases hstep with ⟨shared, hworld, rfl⟩ |
    ⟨index, choice, task, stmt, next, txn, reply, shared, txn', rfl, hprocess, hexec, rfl⟩ |
    ⟨index, process, rfl, hprocess, rfl⟩
  · rw [DrawnOnce, heldIds_spawn]
    show Drawn shared.auditSeq (shared.db.audit.map AuditRow.id) s.heldIds
    rw [hworld.audit, hworld.auditSeq]
    exact h
  · have hlt : index < s.procs.length := (List.getElem?_eq_some_iff.mp hprocess).1
    have hheld : s.heldIds index = auditIds txn := by rw [heldIds, hprocess]; rfl
    rw [DrawnOnce, heldIds_set hlt]
    show Drawn shared.auditSeq (shared.db.audit.map AuditRow.id) (Function.update s.heldIds index (auditIds txn'))
    rcases exec_draws hexec with ⟨hseq, haudit, hsame | hnil⟩ | ⟨hseq, haudit, hnew⟩ | ⟨hseq, haudit, hnil⟩
    · rw [hseq, haudit, hsame, ← hheld, Function.update_eq_self]
      exact h
    · rw [hseq, haudit, hnil]
      exact h.drop index
    · rw [hseq, haudit, hnew, ← hheld]
      exact h.draw index
    · rw [hseq, haudit, hnil, ← hheld]
      exact h.commit index
  · have hlt : index < s.procs.length := (List.getElem?_eq_some_iff.mp hprocess).1
    rw [DrawnOnce, heldIds_set hlt]
    exact h.drop index

theorem Reachable.drawnOnce (h : Reachable deps s) : s.DrawnOnce := by
  induction h with
  | init now => exact .init 1
  | step action _ _ hstep ih => exact ih.step hstep

/-- No two rows of the log have one id. -/
theorem Reachable.auditIds (h : Reachable deps s) : (s.shared.db.audit.map AuditRow.id).Nodup :=
  h.drawnOnce.committed_nodup

end

end VoiceCampaign

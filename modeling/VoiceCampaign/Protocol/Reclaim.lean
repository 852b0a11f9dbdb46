import VoiceCampaign.Protocol.Transition
import VoiceCampaign.Model.Reclaim

/-!
# The reclaim task

A reclaim task keeps the discipline: whatever the provider reports, it commits at most one move of the
row its sweep had read.
-/

namespace VoiceCampaign

open Concurrency

variable {s : Shared} {l : Party} {row : CallRow}

/-- A compare-and-set in a transaction of its own. -/
theorem transition_transaction_safe {args : Transition} (htxn : l.txn = none)
    (hasks : Asks s l.task none args) :
    discipline.Safe (fun _ _ l' => l' = l) (fun _ _ l' => l' = l) (transaction (transition args)) s l := by
  refine above_self.transaction (M := fun _ s' l' => l'.task = l.task ∧
    ∃ t', l'.txn = some t' ∧ Ready s' l.task t') htxn ?_ ?_
  · intro s₂ now hinv₂ hrely₂ _
    have hblank : ({ startedAt := now } : Txn).Blank := ⟨⟨rfl, rfl, rfl⟩, rfl⟩
    have hsafe := transition_safe (l := ⟨l.task, some { startedAt := now }⟩) (K := fun _ => True)
      above_self rfl hblank.toFresh (hasks.mono hrely₂.toGrows) (fun _ _ _ _ _ _ => trivial) trivial
    refine hsafe.mono ?_ fun _ _ _ _ h => h
    rintro result s' l' _ ⟨htask, t', htxn', hextends, -, hsame, hends⟩
    exact ⟨htask, t', htxn', hends.ready hblank hextends hsame⟩
  · rintro result s₁ ⟨task₁, txn₁⟩ hinv₁ ⟨rfl, t', rfl, hready⟩
    refine ⟨rfl, fun others reply s₂ s₃ hs₂ hinv₂ hexec => ⟨?_, fun _ _ _ => rfl⟩⟩
    obtain ⟨-, choice, hrun⟩ := hexec
    obtain ⟨t, htxn', rfl, -⟩ := exec_commit hrun
    obtain rfl := Option.some.inj htxn'
    exact .commit t' rfl (hready.lasts hs₂)

theorem reclaimOneInner_safe (hsnap : Seen s row) (htask : l.task = some (.reclaim row)) (htxn : l.txn = none) :
    discipline.Safe (fun _ _ _ => True) (fun _ _ _ => True) (reclaimOneInner row) s l := by
  have hreclaim : ∀ s, Seen s row → discipline.Safe (fun _ _ _ => True) (fun _ _ _ => True)
      (applyReclaim row) s l := by
    intro s hsnap
    refine .bind ((transition_transaction_safe htxn (htask ▸ .reclaim row hsnap)).mono
      (fun _ _ _ _ h => h) fun _ _ _ _ _ => trivial) fun result s' l' _ _ => ?_
    split <;> exact fun _ _ _ => trivial
  have hterminal : ∀ s reported, Seen s row → reported.isTerminal = true →
      discipline.Safe (fun _ _ _ => True) (fun _ _ _ => True) (applyTerminal row reported) s l := by
    intro s reported hsnap hreported
    refine .bind ((transition_transaction_safe htxn
      (htask ▸ .reclaimTerminal row reported hsnap hreported)).mono (fun _ _ _ _ h => h)
      fun _ _ _ _ _ => trivial) fun result s' l' _ _ => ?_
    split <;> exact fun _ _ _ => trivial
  unfold reclaimOneInner
  split
  · exact hreclaim s hsnap
  · refine .bind (M := fun _ s' l' => l' = l ∧ Seen s' row) ?_ ?_
    · refine above_self.step nofun (fun _ _ _ => trivial) fun others choice reply s₁ s₂ txn hs₁ hinv hinv₂ hrely
        hsteady hdb hexec hrun => ?_
      obtain ⟨-, rfl⟩ := exec_getStatus hrun
      have hseen : ∀ s₃, Rely l s₂ s₃ → Seen s₃ row := fun s₃ hs₃ =>
        hsnap.mono (hrely.toGrows.trans hs₃.toGrows)
      cases reply <;> exact fun s₃ hs₃ _ => ⟨rfl, hseen s₃ hs₃⟩
    · rintro reported s' l' _ ⟨rfl, hsnap'⟩
      cases reported with
      | none => exact hreclaim s' hsnap'
      | some reported =>
          show discipline.Safe _ _ (if reported.isTerminal = true then _ else _) _ _
          split
          · next hreported => exact hterminal s' reported hsnap' hreported
          · exact hreclaim s' hsnap'

theorem reclaimOne_safe (hsnap : Seen s row) (htask : l.task = some (.reclaim row))
    (htxn : l.txn = none) (deps : Deps) :
    discipline.Safe (fun _ _ _ => True) (fun _ _ _ => True) ((Task.reclaim row).code deps) s l := by
  refine .bind (.catching (reclaimOneInner_safe hsnap htask htxn) fun _ _ _ _ _ => fun _ _ _ => trivial)
    fun _ _ _ _ _ => ?_
  exact fun _ _ _ => trivial

end VoiceCampaign

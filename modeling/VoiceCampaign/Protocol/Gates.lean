import VoiceCampaign.Protocol.Alone

/-!
# The gates of a tick

A tick is its gates, which leave the candidates, and the dispatch from the candidates. What the gates
leave is a function of the tables and of the times at which they were read.
-/

namespace VoiceCampaign

open Concurrency Program

/-- The gate survivors with a due retry when there are any, else all of them. -/
def candidates (capped : List CampaignRowWithCursor) (retryDueCampaigns : List CampaignId) :
    List CampaignRowWithCursor × Bool :=
  let due := capped.filter fun row => row.campaign.id ∈ retryDueCampaigns
  if due = [] then (capped, false) else (due, true)

/-- A tick up to its pick. -/
def surviveGates (deps : Deps) : Co (List CampaignRowWithCursor × Bool) := do
  let nowUtc ← datetimeNow
  let allEligible : List CampaignRowWithCursor ← select .listEligibleForTick
  if allEligible = [] then
    pure ([], false)
  else
    let (inHours, outOfHours) ← ofExcept (splitByHours deps nowUtc allEligible)
    outOfHours.forM fun row => emitAlone (skipBusinessHour row.campaign)
    if inHours = [] then
      pure ([], false)
    else
      let inFlight : CampaignId → Nat ←
        select (.inFlightCountsByCampaign (inHours.map fun row => row.campaign.id))
      (inHours.filter fun row => !belowCap inFlight row).forM fun row =>
        emitAlone (skipConcurrency row.campaign (inFlight row.campaign.id))
      let capped := inHours.filter (belowCap inFlight)
      if capped = [] then
        pure ([], false)
      else
        let retryDueCampaigns : List CampaignId ← select .findRetryDueCampaignIds
        pure (candidates capped retryDueCampaigns)

/-- A tick from its pick on. -/
def dispatchFrom (found : List CampaignRowWithCursor × Bool) : Co TickDecision :=
  match rrFirst found.1 with
  | none => pure noDispatch
  | some picked => dispatchPicked picked found.2

theorem rrFirst_eq_none {rows : List CampaignRowWithCursor} : rrFirst rows = none ↔ rows = [] := by
  cases rows with
  | nil => simp [rrFirst]
  | cons row rest =>
      simp only [rrFirst, reduceCtorEq, iff_false]
      cases rrFirst rest with
      | none => simp
      | some best =>
          dsimp only
          split <;> exact Option.some_ne_none _

theorem dispatchFrom_candidates (capped : List CampaignRowWithCursor) (retryDue : List CampaignId) :
    dispatchFrom (candidates capped retryDue) = match pickCampaign capped retryDue with
      | none => pure noDispatch
      | some (picked, isRetry) => dispatchPicked picked isRetry := by
  rw [candidates, pickCampaign]
  cases hdue : rrFirst (capped.filter fun row => row.campaign.id ∈ retryDue) with
  | none =>
      rw [if_pos (rrFirst_eq_none.mp hdue), dispatchFrom]
      cases rrFirst capped <;> rfl
  | some picked =>
      have hne : (capped.filter fun row => row.campaign.id ∈ retryDue) ≠ [] := fun he => by
        rw [rrFirst_eq_none.mpr he] at hdue
        cases hdue
      rw [if_neg hne, dispatchFrom, hdue]

/-- A tick is its gates and then the dispatch. -/
theorem tick_eq (deps : Deps) : tick deps = surviveGates deps >>= dispatchFrom := by
  apply bind_cut
  intro nowUtc
  apply bind_cut
  intro allEligible
  split
  · rfl
  · apply bind_cut
    rintro ⟨inHours, outOfHours⟩
    apply bind_cut
    intro _
    split
    · rfl
    · apply bind_cut
      intro inFlight
      apply bind_cut
      intro _
      dsimp only
      split
      · rfl
      · apply bind_cut
        intro retryDue
        exact (dispatchFrom_candidates _ retryDue).symm

/-! ### What the gates leave -/

/-- The candidates, where the hours were read at `nowUtc` and the retries at `dueAt`. -/
def survivors (deps : Deps) (db : Db) (nowUtc dueAt : Time) :
    Except Err (List CampaignRowWithCursor × Bool) := do
  let (inHours, _) ← splitByHours deps nowUtc db.listEligibleForTick
  let inFlight := db.inFlightCountsByCampaign (inHours.map fun row => row.campaign.id)
  pure (candidates (inHours.filter (belowCap inFlight)) (db.findRetryDueCampaignIds dueAt))

section

variable {others : List Txn} {passes : Bool} {s s' : Shared}

theorem Noted.eval (h : Noted passes s s') (query : Query) (now : Time) (pick : Nat) :
    query.eval s'.db now pick = query.eval s.db now pick := by
  obtain ⟨notes, hdb, -⟩ := h.db
  rw [hdb]
  cases query <;> rfl

theorem Noted.waits {s'' : Shared} (h : Noted passes s s') (h' : Waits passes s' s'') : Noted passes s s'' :=
  h.trans h'.noted

/-- The gates write notes, and leave what the tables say. -/
theorem surviveGates_wp (deps : Deps) :
    Wp (alone others passes) (others = [])
      (fun found state => state.2 = none ∧ Noted passes s state.1 ∧ ∃ nowUtc dueAt,
        Passes passes s.now nowUtc ∧ Passes passes nowUtc dueAt ∧
          survivors deps s.db nowUtc dueAt = .ok found)
      (fun error state => state.2 = none ∧ Noted passes s state.1 ∧ ∃ nowUtc, Passes passes s.now nowUtc ∧
        splitByHours deps nowUtc s.db.listEligibleForTick = .error error)
      (surviveGates deps) (s, none) := by
  apply Wp.datetimeNow
  intro s₁ hwaits₁
  apply Wp.select
  intro s₂ pick hwaits₂
  have hrows : Query.listEligibleForTick.eval s₁.db s₂.now pick = s.db.listEligibleForTick :=
    hwaits₁.noted.eval _ _ _
  rw [hrows]
  have hnoted₂ := (hwaits₁.trans hwaits₂).noted
  have hempty : ∀ {inHours outOfHours : List CampaignRowWithCursor},
      splitByHours deps s₁.now s.db.listEligibleForTick = .ok (inHours, outOfHours) →
        inHours.filter (belowCap (s.db.inFlightCountsByCampaign (inHours.map fun row => row.campaign.id))) = [] →
          survivors deps s.db s₁.now s₁.now = .ok ([], false) := by
    intro inHours outOfHours hsplit hnone
    rw [survivors, hsplit]
    show Except.ok (candidates (inHours.filter _) _) = _
    rw [hnone]
    rfl
  split
  · next hnone =>
    have hsplit : splitByHours deps s₁.now s.db.listEligibleForTick = .ok ([], []) := by
      rw [show s.db.listEligibleForTick = [] from hnone]
      rfl
    exact ⟨rfl, hnoted₂, _, _, hwaits₁.now, .refl _, hempty hsplit rfl⟩
  · cases hsplit : splitByHours deps s₁.now s.db.listEligibleForTick with
    | error error => exact ⟨rfl, hnoted₂, s₁.now, hwaits₁.now, hsplit⟩
    | ok hours =>
        obtain ⟨inHours, outOfHours⟩ := hours
        have hnotes : ∀ {items : List CampaignRowWithCursor} {event : CampaignRowWithCursor → AuditEvent},
            (∀ row, (event row).isNote = true) → ∀ {s₃}, Noted passes s s₃ → Passes passes s₁.now s₃.now →
            Wp (alone others passes) (others = [])
              (fun _ state => state.2 = none ∧ Noted passes s state.1 ∧ Passes passes s₁.now state.1.now)
              (fun error state => state.2 = none ∧ Noted passes s state.1 ∧ ∃ nowUtc,
                Passes passes s.now nowUtc ∧
                  splitByHours deps nowUtc s.db.listEligibleForTick = .error error)
              (items.forM fun row => emitAlone (event row)) (s₃, none) := by
          intro items event hevent s₃ hnoted₃ hpasses₃
          refine Wp.forM (fun state : Shared × Option Txn => state.2 = none ∧ Noted passes s state.1 ∧
            Passes passes s₁.now state.1.now) ⟨rfl, hnoted₃, hpasses₃⟩ ?_
          rintro row - ⟨s₄, txn₄⟩ ⟨rfl, hnoted₄, hpasses₄⟩
          exact (Wp.emitAlone (hevent row)).mono
            (fun _ state h => ⟨h.1, hnoted₄.trans h.2, hpasses₄.trans h.2.now⟩) fun _ _ h => h.elim
        apply (hnotes (fun row => rfl) hnoted₂ hwaits₂.now).bind
        rintro - ⟨s₃, txn₃⟩ ⟨rfl, hnoted₃, hpasses₃⟩
        split
        · next hnone =>
          refine ⟨rfl, hnoted₃, _, _, hwaits₁.now, .refl _, hempty hsplit ?_⟩
          rw [show inHours = [] from hnone]
          rfl
        · apply Wp.select
          intro s₄ pick₄ hwaits₄
          rw [hnoted₃.eval]
          apply (hnotes (fun row => rfl) (hnoted₃.waits hwaits₄) (hpasses₃.trans hwaits₄.now)).bind
          rintro - ⟨s₅, txn₅⟩ ⟨rfl, hnoted₅, hpasses₅⟩
          dsimp only
          split
          · next hnone => exact ⟨rfl, hnoted₅, _, _, hwaits₁.now, .refl _, hempty hsplit hnone⟩
          · apply Wp.select
            intro s₆ pick₆ hwaits₆
            rw [hnoted₅.eval]
            refine ⟨rfl, hnoted₅.waits hwaits₆, s₁.now, s₆.now, hwaits₁.now, hpasses₅.trans hwaits₆.now, ?_⟩
            rw [survivors, hsplit]
            rfl

end

end VoiceCampaign

import VoiceCampaign.Model.Runs
import VoiceCampaign.Protocol.Trail

/-!
# The audit log replays

Read in id order, the audit rows that record a change of a call lead from `QUEUED` to the status and the
attempt the call is at, and those of a campaign from `PENDING` to its status.
-/

namespace VoiceCampaign

open Concurrency

/-- The audit rows that record the changes of a row, in id order. -/
def Db.trail (db : Db) (lock : RowLock) : List AuditRow :=
  (db.audit.filter fun row => row.event.about lock).insertionSort fun a b => a.id ≤ b.id

/-- From a status and an attempt to the next. -/
def CallStep (a : String × Nat) (row : AuditRow) (b : String × Nat) : Prop :=
  row.event.stateBefore = some a.1 ∧ row.event.stateAfter = some b.1 ∧ row.event.attemptEpoch = some b.2

def CampaignStep (a : String) (row : AuditRow) (b : String) : Prop :=
  row.event.stateBefore = some a ∧ row.event.stateAfter = some b

/-- The log and the tables tell the same story, and the log tells of no other row. -/
structure AuditReplays (db : Db) : Prop where
  call : ∀ row ∈ db.calls, Replays CallStep (CallStatus.queued.value, 0) (db.trail (.call row.id))
    (row.status.value, row.attemptEpoch)
  campaign : ∀ row ∈ db.campaigns, Replays CampaignStep CampaignStatus.pending.value
    (db.trail (.campaign row.id)) row.status.value
  noOther : ∀ note ∈ db.audit, (∀ id, note.event.about (.call id) = true → ∃ row ∈ db.calls, row.id = id) ∧
    ∀ id, note.event.about (.campaign id) = true → ∃ row ∈ db.campaigns, row.id = id

/-! ### In the order of the commits -/

/-- The rows about `lock`, as they were committed. -/
def Db.changes (db : Db) (lock : RowLock) : List AuditRow := db.audit.filter fun row => row.event.about lock

structure Replayed (s : Shared) : Prop where
  call : ∀ row ∈ s.db.calls, Replays CallStep (CallStatus.queued.value, 0) (s.db.changes (.call row.id))
    (row.status.value, row.attemptEpoch)
  campaign : ∀ row ∈ s.db.campaigns, Replays CampaignStep CampaignStatus.pending.value
    (s.db.changes (.campaign row.id)) row.status.value

section

variable {s s' : Shared} {t : Txn} {inbox : Option InboxRow} {task : Option Task} {now : Time}
  {before after : CallRow} {event : AuditEvent} {folds : List AuditEvent}

theorem changes_commit (lock : RowLock) : (s.commit t).db.changes lock =
    s.db.changes lock ++ t.audit.filter fun row => row.event.about lock := List.filter_append ..

theorem changes_commit_of_forall {lock : RowLock}
    (h : ∀ row ∈ t.audit, row.event.about lock = false) : (s.commit t).db.changes lock = s.db.changes lock := by
  rw [changes_commit, List.filter_eq_nil_iff.mpr, List.append_nil]
  intro row hrow
  rw [h row hrow]
  nofun

/-- What the audit row of a change of a call says. -/
theorem Cause.callStep (h : Cause s task inbox now before after event) {row : AuditRow}
    (hrow : row.event = event) :
    CallStep (before.status.value, before.attemptEpoch) row (after.status.value, after.attemptEpoch) := by
  rw [CallStep, hrow]
  cases h with
  | claim campaign inFlight pending cursor htask hinbox hclaimable =>
      rw [(claimable_queued hclaimable).2.1]
      exact ⟨rfl, rfl, rfl⟩
  | cas args hasks hhits hregresses =>
      rw [(CallUpdate.hits_iff.mp hhits).2.1]
      exact ⟨rfl, rfl, rfl⟩

theorem Cause.about (h : Cause s task inbox now before after event) (lock : RowLock) :
    event.about lock = true ↔ lock = .call before.id := by
  obtain ⟨hpromoted, hcompleted, hid⟩ := h.eventType
  have hsome : event.stateBefore.isSome = true := by
    have hstep := (@Cause.callStep _ _ _ _ _ _ _ h ⟨0, 0, event⟩ rfl).1
    rw [show event.stateBefore = _ from hstep]
    rfl
  cases lock with
  | call id => simp [AuditEvent.about, hid, hsome, eq_comm]
  | campaign id => simp [AuditEvent.about, hpromoted, hcompleted]
  | inbox id => simp [AuditEvent.about]
  | cursor id => simp [AuditEvent.about]

/-- Either the campaign stays as it is, or one audit row says how it moved. -/
theorem Folds.changed (h : Folds s t after folds) : (t.campaigns = [] ∧ folds = []) ∨
    ∃ old new fold, s.db.campaign? after.campaignId = some old ∧ new.id = after.campaignId ∧
      t.campaigns = [new] ∧ folds = [fold] ∧
      (∀ lock, fold.about lock = true ↔ lock = .campaign after.campaignId) ∧
      fold.stateBefore = some old.status.value ∧ fold.stateAfter = some new.status.value := by
  cases h with
  | still hcampaigns hstarted hlive => exact Or.inl ⟨hcampaigns, rfl⟩
  | promoted campaign hrow hpending hlock hlive hcampaigns =>
      refine Or.inr ⟨campaign, campaign.moved .active t.startedAt, campaignPromoted after.campaignId, hrow,
        (lookup_some hrow).2, hcampaigns, rfl, fun lock => ?_, ?_, rfl⟩
      · constructor
        · exact campaignPromoted_about
        · rintro rfl
          simp [AuditEvent.about, campaignPromoted]
      · rw [hpending]
        rfl
  | rolledUp campaign counts hrow hactive hterminal hlast hcounts hcampaigns =>
      refine Or.inr ⟨campaign, campaign.moved counts.target t.startedAt,
        campaignCompleted after.campaignId counts counts.target, hrow, (lookup_some hrow).2, hcampaigns, rfl,
        fun lock => ?_, ?_, rfl⟩
      · constructor
        · exact campaignCompleted_about
        · rintro rfl
          simp [AuditEvent.about, campaignCompleted]
      · rw [hactive]
        rfl

theorem Replayed.moves (h : Replayed s) (hinv : Consistent s)
    (hmoves : Moves s task t inbox before after event) (hfolds : Folds s t after folds)
    (haudit : t.audit.map AuditRow.event = event :: folds) : Replayed (s.commit t) := by
  obtain ⟨first, rest, hrows, hfirst, hrest⟩ := List.map_eq_cons_iff.mp haudit
  have habout : ∀ lock, first.event.about lock = true ↔ lock = .call after.id := fun lock => by
    rw [hfirst, hmoves.cause.about, hmoves.before_id]
  have hfold : ∀ row ∈ rest, ∀ lock, row.event.about lock = true → lock = .campaign after.campaignId := by
    intro row hrow lock hlock
    have hevent : row.event ∈ folds := hrest ▸ List.mem_map_of_mem hrow
    rcases hfolds.changed with ⟨-, hnil⟩ | ⟨old, new, fold, -, -, -, hone, hlocks, -⟩
    · rw [hnil] at hevent
      cases hevent
    · rw [hone, List.mem_singleton] at hevent
      rw [hevent] at hlock
      exact (hlocks lock).mp hlock
  constructor
  · intro row hrow
    rcases hmoves.mem_commit.mp hrow with rfl | ⟨hold, hne⟩
    · have hnew : (t.audit.filter fun note => note.event.about (.call row.id)) = [first] := by
        rw [hrows, List.filter_cons, if_pos ((habout _).mpr rfl), List.filter_eq_nil_iff.mpr]
        intro note hnote hlock
        cases hfold note hnote _ hlock
      rw [changes_commit, hnew, ← hmoves.before_id]
      exact (h.call before hmoves.before_mem).append (.single (hmoves.cause.callStep hfirst))
    · rw [changes_commit_of_forall]
      · exact h.call row hold
      · intro note hnote
        rw [hrows] at hnote
        apply Bool.eq_false_iff.mpr
        intro hlock
        rcases List.mem_cons.mp hnote with rfl | hnote
        · exact hne (RowLock.call.inj ((habout _).mp hlock))
        · cases hfold note hnote _ hlock
  · intro row hrow
    rcases hfolds.changed with ⟨hnil, hnone⟩ | ⟨old, new, fold, hold, hid, hcampaigns, hone, hlocks, hfrom, hto⟩
    · rw [Shared.campaigns_commit_nil hnil] at hrow
      rw [changes_commit_of_forall]
      · exact h.campaign row hrow
      · intro note hnote
        rw [hnone] at hrest
        rw [hrows, List.map_eq_nil_iff.mp hrest, List.mem_singleton] at hnote
        apply Bool.eq_false_iff.mpr
        rw [hnote]
        intro hlock
        cases (habout _).mp hlock
    · rw [hone] at hrest
      obtain ⟨second, hsecond, hevent⟩ := List.map_eq_singleton_iff.mp hrest
      have hnotFirst : ∀ id, ¬ first.event.about (.campaign id) = true := by
        intro id hlock
        cases (habout _).mp hlock
      have hfilter : ∀ id, (t.audit.filter fun note => note.event.about (.campaign id)) =
          if id = after.campaignId then [second] else [] := by
        intro id
        have hcond : second.event.about (.campaign id) = true ↔ id = after.campaignId := by
          rw [hevent, hlocks, RowLock.campaign.injEq]
        rw [hrows, hsecond, List.filter_cons, if_neg (hnotFirst id), List.filter_cons, List.filter_nil]
        simp only [hcond]
      rw [changes_commit, hfilter]
      rcases hfolds.mem_commit hinv hrow with ⟨hmem, hne | hnil⟩ | ⟨hsame, hrow', -⟩
      · rw [if_neg hne, List.append_nil]
        exact h.campaign row hmem
      · rw [hcampaigns] at hnil
        cases hnil
      · obtain rfl : new = row := List.singleton_inj.mp (hcampaigns.symm.trans hrow')
        obtain ⟨holdmem, holdid⟩ := hinv.campaign?_iff.mp hold
        rw [if_pos hsame, hsame, ← holdid]
        refine (h.campaign old holdmem).append (.single ⟨?_, ?_⟩)
        · rw [hevent, hfrom]
        · rw [hevent, hto]

theorem Replayed.commit (h : Replayed s) (hinv : Consistent s) (hready : Ready s task t) :
    Replayed (s.commit t) := by
  cases hready with
  | quiet inbox hcalls hcampaigns hmarks hnotes =>
      have hsame : ∀ lock, (s.commit t).db.changes lock = s.db.changes lock := fun lock =>
        changes_commit_of_forall fun row hrow => AuditEvent.about_note (hnotes row hrow) lock
      constructor
      · intro row hrow
        rw [Shared.calls_commit_nil hcalls] at hrow
        rw [hsame]
        exact h.call row hrow
      · intro row hrow
        rw [Shared.campaigns_commit_nil hcampaigns] at hrow
        rw [hsame]
        exact h.campaign row hrow
  | moves inbox before after event folds hmoves hfolds hmarks haudit =>
      exact h.moves hinv hmoves hfolds haudit

theorem Replayed.of_tables (h : Replayed s) (hcalls : s'.db.calls = s.db.calls)
    (hcampaigns : s'.db.campaigns = s.db.campaigns) (haudit : s'.db.audit = s.db.audit) : Replayed s' := by
  obtain ⟨hcall, hcampaign⟩ := h
  rw [← hcalls] at hcall
  rw [← hcampaigns] at hcampaign
  simp only [Db.changes] at hcall hcampaign
  rw [← haudit] at hcall hcampaign
  exact ⟨hcall, hcampaign⟩

/-- An audit row about a row of the tables is about one that exists. -/
theorem Consistent.noOther (hinv : Consistent s) {note : AuditRow} (hnote : note ∈ s.db.audit) :
    (∀ id, note.event.about (.call id) = true → ∃ row ∈ s.db.calls, row.id = id) ∧
      ∀ id, note.event.about (.campaign id) = true → ∃ row ∈ s.db.campaigns, row.id = id := by
  constructor
  · intro id habout
    have hnot : note.event.isNote = false := by
      apply Bool.eq_false_iff.mpr
      intro htrue
      rw [AuditEvent.about_note htrue] at habout
      cases habout
    simp only [AuditEvent.about, Bool.and_eq_true, decide_eq_true_eq] at habout
    exact hinv.auditCall note hnote hnot id habout.1
  · intro id habout
    simp only [AuditEvent.about, Bool.and_eq_true, Bool.or_eq_true, decide_eq_true_eq] at habout
    exact hinv.auditCampaign note hnote habout.1 id habout.2

theorem Replayed.posted {others : List Txn} {campaign : CampaignRow} {rows : List CallRow} (h : Replayed s)
    (hinv : Consistent s) (hposted : Posted others s.db s'.db campaign rows) : Replayed s' := by
  have hsame : ∀ lock, s'.db.changes lock = s.db.changes lock := fun lock => by
    rw [Db.changes, hposted.audit]
    rfl
  have hnone : ∀ lock, (∀ note ∈ s.db.audit, note.event.about lock = true → False) →
      s.db.changes lock = [] := fun lock hno => List.filter_eq_nil_iff.mpr hno
  constructor
  · intro row hrow
    rw [hsame]
    rcases hposted.mem_calls.mp hrow with hold | hnew
    · exact h.call row hold
    · obtain ⟨-, hqueued, hepoch, -⟩ := hposted.queued row hnew
      rw [hnone, hqueued, hepoch]
      · rfl
      · intro note hnote habout
        obtain ⟨old, hold, hid⟩ := (hinv.noOther hnote).1 row.id habout
        exact hposted.freshCalls old hold row hnew hid
  · intro row hrow
    rw [hsame]
    rcases hposted.mem_campaigns.mp hrow with hold | rfl
    · exact h.campaign row hold
    · rw [hnone, hposted.pending]
      · rfl
      · intro note hnote habout
        obtain ⟨old, hold, hid⟩ := (hinv.noOther hnote).2 row.id habout
        exact hposted.freshCampaign old hold hid

end

theorem Reachable.replayed {deps : Deps} {s : Sys} (h : Reachable deps s) : Replayed s.shared := by
  refine h.invariant (fun now => ⟨fun _ h => (by cases h), fun _ h => (by cases h)⟩) ?_ ?_
  · intro s action shared hs hreplayed hworld
    cases hworld with
    | elapse micros => exact hreplayed.of_tables rfl rfl rfl
    | posted body createdAt campaignId callIds db hposted =>
        exact hreplayed.posted hs.consistent hposted.at_wake
    | ingested payload receivedAt inboxId db hingested =>
        have hrest := hingested.rest
        exact hreplayed.of_tables (congrArg (·.calls) hrest) (congrArg (·.campaigns) hrest)
          (congrArg (·.audit) hrest)
    | still action hrun hcrash => exact hreplayed
  · intro l s s' hinv hreplayed hguar
    cases hguar with
    | quiet hdb hnow hissued => exact hreplayed.of_tables (by rw [hdb]) (by rw [hdb]) (by rw [hdb])
    | commit t htxn hready => exact hreplayed.commit hinv hready

/-! ### In id order -/

/-- Sorting the log by id does not move the rows about one call or one campaign. -/
theorem Reachable.trail_eq {deps : Deps} {s : Sys} (h : Reachable deps s) (lock : RowLock) :
    s.shared.db.trail lock = s.shared.db.changes lock := by
  obtain ⟨modes, hordered⟩ := h.logOrdered
  exact List.Pairwise.insertionSort_eq ((hordered.log.ids lock).imp Nat.le_of_lt)

/-- The audit log replays to the current state. -/
theorem audit_replays {deps : Deps} {s : Sys} (h : Reachable deps s) : AuditReplays s.shared.db where
  call row hrow := by
    rw [h.trail_eq]
    exact h.replayed.call row hrow
  campaign row hrow := by
    rw [h.trail_eq]
    exact h.replayed.campaign row hrow
  noOther note hnote := h.consistent.noOther hnote

/-- The one call is dialed and nobody answers: three of the four audit rows lead to `RETRY_PENDING`. -/
theorem audit_replays_one_call : ∃ s, Reachable noonDeps s ∧
    (s.shared.db.calls.any fun row => row.status = .retryPending) = true ∧ s.shared.db.audit.length = 4 ∧
    AuditReplays s.shared.db := by
  obtain ⟨s, hs, hp⟩ := Reachable.of_any noonDeps (dialOne ++ deliver 0 "e" .noAnswer 1 13)
    (fun s => (s.shared.db.calls.any fun row => row.status = .retryPending) &&
      decide (s.shared.db.audit.length = 4)) (by decide +kernel)
  rw [Bool.and_eq_true, decide_eq_true_eq] at hp
  exact ⟨s, hs, hp.1, hp.2, audit_replays hs⟩

end VoiceCampaign

import VoiceCampaign.Model.Runs
import VoiceCampaign.Protocol.Readings

/-!
# The decisions in the audit log

The rows that say that a call was claimed, or that a campaign was passed over, are true: the tick that wrote them had
found what they say, in states of the run before.
-/

namespace VoiceCampaign

open Concurrency

/-! ### What a process has seen -/

/-- An earlier state of a run to `s`, in which process `index` was about to run `stmt`, outside of any transaction. -/
structure Past (deps : Deps) (s : Sys) (index : Nat) (stmt : Stmt) (past : Sys) : Prop where
  reachable : Reachable deps past
  continues : Continues deps (fun _ _ => True) past s
  stands : ∃ task next, past.procs[index]? = some ⟨task, .call stmt next, none⟩

/-- Process `index` has listed the campaign as eligible, and found it inside of its window at a reading of the clock, or
outside. -/
structure FoundBy (deps : Deps) (s : Sys) (index : Nat) (campaign : CampaignRow) (inside : Bool) : Prop where
  listed : ∃ past, Past deps s index (.select .listEligibleForTick) past ∧
    campaign ∈ past.shared.db.campaigns ∧ past.shared.db.eligible campaign = true
  clock : ∃ past, Past deps s index .datetimeNow past ∧
    isInWindow deps.zoneInfo campaign.schedule campaign.timezone past.shared.now = .ok inside

/-- Process `index` has counted so many calls of the campaign in flight. -/
def CountedBy (deps : Deps) (s : Sys) (index : Nat) (campaign : CampaignRow) (current : Nat) : Prop :=
  ∃ past ids, Past deps s index (.select (.inFlightCountsByCampaign ids)) past ∧
    past.shared.db.inFlightCount campaign.id = current

/-- The audit row was written by a process that had found what it says. -/
structure Decided (deps : Deps) (s : Sys) (event : AuditEvent) : Prop where
  outOfHours : event.eventType = .skipBusinessHour →
    ∃ index campaign, event = skipBusinessHour campaign ∧ FoundBy deps s index campaign false
  full : event.eventType = .skipConcurrency → ∃ index campaign current, event = skipConcurrency campaign current ∧
    FoundBy deps s index campaign true ∧ CountedBy deps s index campaign current ∧ campaign.maxConcurrent ≤ current
  claimed : event.eventType = .claimed → ∃ index campaign claimed inFlight pending cursor,
    event = claimedEvent campaign claimed inFlight pending cursor ∧ FoundBy deps s index campaign true ∧
      ∃ current, CountedBy deps s index campaign current ∧ current < campaign.maxConcurrent

section

variable {deps : Deps} {s s' past : Sys} {action : Action} {index : Nat} {stmt : Stmt} {campaign : CampaignRow}
  {event : AuditEvent} {inside : Bool} {current : Nat}

theorem Past.step (h : Past deps s index stmt past) (hstep : s.step deps action = some s') :
    Past deps s' index stmt past :=
  ⟨h.reachable, .step action h.continues trivial hstep, h.stands⟩

theorem FoundBy.step (h : FoundBy deps s index campaign inside) (hstep : s.step deps action = some s') :
    FoundBy deps s' index campaign inside where
  listed := by
    obtain ⟨past, hpast, hlisted⟩ := h.listed
    exact ⟨past, hpast.step hstep, hlisted⟩
  clock := by
    obtain ⟨past, hpast, hinside⟩ := h.clock
    exact ⟨past, hpast.step hstep, hinside⟩

theorem CountedBy.step (h : CountedBy deps s index campaign current) (hstep : s.step deps action = some s') :
    CountedBy deps s' index campaign current := by
  obtain ⟨past, ids, hpast, hcount⟩ := h
  exact ⟨past, ids, hpast.step hstep, hcount⟩

theorem Decided.step (h : Decided deps s event) (hstep : s.step deps action = some s') : Decided deps s' event where
  outOfHours htype := by
    obtain ⟨index, campaign, hevent, hfound⟩ := h.outOfHours htype
    exact ⟨index, campaign, hevent, hfound.step hstep⟩
  full htype := by
    obtain ⟨index, campaign, current, hevent, hfound, hcounted, hfull⟩ := h.full htype
    exact ⟨index, campaign, current, hevent, hfound.step hstep, hcounted.step hstep, hfull⟩
  claimed htype := by
    obtain ⟨index, campaign, claimed, inFlight, pending, cursor, hevent, hfound, current, hcounted, hbelow⟩ :=
      h.claimed htype
    exact ⟨index, campaign, claimed, inFlight, pending, cursor, hevent, hfound.step hstep, current,
      hcounted.step hstep, hbelow⟩

/-! ### What a reading stands for -/

/-- The reading was taken by process `index` in an earlier state. -/
def Reading.TakenBy (deps : Deps) (s : Sys) (index : Nat) : Reading → Prop
  | clock now => ∃ past, Past deps s index .datetimeNow past ∧ past.shared.now = now
  | listed rows => ∃ past, Past deps s index (.select .listEligibleForTick) past ∧
      past.shared.db.listEligibleForTick = rows
  | counted ids counts => ∃ past, Past deps s index (.select (.inFlightCountsByCampaign ids)) past ∧
      past.shared.db.inFlightCountsByCampaign ids = counts

theorem Reading.TakenBy.step {reading : Reading} (h : reading.TakenBy deps s index)
    (hstep : s.step deps action = some s') : reading.TakenBy deps s' index := by
  cases reading <;> obtain ⟨past, hpast, hread⟩ := h <;> exact ⟨past, hpast.step hstep, hread⟩

theorem Db.listEligibleForTick_eligible {db : Db} {row : CampaignRowWithCursor} (h : row ∈ db.listEligibleForTick) :
    row.campaign ∈ db.campaigns ∧ db.eligible row.campaign = true := by
  obtain ⟨campaign, hcampaign, rfl⟩ := List.mem_map.mp h
  rw [List.mem_insertionSort, List.mem_filter] at hcampaign
  exact hcampaign

theorem Readings.Finds.foundBy {readings : List Reading} (h : Finds deps readings campaign inside)
    (htaken : ∀ reading ∈ readings, reading.TakenBy deps s index) : FoundBy deps s index campaign inside where
  listed := by
    obtain ⟨rows, hlisted, row, hrow, rfl⟩ := h.listed
    obtain ⟨past, hpast, rfl⟩ := htaken _ hlisted
    exact ⟨past, hpast, Db.listEligibleForTick_eligible hrow⟩
  clock := by
    obtain ⟨now, hclock, hinside⟩ := h.clock
    obtain ⟨past, hpast, rfl⟩ := htaken _ hclock
    exact ⟨past, hpast, hinside⟩

theorem Readings.Counts.countedBy {readings : List Reading} (h : Counts readings campaign current)
    (htaken : ∀ reading ∈ readings, reading.TakenBy deps s index) : CountedBy deps s index campaign current := by
  obtain ⟨ids, counts, hcounted, hmem, rfl⟩ := h
  obtain ⟨past, hpast, rfl⟩ := htaken _ hcounted
  exact ⟨past, ids, hpast, (if_pos hmem).symm⟩

theorem Readings.Bears.decided {readings : List Reading} (h : Bears deps readings event)
    (htaken : ∀ reading ∈ readings, reading.TakenBy deps s index) : Decided deps s event where
  outOfHours htype := by
    obtain ⟨campaign, hevent, hfinds⟩ := h.outOfHours htype
    exact ⟨index, campaign, hevent, hfinds.foundBy htaken⟩
  full htype := by
    obtain ⟨campaign, current, hevent, hfinds, hcounts, hfull⟩ := h.full htype
    exact ⟨index, campaign, current, hevent, hfinds.foundBy htaken, hcounts.countedBy htaken, hfull⟩
  claimed htype := by
    obtain ⟨campaign, claimed, inFlight, pending, cursor, hevent, hfinds, current, hcounts, hbelow⟩ := h.claimed htype
    exact ⟨index, campaign, claimed, inFlight, pending, cursor, hevent, hfinds.foundBy htaken, current,
      hcounts.countedBy htaken, hbelow⟩

/-! ### Every run -/

/-- What the processes have read, and what is written of it. -/
structure ReadBy (deps : Deps) (s : Sys) (modes : Nat → Readings) : Prop where
  watched : Watched (readingMonitor deps) s modes
  inside : ∀ (index : Nat) (process : Process), s.procs[index]? = some process → process.live = true →
    (modes index).inside = process.txn.isSome
  taken : ∀ index, ∀ reading ∈ (modes index).all, reading.TakenBy deps s index
  wrote : ∀ (index : Nat) (process : Process), s.procs[index]? = some process → ∀ t ∈ process.txn, ∀ entry ∈ t.audit,
    Readings.Bears deps (modes index).all entry.event
  logged : ∀ entry ∈ s.shared.db.audit, Decided deps s entry.event

theorem Readings.next_inside {others : List Txn} {choice : Choice} {s s' : Shared} {txn txn' : Option Txn} {stmt : Stmt}
    {reply : Reply stmt} {mode : Readings} (h : mode.inside = txn.isSome)
    (hexec : exec others choice s txn stmt = some (reply, s', txn')) :
    ((readingMonitor deps).next mode stmt reply).inside = txn'.isSome := by
  have hread : ∀ reading, (mode.read reading).inside = mode.inside := by
    intro reading
    rw [read]
    split <;> rfl
  cases hdelimits : stmt.delimits with
  | true =>
      cases stmt with
      | begin =>
          obtain ⟨-, rfl⟩ := exec_begin hexec
          rfl
      | commit =>
          obtain ⟨t, -, -, rfl⟩ := exec_commit hexec
          rfl
      | rollback =>
          obtain ⟨-, rfl⟩ := exec_rollback hexec
          rfl
      | _ => cases hdelimits
  | false =>
      rw [exec_isSome hdelimits hexec, ← h]
      cases stmt with
      | begin => cases hdelimits
      | commit => cases hdelimits
      | rollback => cases hdelimits
      | datetimeNow => exact hread _
      | select query => cases query <;> first | exact hread _ | rfl
      | _ => rfl

/-- A new reading has been taken here. -/
theorem Readings.next_taken {choice : Choice} {task : Task} {next : Reply stmt → Co Unit} {txn txn' : Option Txn}
    {reply : Reply stmt} {shared : Shared} {mode : Readings} (hs : Reachable deps s)
    (hprocess : s.procs[index]? = some ⟨task, .call stmt next, txn⟩)
    (hexec : exec (s.othersOf index) choice s.shared txn stmt = some (reply, shared, txn'))
    (hinside : mode.inside = txn.isSome) (htaken : ∀ reading ∈ mode.all, reading.TakenBy deps s index) :
    ∀ reading ∈ ((readingMonitor deps).next mode stmt reply).all, reading.TakenBy deps s index := by
  have hread : ∀ reading : Reading, (txn = none → reading.TakenBy deps s index) →
      ∀ other ∈ (mode.read reading).all, other.TakenBy deps s index := by
    intro reading hnew other hother
    rw [read] at hother
    split at hother
    · exact htaken other hother
    · next houtside =>
        rcases List.mem_cons.mp hother with rfl | hold
        · rw [hinside, Bool.not_eq_true, Option.isSome_eq_false_iff, Option.isNone_iff_eq_none] at houtside
          exact hnew houtside
        · exact htaken other hold
  have hpast : txn = none → Past deps s index stmt s := by
    rintro rfl
    exact ⟨hs, .refl, task, next, hprocess⟩
  cases stmt with
  | datetimeNow =>
      cases hexec
      exact hread _ fun htxn => ⟨s, hpast htxn, rfl⟩
  | select query =>
      cases query with
      | listEligibleForTick =>
          cases hexec
          refine hread _ fun htxn => ⟨s, hpast htxn, ?_⟩
          subst htxn
          rfl
      | inFlightCountsByCampaign ids =>
          cases hexec
          refine hread _ fun htxn => ⟨s, hpast htxn, ?_⟩
          subst htxn
          rfl
      | _ => exact htaken
  | _ => exact htaken

theorem ReadBy.step {modes : Nat → Readings} (hs : Reachable deps s) (h : ReadBy deps s modes)
    (hstep : s.step deps action = some s') : ∃ modes', ReadBy deps s' modes' := by
  obtain ⟨modes', hwatched, hmoved⟩ := h.watched.step (Readings.covers deps) (fun _ _ _ => trivial) hstep
  have htaken : ∀ index, ∀ reading ∈ (modes index).all, reading.TakenBy deps s' index :=
    fun index reading hreading => (h.taken index reading hreading).step hstep
  have hlogged : ∀ entry ∈ s.shared.db.audit, Decided deps s' entry.event :=
    fun entry hentry => (h.logged entry hentry).step hstep
  refine ⟨modes', hwatched, ?_, ?_, ?_, ?_⟩
  · intro index process hprocess hlive
    cases hmoved with
    | world action shared hworld =>
        by_cases hlt : index < s.procs.length
        · exact h.inside index process (by rwa [Sys.spawn, List.getElem?_append_left hlt] at hprocess) hlive
        · rw [h.watched.fresh index (List.getElem?_eq_none (Nat.le_of_not_lt hlt))]
          rw [Sys.spawn, List.getElem?_append_right (Nat.le_of_not_lt hlt), List.getElem?_map] at hprocess
          obtain ⟨task, -, rfl⟩ := Option.map_eq_some_iff.mp hprocess
          rfl
    | run other choice task stmt next txn reply shared txn' hother hexec hallows =>
        by_cases hsame : index = other
        · subst hsame
          rw [List.getElem?_set_self (List.getElem?_eq_some_iff.mp hother).1] at hprocess
          rw [Function.update_self, ← Option.some.inj hprocess]
          exact Readings.next_inside (h.inside index _ hother rfl) hexec
        · rw [List.getElem?_set_ne (Ne.symm hsame)] at hprocess
          rw [Function.update_of_ne hsame]
          exact h.inside index process hprocess hlive
    | crash other found hother =>
        by_cases hsame : index = other
        · subst hsame
          rw [List.getElem?_set_self (List.getElem?_eq_some_iff.mp hother).1] at hprocess
          rw [← Option.some.inj hprocess] at hlive
          cases hlive
        · rw [List.getElem?_set_ne (Ne.symm hsame)] at hprocess
          rw [Function.update_of_ne hsame]
          exact h.inside index process hprocess hlive
  · intro index
    cases hmoved with
    | world action shared hworld => exact htaken index
    | run other choice task stmt next txn reply shared txn' hother hexec hallows =>
        by_cases hsame : index = other
        · subst hsame
          rw [Function.update_self]
          exact fun reading hreading => (Readings.next_taken hs hother hexec (h.inside index _ hother rfl)
            (h.taken index) reading hreading).step hstep
        · rw [Function.update_of_ne hsame]
          exact htaken index
    | crash other found hother =>
        by_cases hsame : index = other
        · subst hsame
          rw [Function.update_self]
          exact List.forall_mem_nil _
        · rw [Function.update_of_ne hsame]
          exact htaken index
  · let J (_ : Shared) (mode : Readings) (t : Txn) : Prop := ∀ entry ∈ t.audit, Readings.Bears deps mode.all entry.event
    refine @WatchedStep.txns _ _ _ _ _ _ _ J _ hmoved h.wrote (fun _ hbears => hbears) ?_ fun _ _ _ _ _ _ _ hbears => hbears
    intro other choice stmt reply shared mode txn txn' htxn hallows hexec t' ht' entry hentry
    suffices hbears : Readings.Bears deps mode.all entry.event from hbears.mono (Readings.next_subset mode stmt reply)
    rcases exec_audit hexec t' ht' entry hentry with ⟨t, ht, hold⟩ | rfl
    · exact htxn t ht entry hold
    · exact hallows
  · cases hmoved with
    | world action shared hworld =>
        intro entry hentry
        refine hlogged entry ?_
        rw [← hworld.audit]
        exact hentry
    | run other choice task stmt next txn reply shared txn' hother hexec hallows =>
        intro entry hentry
        by_cases hcommit : stmt = .commit
        · subst hcommit
          obtain ⟨t, rfl, rfl, rfl⟩ := exec_commit hexec
          rcases List.mem_append.mp hentry with hold | hnew
          · exact hlogged entry hold
          · exact ((h.wrote other _ hother t rfl entry hnew).decided (h.taken other)).step hstep
        · refine hlogged entry ?_
          rw [← (exec_quiet hcommit hexec).1]
          exact hentry
    | crash other found hother => exact hlogged

theorem ReadBy.init (now : Time) : ReadBy deps { shared := { now } } fun _ => {} where
  watched := .init (readingMonitor deps) now
  inside _ _ h := by simp at h
  taken _ := List.forall_mem_nil _
  wrote _ _ h := by simp at h
  logged := List.forall_mem_nil _

end

end VoiceCampaign

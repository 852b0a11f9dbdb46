import VoiceCampaign.Protocol.Trail

/-!
# What a tick has read

A tick records that it claimed a call, or that it passed a campaign over, only after it has read what it goes by.
-/

namespace VoiceCampaign

open Concurrency

/-- What a tick goes by: the clock, the eligible campaigns, and what they have in flight. -/
inductive Reading where
  | clock (now : Time)
  | listed (rows : List CampaignRowWithCursor)
  | counted (ids : List CampaignId) (counts : CampaignId → Nat)

/-- The readings of a process outside of its transactions, and whether it is in one. -/
structure Readings where
  inside : Bool := false
  all : List Reading := []

namespace Readings

def read (readings : Readings) (reading : Reading) : Readings :=
  if readings.inside = true then readings else { readings with all := reading :: readings.all }

/-- An eligible campaign is inside of its window, or outside, when the clock is read. -/
structure Finds (deps : Deps) (readings : List Reading) (campaign : CampaignRow) (inside : Bool) : Prop where
  listed : ∃ rows, .listed rows ∈ readings ∧ ∃ row ∈ rows, row.campaign = campaign
  clock : ∃ now, .clock now ∈ readings ∧
    isInWindow deps.zoneInfo campaign.schedule campaign.timezone now = .ok inside

/-- So many calls of the campaign are in flight. -/
def Counts (readings : List Reading) (campaign : CampaignRow) (current : Nat) : Prop :=
  ∃ ids counts, .counted ids counts ∈ readings ∧ campaign.id ∈ ids ∧ counts campaign.id = current

/-- What the readings have to say for the audit row. -/
structure Bears (deps : Deps) (readings : List Reading) (event : AuditEvent) : Prop where
  outOfHours : event.eventType = .skipBusinessHour →
    ∃ campaign, event = skipBusinessHour campaign ∧ Finds deps readings campaign false
  full : event.eventType = .skipConcurrency → ∃ campaign current, event = skipConcurrency campaign current ∧
    Finds deps readings campaign true ∧ Counts readings campaign current ∧ campaign.maxConcurrent ≤ current
  claimed : event.eventType = .claimed → ∃ campaign claimed inFlight pending cursor,
    event = claimedEvent campaign claimed inFlight pending cursor ∧ Finds deps readings campaign true ∧
      ∃ current, Counts readings campaign current ∧ current < campaign.maxConcurrent

end Readings

def readingMonitor (deps : Deps) : Monitor Stmt Reply Readings where
  start := {}
  allows readings
    | .emitAudit event => Readings.Bears deps readings.all event
    | _ => True
  answers _ _ := True
  next readings
    | .begin => fun _ => { readings with inside := true }
    | .commit => fun _ => { readings with inside := false }
    | .rollback => fun _ => { readings with inside := false }
    | .datetimeNow => fun (now : Time) => readings.read (.clock now)
    | .select .listEligibleForTick => fun (rows : List CampaignRowWithCursor) => readings.read (.listed rows)
    | .select (.inFlightCountsByCampaign ids) => fun (counts : CampaignId → Nat) => readings.read (.counted ids counts)
    | _ => fun _ => readings

namespace Readings

variable {deps : Deps} {readings more : List Reading} {campaign : CampaignRow} {event : AuditEvent} {inside : Bool}

theorem read_subset (mode : Readings) (reading : Reading) : mode.all ⊆ (mode.read reading).all := by
  rw [read]
  split
  · exact List.Subset.refl _
  · exact List.subset_cons_self _ _

/-- What was read stays read. -/
theorem next_subset (mode : Readings) (stmt : Stmt) (reply : Reply stmt) :
    mode.all ⊆ ((readingMonitor deps).next mode stmt reply).all := by
  cases stmt with
  | datetimeNow => exact read_subset mode _
  | select query => cases query <;> first | exact read_subset mode _ | exact List.Subset.refl _
  | _ => exact List.Subset.refl _

theorem Finds.mono (h : Finds deps readings campaign inside) (hmore : readings ⊆ more) :
    Finds deps more campaign inside where
  listed := by
    obtain ⟨rows, hlisted, hrow⟩ := h.listed
    exact ⟨rows, hmore hlisted, hrow⟩
  clock := by
    obtain ⟨now, hclock, hinside⟩ := h.clock
    exact ⟨now, hmore hclock, hinside⟩

theorem Counts.mono {current : Nat} (h : Counts readings campaign current) (hmore : readings ⊆ more) :
    Counts more campaign current := by
  obtain ⟨ids, counts, hcounted, hrest⟩ := h
  exact ⟨ids, counts, hmore hcounted, hrest⟩

theorem Bears.mono (h : Bears deps readings event) (hmore : readings ⊆ more) : Bears deps more event where
  outOfHours htype := by
    obtain ⟨campaign, hevent, hfinds⟩ := h.outOfHours htype
    exact ⟨campaign, hevent, hfinds.mono hmore⟩
  full htype := by
    obtain ⟨campaign, current, hevent, hfinds, hcounts, hfull⟩ := h.full htype
    exact ⟨campaign, current, hevent, hfinds.mono hmore, hcounts.mono hmore, hfull⟩
  claimed htype := by
    obtain ⟨campaign, claimed, inFlight, pending, cursor, hevent, hfinds, current, hcounts, hbelow⟩ := h.claimed htype
    exact ⟨campaign, claimed, inFlight, pending, cursor, hevent, hfinds.mono hmore, current, hcounts.mono hmore, hbelow⟩

/-- A row that is about something else. -/
theorem Bears.of_type (hskip : event.eventType.isSkip = false) (hclaimed : event.eventType ≠ .claimed) :
    Bears deps readings event where
  outOfHours htype := by
    rw [htype] at hskip
    cases hskip
  full htype := by
    rw [htype] at hskip
    cases hskip
  claimed htype := absurd htype hclaimed

/-! ### Reading it off the text -/

theorem learns : (readingMonitor deps).Learns fun mode more => mode.all ⊆ more.all where
  refl _ := List.Subset.refl _
  trans := List.Subset.trans
  grows := next_subset
  mono {mode more stmt} hmore hallows := by
    cases stmt with
    | emitAudit event => exact Bears.mono hallows hmore
    | _ => trivial

/-- The program records what the readings bear out. -/
def Borne (deps : Deps) (readings : List Reading) (α : Type) (program : Co α) : Prop :=
  (readingMonitor deps).From (fun mode more => mode.all ⊆ more.all) { all := readings } program

theorem Borne.of_only {α : Type} {program : Co α}
    (h : program.Only fun stmt => ∀ event, stmt = .emitAudit event → Bears deps readings event) :
    Borne deps readings α program :=
  learns.of_only (h.mono fun stmt hstmt => by
    cases stmt with
    | emitAudit event => exact hstmt event rfl
    | _ => trivial)

theorem plain_bears {stmt : Stmt} (h : stmt.plain = true) :
    ∀ event, stmt = .emitAudit event → Bears deps readings event := by
  rintro event rfl
  obtain ⟨hnote, hskip⟩ := Bool.and_eq_true_iff.mp h
  refine .of_type ((Bool.not_eq_true' _).mp hskip) fun he => ?_
  rw [AuditEvent.isNote, he] at hnote
  cases hnote

theorem rollup_bears (h : event.rollsUp = true) : Bears deps readings event := by
  rcases AuditEvent.eventType_of_rollsUp h with htype | htype <;>
    exact .of_type (by rw [htype]; rfl) (by rw [htype]; rintro ⟨⟩)

/-- The audit rows of `transition`. -/
theorem transition_bears {args : Transition} (h : args.eventType.ofTransition = true ∨ args.eventType = .dispatch)
    (row : CallRow) : Bears deps readings (args.auditEvent row) := by
  refine .of_type ?_ fun he => ?_
  · show args.eventType.isSkip = false
    rcases h with h | h
    · cases htype : args.eventType <;> rw [htype] at h <;> first | rfl | cases h
    · rw [h]
      rfl
  · rw [show args.eventType = .claimed from he] at h
    rcases h with h | h <;> cases h

theorem transition_borne {args : Transition} (h : args.eventType.ofTransition = true ∨ args.eventType = .dispatch) :
    Borne deps readings _ (transition args) := by
  refine .of_only (transition_only (fun _ hstmt => plain_bears hstmt) (fun event hevent => ?_) fun row => ?_)
  · rintro _ ⟨⟩
    exact rollup_bears hevent
  · rintro _ ⟨⟩
    exact transition_bears h row

theorem borne_steps (deps : Deps) (readings : List Reading) : Conduct (Borne deps readings) where
  done := .done
  fail := .fail
  bind := .bind
  catching := .catching
  plain _ hstmt := .of_only (.perform_last (plain_bears hstmt))
  transition hroutine := transition_borne (Or.inl hroutine.eventType)

theorem borne_conduct (deps : Deps) (readings : List Reading) : TaskConduct (Borne deps readings) := by
  refine (borne_steps deps readings).ofDelimits fun stmt hdelimits => .of_only (.perform_last ?_)
  rintro event rfl
  cases hdelimits

/-! ### The tasks -/

theorem processOneRow_borne (deps : Deps) : Borne deps readings _ (processOneRow deps) := by
  have hsteps := borne_steps deps readings
  apply hsteps.catching
  · apply (borne_conduct deps readings).transaction
    apply hsteps.bind (.of_only (.perform_last (by rintro _ ⟨⟩)))
    intro found
    cases found with
    | none => exact hsteps.done _
    | some row =>
        refine hsteps.processRow (L := Borne deps readings _) hsteps.bind (fun outcome _ => ?_) deps
        exact .of_only (.perform (by rintro _ ⟨⟩) fun _ => trivial)
  · exact fun _ => hsteps.done _

/-- A claim for a campaign that was found in hours and below its cap. -/
theorem claimPhase_borne {current : Nat} (hfinds : Finds deps readings campaign true)
    (hcounts : Counts readings campaign current) (hbelow : current < campaign.maxConcurrent) :
    Borne deps readings _ (claimPhase campaign) := by
  have hsteps := borne_steps deps readings
  apply (borne_conduct deps readings).transaction
  apply hsteps.bind (hsteps.plain (.select .countRetriesDueSystem) rfl)
  intro retriesPendingSystem
  apply hsteps.bind (hsteps.plain (.select (.inFlightCount campaign.id)) rfl)
  intro inFlightAtClaim
  apply hsteps.bind (hsteps.plain (.select (.getLastDispatchAt campaign.id)) rfl)
  intro rrCursorBefore
  apply hsteps.bind (.of_only (.perform_last (by rintro _ ⟨⟩)))
  intro reply
  apply hsteps.bind (hsteps.ofExcept reply)
  intro found
  cases found with
  | none => exact hsteps.done _
  | some claimed =>
      apply hsteps.bind
      · refine .of_only (.perform_last ?_)
        rintro _ ⟨⟩
        refine ⟨(by rintro ⟨⟩), (by rintro ⟨⟩), fun _ => ?_⟩
        exact ⟨campaign, claimed, _, _, _, rfl, hfinds, current, hcounts, hbelow⟩
      · intro _
        split
        · refine hsteps.bind (.of_only ?_) fun _ => hsteps.done _
          refine maybePromoteToActive_only (fun _ hstmt => plain_bears hstmt) (fun event hevent => ?_) _
          rintro _ ⟨⟩
          exact rollup_bears hevent
        · exact hsteps.done _

theorem placePhase_borne (claimed : CallRow) : Borne deps readings _ (placePhase claimed) := by
  refine .of_only (.perform (by rintro _ ⟨⟩) fun outcome => ?_)
  cases outcome <;> trivial

theorem dispatchPicked_borne {picked : CampaignRowWithCursor} {current : Nat}
    (hfinds : Finds deps readings picked.campaign true) (hcounts : Counts readings picked.campaign current)
    (hbelow : current < picked.campaign.maxConcurrent) (isRetry : Bool) :
    Borne deps readings _ (dispatchPicked picked isRetry) := by
  have hconduct := borne_conduct deps readings
  refine hconduct.toTaskParts.dispatchPicked (fun call => transition_borne (Or.inl rfl)) ?_ isRetry
  refine hconduct.dispatchOne (claimPhase_borne hfinds hcounts hbelow) placePhase_borne ?_ ?_ fun now => ?_
  · exact fun _ _ => transition_borne (Or.inr rfl)
  · exact fun _ _ => transition_borne (Or.inl rfl)
  · exact .of_only (.perform_last (by rintro _ ⟨⟩))

/-- A row that is written outside of any transaction leaves the readings as they were. -/
theorem emitAlone_obeys (h : Bears deps readings event) :
    (readingMonitor deps).Obeys (fun _ mode => mode = { all := readings }) (fun _ _ => True) (emitAlone event)
      { all := readings } :=
  ⟨trivial, fun _ _ => ⟨h, fun _ _ => ⟨trivial, fun _ _ => rfl⟩⟩⟩

theorem tick_obeys (deps : Deps) :
    (readingMonitor deps).Obeys (fun _ _ => True) (fun _ _ => True) (tick deps) {} := by
  apply Monitor.Obeys.perform trivial
  intro nowUtc _
  apply Monitor.Obeys.perform trivial
  intro (allEligible : List CampaignRowWithCursor) _
  change (readingMonitor deps).Obeys _ _ _ { all := [.listed allEligible, .clock nowUtc] }
  split
  · trivial
  cases hsplit : splitByHours deps nowUtc allEligible with
  | error error => trivial
  | ok hours =>
      obtain ⟨inHours, outOfHours⟩ := hours
      obtain ⟨hin, hout⟩ := splitByHours_mem hsplit
      have hfinds : ∀ (row : CampaignRowWithCursor) (inside : Bool), row ∈ allEligible →
          isInWindow deps.zoneInfo row.campaign.schedule row.campaign.timezone nowUtc = .ok inside →
            Finds deps [.listed allEligible, .clock nowUtc] row.campaign inside := fun row inside hmem hinside =>
        ⟨⟨allEligible, List.mem_cons_self, row, hmem, rfl⟩, nowUtc, List.mem_cons_of_mem _ List.mem_cons_self, hinside⟩
      refine (Monitor.Obeys.forM fun row hrow => emitAlone_obeys ⟨fun _ => ?_, (by rintro ⟨⟩), by rintro ⟨⟩⟩).bind ?_
      · exact ⟨row.campaign, rfl, hfinds row false (hout row hrow).1 (hout row hrow).2⟩
      rintro _ _ rfl
      split
      · trivial
      apply Monitor.Obeys.perform trivial
      intro (inFlight : CampaignId → Nat) _
      generalize hids : inHours.map (fun row => row.campaign.id) = ids
      change (readingMonitor deps).Obeys _ _ _
        { all := [.counted ids inFlight, .listed allEligible, .clock nowUtc] }
      have hread : ∀ row ∈ inHours, Finds deps [.counted ids inFlight, .listed allEligible, .clock nowUtc] row.campaign true ∧
          Counts [.counted ids inFlight, .listed allEligible, .clock nowUtc] row.campaign (inFlight row.campaign.id) := by
        intro row hrow
        refine ⟨(hfinds row true (hin row hrow).1 (hin row hrow).2).mono (List.subset_cons_self _ _), ids, inFlight,
          List.mem_cons_self, ?_, rfl⟩
        rw [← hids]
        exact List.mem_map_of_mem hrow
      refine (Monitor.Obeys.forM fun row hrow => emitAlone_obeys ⟨(by rintro ⟨⟩), fun _ => ?_, by rintro ⟨⟩⟩).bind ?_
      · obtain ⟨hmem, hfull⟩ := List.mem_filter.mp hrow
        simp only [belowCap, Bool.not_eq_true', decide_eq_false_iff_not, not_lt] at hfull
        exact ⟨row.campaign, _, rfl, (hread row hmem).1, (hread row hmem).2, hfull⟩
      rintro _ _ rfl
      dsimp only
      split
      · trivial
      apply Monitor.Obeys.perform trivial
      intro retryDueCampaigns _
      split
      · trivial
      · next picked isRetry hpicked =>
        obtain ⟨hmem, hbelow⟩ := List.mem_filter.mp (pickCampaign_mem hpicked)
        have hborne := dispatchPicked_borne (hread picked hmem).1 (hread picked hmem).2 (of_decide_eq_true hbelow) isRetry
        exact (hborne _ (List.Subset.refl _)).mono (fun _ _ _ => trivial) fun _ _ _ => trivial

theorem covers (deps : Deps) : Monitor.Covers (readingMonitor deps) deps := by
  have hsteps := borne_steps deps []
  have hlast : ∀ {α : Type} {program : Co α}, Borne deps [] α program →
      (readingMonitor deps).Obeys (fun _ _ => True) (fun _ _ => True) program {} := fun h =>
    (h {} (List.Subset.refl _)).mono (fun _ _ _ => trivial) fun _ _ _ => trivial
  intro task
  cases task with
  | tick => exact (tick_obeys deps).bind fun _ _ _ => trivial
  | drain =>
      exact hlast (hsteps.bind (hsteps.processPendingInbox deps (processOneRow_borne deps)) fun _ => hsteps.done _)
  | reclaim row => exact hlast (hsteps.bind ((borne_conduct deps []).reclaimOne row) fun _ => hsteps.done _)

end Readings

end VoiceCampaign

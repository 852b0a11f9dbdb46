import VoiceCampaign.Concurrency.RoundRobin
import VoiceCampaign.Model.Runs
import VoiceCampaign.Protocol.Cursors
import VoiceCampaign.Protocol.Turns

/-!
# Fairness

A single replica runs one tick after another, with anything but ticks in between. Its ticks serve the
campaign that was dispatched least recently among their candidates, so that no candidate waits while
another campaign is dispatched twice.
-/

namespace VoiceCampaign

open Concurrency Program

/-- The runs of a single replica and the ticks on the way: before each the clock has moved on, and while
it runs the other processes stand still. A tick that raises has not dispatched. -/
inductive FairRun (deps : Deps) : Sys → List (Turn CampaignId) → Prop
  | init (now : Time) (hnow : datetimeMin ≤ now) : FairRun deps { shared := { now } } []
  | between {s s' : Sys} {turns : List (Turn CampaignId)} (action : Action) (hs : FairRun deps s turns)
      (haction : action ≠ .tick) (hstep : s.step deps action = some s') : FairRun deps s' turns
  | tick {s : Sys} {turns : List (Turn CampaignId)} {found : List CampaignRowWithCursor × Bool}
      {decision : TickDecision} {mid shared : Shared} (micros : Nat) (hs : FairRun deps s turns)
      (hgates : Ends (alone s.txns true) (surviveGates deps)
        ({ s.shared with now := s.shared.now + (micros + 1 : Nat) }, none) (.ok found) (mid, none))
      (hdispatch : Ends (alone s.txns true) (dispatchFrom found) (mid, none) (.ok decision) (shared, none)) :
      FairRun deps { shared, procs := s.procs ++ [⟨.tick, .done (), none⟩] }
        (turns ++ [⟨found.1.map fun row => row.campaign.id, decision.campaignId⟩])
  | raised {s : Sys} {turns : List (Turn CampaignId)} {error : Err} {shared : Shared} (micros : Nat)
      (hs : FairRun deps s turns)
      (htick : Ends (alone s.txns true) (tick deps)
        ({ s.shared with now := s.shared.now + (micros + 1 : Nat) }, none) (.error error) (shared, none)) :
      FairRun deps { shared, procs := s.procs ++ [⟨.tick, .fail error, none⟩] } turns

/-- The runs of a single replica are runs of the system. -/
theorem FairRun.reachable {deps : Deps} {s : Sys} {turns : List (Turn CampaignId)} (h : FairRun deps s turns) :
    Reachable deps s := by
  have htick : ∀ {s : Sys} {shared : Shared} {micros : Nat} {result : Except Err Unit}, Reachable deps s →
      Ends (alone s.txns true) (Task.code deps .tick)
        ({ s.shared with now := s.shared.now + (micros + 1 : Nat) }, none) result (shared, none) →
      Reachable deps ⟨shared, s.procs ++ [⟨.tick, overCode result, none⟩]⟩ := by
    intro s shared micros result hs hends
    refine Reachable.of_alone hends ?_
    exact .step .tick (.step (.elapse (micros + 1)) hs trivial rfl) trivial rfl
  induction h with
  | init now hnow => exact .init now
  | between action _ _ hstep ih => exact .step action ih trivial hstep
  | @tick s turns found decision mid shared micros _ hgates hdispatch ih =>
      have hends : Ends (alone s.txns true) (VoiceCampaign.tick deps)
          ({ s.shared with now := s.shared.now + (micros + 1 : Nat) }, none) (.ok decision) (shared, none) := by
        rw [tick_eq]
        exact hgates.bind hdispatch
      exact htick ih (hends.bind (.done () _))
  | @raised s turns error shared micros _ hraised ih =>
      exact htick ih hraised.raised

/-! ### The campaigns there are -/

def Db.campaignIds (db : Db) : List CampaignId := db.campaigns.map CampaignRow.id

theorem exec_campaignIds {others : List Txn} {choice : Choice} {s s' : Shared} {txn txn' : Option Txn}
    {stmt : Stmt} {reply : Reply stmt} (h : exec others choice s txn stmt = some (reply, s', txn')) :
    s'.db.campaignIds = s.db.campaignIds := by
  by_cases hcommit : stmt = .commit
  · subst hcommit
    obtain ⟨t, rfl, rfl, rfl⟩ := exec_commit h
    exact map_key_overlay t.campaigns s.db.campaigns
  · rw [(exec_quiet hcommit h).1]

theorem ends_campaignIds {α : Type} {others : List Txn} {passes : Bool} {program : Co α}
    {s s' : Shared × Option Txn} {result : Except Err α} (h : Ends (alone others passes) program s result s') :
    s'.1.db.campaignIds = s.1.db.campaignIds := by
  induction h with
  | done value s => rfl
  | fail error s => rfl
  | call hop _ ih =>
      obtain ⟨choice, micros, -, hexec⟩ := hop
      have hids := exec_campaignIds hexec
      exact ih.trans hids

theorem Sys.World.campaignIds {deps : Deps} {s : Sys} {action : Action} {shared : Shared}
    (h : World deps s action shared) : s.shared.db.campaignIds ⊆ shared.db.campaignIds := by
  cases h with
  | elapse micros => exact List.Subset.refl _
  | posted body createdAt campaignId callIds db hposted =>
      intro id hid
      show id ∈ db.campaigns.map CampaignRow.id
      rw [hposted.campaigns, List.map_append]
      exact List.mem_append_left _ hid
  | ingested payload receivedAt inboxId db hingested =>
      rw [hingested.rest]
      exact List.Subset.refl _
  | still action hrun hcrash => exact List.Subset.refl _

theorem Sys.spawns_tick {deps : Deps} {s : Sys} {action : Action} (h : .tick ∈ spawns deps s action) :
    action = .tick := by
  cases action with
  | tick => rfl
  | ingest payload receivedAt inboxId =>
      rw [spawns] at h
      split at h
      · rw [List.mem_singleton] at h
        cases h
      · cases h
  | drain =>
      rw [spawns, List.mem_singleton] at h
      cases h
  | sweep =>
      obtain ⟨found, -, he⟩ := List.mem_map.mp h
      cases he
  | _ => cases h

/-! ### The candidates -/

/-- A candidate is a campaign next to its cursor. -/
theorem survivors_mem {deps : Deps} {db : Db} {nowUtc dueAt : Time} {found : List CampaignRowWithCursor × Bool}
    (h : survivors deps db nowUtc dueAt = .ok found) : ∀ row ∈ found.1,
      row.campaign ∈ db.campaigns ∧ row.lastDispatchAt = db.lastDispatchAt row.campaign.id := by
  rw [survivors] at h
  cases hsplit : splitByHours deps nowUtc db.listEligibleForTick with
  | error error =>
      rw [hsplit] at h
      cases h
  | ok hours =>
      rw [hsplit] at h
      cases h
      intro row hrow
      have hcapped : ∀ {capped : List CampaignRowWithCursor} {due : List CampaignId},
          row ∈ (candidates capped due).1 → row ∈ capped := by
        intro capped due hmem
        rw [candidates] at hmem
        split at hmem
        · exact hmem
        · exact List.mem_of_mem_filter hmem
      have hin : row ∈ hours.1 := List.mem_of_mem_filter (hcapped hrow)
      have hlisted := ((mem_splitByHours hsplit).2 row).mp hin
      obtain ⟨hmem, -, he⟩ := mem_listEligibleForTick.mp hlisted.1
      exact ⟨hmem, congrArg CampaignRowWithCursor.lastDispatchAt he⟩

/-- The round-robin first is one of the rows, and was dispatched least recently. -/
theorem rrFirst_least {rows : List CampaignRowWithCursor} {picked : CampaignRowWithCursor}
    (h : rrFirst rows = some picked) :
    picked ∈ rows ∧ ∀ row ∈ rows, (rrSortKey picked).1 ≤ (rrSortKey row).1 := by
  obtain ⟨hmem, hfirst⟩ := rrFirst_le h
  refine ⟨hmem, fun row hrow => ?_⟩
  rcases rrLe_iff.mp (hfirst row hrow) with hlt | ⟨heq, -⟩
  · exact hlt.le
  · exact heq.le

/-! ### The ticks of a run -/

/-- When a campaign was dispatched last, as the round-robin key reads it. -/
def Db.rrStamp (db : Db) (id : CampaignId) : Time := (db.lastDispatchAt id).getD datetimeMin

section

variable {deps : Deps} {s s' : Shared} {id : CampaignId} {ts : Time}

theorem Steady.rrStamp (h : Steady s s') (id : CampaignId) : s'.db.rrStamp id = s.db.rrStamp id := by
  rw [Db.rrStamp, Db.lastDispatchAt, h.cursors]
  rfl

theorem Advances.rrStamp (h : Advances id s s' ts) (other : CampaignId) :
    s'.db.rrStamp other = if other = id then ts else s.db.rrStamp other := by
  rw [Db.rrStamp, Db.lastDispatchAt, h.cursors, lookup_upsert]
  by_cases hother : other = id
  · subst hother
    simp
  · simp [hother, Db.rrStamp, Db.lastDispatchAt]

/-- What a single replica keeps up: its ticks serve the least recently dispatched, no cursor is ahead of
the clock, the candidates are campaigns, and no one else is about to write a cursor. -/
structure Rotates (s : Sys) (turns : List (Turn CampaignId)) : Prop where
  leastRecent : LeastRecent datetimeMin turns s.shared.db.rrStamp
  now : ∀ id, s.shared.db.rrStamp id ≤ s.shared.now
  campaigns : ∀ turn ∈ turns, turn.candidates ⊆ s.shared.db.campaignIds
  procs : ∀ process ∈ s.procs, Silent _ process.code ∧ Unwritten process.txn

theorem Rotates.between {s s' : Sys} {turns : List (Turn CampaignId)} {action : Action} (h : Rotates s turns)
    (haction : action ≠ .tick) (hstep : s.step deps action = some s') : Rotates s' turns := by
  have hstamps : ∀ {shared : Shared} {procs : List Process}, shared.db.cursors = s.shared.db.cursors →
      s.shared.now ≤ shared.now → s.shared.db.campaignIds ⊆ shared.db.campaignIds →
      (∀ process ∈ procs, Silent _ process.code ∧ Unwritten process.txn) → Rotates ⟨shared, procs⟩ turns := by
    intro shared procs hcursors hnow hids hprocs
    have hstamp : shared.db.rrStamp = s.shared.db.rrStamp := funext (Steady.rrStamp ⟨hcursors, hnow⟩)
    refine ⟨?_, fun id => ?_, fun turn hturn => List.Subset.trans (h.campaigns turn hturn) hids, hprocs⟩
    · rw [hstamp]
      exact h.leastRecent
    · rw [hstamp]
      exact (h.now id).trans hnow
  rcases Sys.step_cases hstep with ⟨shared, hworld, rfl⟩ |
    ⟨index, choice, task, stmt, next, txn, reply, shared, txn', rfl, hprocess, hexec, rfl⟩ |
    ⟨index, process, rfl, hprocess, rfl⟩
  · apply hstamps hworld.cursors hworld.grows.now hworld.campaignIds
    intro process hprocess
    rcases List.mem_append.mp hprocess with hold | hnew
    · exact h.procs process hold
    · obtain ⟨task, htask, rfl⟩ := List.mem_map.mp hnew
      have hne : task ≠ .tick := by
        rintro rfl
        exact haction (Sys.spawns_tick htask)
      exact ⟨task_silent deps hne, nofun⟩
  · obtain ⟨hsilent, hunwritten⟩ := h.procs _ (List.mem_of_getElem? hprocess)
    obtain ⟨hcursors, hunwritten'⟩ := exec_silent hexec hsilent.1 hunwritten
    apply hstamps hcursors (exec_now hexec).ge (fun id hid => by rwa [exec_campaignIds hexec])
    intro process hmem
    rcases List.mem_or_eq_of_mem_set hmem with hold | rfl
    · exact h.procs process hold
    · exact ⟨hsilent.2 reply, hunwritten'⟩
  · apply hstamps rfl le_rfl (List.Subset.refl _)
    intro other hmem
    rcases List.mem_or_eq_of_mem_set hmem with hold | rfl
    · exact h.procs other hold
    · exact ⟨trivial, nofun⟩

/-- A replica that waits for its next tick. -/
theorem Rotates.spawned {s : Sys} {turns : List (Turn CampaignId)} (h : Rotates s turns) {code : Co Unit}
    (hcode : Silent _ code) : ∀ process ∈ s.procs ++ [⟨.tick, code, none⟩],
      Silent _ process.code ∧ Unwritten process.txn := by
  intro process hprocess
  rcases List.mem_append.mp hprocess with hold | hnew
  · exact h.procs process hold
  · rw [List.mem_singleton.mp hnew]
    exact ⟨hcode, nofun⟩

theorem Rotates.raised {s : Sys} {turns : List (Turn CampaignId)} {micros : Nat} {error : Err} {shared : Shared}
    (h : Rotates s turns) (htick : Ends (alone s.txns true) (VoiceCampaign.tick deps)
      ({ s.shared with now := s.shared.now + (micros + 1 : Nat) }, none) (.error error) (shared, none)) :
    Rotates { shared, procs := s.procs ++ [⟨.tick, .fail error, none⟩] } turns := by
  have hlater : Steady s.shared { s.shared with now := s.shared.now + (micros + 1 : Nat) } :=
    ⟨rfl, Int.le_add_of_nonneg_right (Int.natCast_nonneg _)⟩
  have hids : shared.db.campaignIds = s.shared.db.campaignIds := ends_campaignIds htick
  rw [tick_eq] at htick
  have hsteady : Steady s.shared shared := by
    rcases htick.of_bind with ⟨found, ⟨mid, txn⟩, hgates, hdispatch⟩ | ⟨_, ⟨⟩, hgates⟩
    · obtain ⟨rfl, hnoted, -⟩ := ((surviveGates_wp deps).of_ends hgates).1 found rfl
      have hraised := ((dispatchFrom_moves found).of_ends hdispatch).2 error rfl
      exact hlater.trans (hnoted.steady.trans hraised.2)
    · exact hlater.trans (((surviveGates_wp deps).of_ends hgates).2 error rfl).2.1.steady
  have hstamp : shared.db.rrStamp = s.shared.db.rrStamp := funext hsteady.rrStamp
  refine ⟨?_, fun id => ?_, fun turn hturn => ?_, h.spawned trivial⟩
  · rw [hstamp]
    exact h.leastRecent
  · rw [hstamp]
    exact (h.now id).trans hsteady.now
  · intro id hid
    rw [hids]
    exact h.campaigns turn hturn hid

/-- A tick serves the least recently dispatched of its candidates, if it dispatches. -/
theorem Rotates.tick {s : Sys} {turns : List (Turn CampaignId)} {micros : Nat}
    {found : List CampaignRowWithCursor × Bool} {decision : TickDecision} {mid shared : Shared} (h : Rotates s turns)
    (hgates : Ends (alone s.txns true) (surviveGates deps)
      ({ s.shared with now := s.shared.now + (micros + 1 : Nat) }, none) (.ok found) (mid, none))
    (hdispatch : Ends (alone s.txns true) (dispatchFrom found) (mid, none) (.ok decision) (shared, none)) :
    Rotates { shared, procs := s.procs ++ [⟨.tick, .done (), none⟩] }
      (turns ++ [⟨found.1.map fun row => row.campaign.id, decision.campaignId⟩]) := by
  have hlater : s.shared.now < s.shared.now + (micros + 1 : Nat) :=
    Int.lt_add_of_pos_right _ (by exact_mod_cast Nat.succ_pos micros)
  have hids : shared.db.campaignIds = s.shared.db.campaignIds := 
    (ends_campaignIds hdispatch).trans (ends_campaignIds hgates)
  obtain ⟨-, hnoted, nowUtc, dueAt, -, -, hfound⟩ := ((surviveGates_wp deps).of_ends hgates).1 found rfl
  obtain ⟨-, hmoved, hpicked⟩ := ((dispatchFrom_moves found).of_ends hdispatch).1 decision rfl
  have hgated : Steady { s.shared with now := s.shared.now + (micros + 1 : Nat) } mid := hnoted.steady
  replace hmoved := hgated.moved hmoved
  have hrows := survivors_mem hfound
  have hcandidates : (found.1.map fun row => row.campaign.id) ⊆ s.shared.db.campaignIds := by
    intro id hid
    obtain ⟨row, hrow, rfl⟩ := List.mem_map.mp hid
    exact List.mem_map_of_mem (hrows row hrow).1
  have hcampaigns : ∀ turn ∈ turns ++ [⟨found.1.map fun row => row.campaign.id, decision.campaignId⟩],
      turn.candidates ⊆ shared.db.campaignIds := by
    intro turn hturn
    rw [hids]
    rcases List.mem_append.mp hturn with hold | hnew
    · exact h.campaigns turn hold
    · rw [List.mem_singleton.mp hnew]
      exact hcandidates
  cases hdecision : decision.campaignId with
  | none =>
      rw [hdecision] at hmoved hcampaigns
      have hsteady : Steady { s.shared with now := s.shared.now + (micros + 1 : Nat) } shared := hmoved
      have hstamp : shared.db.rrStamp = s.shared.db.rrStamp := funext fun id => hsteady.rrStamp id
      refine ⟨?_, fun id => ?_, hcampaigns, h.spawned trivial⟩
      · rw [hstamp]
        exact h.leastRecent.pass _
      · rw [hstamp]
        exact (h.now id).trans (hlater.le.trans hsteady.now)
  | some id =>
      rw [hdecision] at hmoved hcampaigns hpicked
      obtain ⟨ts, hadvances⟩ := hmoved
      obtain ⟨picked, hfirst, rfl⟩ := hpicked id rfl
      obtain ⟨hmem, hleast⟩ := rrFirst_least hfirst
      have hstamp : ∀ other, shared.db.rrStamp other =
          if other = picked.campaign.id then ts else s.shared.db.rrStamp other := hadvances.rrStamp
      have hkey : ∀ row ∈ found.1, (rrSortKey row).1 = s.shared.db.rrStamp row.campaign.id := by
        intro row hrow
        rw [rrSortKey, (hrows row hrow).2]
        rfl
      refine ⟨.serve _ picked.campaign.id h.leastRecent (List.mem_map_of_mem hmem) ?_ ?_ ?_, ?_, hcampaigns,
        h.spawned trivial⟩
      · intro other hother
        obtain ⟨row, hrow, rfl⟩ := List.mem_map.mp hother
        rw [← hkey picked hmem, ← hkey row hrow]
        exact hleast row hrow
      · intro other hne
        rw [hstamp, if_neg hne]
      · intro other
        rw [hstamp, if_pos rfl]
        exact (h.now other).trans_lt (hlater.trans_le hadvances.after)
      · intro other
        rw [hstamp]
        split
        · exact hadvances.before
        · exact (h.now other).trans (hlater.le.trans (hadvances.after.trans hadvances.before))

theorem FairRun.rotates {s : Sys} {turns : List (Turn CampaignId)} (h : FairRun deps s turns) :
    Rotates s turns := by
  induction h with
  | init now hnow => exact ⟨.init, fun _ => hnow, nofun, nofun⟩
  | between action _ haction hstep ih => exact ih.between haction hstep
  | tick micros _ hgates hdispatch ih => exact ih.tick hgates hdispatch
  | raised micros _ htick ih => exact ih.raised htick

end

/-- Round-robin fairness: between two dispatches of one campaign every other candidate of the second is
dispatched, and a campaign that stays a candidate is passed over at most once for each other campaign. -/
theorem round_robin_fair {deps : Deps} {s : Sys} {turns : List (Turn CampaignId)} (h : FairRun deps s turns) :
    (∀ before between after candidates candidates' a b,
      turns = before ++ ⟨candidates, some a⟩ :: (between ++ ⟨candidates', some a⟩ :: after) →
        b ∈ candidates' → b ≠ a → ∃ turn ∈ between, turn.served = some b) ∧
    ∀ before window after b, turns = before ++ window ++ after → (∀ turn ∈ window, b ∈ turn.candidates) →
      (∀ turn ∈ window, turn.served ≠ some b) →
        (window.filterMap Turn.served).length ≤ s.shared.db.campaigns.length - 1 := by
  have hrotates := h.rotates
  refine ⟨fun before between after candidates candidates' a b hturns hb hne =>
    hrotates.leastRecent.served_between hturns hb hne, fun before window after b hturns hb hpassed => ?_⟩
  have hkeys : ∀ turn ∈ window, ∀ key ∈ turn.candidates, key ∈ s.shared.db.campaignIds := fun turn hturn =>
    hrotates.campaigns turn (by simp [hturns, hturn])
  have hcount := hrotates.leastRecent.passed_over hturns (fun turn hturn _ => hb turn hturn) hpassed hkeys
  rwa [Db.campaignIds, List.length_map] at hcount

/-- The next tick of a single replica, a microsecond later. -/
def fairTick (deps : Deps) (choice : Choice) (s : Sys) (turns : List (Turn CampaignId)) :
    Option (Sys × List (Turn CampaignId)) :=
  match runAlone s.txns choice 50 (surviveGates deps) { s.shared with now := s.shared.now + (0 + 1 : Nat) } none with
  | some (.ok found, mid, none) =>
      match runAlone s.txns choice 50 (dispatchFrom found) mid none with
      | some (.ok decision, shared, none) =>
          some ({ shared, procs := s.procs ++ [⟨.tick, .done (), none⟩] },
            turns ++ [⟨found.1.map fun row => row.campaign.id, decision.campaignId⟩])
      | _ => none
  | _ => none

theorem FairRun.of_fairTick {deps : Deps} {choice : Choice} {s s' : Sys} {turns turns' : List (Turn CampaignId)}
    (h : FairRun deps s turns) (htick : fairTick deps choice s turns = some (s', turns')) :
    FairRun deps s' turns' := by
  rw [fairTick] at htick
  split at htick
  · next hgates =>
    split at htick
    · next hdispatch =>
      cases htick
      exact .tick 0 h (ends_of_runAlone hgates) (ends_of_runAlone hdispatch)
    · cases htick
  · cases htick

def fairTicks (deps : Deps) (choice : Choice) : Nat → Sys → List (Turn CampaignId) →
    Option (Sys × List (Turn CampaignId))
  | 0, s, turns => some (s, turns)
  | count + 1, s, turns => (fairTick deps choice s turns).bind fun next => fairTicks deps choice count next.1 next.2

theorem FairRun.of_fairTicks {deps : Deps} {choice : Choice} {count : Nat} {s s' : Sys}
    {turns turns' : List (Turn CampaignId)} (h : FairRun deps s turns)
    (hticks : fairTicks deps choice count s turns = some (s', turns')) : FairRun deps s' turns' := by
  induction count generalizing s turns with
  | zero =>
      cases hticks
      exact h
  | succ count ih =>
      obtain ⟨⟨mid, turns''⟩, htick, hrest⟩ := Option.bind_eq_some_iff.mp hticks
      exact ih (h.of_fairTick htick) hrest

theorem FairRun.of_run {deps : Deps} {s s' : Sys} {turns : List (Turn CampaignId)} {actions : List Action}
    (h : FairRun deps s turns) (hactions : ∀ action ∈ actions, action ≠ .tick)
    (hrun : s.run deps actions = some s') : FairRun deps s' turns := by
  induction actions generalizing s with
  | nil =>
      cases hrun
      exact h
  | cons action rest ih =>
      obtain ⟨mid, hstep, hrest⟩ := Option.bind_eq_some_iff.mp hrun
      exact ih (.between action h (hactions action List.mem_cons_self) hstep)
        (fun other hother => hactions other (List.mem_cons_of_mem _ hother)) hrest

/-- Two campaigns of two calls each. -/
def postTwo : List Action :=
  [.post (openPair atMostTwo twoRetries) 0 0 [0, 1],
    .post (openCampaign atMostTwo twoRetries ["+3", "+4"] (by decide) (by decide)) 0 1 [2, 3]]

/-- Two campaigns take turns. -/
theorem round_robin_fair_two_campaigns : ∃ s, FairRun noonDeps s
    [⟨[0, 1], some 0⟩, ⟨[0, 1], some 1⟩, ⟨[0, 1], some 0⟩] ∧
      ∃ turn ∈ [(⟨[0, 1], some 1⟩ : Turn CampaignId)], turn.served = some 1 := by
  have hrun : ((Sys.run noonDeps {} postTwo).bind fun s => fairTicks noonDeps { place := .handle "h" } 3 s []).any
      (fun run => run.2 = [⟨[0, 1], some 0⟩, ⟨[0, 1], some 1⟩, ⟨[0, 1], some 0⟩]) = true := by decide +kernel
  obtain ⟨⟨s', turns⟩, hticks, hturns⟩ := (Option.any_eq_true _ _).mp hrun
  obtain ⟨s, hposted, hticks⟩ := Option.bind_eq_some_iff.mp hticks
  obtain rfl := of_decide_eq_true hturns
  have hstart : FairRun noonDeps s [] :=
    (FairRun.init 0 (by decide)).of_run (by rintro action (_ | ⟨_, _ | ⟨_, ⟨⟩⟩⟩) <;> nofun) hposted
  have hfair := hstart.of_fairTicks hticks
  exact ⟨s', hfair, (round_robin_fair hfair).1 [] [⟨[0, 1], some 1⟩] [] [0, 1] [0, 1] 0 1 rfl (by decide) (by decide)⟩

end VoiceCampaign

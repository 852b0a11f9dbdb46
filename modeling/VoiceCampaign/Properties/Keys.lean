import VoiceCampaign.Model.Runs
import VoiceCampaign.Protocol.Commits
import VoiceCampaign.Protocol.Dials

/-!
# Keys

Every dial attempt has its own key: no key is claimed twice, none is dialed twice, and the audit log has
one `CLAIMED` row for each key claimed and at most one `DISPATCH` row, for a key claimed.
-/

namespace VoiceCampaign

open Concurrency

/-! ### Claims and dials of a run -/

inductive Dialing where
  /-- A tick committed a claim. -/
  | claimed (key : IdempotencyKey)
  /-- `place_call` was invoked. -/
  | placed (key : IdempotencyKey)

def Sys.dialing (s : Sys) : Action → List Dialing
  | .run index _ =>
      match s.procs[index]? with
      | some ⟨_, .call (.placeCall key _) _, _⟩ => [.placed key]
      | some ⟨task, .call .commit _, some t⟩ =>
          (claimedVersions task s.shared.db t).map fun row => .claimed row.key
      | _ => []
  | _ => []

def claimedKeys (seen : List Dialing) : List IdempotencyKey :=
  seen.filterMap fun
    | .claimed key => some key
    | .placed _ => none

def placedKeys (seen : List Dialing) : List IdempotencyKey :=
  seen.filterMap fun
    | .placed key => some key
    | .claimed _ => none

section

variable {seen more : List Dialing}

@[simp] theorem claimedKeys_append : claimedKeys (seen ++ more) = claimedKeys seen ++ claimedKeys more :=
  List.filterMap_append

@[simp] theorem placedKeys_append : placedKeys (seen ++ more) = placedKeys seen ++ placedKeys more :=
  List.filterMap_append

@[simp] theorem claimedKeys_placed (key : IdempotencyKey) : claimedKeys [.placed key] = [] := rfl

@[simp] theorem placedKeys_placed (key : IdempotencyKey) : placedKeys [.placed key] = [key] := rfl

theorem claimedKeys_map (rows : List CallRow) :
    claimedKeys (rows.map fun row => .claimed row.key) = rows.map CallRow.key := by
  rw [claimedKeys, List.filterMap_map]
  exact congrFun (@List.filterMap_eq_map _ _ CallRow.key) rows

theorem placedKeys_map (rows : List CallRow) : placedKeys (rows.map fun row => .claimed row.key) = [] := by
  rw [placedKeys, List.filterMap_map]
  exact List.filterMap_eq_nil_iff.mpr fun _ _ => rfl

end

/-! ### Who has which key -/

/-- The claims and dials of a run, the audit log, and the keys in hand. -/
structure Dialers (db : Db) (modes : Nat → DialMode) (seen : List Dialing) : Prop where
  claimedOnce : (claimedKeys seen).Nodup
  claimedUpTo : ∀ key ∈ claimedKeys seen,
    ∃ row, db.call? key.callId = some row ∧ key.attemptEpoch ≤ row.attemptEpoch
  claimedRows : ∀ key, db.keyAuditCount .claimed key = (claimedKeys seen).count key
  placedOnce : (placedKeys seen).Nodup
  placedClaimed : ∀ key ∈ placedKeys seen, key ∈ claimedKeys seen
  settledRows : ∀ key, db.settledCount key ≤ if key ∈ claimedKeys seen then 1 else 0
  apart : ∀ i j key, (modes i).token = some key → (modes j).token = some key → i = j
  owned : ∀ i key, (modes i).token = some key → key ∈ claimedKeys seen ∧ db.settledCount key = 0
  unplaced : ∀ i key, modes i = .owns key → key ∉ placedKeys seen

/-- What a commit adds to the claims. -/
structure NewClaims (s : Shared) (t : Txn) (mode : DialMode) (seen : List Dialing) (news : List IdempotencyKey) :
    Prop where
  nodup : news.Nodup
  fresh : ∀ key ∈ news, key ∉ claimedKeys seen
  upTo : ∀ key ∈ news, ∃ row, (s.commit t).db.call? key.callId = some row ∧ key.attemptEpoch ≤ row.attemptEpoch
  rows : ∀ key, (t.audit.countP fun row => row.event.records .claimed key) = news.count key
  inHand : ∀ key, mode = .claimed key → key ∈ news

section

variable {db db' : Db} {modes : Nat → DialMode} {seen : List Dialing} {index : Nat} {mode : DialMode}
  {key : IdempotencyKey} {s : Shared} {t : Txn} {news : List IdempotencyKey} {task : Task}

theorem Dialers.empty : Dialers {} (fun _ => .idle) [] where
  claimedOnce := .nil
  claimedUpTo _ h := by cases h
  claimedRows _ := rfl
  placedOnce := .nil
  placedClaimed _ h := by cases h
  settledRows _ := Nat.zero_le _
  apart _ _ _ h := by cases h
  owned _ _ h := by cases h
  unplaced _ _ h := by cases h

/-- The audit log stays, and so do the calls. -/
theorem Dialers.mono (h : Dialers db modes seen) (haudit : db'.audit = db.audit)
    (hcalls : ∀ id row, db.call? id = some row → db'.call? id = some row) : Dialers db' modes seen := by
  have hcount : ∀ eventType key, db'.keyAuditCount eventType key = db.keyAuditCount eventType key := by
    intro eventType key
    rw [Db.keyAuditCount, haudit]
    rfl
  have hsettled : ∀ key, db'.settledCount key = db.settledCount key := by
    intro key
    rw [Db.settledCount, haudit]
    rfl
  exact { h with
    claimedUpTo := fun key hkey => by
      obtain ⟨row, hrow, hle⟩ := h.claimedUpTo key hkey
      exact ⟨row, hcalls _ row hrow, hle⟩
    claimedRows := fun key => (hcount _ key).trans (h.claimedRows key)
    settledRows := fun key => (hsettled key).symm ▸ h.settledRows key
    owned := fun i key hkey => ⟨(h.owned i key hkey).1, (hsettled key).trans (h.owned i key hkey).2⟩ }

/-- A process goes on with the key it has, or lets go of it. -/
theorem Dialers.keep (h : Dialers db modes seen)
    (htoken : ∀ key, mode.token = some key → (modes index).token = some key)
    (howns : ∀ key, mode = .owns key → modes index = .owns key) :
    Dialers db (Function.update modes index mode) seen := by
  have htokens : ∀ i key, (Function.update modes index mode i).token = some key →
      (modes i).token = some key := by
    intro i key hkey
    by_cases hi : i = index
    · rw [hi, Function.update_self] at hkey
      rw [hi]
      exact htoken key hkey
    · rwa [Function.update_of_ne hi] at hkey
  exact { h with
    apart := fun i j key hi hj => h.apart i j key (htokens i key hi) (htokens j key hj)
    owned := fun i key hi => h.owned i key (htokens i key hi)
    unplaced := fun i key hi => by
      by_cases hsame : i = index
      · rw [hsame, Function.update_self] at hi
        exact h.unplaced index key (howns key hi)
      · rw [Function.update_of_ne hsame] at hi
        exact h.unplaced i key hi }

/-- The key is dialed. -/
theorem Dialers.place (h : Dialers db modes seen) (howns : modes index = .owns key) (outcome : PlaceOutcome) :
    Dialers db (Function.update modes index (.afterPlace key outcome)) (seen ++ [.placed key]) := by
  have hmine : (modes index).token = some key := by rw [howns]; rfl
  have hkeep : Dialers db (Function.update modes index (.afterPlace key outcome)) seen := by
    refine h.keep (fun other hother => ?_) fun other hother => ?_
    · rw [hmine]
      cases outcome with
      | raised => cases hother
      | _ => exact hother
    · cases outcome <;> cases hother
  constructor
  · simpa using hkeep.claimedOnce
  · simpa using hkeep.claimedUpTo
  · simpa using hkeep.claimedRows
  · rw [placedKeys_append, placedKeys_placed, List.nodup_append]
    refine ⟨h.placedOnce, List.nodup_singleton _, fun old hold new hnew he => ?_⟩
    rw [List.mem_singleton] at hnew
    exact h.unplaced index key howns (hnew ▸ he ▸ hold)
  · intro other hother
    rw [placedKeys_append, List.mem_append] at hother
    rw [claimedKeys_append, claimedKeys_placed, List.append_nil]
    rcases hother with hold | hnew
    · exact h.placedClaimed other hold
    · rw [List.mem_singleton.mp hnew]
      exact (h.owned index key hmine).1
  · simpa using hkeep.settledRows
  · exact hkeep.apart
  · simpa using hkeep.owned
  · intro i other hother hplaced
    rw [placedKeys_append, List.mem_append] at hplaced
    rcases hplaced with hold | hnew
    · exact hkeep.unplaced i other hother hold
    · rw [List.mem_singleton.mp hnew] at hother
      by_cases hi : i = index
      · rw [hi, Function.update_self] at hother
        cases outcome <;> cases hother
      · rw [Function.update_of_ne hi] at hother
        exact hi (h.apart i index key (by rw [hother]; rfl) hmine)

theorem keyAuditCount_commit (eventType : EventType) (key : IdempotencyKey) :
    (s.commit t).db.keyAuditCount eventType key = s.db.keyAuditCount eventType key +
      t.audit.countP fun row => row.event.records eventType key := List.countP_append

theorem settledCount_commit (key : IdempotencyKey) : (s.commit t).db.settledCount key =
    s.db.settledCount key + t.audit.countP fun row => row.event.settles key := List.countP_append

/-- A transaction commits. -/
theorem Dialers.commit (h : Dialers s.db modes seen) (hgrows : Grows s (s.commit t))
    (hwrote : (modes index).Wrote t.audit) (hnews : NewClaims s t (modes index) seen news)
    {more : List Dialing} (hclaims : claimedKeys more = news) (hplaced : placedKeys more = []) :
    Dialers (s.commit t).db (Function.update modes index (modes index).afterCommit) (seen ++ more) := by
  have hcount : ∀ other, (s.commit t).db.settledCount other =
      s.db.settledCount other + if modes index = .recorded other then 1 else 0 := by
    intro other
    rw [settledCount_commit, hwrote.settled other]
  -- the key in hand after the commit was in hand before, or is a new claim
  have hhand : ∀ other, (modes index).afterCommit.token = some other →
      modes index = .owns other ∨ (modes index = .claimed other ∧ other ∈ news) := by
    intro other hother
    cases hmode : modes index with
    | claimed mine =>
        rw [hmode] at hother
        obtain rfl := Option.some.inj hother
        exact Or.inr ⟨rfl, hnews.inHand _ hmode⟩
    | owns mine =>
        rw [hmode] at hother
        rw [Option.some.inj hother]
        exact Or.inl rfl
    | _ =>
        rw [hmode] at hother
        cases hother
  have htoken : ∀ i other, (Function.update modes index (modes index).afterCommit i).token = some other →
      ((modes i).token = some other ∧ modes index ≠ .recorded other) ∨
        (i = index ∧ modes index = .claimed other ∧ other ∈ news) := by
    intro i other hother
    by_cases hi : i = index
    · rw [hi, Function.update_self] at hother
      rcases hhand other hother with howns | ⟨hclaimed, hnew⟩
      · exact Or.inl ⟨by rw [hi, howns]; rfl, by rw [howns]; nofun⟩
      · exact Or.inr ⟨hi, hclaimed, hnew⟩
    · rw [Function.update_of_ne hi] at hother
      exact Or.inl ⟨hother, fun hmine => hi (h.apart i index other hother (by rw [hmine]; rfl))⟩
  have hfresh : ∀ other ∈ news, s.db.settledCount other = 0 := by
    intro other hother
    have hle := h.settledRows other
    rw [if_neg (hnews.fresh other hother)] at hle
    exact Nat.le_zero.mp hle
  constructor
  · rw [claimedKeys_append, hclaims, List.nodup_append]
    exact ⟨h.claimedOnce, hnews.nodup, fun old hold new hnew he => hnews.fresh new hnew (he ▸ hold)⟩
  · intro other hother
    rw [claimedKeys_append, hclaims, List.mem_append] at hother
    rcases hother with hold | hnew
    · obtain ⟨row, hrow, hle⟩ := h.claimedUpTo other hold
      obtain ⟨row', hrow', hevolves⟩ := hgrows.call _ row hrow
      exact ⟨row', hrow', hle.trans hevolves.attemptEpoch⟩
    · exact hnews.upTo other hnew
  · intro other
    rw [keyAuditCount_commit, h.claimedRows, hnews.rows, claimedKeys_append, hclaims, List.count_append]
  · rw [placedKeys_append, hplaced, List.append_nil]
    exact h.placedOnce
  · intro other hother
    rw [placedKeys_append, hplaced, List.append_nil] at hother
    rw [claimedKeys_append]
    exact List.mem_append_left _ (h.placedClaimed other hother)
  · intro other
    rw [hcount, claimedKeys_append, hclaims]
    by_cases hmine : modes index = .recorded other
    · obtain ⟨hclaimed, hzero⟩ := h.owned index other (by rw [hmine]; rfl)
      rw [hzero, if_pos hmine, if_pos (List.mem_append_left _ hclaimed)]
    · rw [if_neg hmine, Nat.add_zero]
      refine (h.settledRows other).trans ?_
      by_cases hclaimed : other ∈ claimedKeys seen
      · rw [if_pos hclaimed, if_pos (List.mem_append_left _ hclaimed)]
      · rw [if_neg hclaimed]
        exact Nat.zero_le _
  · intro i j other hi hj
    rcases htoken i other hi with ⟨hold, -⟩ | ⟨hisame, -, hnew⟩ <;>
      rcases htoken j other hj with ⟨hold', -⟩ | ⟨hjsame, -, hnew'⟩
    · exact h.apart i j other hold hold'
    · exact absurd (h.owned i other hold).1 (hnews.fresh other hnew')
    · exact absurd (h.owned j other hold').1 (hnews.fresh other hnew)
    · exact hisame.trans hjsame.symm
  · intro i other hi
    rw [hcount, claimedKeys_append, hclaims]
    rcases htoken i other hi with ⟨hold, hnot⟩ | ⟨-, hmine, hnew⟩
    · rw [if_neg hnot]
      exact ⟨List.mem_append_left _ (h.owned i other hold).1, (h.owned i other hold).2⟩
    · rw [if_neg (by rw [hmine]; nofun)]
      exact ⟨List.mem_append_right _ hnew, hfresh other hnew⟩
  · intro i other hi
    rw [placedKeys_append, hplaced, List.append_nil]
    by_cases hsame : i = index
    · rw [hsame, Function.update_self] at hi
      rcases hhand other (by rw [hi]; rfl) with howns | ⟨-, hnew⟩
      · exact h.unplaced index other howns
      · exact fun hold => hnews.fresh other hnew (h.placedClaimed other hold)
    · rw [Function.update_of_ne hsame] at hi
      exact h.unplaced i other hi

end

/-! ### Every run -/

/-- A process that runs a statement other than `COMMIT` and `place_call` gains no key. -/
theorem dialMonitor_keeps {mode : DialMode} {stmt : Stmt} {reply : Reply stmt}
    (hallows : dialMonitor.allows mode stmt) (hcommit : stmt ≠ .commit)
    (hplace : ∀ key phone, stmt ≠ .placeCall key phone) :
    (∀ key, (dialMonitor.next mode stmt reply).token = some key → mode.token = some key) ∧
      ∀ key, dialMonitor.next mode stmt reply = .owns key → mode = .owns key := by
  cases hinert : stmt.inert with
  | true =>
      cases stmt with
      | emitAudit event =>
          have hsame := DialMode.afterAudit_inert hinert mode
          exact ⟨fun key hkey => hsame ▸ hkey, fun key hkey => hsame ▸ hkey⟩
      | begin => cases hinert
      | commit => cases hinert
      | rollback => cases hinert
      | placeCall key phone => cases hinert
      | _ => exact ⟨fun _ h => h, fun _ h => h⟩
  | false =>
      cases stmt with
      | begin => exact ⟨fun _ h => h, fun _ h => h⟩
      | commit => exact absurd rfl hcommit
      | rollback => exact ⟨nofun, nofun⟩
      | placeCall key phone => exact absurd rfl (hplace key phone)
      | emitAudit event =>
          rw [show dialMonitor.next mode (.emitAudit event) reply = mode.afterAudit event from rfl]
          obtain ⟨key, hclaimed | hsettles⟩ := Stmt.not_inert_emitAudit hinert
          · rw [DialMode.afterAudit_claimed hclaimed]
            exact ⟨nofun, nofun⟩
          · rw [DialMode.afterAudit_settles hsettles, (hallows key).2 hsettles]
            exact ⟨fun _ h => h, nofun⟩
      | _ => cases hinert

structure DialWatched (s : Sys) (modes : Nat → DialMode) (seen : List Dialing) : Prop where
  watched : Watched dialMonitor s modes
  wrote : ∀ (index : Nat) (process : Process), s.procs[index]? = some process → ∀ t ∈ process.txn,
    (modes index).Wrote t.audit
  dialers : Dialers s.shared.db modes seen

section

variable {deps : Deps} {s s' : Sys} {modes : Nat → DialMode} {seen : List Dialing} {action : Action}

theorem Sys.World.dialing {shared : Shared} (h : Sys.World deps s action shared) : s.dialing action = [] := by
  cases h with
  | still action hrun hcrash =>
      cases action with
      | run index choice => exact absurd rfl (hrun index choice)
      | _ => rfl
  | _ => rfl

theorem Guar.newClaims {shared shared' : Shared} {task : Task} {txn : Option Txn} {t : Txn} {mode : DialMode}
    (h : Guar ⟨some task, txn⟩ shared shared') (htxn : txn = some t)
    (hcommit : shared' = shared.commit t) (hinv : Consistent shared) (hwrote : mode.Wrote t.audit)
    (hupTo : ∀ key ∈ claimedKeys seen,
      ∃ row, shared.db.call? key.callId = some row ∧ key.attemptEpoch ≤ row.attemptEpoch) :
    NewClaims shared t mode seen ((claimedVersions task shared.db t).map CallRow.key) := by
  have hmine : ∀ {news : List IdempotencyKey},
      (∀ key, (t.audit.countP fun row => row.event.records .claimed key) = news.count key) →
      ∀ key, mode = .claimed key → key ∈ news := by
    intro news hrows key hmode
    obtain ⟨row, hrow, hrecords⟩ := hwrote.claimed key hmode
    rw [← List.count_pos_iff, ← hrows key]
    exact List.countP_pos_iff.mpr ⟨row, hrow, hrecords⟩
  rcases h.claims htxn hcommit hinv with ⟨before, after, hclaims⟩ | ⟨hnone, hrows⟩
  · rw [hclaims.versions, List.map_singleton]
    have hrows : ∀ key, (t.audit.countP fun row => row.event.records .claimed key) = [after.key].count key := by
      intro key
      rw [hclaims.claimed]
      by_cases hkey : key = after.key
      · rw [if_pos hkey, hkey, List.count_singleton_self]
      · rw [if_neg hkey, List.count_eq_zero.mpr (by simpa using hkey)]
    refine ⟨List.nodup_singleton _, fun key hkey hold => ?_, fun key hkey => ?_, hrows, hmine hrows⟩
    · obtain ⟨row, hrow, hle⟩ := hupTo key hold
      rw [List.mem_singleton.mp hkey] at hrow hle
      obtain rfl := Option.some.inj (hrow.symm.trans hclaims.row)
      have hepoch := hclaims.epoch
      simp only [CallRow.key] at hle
      omega
    · rw [List.mem_singleton.mp hkey]
      exact ⟨after, hclaims.commit, le_rfl⟩
  · rw [hnone]
    exact ⟨.nil, fun _ h => (by cases h), fun _ h => (by cases h), hrows, hmine hrows⟩

theorem DialWatched.step (h : DialWatched s modes seen) (hs : Reachable deps s)
    (hstep : s.step deps action = some s') : ∃ modes', DialWatched s' modes' (seen ++ s.dialing action) := by
  obtain ⟨modes', hwatched, hstep'⟩ := h.watched.step (dialMonitor_covers deps) (fun _ _ h => h) hstep
  refine ⟨modes', hwatched, hstep'.txns (J := fun _ mode t => mode.Wrote t.audit) h.wrote ?_ ?_ ?_, ?_⟩
  · exact fun _ h => h
  · exact fun hwrote hallows hexec => exec_wrote hwrote hallows hexec
  · exact fun _ _ _ _ _ _ _ h => h
  cases hstep' with
  | world action shared hworld =>
      rw [hworld.dialing, List.append_nil]
      exact h.dialers.mono hworld.audit fun _ _ => hworld.call?
  | run index choice task stmt next txn reply shared txn' hprocess hexec hallows =>
      by_cases hcommit : stmt = .commit
      · subst hcommit
        obtain ⟨t, rfl, rfl, rfl⟩ := exec_commit hexec
        have hguar := (hs.run hprocess hexec).2.2
        have hwrote := h.wrote index _ hprocess t rfl
        rw [Sys.dialing, hprocess]
        exact h.dialers.commit hguar.grows hwrote
          (hguar.newClaims rfl rfl hs.consistent hwrote h.dialers.claimedUpTo) (claimedKeys_map _) (placedKeys_map _)
      have hdb := (exec_quiet hcommit hexec).1
      have hsteady : Dialers shared.db modes seen := hdb.symm ▸ h.dialers
      by_cases hplace : ∃ key phone, stmt = .placeCall key phone
      · obtain ⟨key, phone, rfl⟩ := hplace
        rw [Sys.dialing, hprocess]
        exact hsteady.place hallows reply
      · have hnothing : s.dialing (.run index choice) = [] := by
          rw [Sys.dialing, hprocess]
          cases stmt with
          | commit => exact absurd rfl hcommit
          | placeCall key phone => exact absurd ⟨key, phone, rfl⟩ hplace
          | _ => rfl
        rw [hnothing, List.append_nil]
        obtain ⟨htoken, howns⟩ := @dialMonitor_keeps _ _ reply hallows hcommit
          fun key phone he => hplace ⟨key, phone, he⟩
        exact hsteady.keep htoken howns
  | crash index process hprocess =>
      have hnothing : s.dialing (.crash index) = [] := rfl
      rw [hnothing, List.append_nil]
      exact h.dialers.keep nofun nofun

theorem Observed.dialWatched (h : Observed deps Sys.dialing s seen) : ∃ modes, DialWatched s modes seen := by
  induction h with
  | init now => exact ⟨_, .init dialMonitor now, fun _ _ h => by simp at h, .empty⟩
  | step action hs hstep ih =>
      obtain ⟨modes, hmodes⟩ := ih
      exact hmodes.step hs.reachable hstep

/-- What came of a dial is committed once. -/
theorem Reachable.settles (hs : Reachable deps s) {index : Nat} {task : Task} {next : Unit → Co Unit} {t : Txn}
    (hprocess : s.procs[index]? = some ⟨task, .call .commit next, some t⟩) {row : AuditRow}
    (hrow : row ∈ t.audit) {key : IdempotencyKey} (hsettles : row.event.settles key = true) :
    s.shared.db.settledCount key = 0 := by
  obtain ⟨seen, hseen⟩ := hs.observed Sys.dialing
  obtain ⟨modes, hwatched⟩ := hseen.dialWatched
  have hcount := (hwatched.wrote index _ hprocess t rfl).settled key
  have hpos : 0 < t.audit.countP fun row => row.event.settles key :=
    List.countP_pos_iff.mpr ⟨row, hrow, hsettles⟩
  have hmode : modes index = .recorded key := by
    by_contra hother
    rw [hcount, if_neg hother] at hpos
    exact absurd hpos (Nat.lt_irrefl 0)
  exact (hwatched.dialers.owned index key (by rw [hmode]; rfl)).2

/-- The calls that an action of a sweep reclaims, as it leaves them. -/
def Sys.reclaiming (s : Sys) : Action → List CallRow
  | .run index _ =>
      match s.procs[index]? with
      | some ⟨task, .call .commit _, some t⟩ => reclaimedVersions task s.shared.db t
      | _ => []
  | _ => []

/-- What holds of the claims and dials at the end of a run. -/
structure KeysOnce (deps : Deps) (s : Sys) (seen : List Dialing) : Prop where
  monotone : ∀ action s', s.step deps action = some s' → ∀ id before, s.shared.db.call? id = some before →
    ∃ after, s'.shared.db.call? id = some after ∧ before.attemptEpoch ≤ after.attemptEpoch
  claims : ∀ action s', s.step deps action = some s' → ∀ key ∈ claimedKeys (s.dialing action),
    ∃ before after, s.shared.db.call? key.callId = some before ∧ s'.shared.db.call? key.callId = some after ∧
      before.attemptEpoch < after.attemptEpoch ∧ after.key = key
  reclaims : ∀ action s', s.step deps action = some s' → ∀ after ∈ s.reclaiming action,
    ∃ before, s.shared.db.call? after.id = some before ∧ s'.shared.db.call? after.id = some after ∧
      before.attemptEpoch < after.attemptEpoch
  claimedOnce : (claimedKeys seen).Nodup
  placedOnce : (placedKeys seen).Nodup
  claimedRows : ∀ key, s.shared.db.keyAuditCount .claimed key = if key ∈ claimedKeys seen then 1 else 0
  dispatchRows : ∀ key, s.shared.db.keyAuditCount .dispatch key ≤ s.shared.db.keyAuditCount .claimed key

/-- Claims and reclaims happen where a process commits. -/
theorem Reachable.commits (hs : Reachable deps s) (hstep : s.step deps action = some s')
    (h : claimedKeys (s.dialing action) ≠ [] ∨ s.reclaiming action ≠ []) :
    ∃ task t, Guar ⟨some task, some t⟩ s.shared s'.shared ∧ s'.shared = s.shared.commit t ∧
      claimedKeys (s.dialing action) = (claimedVersions task s.shared.db t).map CallRow.key ∧
      s.reclaiming action = reclaimedVersions task s.shared.db t := by
  rcases Sys.step_cases hstep with ⟨shared, hworld, rfl⟩ |
    ⟨index, choice, task, stmt, next, txn, reply, shared, txn', rfl, hprocess, hexec, rfl⟩ |
    ⟨index, process, rfl, hprocess, rfl⟩
  · have hnothing : s.reclaiming action = [] := by
      cases hworld with
      | still action hrun hcrash =>
          cases action with
          | run index choice => exact absurd rfl (hrun index choice)
          | _ => rfl
      | _ => rfl
    rw [hworld.dialing, hnothing] at h
    exact absurd h (by simp [claimedKeys])
  · cases stmt with
    | commit =>
        obtain ⟨t, rfl, rfl, rfl⟩ := exec_commit hexec
        refine ⟨task, t, (hs.run hprocess hexec).2.2, rfl, ?_, ?_⟩
        · rw [Sys.dialing, hprocess]
          exact claimedKeys_map _
        · rw [Sys.reclaiming, hprocess]
    | _ =>
        rw [Sys.dialing, Sys.reclaiming, hprocess] at h
        exact absurd h (by simp [claimedKeys])
  · exact absurd h (by simp [Sys.dialing, Sys.reclaiming, claimedKeys])

theorem Reachable.claims (hs : Reachable deps s) (hstep : s.step deps action = some s') {key : IdempotencyKey}
    (hkey : key ∈ claimedKeys (s.dialing action)) :
    ∃ before after, s.shared.db.call? key.callId = some before ∧ s'.shared.db.call? key.callId = some after ∧
      before.attemptEpoch < after.attemptEpoch ∧ after.key = key := by
  obtain ⟨task, t, hguar, hcommit, hclaimed, -⟩ := hs.commits hstep (Or.inl (List.ne_nil_of_mem hkey))
  rw [hclaimed] at hkey
  rcases hguar.claims rfl hcommit hs.consistent with ⟨before, after, hclaims⟩ | ⟨hnone, -⟩
  · rw [hclaims.versions, List.map_singleton, List.mem_singleton] at hkey
    rw [hkey, hcommit]
    exact ⟨before, after, hclaims.row, hclaims.commit, hclaims.epoch ▸ Nat.lt_succ_self _, rfl⟩
  · rw [hnone] at hkey
    cases hkey

theorem Reachable.reclaims (hs : Reachable deps s) (hstep : s.step deps action = some s') {after : CallRow}
    (hafter : after ∈ s.reclaiming action) :
    ∃ before, s.shared.db.call? after.id = some before ∧ s'.shared.db.call? after.id = some after ∧
      before.attemptEpoch < after.attemptEpoch := by
  obtain ⟨task, t, hguar, hcommit, -, hreclaimed⟩ := hs.commits hstep (Or.inr (List.ne_nil_of_mem hafter))
  rw [hreclaimed] at hafter
  obtain ⟨before, hbefore, hrow, hepoch⟩ := hguar.reclaims rfl hcommit hs.consistent hafter
  exact ⟨before, hbefore, hrow, hepoch ▸ Nat.lt_succ_self _⟩

/-- Every dial attempt has its own key. -/
theorem keys_once (h : Observed deps Sys.dialing s seen) : KeysOnce deps s seen := by
  obtain ⟨modes, -, -, hdialers⟩ := h.dialWatched
  have hs := h.reachable
  have hclaimed : ∀ key, s.shared.db.keyAuditCount .claimed key = if key ∈ claimedKeys seen then 1 else 0 :=
    fun key => by rw [hdialers.claimedRows, hdialers.claimedOnce.count]
  exact {
    monotone := fun action s' hstep id before hbefore => by
      obtain ⟨after, hafter, hevolves⟩ := (hs.grows hstep).call id before hbefore
      exact ⟨after, hafter, hevolves.attemptEpoch⟩
    claims := fun _ _ hstep _ hkey => hs.claims hstep hkey
    reclaims := fun _ _ hstep _ hafter => hs.reclaims hstep hafter
    claimedOnce := hdialers.claimedOnce
    placedOnce := hdialers.placedOnce
    claimedRows := hclaimed
    dispatchRows := fun key => by
      refine le_trans ?_ ((hclaimed key).symm ▸ hdialers.settledRows key)
      exact List.countP_mono_left fun row _ hdispatch => AuditEvent.records_dispatch hdispatch }

end

/-- The one call is claimed, dialed and dispatched, reclaimed, and claimed again. -/
theorem keys_once_one_call : ∃ s seen, Observed noonDeps Sys.dialing s seen ∧
    (claimedKeys seen).length = 2 ∧ (placedKeys seen).length = 2 ∧ KeysOnce noonDeps s seen := by
  have hrun : ((Sys.runSeeing noonDeps Sys.dialing {} [] (dialOne ++ [.elapse (1000 * 1000000), .sweep] ++
      runs 1 5 ++ [.tick] ++ runs 2 18)).any fun r =>
        decide ((claimedKeys r.2).length = 2) && decide ((placedKeys r.2).length = 2)) = true := by
    decide +kernel
  obtain ⟨⟨s, seen⟩, hend, hp⟩ := (Option.any_eq_true _ _).mp hrun
  rw [Bool.and_eq_true, decide_eq_true_eq, decide_eq_true_eq] at hp
  have hseen := (Observed.init 0).of_run hend
  exact ⟨s, seen, hseen, hp.1, hp.2, keys_once hseen⟩

end VoiceCampaign

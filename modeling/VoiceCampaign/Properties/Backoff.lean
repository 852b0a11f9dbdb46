import Mathlib.Order.Interval.Finset.Nat
import Mathlib.Tactic.Linarith
import Mathlib.Tactic.Ring
import VoiceCampaign.Model.Runs
import VoiceCampaign.Protocol.Commits

/-!
# Backoff

The delay of a retry doubles with the attempt's epoch. It follows the number of retryable outcomes exactly
where no earlier epoch of the call went without one.
-/

namespace VoiceCampaign

open Concurrency

/-! ### The delay of an attempt -/

/-- Rounding stays on its side of a whole number. -/
theorem le_roundHalfEven {q : ℚ} {n : Int} (h : (n : ℚ) ≤ q) : n ≤ roundHalfEven q := by
  have hfloor : n ≤ ⌊q⌋ := Int.le_floor.mpr h
  simp only [roundHalfEven]
  split
  · exact hfloor
  split
  · exact hfloor.trans (Int.le_add_one le_rfl)
  split
  · exact hfloor
  · exact hfloor.trans (Int.le_add_one le_rfl)

theorem roundHalfEven_le {q : ℚ} {n : Int} (h : q ≤ n) : roundHalfEven q ≤ n := by
  have hfloor : ⌊q⌋ ≤ n := Int.cast_le.mp ((Int.floor_le q).trans h)
  have hround : q - ⌊q⌋ ≠ 0 → ⌊q⌋ + 1 ≤ n := by
    intro hrest
    have hlt : (⌊q⌋ : ℚ) < n := (lt_of_le_of_ne (Int.floor_le q) (Ne.symm (sub_ne_zero.mp hrest))).trans_le h
    exact Int.add_one_le_of_lt (Int.cast_lt.mp hlt)
  simp only [roundHalfEven]
  split
  · exact hfloor
  next hhalf =>
  have hrest : q - ⌊q⌋ ≠ 0 := fun he => hhalf (he ▸ by norm_num)
  split
  · exact hround hrest
  split
  · exact hfloor
  · exact hround hrest

/-- A delay of `base` seconds doubled for each outcome after the first, give or take the jitter. -/
structure FollowsCount (base count : Nat) (delay : Int) : Prop where
  least : 4 / 5 * (base : ℚ) * 2 ^ (count - 1) * second ≤ delay
  most : (delay : ℚ) ≤ 6 / 5 * base * 2 ^ (count - 1) * second

/-- `1.2 * 3600 * 2 ** 9` seconds. -/
def maxBackoff : Int := 2211840 * second

variable {base attemptEpoch count : Nat} {u : Jitter} {delay : Int}

theorem backoffDelta_follows (hpos : 0 < attemptEpoch) (h : backoffDelta attemptEpoch base u = .ok delay) :
    FollowsCount base attemptEpoch delay := by
  obtain ⟨hleast, hmost⟩ := u.2
  have hscale : (0 : ℚ) ≤ base * 2 ^ (attemptEpoch - 1) * second := by
    have hsecond : (0 : ℚ) ≤ (second : ℚ) := by norm_num [second]
    positivity
  have hdelay : delay = roundHalfEven (base * 2 ^ (attemptEpoch - 1) * (1 + u.1) * second) := by
    rw [backoffDelta, if_neg (Nat.not_lt.mpr hpos)] at h
    split at h
    · exact (Except.ok.inj h).symm
    · cases h
  have hlow : ((800000 * base * 2 ^ (attemptEpoch - 1) : Int) : ℚ) =
      4 / 5 * (base : ℚ) * 2 ^ (attemptEpoch - 1) * second := by
    push_cast [second]
    ring
  have hhigh : ((1200000 * base * 2 ^ (attemptEpoch - 1) : Int) : ℚ) =
      6 / 5 * (base : ℚ) * 2 ^ (attemptEpoch - 1) * second := by
    push_cast [second]
    ring
  constructor
  · rw [← hlow, hdelay]
    refine Int.cast_le.mpr (le_roundHalfEven ?_)
    rw [hlow]
    nlinarith
  · rw [← hhigh, hdelay]
    refine Int.cast_le.mpr (roundHalfEven_le ?_)
    rw [hhigh]
    nlinarith

/-- The delays of two counts do not overlap: twice the least is more than the most. -/
theorem FollowsCount.unique (hbase : 1 ≤ base) (hepoch : 0 < attemptEpoch) (hcount : 0 < count)
    (h : FollowsCount base attemptEpoch delay) (h' : FollowsCount base count delay) :
    attemptEpoch = count := by
  have hapart : ∀ {m n : Nat}, 0 < m → m < n → FollowsCount base m delay → FollowsCount base n delay → False := by
    intro m n hm hmn hless hmore
    have hscale : (0 : ℚ) < base * 2 ^ (m - 1) * second := by
      have hsecond : (0 : ℚ) < (second : ℚ) := by norm_num [second]
      have hone : (0 : ℚ) < (base : ℚ) := by exact_mod_cast hbase
      positivity
    have hdouble : (2 : ℚ) * 2 ^ (m - 1) ≤ 2 ^ (n - 1) := by
      rw [← pow_succ']
      exact pow_le_pow_right₀ (by norm_num) (by omega)
    have hbound := hmore.least.trans hless.most
    have hsecond : (0 : ℚ) ≤ (4 / 5 * (base : ℚ)) * second := by
      have hnonneg : (0 : ℚ) ≤ (second : ℚ) := by norm_num [second]
      positivity
    nlinarith [mul_le_mul_of_nonneg_left hdouble hsecond]
  rcases Nat.lt_trichotomy attemptEpoch count with hlt | he | hgt
  · exact (hapart hepoch hlt h h').elim
  · exact he
  · exact (hapart hcount hgt h' h).elim

theorem FollowsCount.le_maxBackoff (h : FollowsCount base count delay) (hbase : base ≤ 3600)
    (hcount : count ≤ 10) : delay ≤ maxBackoff := by
  have hpow : (2 : ℚ) ^ (count - 1) ≤ 2 ^ 9 := pow_le_pow_right₀ (by norm_num) (by omega)
  have hscale : (base : ℚ) * 2 ^ (count - 1) ≤ 3600 * 2 ^ 9 := by
    have hcast : (base : ℚ) ≤ 3600 := by exact_mod_cast hbase
    exact mul_le_mul hcast hpow (by positivity) (by norm_num)
  have hmost := h.most
  have hle : (delay : ℚ) ≤ (maxBackoff : Int) := by
    push_cast [maxBackoff, second] at hmost ⊢
    linarith
  exact Int.cast_le.mp hle

/-- Up to the tenth attempt nothing overflows. -/
theorem backoffDelta_ok (hpos : 0 < attemptEpoch) (hten : attemptEpoch ≤ 10) (hbase : base ≤ 3600) (u : Jitter) :
    ∃ delay, backoffDelta attemptEpoch base u = .ok delay := by
  have hpow : (2 : ℚ) ^ (attemptEpoch - 1) ≤ 2 ^ 9 := pow_le_pow_right₀ (by norm_num) (by omega)
  have hscale : (base : ℚ) * 2 ^ (attemptEpoch - 1) ≤ 3600 * 2 ^ 9 := by
    have hcast : (base : ℚ) ≤ 3600 := by exact_mod_cast hbase
    exact mul_le_mul hcast hpow (by positivity) (by norm_num)
  have hjitter : (base : ℚ) * 2 ^ (attemptEpoch - 1) * (1 + u.1) ≤ 3600 * 2 ^ 9 * (6 / 5) :=
    mul_le_mul hscale (by linarith [u.2.2]) (by linarith [u.2.1]) (by norm_num)
  have hle : roundHalfEven (base * 2 ^ (attemptEpoch - 1) * (1 + u.1) * second) ≤ timedeltaMax := by
    refine roundHalfEven_le ?_
    push_cast [timedeltaMax, second]
    linarith
  rw [backoffDelta, if_neg (Nat.not_lt.mpr hpos)]
  exact ⟨_, if_pos hle⟩

theorem addTimedelta_eq {now next : Time} (h : addTimedelta now delay = .ok next) :
    next = now + delay ∧ now + delay ≤ datetimeMax := by
  rw [addTimedelta] at h
  split at h
  · next hle => exact ⟨(Except.ok.inj h).symm, hle⟩
  · cases h

/-! ### The outcomes of a call -/

/-- Every earlier attempt of the call had a retryable outcome. -/
def NoneSkipped (db : Db) (call : CallRow) : Prop :=
  ∀ attemptEpoch < call.attemptEpoch, 0 < attemptEpoch → attemptEpoch ∈ db.outcomeEpochs call.id

instance (db : Db) (call : CallRow) : Decidable (NoneSkipped db call) :=
  inferInstanceAs (Decidable (∀ attemptEpoch < call.attemptEpoch, _))

/-- There are as many outcomes as attempts where none is skipped. -/
theorem card_eq_iff_noneSkipped {epochs : Finset Nat} (hreached : ∀ epoch ∈ epochs, 0 < epoch ∧ epoch ≤ attemptEpoch)
    (hlast : attemptEpoch ∈ epochs) :
    epochs.card = attemptEpoch ↔ ∀ epoch < attemptEpoch, 0 < epoch → epoch ∈ epochs := by
  have hsubset : epochs ⊆ Finset.Icc 1 attemptEpoch := fun epoch hmem => Finset.mem_Icc.mpr (hreached epoch hmem)
  have hcard : (Finset.Icc 1 attemptEpoch).card = attemptEpoch := by rw [Nat.card_Icc, Nat.add_sub_cancel]
  constructor
  · intro hsame epoch hlt hpos
    rw [Finset.eq_of_subset_of_card_le hsubset (by rw [hcard, hsame])]
    exact Finset.mem_Icc.mpr ⟨hpos, hlt.le⟩
  · intro hall
    have he : epochs = Finset.Icc 1 attemptEpoch := by
      refine Finset.Subset.antisymm hsubset fun epoch hmem => ?_
      obtain ⟨hpos, hle⟩ := Finset.mem_Icc.mp hmem
      rcases Nat.lt_or_eq_of_le hle with hlt | rfl
      · exact hall epoch hlt hpos
      · exact hlast
    rw [he, hcard]

/-- The calls that an action puts off for a retryable outcome, as they are and as it leaves them. -/
def Sys.scheduled (s : Sys) (action : Action) : List (CallRow × CallRow) :=
  match action with
  | .run index _ =>
      match s.procs[index]? with
      | some ⟨_, .call .commit _, some t⟩ => (s.rewrites action).filter fun calls =>
          t.audit.any fun row => row.event.callId = some calls.1.id && row.event.schedulesRetry
      | _ => []
  | _ => []

/-- The retry that an action schedules: `datetime.now` and the backoff of the attempt, which follows the
number of outcomes, is at most the longest there is, and is a date. -/
structure Scheduled (s s' : Sys) (before after : CallRow) (campaign : CampaignRow) (clock : Time) (delay : Int) :
    Prop where
  read : clock ≤ s.shared.now
  backoff : ∃ jitter, backoffDelta before.attemptEpoch campaign.retryConfig.backoffBaseSeconds jitter = .ok delay
  next : after.nextAttemptAt = some (clock + delay)
  follows : (FollowsCount campaign.retryConfig.backoffBaseSeconds (s'.shared.db.outcomeEpochs before.id).card delay ∧
      delay ≤ maxBackoff ∧ clock + delay ≤ datetimeMax) ↔ NoneSkipped s.shared.db before

/-- What the retries of a state are put off by. -/
structure BackoffFollows (deps : Deps) (s : Sys) : Prop where
  scheduled : ∀ action s', s.step deps action = some s' → ∀ before after, (before, after) ∈ s.scheduled action →
    ∃ campaign ∈ s.shared.db.campaigns, campaign.id = before.campaignId ∧
      ∃ clock delay, Scheduled s s' before after campaign clock delay
  /-- The next retry of a call can be scheduled, more than the longest backoff before the end of time. -/
  representable : ∀ call ∈ s.shared.db.calls, NoneSkipped s.shared.db call → 0 < call.attemptEpoch →
    0 < call.retriesRemaining → ∀ campaign ∈ s.shared.db.campaigns, campaign.id = call.campaignId →
      ∀ jitter clock, clock + maxBackoff ≤ datetimeMax → ∃ delay,
        backoffDelta call.attemptEpoch campaign.retryConfig.backoffBaseSeconds jitter = .ok delay ∧
          delay ≤ maxBackoff ∧ addTimedelta clock delay = .ok (clock + delay)

section

variable {deps : Deps} {s s' : Sys} {action : Action} {call : CallRow} {campaign : CampaignRow}

/-- What a scheduled call has been moved by. -/
theorem Reachable.scheduled_moves (hs : Reachable deps s) (hstep : s.step deps action = some s')
    {before after : CallRow} (hmem : (before, after) ∈ s.scheduled action) :
    ∃ task t inbox event folds, s'.shared = s.shared.commit t ∧
      Moves s.shared (some task) t inbox before after event ∧ Folds s.shared t after folds ∧
      t.audit.map AuditRow.event = event :: folds ∧ event.schedulesRetry = true := by
  cases action with
  | run index choice =>
      rw [Sys.scheduled] at hmem
      split at hmem
      case h_2 => cases hmem
      next task next t hprocess =>
      obtain ⟨hrewrites, hany⟩ := List.mem_filter.mp hmem
      obtain ⟨note, hnote, hrecords⟩ := List.any_eq_true.mp hany
      rw [Bool.and_eq_true, decide_eq_true_eq] at hrecords
      rw [Sys.rewrites, hprocess] at hrewrites
      obtain ⟨version, hversion, hrow⟩ := List.mem_filterMap.mp hrewrites
      obtain ⟨old, hold, he⟩ := Option.map_eq_some_iff.mp hrow
      obtain ⟨rfl, rfl⟩ := Prod.mk.inj he
      obtain ⟨hshared, hready⟩ := hs.commit_ready hprocess hstep (List.ne_nil_of_mem hnote)
      cases hready with
      | quiet inbox hcalls hcampaigns hmarks hnotes =>
          rw [hcalls] at hversion
          cases hversion
      | moves inbox row moved event folds hmoves hfolds hmarks haudit =>
          rw [hmoves.calls, List.mem_singleton] at hversion
          subst hversion
          rw [hmoves.row] at hold
          obtain rfl := Option.some.inj hold
          refine ⟨task, t, inbox, event, folds, hshared, hmoves, hfolds, haudit, ?_⟩
          have hevent : note.event ∈ event :: folds := haudit ▸ List.mem_map_of_mem hnote
          rcases List.mem_cons.mp hevent with rfl | hfold
          · exact hrecords.2
          · rw [(hfolds.events _ hfold).2] at hrecords
            cases hrecords.1
  | _ => cases hmem

theorem Reachable.scheduled (hs : Reachable deps s) (hstep : s.step deps action = some s')
    {before after : CallRow} (hmem : (before, after) ∈ s.scheduled action) :
    ∃ campaign ∈ s.shared.db.campaigns, campaign.id = before.campaignId ∧
      ∃ clock delay, Scheduled s s' before after campaign clock delay := by
  obtain ⟨task, t, inbox, event, folds, hshared, hmoves, hfolds, haudit, hevent⟩ :=
    hs.scheduled_moves hstep hmem
  have hinv := hs.consistent
  rcases hmoves.cause.schedules with ⟨hnot, -⟩ | ⟨-, snap, nextAttempt, hwhy⟩
  · rw [hevent] at hnot
    cases hnot
  obtain ⟨campaign, u, now, delta, hcampaign, hread, hdelta, hnext⟩ := hwhy.putOff
  obtain ⟨hcampaignMem, hcampaignId⟩ := hinv.campaign?_iff.mp hcampaign
  have howner : campaign.id = before.campaignId := by
    obtain ⟨s₀, hinv₀, hgrows, hsnap⟩ := hwhy.seen
    obtain ⟨row, hrow, hevolves⟩ := hgrows.call _ snap (hinv₀.call?_of_mem hsnap)
    rw [← hwhy.id, hinv.call?_of_mem hmoves.before_mem] at hrow
    rw [hcampaignId, Option.some.inj hrow, hevolves.campaignId]
  obtain ⟨rfl, hdate⟩ := addTimedelta_eq hnext
  rw [← hwhy.attemptEpoch] at hdelta
  have hstarted : 0 < before.attemptEpoch := hwhy.stays ▸ hmoves.cause.started (hinv.sound before hmoves.before_mem)
  have hfollows := backoffDelta_follows hstarted hdelta
  -- the outcomes of the call after the commit
  have hpaced := hmoves.paced hfolds haudit hinv hcampaignMem howner
  have hepochs : ∀ epoch, epoch ∈ s'.shared.db.outcomeEpochs before.id ↔
      epoch ∈ s.shared.db.outcomeEpochs before.id ∨ epoch = before.attemptEpoch := by
    intro epoch
    rw [hshared, hmoves.mem_outcomeEpochs hfolds haudit, hwhy.stays, hevent]
    simp
  have hreached : ∀ epoch ∈ s'.shared.db.outcomeEpochs before.id, 0 < epoch ∧ epoch ≤ before.attemptEpoch := by
    intro epoch hmem
    rw [hshared, hmoves.before_id] at hmem
    exact hwhy.stays ▸ hpaced.reached epoch hmem
  have hlast : before.attemptEpoch ∈ s'.shared.db.outcomeEpochs before.id := (hepochs _).mpr (Or.inr rfl)
  have hten : (s'.shared.db.outcomeEpochs before.id).card ≤ 10 := by
    have hspent := hpaced.spent
    have hmax := campaign.retryConfig.maxAttempts_le
    rw [hshared, hmoves.before_id]
    omega
  have hskipped : (∀ epoch < before.attemptEpoch, 0 < epoch → epoch ∈ s'.shared.db.outcomeEpochs before.id) ↔
      NoneSkipped s.shared.db before := by
    refine forall_congr' fun epoch => forall_congr' fun hlt => forall_congr' fun hpos => ?_
    rw [hepochs, or_iff_left hlt.ne]
  refine ⟨campaign, hcampaignMem, howner, now, delta, hread, ⟨u, hdelta⟩, hwhy.next, ?_⟩
  rw [← hskipped, ← card_eq_iff_noneSkipped hreached hlast]
  constructor
  · rintro ⟨hcount, -⟩
    exact (hfollows.unique campaign.retryConfig.one_le_base hstarted (Finset.card_pos.mpr ⟨_, hlast⟩) hcount).symm
  · intro hcard
    rw [hcard]
    exact ⟨hfollows, hfollows.le_maxBackoff campaign.retryConfig.base_le (hcard ▸ hten), hdate⟩

/-- A call that has budget left and skipped no attempt is at its tenth at most. -/
theorem Consistent.noneSkipped_le {s : Shared} (hinv : Consistent s) (hcall : call ∈ s.db.calls)
    (hskipped : NoneSkipped s.db call) (hbudget : 0 < call.retriesRemaining)
    (hcampaign : campaign ∈ s.db.campaigns) (howner : campaign.id = call.campaignId) : call.attemptEpoch ≤ 10 := by
  have hspent := (hinv.paced call hcall campaign hcampaign howner).spent
  have hmax := campaign.retryConfig.maxAttempts_le
  have hsubset : Finset.Ico 1 call.attemptEpoch ⊆ s.db.outcomeEpochs call.id := by
    intro epoch hmem
    obtain ⟨hpos, hlt⟩ := Finset.mem_Ico.mp hmem
    exact hskipped epoch hlt hpos
  have hcard := Finset.card_le_card hsubset
  rw [Nat.card_Ico] at hcard
  omega

/-- The backoff follows the retry count where no attempt was skipped. -/
theorem backoff_follows_iff (h : Reachable deps s) : BackoffFollows deps s where
  scheduled _ _ hstep _ _ hmem := h.scheduled hstep hmem
  representable call hcall hskipped hstarted hbudget campaign hcampaign howner jitter clock hclock := by
    have hten := h.consistent.noneSkipped_le hcall hskipped hbudget hcampaign howner
    have hbase := campaign.retryConfig.base_le
    obtain ⟨delay, hdelay⟩ := backoffDelta_ok hstarted hten hbase jitter
    have hmost := (backoffDelta_follows hstarted hdelay).le_maxBackoff hbase hten
    exact ⟨delay, hdelay, hmost, if_pos ((Int.add_le_add_left hmost clock).trans hclock)⟩

end

/-- The one call is dialed, nobody answers, and its retry is about to be committed. -/
theorem backoff_follows_one_call : ∃ s, Reachable noonDeps s ∧ (∃ s', s.step noonDeps (.run 1 {}) = some s') ∧
    (∃ calls ∈ s.scheduled (.run 1 {}), NoneSkipped s.shared.db calls.1) ∧ BackoffFollows noonDeps s := by
  obtain ⟨s, hs, hp⟩ := Reachable.of_any noonDeps (dialOne ++ deliver 0 "e" .noAnswer 1 9)
    (fun s => (s.step noonDeps (.run 1 {})).isSome && (s.scheduled (.run 1 {})).any fun calls =>
      decide (NoneSkipped s.shared.db calls.1)) (by decide +kernel)
  simp only [Bool.and_eq_true, Option.isSome_iff_exists, List.any_eq_true, decide_eq_true_eq] at hp
  exact ⟨s, hs, hp.1, hp.2, backoff_follows_iff hs⟩

/-- The one call is dialed and reclaimed, and its next dial finds the provider unavailable: the first
outcome of the call is about to be committed for its third epoch. -/
def redialUnavailable : List Action :=
  dialOne ++ [.elapse 631000000, .sweep] ++ List.replicate 5 (.run 1 {}) ++ [.tick] ++
    List.replicate 19 (.run 2 {})

/-- The first retry sleeps four times the base. -/
theorem backoff_follows_reclaimed : ∃ s, Reachable noonDeps s ∧ ∃ s', s.step noonDeps (.run 2 {}) = some s' ∧
    ∃ calls ∈ s.scheduled (.run 2 {}), ∃ campaign ∈ s.shared.db.campaigns, campaign.id = calls.1.campaignId ∧
      campaign.retryConfig.backoffBaseSeconds = 30 ∧ (s'.shared.db.outcomeEpochs calls.1.id).card = 1 ∧
      calls.2.nextAttemptAt = some (s.shared.now + 120 * second) ∧
      ∀ clock ≤ s.shared.now, ∀ delay, calls.2.nextAttemptAt = some (clock + delay) → ¬ FollowsCount 30 1 delay := by
  obtain ⟨s, hs, hp⟩ := Reachable.of_any noonDeps redialUnavailable
    (fun s => (s.step noonDeps (.run 2 {})).any fun s' => (s.scheduled (.run 2 {})).any fun calls =>
      s.shared.db.campaigns.any fun campaign => campaign.id = calls.1.campaignId &&
        campaign.retryConfig.backoffBaseSeconds = 30 && (s'.shared.db.outcomeEpochs calls.1.id).card = 1 &&
        calls.2.nextAttemptAt = some (s.shared.now + 120 * second)) (by decide +kernel)
  simp only [Option.any_eq_true, List.any_eq_true, Bool.and_eq_true, decide_eq_true_eq] at hp
  obtain ⟨s', hstep, calls, hcalls, campaign, hcampaign, ⟨⟨howner, hbase⟩, hcard⟩, hnext⟩ := hp
  refine ⟨s, hs, s', hstep, calls, hcalls, campaign, hcampaign, howner, hbase, hcard, hnext, ?_⟩
  intro clock hclock delay hdelay hfollows
  rw [hnext] at hdelay
  have hlong : 120 * second ≤ delay := by
    have he := Option.some.inj hdelay
    linarith
  have hmost := hfollows.most
  have hcast : ((120 * second : Int) : ℚ) ≤ delay := Int.cast_le.mpr hlong
  push_cast [second] at hmost hcast
  linarith

end VoiceCampaign

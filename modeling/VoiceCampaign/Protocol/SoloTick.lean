import VoiceCampaign.Protocol.Gates
import VoiceCampaign.Protocol.Solo

/-!
# A tick by itself

With no other transaction open and no time passing, what a tick does to the calls is read off the tables:
the gates and the round-robin pick, the oldest due retry, the oldest call that can be claimed. Rows that tie
may come back in any order.
-/

namespace VoiceCampaign

open Concurrency Program

/-! ### The calls before and after -/

/-- The calls from `calls` to `calls'`: the attempt of `begun` has begun, and no other. -/
def Begins (calls calls' : List CallRow) (begun : Option CallId) : Prop :=
  ∀ row ∈ calls, ∃ after, lookup CallRow.id calls' row.id = some after ∧
    after.attemptEpoch = row.attemptEpoch + if begun = some row.id then 1 else 0

/-- The attempt of some call has begun. -/
def BeginsOne (calls calls' : List CallRow) : Prop := ∃ call ∈ calls, Begins calls calls' (some call.id)

/-- A phone is in flight once at most: `calls_phone_in_flight_uk`. -/
def Apart (calls : List CallRow) : Prop := ∀ a ∈ calls, ∀ b ∈ calls, a.status.holdsPhone = true →
  b.status.holdsPhone = true → a.phone = b.phone → a.id = b.id

/-- No other call of that phone is in flight. -/
def PhoneFree (calls : List CallRow) (call : CallRow) : Prop :=
  ∀ row ∈ calls, row.id ≠ call.id → row.status.holdsPhone = true → row.phone ≠ call.phone

section

variable {calls calls' calls'' : List CallRow} {old new : CallRow} {begun : Option CallId}

theorem Begins.refl (hids : (calls.map CallRow.id).Nodup) : Begins calls calls none :=
  fun row hrow => ⟨row, lookup_of_mem hids hrow, rfl⟩

/-- A row that gets a new version. -/
theorem Begins.put (hids : (calls.map CallRow.id).Nodup) (hold : old ∈ calls) (hid : new.id = old.id)
    (hepoch : new.attemptEpoch = old.attemptEpoch + if begun = some old.id then 1 else 0)
    (hothers : ∀ row ∈ calls, row.id ≠ old.id → begun ≠ some row.id) :
    Begins calls (overlay CallRow.id [new] calls) begun := by
  intro row hrow
  have hlookup : lookup CallRow.id calls (CallRow.id new) = some old := by
    rw [hid]
    exact lookup_of_mem hids hold
  rw [lookup_overlay_singleton hlookup]
  split
  · next he =>
      obtain rfl : row = old := eq_of_key_eq hids hrow hold (he.trans hid)
      exact ⟨new, rfl, hepoch⟩
  · next hne =>
      refine ⟨row, lookup_of_mem hids hrow, ?_⟩
      rw [if_neg (hothers row hrow fun he => hne (he.trans hid.symm)), Nat.add_zero]

theorem Begins.after (h : Begins calls calls' none) (h' : Begins calls' calls'' begun) :
    Begins calls calls'' begun := by
  intro row hrow
  obtain ⟨mid, hmid, hepoch⟩ := h row hrow
  obtain ⟨hmem, hid⟩ := lookup_some hmid
  obtain ⟨after, hafter, hepoch'⟩ := h' mid hmem
  refine ⟨after, hid ▸ hafter, ?_⟩
  rw [hepoch', hepoch, if_neg nofun, Nat.add_zero, show mid.id = row.id from hid]

theorem Begins.before (h : Begins calls calls' begun) (h' : Begins calls' calls'' none) :
    Begins calls calls'' begun := by
  intro row hrow
  obtain ⟨mid, hmid, hepoch⟩ := h row hrow
  obtain ⟨hmem, hid⟩ := lookup_some hmid
  obtain ⟨after, hafter, hepoch'⟩ := h' mid hmem
  refine ⟨after, hid ▸ hafter, ?_⟩
  rw [hepoch', if_neg nofun, Nat.add_zero, hepoch]

/-- A new version enters the index where its phone is free. -/
theorem Apart.put (h : Apart calls) (hfree : new.status.holdsPhone = true → PhoneFree calls new) : Apart (overlay CallRow.id [new] calls) := by
  intro a ha b hb hholdsA hholdsB hphone
  rcases mem_overlay_singleton.mp ha with ⟨holdA, hneA⟩ | ⟨hnewA, -⟩
  · rcases mem_overlay_singleton.mp hb with ⟨holdB, hneB⟩ | ⟨hnewB, -⟩
    · exact h a holdA b holdB hholdsA hholdsB hphone
    · rw [hnewB] at hholdsB hphone
      exact absurd hphone (hfree hholdsB a holdA hneA hholdsA)
  · rcases mem_overlay_singleton.mp hb with ⟨holdB, hneB⟩ | ⟨hnewB, -⟩
    · rw [hnewA] at hholdsA hphone
      exact absurd hphone.symm (hfree hholdsA b holdB hneB hholdsB)
    · rw [hnewA, hnewB]

theorem phoneTaken_eq_false {db : Db} : phoneTaken db new = false ↔ PhoneFree db.calls new := by
  simp only [phoneTaken, List.any_eq_false, Bool.and_eq_true, decide_eq_true_eq, not_and, and_imp]
  exact forall_congr' fun row => forall_congr' fun _ => ⟨fun h hne hholds hphone => h hne hphone hholds,
    fun h hne hphone hholds => h hne hholds hphone⟩

end

/-! ### The oldest due retry -/

/-- What requeueing the oldest due retry of a campaign makes of the calls. -/
inductive Requeues (allowed : Choice → Prop) (calls : List CallRow) (now : Time) (campaignId : CampaignId) :
    List CallRow → Prop
  | none (hnone : ∀ call ∈ calls, call.requeueable campaignId now = false) :
      Requeues allowed calls now campaignId calls
  | moved (choice : Choice) (call : CallRow) (hallowed : allowed choice)
      (hfirst : oldest CallRow.createdAt choice.pick (calls.filter (CallRow.requeueable campaignId now)) = some call)
      (hfree : PhoneFree calls call) :
      Requeues allowed calls now campaignId (overlay CallRow.id [(retryDueTransition call).set now call] calls)

/-- The phone of the oldest due retry is in flight. -/
def RequeueRaises (allowed : Choice → Prop) (calls : List CallRow) (now : Time) (campaignId : CampaignId) : Prop :=
  ∃ choice call, allowed choice ∧
    oldest CallRow.createdAt choice.pick (calls.filter (CallRow.requeueable campaignId now)) = some call ∧
    ¬ PhoneFree calls call

/-- No transaction is open, and no time has passed. -/
structure Rests (s : Shared) (state : Shared × Option Txn) : Prop where
  closed : state.2 = none
  now : state.1.now = s.now

section

variable {allowed : Choice → Prop} {s : Shared} {campaignId : CampaignId} {campaign : CampaignRow}

/-- No row is locked by somebody else. -/
theorem filter_unheld (p : CallRow → Bool) (calls : List CallRow) :
    (calls.filter fun call => p call && !held [] (.call call.id)) = calls.filter p :=
  List.filter_congr fun _ _ => Bool.and_true _

theorem requeueOldestRetryDue_leads (hids : (s.db.calls.map CallRow.id).Nodup) :
    Leads allowed (fun _ state => Rests s state ∧ Requeues allowed s.db.calls s.now campaignId state.1.db.calls)
      (fun _ state => Rests s state ∧ state.1.db = s.db ∧ RequeueRaises allowed s.db.calls s.now campaignId)
      (requeueOldestRetryDue campaignId) (s, none) := by
  refine Leads.transaction (fun _ t => Requeues allowed s.db.calls s.now campaignId (overlay CallRow.id t.calls s.db.calls))
    (fun _ => RequeueRaises allowed s.db.calls s.now campaignId) ?_ ?_ ?_
  · refine Leads.inside rfl fun choice reply s₁ txn₁ hallowed hstill hexec => ?_
    simp only [exec, Option.map_some, Db.apply_locks, filter_unheld] at hexec
    split at hexec
    · next hnone =>
        cases hexec
        refine ⟨_, rfl, .refl _, ?_⟩
        rw [overlay_nil]
        exact .none fun call hcall => Bool.not_eq_true _ ▸
          List.filter_eq_nil_iff.mp (oldest_eq_none.mp hnone) call hcall
    · next call hfirst =>
        cases hexec
        obtain ⟨hcall, hdue⟩ := List.mem_filter.mp (oldest_some hfirst).1
        have hstatus : call.status = .retryPending := by
          rw [CallRow.requeueable, Bool.and_eq_true, Bool.and_eq_true, decide_eq_true_eq, decide_eq_true_eq] at hdue
          exact hdue.1.2
        have hhits : (retryDueTransition call).hits call = true := CallUpdate.hits_iff.mpr ⟨rfl, hstatus, rfl⟩
        refine Wp.andThen (transition_leads ⟨rfl, rfl, rfl⟩ (retryDueTransition call)) ?_ ?_
        · rintro error ⟨s₂, txn₂⟩ ⟨hstill, hraises⟩
          obtain ⟨row, hrow, hhits', htaken⟩ := hraises.taken
          have hid : row.id = call.id := (CallUpdate.hits_iff.mp hhits').1
          obtain rfl := eq_of_key_eq hids hrow hcall hid
          refine ⟨hstill, choice, row, hallowed, hfirst, fun hfree => ?_⟩
          have hfalse : phoneTaken s.db ((retryDueTransition row).set s.now row) = false :=
            phoneTaken_eq_false.mpr hfree
          rw [htaken] at hfalse
          cases hfalse
        · rintro result ⟨s₂, txn₂⟩ ⟨t', rfl, hstill, hdone⟩
          refine ⟨t', rfl, hstill, ?_⟩
          cases hdone with
          | regressed hregresses => cases hregresses
          | missed _ hnone =>
              rw [hnone call hcall] at hhits
              cases hhits
          | applied row _ _ hrow hhits' hfree _ hcalls _ _ _ =>
              have hid : row.id = call.id := (CallUpdate.hits_iff.mp hhits').1
              obtain rfl := eq_of_key_eq hids hrow hcall hid
              rw [hcalls]
              exact .moved choice row hallowed hfirst (phoneTaken_eq_false.mp (hfree rfl))
  · rintro value s₁ t hstill hmoved
    refine ⟨⟨rfl, hstill.now⟩, ?_⟩
    show Requeues _ _ _ _ (overlay CallRow.id t.calls s₁.db.calls)
    rw [hstill.db]
    exact hmoved
  · exact fun error s₁ hstill hraises => ⟨⟨rfl, hstill.now⟩, hstill.db, hraises⟩

/-! ### The claim -/

/-- What claiming the oldest call of a campaign makes of the calls. -/
inductive Claims (allowed : Choice → Prop) (calls : List CallRow) (now : Time) (campaignId : CampaignId) :
    Option CallRow → List CallRow → Prop
  | none (hnone : ∀ call ∈ calls, call.claimable campaignId now = false) :
      Claims allowed calls now campaignId none calls
  | claimed (choice : Choice) (call : CallRow) (hallowed : allowed choice)
      (hfirst : oldest CallRow.createdAt choice.pick (calls.filter (CallRow.claimable campaignId now)) = some call) :
      Claims allowed calls now campaignId (some (call.claim now)) (overlay CallRow.id [call.claim now] calls)

theorem claimPhase_leads (hapart : Apart s.db.calls) :
    Leads allowed (fun claimed state => Rests s state ∧ Claims allowed s.db.calls s.now campaign.id claimed state.1.db.calls)
      (fun _ _ => False) (claimPhase campaign) (s, none) := by
  refine Leads.transaction (fun claimed t => Claims allowed s.db.calls s.now campaign.id claimed
    (overlay CallRow.id t.calls s.db.calls)) (fun _ => False) ?_ ?_ fun _ _ _ h => h
  · refine Leads.select fun pick₁ => Leads.select fun pick₂ => Leads.select fun pick₃ => ?_
    refine Leads.inside rfl fun choice reply s₁ txn₁ hallowed hstill hexec => ?_
    simp only [exec, Option.bind_some, Db.apply_locks, filter_unheld] at hexec
    split at hexec
    · next hnone =>
        cases hexec
        refine ⟨_, rfl, .refl _, ?_⟩
        rw [overlay_nil]
        exact .none fun call hcall => Bool.not_eq_true _ ▸
          List.filter_eq_nil_iff.mp (oldest_eq_none.mp hnone) call hcall
    · next call hfirst =>
        obtain ⟨hcall, hclaimable⟩ := List.mem_filter.mp (oldest_some hfirst).1
        have hqueued : call.status = .queued := by
          rw [CallRow.claimable, Bool.and_eq_true, Bool.and_eq_true, decide_eq_true_eq, decide_eq_true_eq] at hclaimable
          exact hclaimable.1.2
        have hfree : phoneTaken s.db (call.claim s.now) = false :=
          phoneTaken_eq_false.mpr fun row hrow hne hholds hphone =>
            hne (hapart row hrow call hcall hholds (by rw [hqueued]; rfl) hphone)
        have hcontended : phoneContended [] s.db (call.claim s.now) = false := rfl
        have hheld : held [] (.call (call.claim s.now).id) = false := rfl
        simp only [writeCall, hheld, hcontended, hfree, Db.apply_locks, Bool.and_false, Bool.false_eq_true, if_false,
          Option.map_some] at hexec
        cases hexec
        have hclaims : Claims allowed s.db.calls s.now campaign.id (some (call.claim s.now))
            (overlay CallRow.id [call.claim s.now] s.db.calls) := .claimed choice call hallowed hfirst
        refine Leads.emitAudit fun s₂ t₂ hstill₂ hbeside _ => ?_
        split
        · refine Wp.andThen (maybePromoteToActive_leads _) (fun _ _ h => h.elim) ?_
          rintro ⟨⟩ ⟨s₃, txn₃⟩ ⟨t₃, rfl, hstill₃, hbeside₃⟩
          refine ⟨t₃, rfl, hstill₂.trans hstill₃, ?_⟩
          rw [(hbeside.trans hbeside₃).calls]
          exact hclaims
        · refine ⟨t₂, rfl, hstill₂, ?_⟩
          rw [hbeside.calls]
          exact hclaims
  · rintro claimed s₁ t hstill hclaims
    refine ⟨⟨rfl, hstill.now⟩, ?_⟩
    show Claims _ _ _ _ _ (overlay CallRow.id t.calls s₁.db.calls)
    rw [hstill.db]
    exact hclaims

/-! ### The dial -/

/-- A transition that leaves the epoch alone. -/
theorem transition_begins {args : Transition} {t : Txn} (hids : (s.db.calls.map CallRow.id).Nodup) (hfresh : t.Fresh)
    (hepoch : args.newEpoch = none) :
    Leads allowed (fun _ state => ∃ t', state.2 = some t' ∧ Still s state.1 ∧
        Begins s.db.calls (overlay CallRow.id t'.calls s.db.calls) none)
      (fun _ state => Still s state.1) (transition args) (s, some t) := by
  have hnothing : Begins s.db.calls (overlay CallRow.id t.calls s.db.calls) none := by
    rw [hfresh.calls, overlay_nil]
    exact .refl hids
  refine (transition_leads hfresh args).mono ?_ fun _ _ h => h.1
  rintro result ⟨s₁, txn₁⟩ ⟨t', rfl, hstill, hdone⟩
  refine ⟨t', rfl, hstill, ?_⟩
  cases hdone with
  | regressed _ => exact hnothing
  | missed _ _ => exact hnothing
  | applied row _ _ hrow hhits _ _ hcalls _ _ _ =>
      rw [hcalls]
      refine Begins.put hids hrow rfl ?_ fun _ _ _ => nofun
      show args.newEpoch.getD row.attemptEpoch = _
      rw [hepoch]
      rfl

theorem nextAttempt_still (attemptEpoch : Nat) (base : ℚ) {txn : Option Txn} :
    Leads allowed (fun _ state => state = (s, txn)) (fun _ state => state = (s, txn)) (nextAttempt attemptEpoch base)
      (s, txn) := by
  have hraised : ∀ {α : Type} (value : Except Err α) {state : Shared × Option Txn},
      Leads allowed (fun _ state' => state' = state) (fun _ state' => state' = state) (ofExcept value) state := by
    intro α value state
    cases value <;> rfl
  have hbackoff : Leads allowed (fun _ state => state = (s, txn)) (fun _ state => state = (s, txn))
      (computeBackoff attemptEpoch base) (s, txn) := by
    refine Leads.step (fun _ => rfl) fun choice u s₁ txn₁ _ hexec => ?_
    cases hexec
    exact hraised _
  refine Leads.datetimeNow (hbackoff.bind ?_)
  rintro delta state rfl
  exact hraised _

theorem recordPhase_begins {claimed : CallRow} {outcome : DialOutcome} (hids : (s.db.calls.map CallRow.id).Nodup) :
    Leads allowed (fun _ state => Rests s state ∧ Begins s.db.calls state.1.db.calls none)
      (fun _ state => Rests s state ∧ Begins s.db.calls state.1.db.calls none)
      (recordPhase campaign claimed outcome) (s, none) := by
  refine Leads.transaction (fun _ t => Begins s.db.calls (overlay CallRow.id t.calls s.db.calls) none)
    (fun _ => True) ?_ ?_ ?_
  · have hrecord : Leads allowed (fun _ state => ∃ t', state.2 = some t' ∧ Still s state.1 ∧
          Begins s.db.calls (overlay CallRow.id t'.calls s.db.calls) none) (fun _ state => Still s state.1)
        (recordDial campaign claimed outcome) (s, some { startedAt := s.now }) := by
      cases outcome with
      | ok handle => exact transition_begins hids ⟨rfl, rfl, rfl⟩ rfl
      | rejected reasonCode => exact transition_begins hids ⟨rfl, rfl, rfl⟩ rfl
      | unavailable =>
          rw [recordDial]
          split
          · refine Wp.andThen (nextAttempt_still _ _) ?_ ?_
            · rintro error state rfl
              exact .refl s
            · rintro next state rfl
              exact transition_begins hids ⟨rfl, rfl, rfl⟩ rfl
          · exact transition_begins hids ⟨rfl, rfl, rfl⟩ rfl
    refine Wp.andThen hrecord (fun _ _ h => ⟨h, trivial⟩) ?_
    rintro result ⟨s₁, txn₁⟩ ⟨t₁, rfl, hstill, hbegins⟩
    refine Leads.datetimeNow (Leads.last rfl fun choice reply s₂ txn₂ _ hstill₂ hexec => ?_)
    obtain ⟨-, -, rfl⟩ := exec_updateLastDispatchAt hexec
    exact ⟨_, rfl, hstill.trans hstill₂, hbegins⟩
  · rintro value s₁ t hstill hbegins
    refine ⟨⟨rfl, hstill.now⟩, ?_⟩
    show Begins _ (overlay CallRow.id t.calls s₁.db.calls) _
    rw [hstill.db]
    exact hbegins
  · rintro error s₁ hstill -
    refine ⟨⟨rfl, hstill.now⟩, ?_⟩
    show Begins _ s₁.db.calls _
    rw [hstill.db]
    exact .refl hids

/-- How a dispatch ends: no call could be claimed, or the attempt of the oldest one has begun. -/
inductive Dispatches (allowed : Choice → Prop) (calls : List CallRow) (now : Time) (campaignId : CampaignId)
    (calls' : List CallRow) : Prop
  | none (hnone : ∀ call ∈ calls, call.claimable campaignId now = false) (hbegins : Begins calls calls' .none)
  | claimed (choice : Choice) (call : CallRow) (hallowed : allowed choice)
      (hfirst : oldest CallRow.createdAt choice.pick (calls.filter (CallRow.claimable campaignId now)) = some call)
      (hbegins : Begins calls calls' (some call.id))

/-- What raises after the claim leaves a call whose attempt has begun. -/
theorem dispatchOne_leads (hids : (s.db.calls.map CallRow.id).Nodup) (hapart : Apart s.db.calls) :
    Leads allowed (fun _ state => Rests s state ∧ Dispatches allowed s.db.calls s.now campaign.id state.1.db.calls)
      (fun _ state => (Rests s state ∧ Dispatches allowed s.db.calls s.now campaign.id state.1.db.calls) ∧
        BeginsOne s.db.calls state.1.db.calls)
      (dispatchOne campaign) (s, none) := by
  refine Wp.andThen (claimPhase_leads hapart) (fun _ _ h => h.elim) ?_
  rintro claimed ⟨s₁, txn₁⟩ ⟨⟨rfl, hnow⟩, hclaims⟩
  generalize hcalls : s₁.db.calls = calls at hclaims
  cases hclaims with
  | none hnone =>
      refine ⟨⟨rfl, hnow⟩, .none hnone ?_⟩
      show Begins _ s₁.db.calls _
      rw [hcalls]
      exact .refl hids
  | claimed choice call hallowed hfirst =>
      obtain ⟨hcall, -⟩ := List.mem_filter.mp (oldest_some hfirst).1
      have hbegun : Begins s.db.calls s₁.db.calls (some call.id) := by
        rw [hcalls]
        refine Begins.put hids hcall rfl (by rw [if_pos rfl]; rfl) fun row _ hne he => ?_
        exact hne (Option.some.inj he).symm
      have hids₁ : (s₁.db.calls.map CallRow.id).Nodup := by
        rw [hcalls, map_key_overlay]
        exact hids
      have hplace : Leads allowed (fun _ state => state.2 = none ∧ Still s₁ state.1)
          (fun _ state => state.2 = none ∧ Still s₁ state.1) (placePhase (call.claim s.now)) (s₁, none) := by
        refine Leads.step (fun _ => rfl) fun choice reply s₂ txn₂ _ hexec => ?_
        have hstill : Still s₁ s₂ := still_of_exec (by nofun) hexec
        obtain ⟨rfl, -, rfl⟩ := exec_placeCall hexec
        cases choice.place <;> exact ⟨rfl, hstill⟩
      refine Wp.andThen hplace ?_ ?_
      · rintro error ⟨s₂, txn₂⟩ ⟨hclosed, hstill⟩
        replace hbegun : Begins s.db.calls s₂.db.calls (some call.id) := by
          rw [hstill.db]
          exact hbegun
        exact ⟨⟨⟨hclosed, hstill.now.trans hnow⟩, .claimed choice call hallowed hfirst hbegun⟩, call, hcall, hbegun⟩
      · rintro outcome ⟨s₂, txn₂⟩ ⟨hclosed, hstill⟩
        obtain rfl : txn₂ = none := hclosed
        have hlast : ∀ state : Shared × Option Txn, Rests s₂ state ∧ Begins s₂.db.calls state.1.db.calls none →
            (Rests s state ∧ Dispatches allowed s.db.calls s.now campaign.id state.1.db.calls) ∧
              BeginsOne s.db.calls state.1.db.calls := by
          rintro state ⟨hrests, hbegins⟩
          replace hbegun : Begins s.db.calls state.1.db.calls (some call.id) := by
            refine hbegun.before ?_
            rw [← hstill.db]
            exact hbegins
          exact ⟨⟨⟨hrests.closed, hrests.now.trans (hstill.now.trans hnow)⟩,
            .claimed choice call hallowed hfirst hbegun⟩, call, hcall, hbegun⟩
        refine Wp.andThen (recordPhase_begins (hstill.db ▸ hids₁)) (fun _ state h => hlast state h) ?_
        exact fun _ state h => (hlast state h).1

/-! ### The tick -/

/-- Whether a statement runs by itself does not depend on what the world chooses. -/
theorem exec_total {choice choice' : Choice} {txn : Option Txn} {stmt : Stmt}
    (h : (exec [] choice s txn stmt).isSome = true) : (exec [] choice' s txn stmt).isSome = true := by
  cases txn with
  | some t =>
      refine exec_runs choice' ?_
      rintro rfl
      cases h
  | none => cases stmt <;> exact h

/-- What is known of a coroutine on its own, with no time passing, whatever the world chooses. -/
theorem Leads.of_alone {α : Type} {program : Co α} {post : α → Shared × Option Txn → Prop}
    {err : Err → Shared × Option Txn → Prop} {state : Shared × Option Txn}
    (h : Wp (alone [] false) ([] = ([] : List Txn)) post err program state) :
    Leads allowed post err program state := by
  induction program generalizing state with
  | done value => exact h
  | fail error => exact h
  | call stmt next ih =>
      have hstill : ({ state.1 with now := state.1.now + (0 : Nat) } : Shared) = state.1 := by simp
      refine ⟨?_, ?_⟩
      · rintro ⟨choice, hallowed⟩
        obtain ⟨reply, mid, choice', micros, hmicros, hexec⟩ := h.1 rfl
        rw [hmicros rfl, hstill] at hexec
        obtain ⟨⟨reply', s', txn'⟩, hexec'⟩ := Option.isSome_iff_exists.mp
          (@exec_total state.1 choice' choice state.2 stmt (by rw [hexec]; rfl))
        exact ⟨reply', (s', txn'), choice, hallowed, hexec'⟩
      · rintro reply mid ⟨choice, -, hexec⟩
        exact ih reply (h.2 reply mid ⟨choice, 0, fun _ => rfl, by rw [hstill]; exact hexec⟩)

/-- The campaign that a tick picks, and whether it does so for a retry. -/
def picks (deps : Deps) (s : Shared) : Option (CampaignRowWithCursor × Bool) :=
  match survivors deps s.db s.now s.now with
  | .ok found => (rrFirst found.1).map fun picked => (picked, found.2)
  | .error _ => none

/-- What a tick makes of the calls. -/
inductive Ticks (deps : Deps) (allowed : Choice → Prop) (s : Shared) (calls' : List CallRow) : Prop
  | idle (hpicks : picks deps s = none) (hbegins : Begins s.db.calls calls' none)
  | fresh (picked : CampaignRowWithCursor) (hpicks : picks deps s = some (picked, false))
      (hdispatches : Dispatches allowed s.db.calls s.now picked.campaign.id calls')
  | retried (picked : CampaignRowWithCursor) (mid : List CallRow) (hpicks : picks deps s = some (picked, true))
      (hrequeues : Requeues allowed s.db.calls s.now picked.campaign.id mid)
      (hdispatches : Dispatches allowed mid s.now picked.campaign.id calls')
  | raised (picked : CampaignRowWithCursor) (hpicks : picks deps s = some (picked, true))
      (hraises : RequeueRaises allowed s.db.calls s.now picked.campaign.id) (hbegins : Begins s.db.calls calls' none)

variable {calls calls' : List CallRow} {now : Time}

theorem Requeues.apart (h : Requeues allowed calls now campaignId calls') (hapart : Apart calls) : Apart calls' := by
  cases h with
  | none _ => exact hapart
  | moved choice call _ _ hfree => exact hapart.put fun _ => hfree

theorem Requeues.ids (h : Requeues allowed calls now campaignId calls') :
    calls'.map CallRow.id = calls.map CallRow.id := by
  cases h with
  | none _ => rfl
  | moved choice call _ _ hfree => exact map_key_overlay _ _

theorem Requeues.begins (h : Requeues allowed calls now campaignId calls') (hids : (calls.map CallRow.id).Nodup) :
    Begins calls calls' .none := by
  cases h with
  | none _ => exact .refl hids
  | moved choice call _ hfirst _ =>
      exact .put hids (List.mem_of_mem_filter (oldest_some hfirst).1) rfl rfl fun _ _ _ => nofun

/-- Why a tick raises: the hours of a campaign, the phone of a retry, or the dial of a call it has claimed. -/
def TickRaises (deps : Deps) (allowed : Choice → Prop) (s : Shared) (calls' : List CallRow) : Prop :=
  (∃ error, splitByHours deps s.now s.db.listEligibleForTick = .error error) ∨
    (∃ campaignId, RequeueRaises allowed s.db.calls s.now campaignId) ∨ BeginsOne s.db.calls calls'

theorem tick_leads (deps : Deps) (hids : (s.db.calls.map CallRow.id).Nodup) (hapart : Apart s.db.calls) :
    Leads allowed (fun _ state => Rests s state ∧ Ticks deps allowed s state.1.db.calls)
      (fun _ state => (Rests s state ∧ Ticks deps allowed s state.1.db.calls) ∧
        TickRaises deps allowed s state.1.db.calls) (tick deps) (s, none) := by
  rw [tick_eq]
  have hsame : ∀ {s₁ : Shared}, Noted false s s₁ → s₁.db.calls = s.db.calls ∧ s₁.now = s.now := by
    intro s₁ hnoted
    obtain ⟨notes, hdb, -⟩ := hnoted.db
    exact ⟨by rw [hdb], hnoted.now.still rfl⟩
  have hidle : ∀ {s₁ : Shared}, Noted false s s₁ → picks deps s = none →
      Rests s (s₁, none) ∧ Ticks deps allowed s s₁.db.calls := by
    intro s₁ hnoted hpicks
    refine ⟨⟨rfl, (hsame hnoted).2⟩, .idle hpicks ?_⟩
    rw [(hsame hnoted).1]
    exact .refl hids
  refine Wp.andThen (Leads.of_alone (@surviveGates_wp [] false s deps)) ?_ ?_
  · rintro error ⟨s₁, txn₁⟩ ⟨hclosed, hnoted, nowUtc, hnow, hraised⟩
    obtain rfl : txn₁ = none := hclosed
    rw [hnow.still rfl] at hraised
    refine ⟨hidle hnoted ?_, Or.inl ⟨error, hraised⟩⟩
    rw [picks, survivors, hraised]
    rfl
  · rintro ⟨rows, isRetry⟩ ⟨s₁, txn₁⟩ ⟨hclosed, hnoted, nowUtc, dueAt, hnow, hdue, hfound⟩
    obtain rfl : txn₁ = none := hclosed
    rw [hdue.still rfl, hnow.still rfl] at hfound
    obtain ⟨hcalls, hclock⟩ := hsame hnoted
    rw [dispatchFrom]
    split
    · next hnone =>
        refine hidle hnoted ?_
        rw [picks, hfound]
        exact congrArg (Option.map _) hnone
    · next picked hpicked =>
        have hpicks : picks deps s = some (picked, isRetry) := by
          rw [picks, hfound]
          exact congrArg (Option.map _) hpicked
        have hids₁ : (s₁.db.calls.map CallRow.id).Nodup := hcalls ▸ hids
        have hapart₁ : Apart s₁.db.calls := hcalls ▸ hapart
        rw [dispatchPicked]
        cases isRetry with
        | true =>
            rw [if_pos rfl]
            refine Wp.andThen (requeueOldestRetryDue_leads hids₁) ?_ ?_
            · rintro error ⟨s₂, txn₂⟩ ⟨hrests, hdb, hraises⟩
              rw [hcalls, hclock] at hraises
              refine ⟨⟨⟨hrests.closed, hrests.now.trans hclock⟩, .raised picked hpicks hraises ?_⟩,
                Or.inr (Or.inl ⟨_, hraises⟩)⟩
              rw [show s₂.db = s₁.db from hdb, hcalls]
              exact .refl hids
            · rintro ⟨⟩ ⟨s₂, txn₂⟩ ⟨⟨hclosed, hclock₂⟩, hrequeues⟩
              obtain rfl : txn₂ = none := hclosed
              rw [hcalls, hclock] at hrequeues
              have hdispatched : ∀ state : Shared × Option Txn, Rests s₂ state ∧
                  Dispatches allowed s₂.db.calls s₂.now picked.campaign.id state.1.db.calls →
                  Rests s state ∧ Ticks deps allowed s state.1.db.calls := by
                rintro state ⟨hrests, hdispatches⟩
                have hnow₂ : s₂.now = s.now := hclock₂.trans hclock
                rw [hnow₂] at hdispatches
                exact ⟨⟨hrests.closed, hrests.now.trans hnow₂⟩, .retried picked _ hpicks hrequeues hdispatches⟩
              refine Wp.andThen (dispatchOne_leads (hrequeues.ids ▸ hids) (hrequeues.apart hapart)) ?_
                fun _ state h => hdispatched state h
              rintro error state ⟨hended, call, hcall, hbegun⟩
              refine ⟨hdispatched state hended, Or.inr (Or.inr ?_)⟩
              obtain ⟨before, hbefore, hid⟩ := List.mem_map.mp (hrequeues.ids ▸ List.mem_map_of_mem hcall)
              refine ⟨before, hbefore, (hrequeues.begins hids).after ?_⟩
              rw [hid]
              exact hbegun
        | false =>
            rw [if_neg Bool.false_ne_true]
            have hdispatched : ∀ state : Shared × Option Txn, Rests s₁ state ∧
                Dispatches allowed s₁.db.calls s₁.now picked.campaign.id state.1.db.calls →
                Rests s state ∧ Ticks deps allowed s state.1.db.calls := by
              rintro state ⟨hrests, hdispatches⟩
              rw [hcalls, hclock] at hdispatches
              exact ⟨⟨hrests.closed, hrests.now.trans hclock⟩, .fresh picked hpicks hdispatches⟩
            refine Wp.andThen (dispatchOne_leads hids₁ hapart₁) ?_ fun _ state h => hdispatched state h
            rintro error state ⟨hended, hbegun⟩
            exact ⟨hdispatched state hended, Or.inr (Or.inr (hcalls ▸ hbegun))⟩

end

end VoiceCampaign

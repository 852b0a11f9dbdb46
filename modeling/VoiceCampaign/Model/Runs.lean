import VoiceCampaign.Model.System

/-!
# Runs

Running a list of actions, and a small deployment whose runs the other modules evaluate.
-/

namespace VoiceCampaign

open Concurrency

/-- A sequence of actions that all meet `allowed`. -/
def Sys.runBy (deps : Deps) (allowed : Sys → Action → Bool) (s : Sys) : List Action → Option Sys
  | [] => some s
  | action :: rest =>
      if allowed s action = true then (s.step deps action).bind fun s' => s'.runBy deps allowed rest
      else none

theorem ReachableBy.of_runBy {deps : Deps} {allowed : Sys → Action → Bool} {s s' : Sys}
    {actions : List Action} (h : ReachableBy deps (fun s action => allowed s action = true) s)
    (hrun : s.runBy deps allowed actions = some s') :
    ReachableBy deps (fun s action => allowed s action = true) s' := by
  induction actions generalizing s with
  | nil =>
      cases hrun
      exact h
  | cons action rest ih =>
      rw [Sys.runBy] at hrun
      split at hrun
      · next hallowed =>
          obtain ⟨mid, hstep, hrest⟩ := Option.bind_eq_some_iff.mp hrun
          exact ih (.step action h hallowed hstep) hrest
      · cases hrun

theorem Reachable.of_run {deps : Deps} {s s' : Sys} {actions : List Action} (h : Reachable deps s)
    (hrun : s.run deps actions = some s') : Reachable deps s' := by
  induction actions generalizing s with
  | nil =>
      cases hrun
      exact h
  | cons action rest ih =>
      obtain ⟨mid, hstep, hrest⟩ := Option.bind_eq_some_iff.mp hrun
      exact ih (.step action h trivial hstep) hrest

/-- `s'` lies ahead of `s` on a run whose steps all meet `allowed`. -/
inductive Continues (deps : Deps) (allowed : Sys → Action → Prop) (s : Sys) : Sys → Prop
  | refl : Continues deps allowed s s
  | step {s' s'' : Sys} (action : Action) (hs : Continues deps allowed s s') (hallowed : allowed s' action)
      (hstep : s'.step deps action = some s'') : Continues deps allowed s s''

theorem ReachableBy.continues {deps : Deps} {allowed : Sys → Action → Prop} {s s' : Sys}
    (h : ReachableBy deps allowed s) (hs : Continues deps allowed s s') : ReachableBy deps allowed s' := by
  induction hs with
  | refl => exact h
  | step action _ hallowed hstep ih => exact .step action ih hallowed hstep

theorem Continues.of_runBy {deps : Deps} {allowed : Sys → Action → Bool} {s₀ s s' : Sys}
    {actions : List Action} (h : Continues deps (fun s action => allowed s action = true) s₀ s)
    (hrun : s.runBy deps allowed actions = some s') :
    Continues deps (fun s action => allowed s action = true) s₀ s' := by
  induction actions generalizing s with
  | nil =>
      cases hrun
      exact h
  | cons action rest ih =>
      rw [Sys.runBy] at hrun
      split at hrun
      · next hallowed =>
          obtain ⟨mid, hstep, hrest⟩ := Option.bind_eq_some_iff.mp hrun
          exact ih (.step action h hallowed hstep) hrest
      · cases hrun

theorem Continues.mono {deps : Deps} {allowed allowed' : Sys → Action → Prop} {s s' : Sys}
    (h : Continues deps allowed s s') (hallowed : ∀ s action, allowed s action → allowed' s action) :
    Continues deps allowed' s s' := by
  induction h with
  | refl => exact .refl
  | step action _ hmeets hstep ih => exact .step action ih (hallowed _ _ hmeets) hstep

/-- A run that ends in a state with a property reaches such a state. -/
theorem Reachable.of_any (deps : Deps) (actions : List Action) (p : Sys → Bool)
    (h : (Sys.run deps {} actions).any p = true) : ∃ s, Reachable deps s ∧ p s = true := by
  obtain ⟨s, hrun, hp⟩ := (Option.any_eq_true _ _).mp h
  exact ⟨s, .of_run (.init 0) hrun, hp⟩

theorem ReachableBy.of_any (deps : Deps) (allowed : Sys → Action → Bool) (actions : List Action)
    (p : Sys → Bool) (h : (Sys.runBy deps allowed {} actions).any p = true) :
    ∃ s, ReachableBy deps (fun s action => allowed s action = true) s ∧ p s = true := by
  obtain ⟨s, hrun, hp⟩ := (Option.any_eq_true _ _).mp h
  exact ⟨s, .of_runBy (.init 0) hrun, hp⟩

/-! ### What happens on the way -/

/-- A run to `s`, and what `observe` saw at its steps. -/
inductive Observed (deps : Deps) {α : Type} (observe : Sys → Action → List α) : Sys → List α → Prop
  | init (now : Time) : Observed deps observe { shared := { now } } []
  | step {s s' : Sys} {seen : List α} (action : Action) (hs : Observed deps observe s seen)
      (hstep : s.step deps action = some s') : Observed deps observe s' (seen ++ observe s action)

/-- What `observe` sees along a run, next to where it ends. -/
def Sys.runSeeing (deps : Deps) {α : Type} (observe : Sys → Action → List α) (s : Sys) (seen : List α) :
    List Action → Option (Sys × List α)
  | [] => some (s, seen)
  | action :: rest => (s.step deps action).bind fun s' =>
      s'.runSeeing deps observe (seen ++ observe s action) rest

theorem Observed.of_run {deps : Deps} {α : Type} {observe : Sys → Action → List α} {s s' : Sys}
    {seen seen' : List α} {actions : List Action} (h : Observed deps observe s seen)
    (hrun : s.runSeeing deps observe seen actions = some (s', seen')) : Observed deps observe s' seen' := by
  induction actions generalizing s seen with
  | nil =>
      cases hrun
      exact h
  | cons action rest ih =>
      obtain ⟨mid, hstep, hrest⟩ := Option.bind_eq_some_iff.mp hrun
      exact ih (.step action h hstep) hrest

theorem Observed.reachable {deps : Deps} {α : Type} {observe : Sys → Action → List α} {s : Sys}
    {seen : List α} (h : Observed deps observe s seen) : Reachable deps s := by
  induction h with
  | init now => exact .init now
  | step action _ hstep ih => exact .step action ih trivial hstep

theorem Reachable.observed {deps : Deps} {s : Sys} (h : Reachable deps s) {α : Type}
    (observe : Sys → Action → List α) : ∃ seen, Observed deps observe s seen := by
  induction h with
  | init now => exact ⟨[], .init now⟩
  | step action _ _ hstep ih =>
      obtain ⟨seen, hseen⟩ := ih
      exact ⟨_, hseen.step action hstep⟩

/-! ### A deployment -/

/-- Every zone is at noon on a Monday. -/
def noonDeps : Deps where
  zoneInfo := fun _ => some fun _ => (.mon, 12 * 3600 * second)

/-- A campaign that is open around the clock. -/
def openCampaign (maxConcurrent : Fin 100) (retryConfig : RetryConfig) (phones : List String)
    (hne : phones ≠ []) (hnodup : phones.Nodup) : CampaignCreate where
  name := "campaign"
  timezone := "UTC"
  schedule := fun _ => [⟨⟨0, none⟩, ⟨24 * 3600 * second - 1, none⟩, rfl⟩]
  maxConcurrent := some (maxConcurrent + 1)
  retryConfig := retryConfig
  phones := phones
  maxConcurrent_range := by
    rintro _ ⟨⟩
    omega
  phones_ne_nil := hne
  phones_nodup := hnodup

/-- Two retries, thirty seconds. -/
def twoRetries : RetryConfig := ⟨2, 30, by decide, by decide, by decide⟩

/-- No retries. -/
def noRetries : RetryConfig := ⟨0, 30, by decide, by decide, by decide⟩

/-- `max_concurrent`, less one. -/
def atMostOne : Fin 100 := 0

def atMostTwo : Fin 100 := 1

/-- One call. -/
def oneCall : CampaignCreate := openCampaign atMostOne twoRetries ["+1"] (by decide) (by decide)

/-- One call, to be dialed once. -/
def oneShot : CampaignCreate := openCampaign atMostOne noRetries ["+1"] (by decide) (by decide)

/-- Two calls. -/
def openPair (maxConcurrent : Fin 100) (retryConfig : RetryConfig) : CampaignCreate :=
  openCampaign maxConcurrent retryConfig ["+1", "+2"] (by decide) (by decide)

/-- A webhook body. -/
def webhook (eventId : String) (handle : Handle) (status : CallStatus) : Payload :=
  [("provider_event_id", .str eventId), ("provider_call_id", .str handle), ("status", .str status.value)]

/-- Process `index` runs `count` statements; `place_call` returns `handle`. -/
def runs (index count : Nat) (handle : Handle := "h") : List Action :=
  List.replicate count (.run index { place := .handle handle })

/-- The one call is dialed. -/
def dialOne : List Action := [.post oneCall 0 0 [0], .tick] ++ runs 0 20

/-- An event for the handle `h` arrives as inbox row `inboxId`, and its drain, process `index`, runs
`count` statements. -/
def deliver (inboxId : InboxId) (eventId : String) (status : CallStatus) (index count : Nat) : List Action :=
  [.ingest (webhook eventId "h" status) 0 inboxId] ++ runs index count

end VoiceCampaign

import VoiceCampaign.Model.Runs
import VoiceCampaign.Protocol.Commits
import VoiceCampaign.Properties.Pagination

/-!
# The call list of a campaign

`list_for_campaign` pages by `updated_at`, which every transition rewrites. A walk over it returns every call
exactly once as long as no commit between two fetches moves a call across the cursor.
-/

namespace VoiceCampaign

open Concurrency Keyset

section

variable (deps : Deps) (campaignId : CampaignId) (limit : Int)

/-- A walk over the calls of a campaign that begins in `s₀`: steps of the system, of which each is `allowed`,
and page fetches, in any order. -/
inductive Listing (allowed : Sys → Reading CallRow ListCursor → Action → Prop) (s₀ : Sys) :
    Sys → Reading CallRow ListCursor → Prop
  | start : Listing allowed s₀ s₀ {}
  | step {s s' : Sys} {reading : Reading CallRow ListCursor} (action : Action)
      (h : Listing allowed s₀ s reading) (hallowed : allowed s reading action)
      (hstep : s.step deps action = some s') : Listing allowed s₀ s' reading
  | fetch {s : Sys} {reading : Reading CallRow ListCursor} {result : List CallRow × Option ListCursor}
      (h : Listing allowed s₀ s reading) (hmore : reading.finished = false)
      (hfetch : listForCampaign s.shared.db campaignId reading.cursor limit = .ok result) :
      Listing allowed s₀ s (reading.turn result)

/-- No commit moves a call of the campaign across the cursor of an unfinished walk. -/
def CursorRespected (s : Sys) (reading : Reading CallRow ListCursor) (action : Action) : Prop :=
  reading.finished = false → ∀ rewrite ∈ s.rewrites action, rewrite.1.campaignId = campaignId →
    beyond CallRow.listKey reading.cursor rewrite.2 = beyond CallRow.listKey reading.cursor rewrite.1

instance (s : Sys) (reading : Reading CallRow ListCursor) (action : Action) :
    Decidable (CursorRespected campaignId s reading action) := by
  unfold CursorRespected
  infer_instance

/-- What a walk that is over is to have returned: each of the calls once. -/
def ListedOnce (calls : List CallRow) (reading : Reading CallRow ListCursor) : Prop :=
  ∀ call ∈ calls, (reading.returned.map CallRow.id).count call.id = 1

instance (calls : List CallRow) (reading : Reading CallRow ListCursor) : Decidable (ListedOnce calls reading) :=
  inferInstanceAs (Decidable (∀ call ∈ calls, (reading.returned.map CallRow.id).count call.id = 1))

end

/-! ### One step -/

section

variable {deps : Deps} {campaignId : CampaignId} {limit : Int} {s s' s₀ : Sys} {action : Action}
  {reading : Reading CallRow ListCursor} {allowed : Sys → Reading CallRow ListCursor → Action → Prop}

theorem mem_callsOf {db : Db} {call : CallRow} :
    call ∈ db.callsOf campaignId ↔ call ∈ db.calls ∧ call.campaignId = campaignId := by
  rw [Db.callsOf, List.mem_filter, decide_eq_true_eq]

theorem Listing.reachable (h : Listing deps campaignId limit allowed s₀ s reading) (hs : Reachable deps s₀) :
    Reachable deps s := by
  induction h with
  | start => exact hs
  | step action _ _ hstep ih => exact .step action ih trivial hstep
  | fetch _ _ _ ih => exact ih

theorem Listing.grows (h : Listing deps campaignId limit allowed s₀ s reading) (hs : Reachable deps s₀) :
    Grows s₀.shared s.shared := by
  induction h with
  | start => exact .refl _
  | step action h _ hstep ih => exact ih.trans ((h.reachable hs).grows hstep)
  | fetch _ _ _ ih => exact ih

theorem Consistent.callsOf_idents {s : Shared} (h : Consistent s) (campaignId : CampaignId) :
    ((s.db.callsOf campaignId).map CallRow.id).Nodup := Distinct.filter h.callIds _

/-- A call of the campaign is there still, and is one of its calls. -/
theorem Grows.callsOf {s s' : Shared} (h : Grows s s') (hinv : Consistent s) {call : CallRow}
    (hcall : call ∈ s.db.callsOf campaignId) :
    ∃ call' ∈ s'.db.callsOf campaignId, call'.id = call.id := by
  obtain ⟨hmem, howner⟩ := mem_callsOf.mp hcall
  obtain ⟨call', hcall', hevolves⟩ := h.call _ call (hinv.call?_of_mem hmem)
  exact ⟨call', mem_callsOf.mpr ⟨(lookup_some hcall').1, hevolves.campaignId.trans howner⟩, hevolves.id⟩

theorem CursorRespected.settled (h : CursorRespected campaignId s reading action) (hs : Reachable deps s)
    (hstep : s.step deps action = some s') {start : CallId → Prop}
    (hstart : ∀ id, start id → ∃ call ∈ s.shared.db.callsOf campaignId, call.id = id) :
    Keyset.Settled CallRow.listKey CallRow.id start reading (s.shared.db.callsOf campaignId)
      (s'.shared.db.callsOf campaignId) where
  kept call hcall := (hs.grows hstep).callsOf hs.consistent hcall
  new call _ hnew hcall := by
    obtain ⟨old, hold, he⟩ := hstart _ hcall
    exact hnew old hold he
  still hmore before hbefore after hafter he := by
    obtain ⟨hmem, howner⟩ := mem_callsOf.mp hbefore
    have hrow := hs.consistent.call?_of_mem hmem
    have hrow' := (Reachable.consistent (.step action hs trivial hstep)).call?_of_mem (mem_callsOf.mp hafter).1
    rw [he] at hrow'
    by_cases hchanged : after = before
    · rw [hchanged]
    · obtain ⟨task, t, hcommits⟩ := hs.changed hstep hrow hrow' hchanged
      exact h hmore _ hcommits.mem_rewrites howner

/-! ### Every walk -/

theorem Listing.exact (h : Listing deps campaignId limit (CursorRespected campaignId) s₀ s reading)
    (hs : Reachable deps s₀) :
    Keyset.Exact CallRow.listKey CallRow.id (fun id => ∃ call ∈ s₀.shared.db.callsOf campaignId, call.id = id)
      (s.shared.db.callsOf campaignId) reading := by
  induction h with
  | start => exact .empty _ _ _
  | step action h hrespected hstep ih =>
      have hreach := h.reachable hs
      refine ih.moves (hrespected.settled hreach hstep ?_)
      rintro _ ⟨call, hcall, rfl⟩
      exact (h.grows hs).callsOf hs.consistent hcall
  | fetch h hmore hfetch ih =>
      have hidents := (h.reachable hs).consistent.callsOf_idents campaignId
      rw [listForCampaign] at hfetch
      split at hfetch
      · cases hfetch
      · next hlimit =>
        cases hfetch
        exact ih.turn (distinct_of_idents (fun _ => rfl) hidents) hidents (by omega) hmore

/-- A walk across whose cursor no call moves returns every call of the campaign exactly once. -/
theorem call_list_stable (hs : Reachable deps s₀)
    (h : Listing deps campaignId limit (CursorRespected campaignId) s₀ s reading)
    (hfinished : reading.finished = true) : ListedOnce (s₀.shared.db.callsOf campaignId) reading := by
  intro call hcall
  have hexact := h.exact hs
  obtain ⟨call', hcall', he⟩ := (h.grows hs).callsOf hs.consistent hcall
  refine List.count_eq_one_of_mem hexact.once ?_
  rw [← he]
  refine hexact.behind call' hcall' ⟨call, hcall, he.symm⟩ fun hmore => ?_
  rw [hfinished] at hmore
  cases hmore

end

/-! ### Two calls, one to a page -/

/-- A walk as a list of steps and fetches. -/
def runListing (deps : Deps) (campaignId : CampaignId) (limit : Int)
    (allowed : Sys → Reading CallRow ListCursor → Action → Bool) (s : Sys)
    (reading : Reading CallRow ListCursor) :
    List (Option Action) → Option (Sys × Reading CallRow ListCursor)
  | [] => some (s, reading)
  | some action :: rest =>
      if allowed s reading action = true then
        (s.step deps action).bind fun s' => runListing deps campaignId limit allowed s' reading rest
      else none
  | none :: rest =>
      if reading.finished = true then none
      else (listForCampaign s.shared.db campaignId reading.cursor limit).toOption.bind fun result =>
        runListing deps campaignId limit allowed s (reading.turn result) rest

theorem Listing.of_run {deps : Deps} {campaignId : CampaignId} {limit : Int}
    {allowed : Sys → Reading CallRow ListCursor → Action → Bool} {s₀ s s' : Sys}
    {reading reading' : Reading CallRow ListCursor} {events : List (Option Action)}
    (h : Listing deps campaignId limit (fun s reading action => allowed s reading action = true) s₀ s reading)
    (hrun : runListing deps campaignId limit allowed s reading events = some (s', reading')) :
    Listing deps campaignId limit (fun s reading action => allowed s reading action = true) s₀ s' reading' := by
  induction events generalizing s reading with
  | nil =>
      cases hrun
      exact h
  | cons event rest ih =>
      cases event with
      | some action =>
          rw [runListing] at hrun
          split at hrun
          · next hallowed =>
            obtain ⟨mid, hstep, hrest⟩ := Option.bind_eq_some_iff.mp hrun
            exact ih (.step action h hallowed hstep) hrest
          · cases hrun
      | none =>
          rw [runListing] at hrun
          split at hrun
          · cases hrun
          · next hmore =>
            obtain ⟨result, hresult, hrest⟩ := Option.bind_eq_some_iff.mp hrun
            refine ih (.fetch h (eq_false_of_ne_true hmore) ?_) hrest
            cases hfetch : listForCampaign s.shared.db campaignId reading.cursor limit with
            | error error =>
                rw [hfetch] at hresult
                cases hresult
            | ok found =>
                rw [hfetch] at hresult
                cases hresult
                rfl

/-- Two calls. -/
def twoCalls : CampaignCreate := openPair atMostOne twoRetries

/-- A tick claims the call that `pick` chooses. -/
def claimOne (pick : Nat) : List (Option Action) :=
  some (.elapse 1) :: some .tick :: List.replicate 13 (some (.run 0 { pick, place := .handle "h" }))

/-- The walk that runs `events` on a campaign of two calls, one to a page. -/
theorem Listing.of_two (allowed : Sys → Reading CallRow ListCursor → Action → Bool)
    (events : List (Option Action)) (p : Sys → Sys → Reading CallRow ListCursor → Bool)
    (h : ((Sys.run noonDeps {} [.post twoCalls 0 0 [0, 1]]).any fun s₀ =>
      (runListing noonDeps 0 1 allowed s₀ {} events).any fun end_ => p s₀ end_.1 end_.2) = true) :
    ∃ s₀ s reading, Reachable noonDeps s₀ ∧
      Listing noonDeps 0 1 (fun s reading action => allowed s reading action = true) s₀ s reading ∧
      p s₀ s reading = true := by
  obtain ⟨s₀, hrun, h⟩ := (Option.any_eq_true _ _).mp h
  obtain ⟨⟨s, reading⟩, hwalk, hp⟩ := (Option.any_eq_true _ _).mp h
  exact ⟨s₀, s, reading, .of_run (.init 0) hrun, .of_run .start hwalk, hp⟩

/-- The call that has been returned is claimed before the next fetch. -/
theorem call_list_stable_two_calls : ∃ s₀ s reading, Reachable noonDeps s₀ ∧
    Listing noonDeps 0 1 (CursorRespected 0) s₀ s reading ∧ reading.finished = true ∧
    (s₀.shared.db.callsOf 0).length = 2 ∧ (s.shared.db.callsOf 0).any (fun call => call.status = .dialing) = true ∧
    ListedOnce (s₀.shared.db.callsOf 0) reading := by
  obtain ⟨s₀, s, reading, hs, h, hp⟩ := Listing.of_two
    (fun s reading action => decide (CursorRespected 0 s reading action))
    (none :: claimOne 1 ++ [none, none])
    (fun s₀ s reading => reading.finished && decide ((s₀.shared.db.callsOf 0).length = 2) &&
      (s.shared.db.callsOf 0).any fun call => call.status = .dialing) (by decide +kernel)
  simp only [Bool.and_eq_true, decide_eq_true_eq] at hp
  obtain ⟨⟨hfinished, htwo⟩, hclaimed⟩ := hp
  have hlisting : Listing noonDeps 0 1 (CursorRespected 0) s₀ s reading := by
    simpa only [decide_eq_true_eq] using h
  exact ⟨s₀, s, reading, hs, hlisting, hfinished, htwo, hclaimed, call_list_stable hs hlisting hfinished⟩

/-- The call that has not been returned yet is claimed, and the walk ends without it. -/
theorem call_list_stable_skipped : ∃ s₀ s reading, Reachable noonDeps s₀ ∧
    Listing noonDeps 0 1 (fun _ _ _ => True) s₀ s reading ∧ reading.finished = true ∧
    ¬ ListedOnce (s₀.shared.db.callsOf 0) reading := by
  obtain ⟨s₀, s, reading, hs, h, hp⟩ := Listing.of_two (fun _ _ _ => true) (none :: claimOne 0 ++ [none])
    (fun s₀ s reading => reading.finished && !decide (ListedOnce (s₀.shared.db.callsOf 0) reading))
    (by decide +kernel)
  rw [Bool.and_eq_true, Bool.not_eq_true', decide_eq_false_iff_not] at hp
  exact ⟨s₀, s, reading, hs, by simpa using h, hp.1, hp.2⟩

end VoiceCampaign

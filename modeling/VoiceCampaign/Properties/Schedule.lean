import VoiceCampaign.Model.Runs

/-!
# Schedules the API accepts

What `is_in_window` answers on a schedule that went through the validators of `CampaignCreate`. The
validators let through times with a UTC offset, and the predicate raises on the first of these it
compares with the naive local time.
-/

namespace VoiceCampaign

/-- Neither end of the window carries a UTC offset. -/
def TimeWindow.OffsetFree (window : TimeWindow) : Prop :=
  window.start.utcoffset = none ∧ window.stop.utcoffset = none

/-- `start <= t < end`, for a local time of `micros` after midnight. -/
def TimeWindow.Holds (window : TimeWindow) (micros : Int) : Prop :=
  window.start.micros ≤ micros ∧ micros < window.stop.micros

instance (window : TimeWindow) (micros : Int) : Decidable (window.Holds micros) :=
  inferInstanceAs (Decidable (_ ∧ _))

/-- Every window with an offset comes after an offset-free one that holds the local time. -/
def Evaluable (micros : Int) (windows : List TimeWindow) : Prop :=
  ∀ before window after, windows = before ++ window :: after → window.OffsetFree ∨
    ∃ earlier ∈ before, earlier.OffsetFree ∧ earlier.Holds micros

/-- `is_in_window` raises nothing on the stored schedule, and says whether a window of the local
weekday holds the local time. -/
def EvaluatesRight (zoneInfo : ZoneInfo) (localClock : LocalClock) (body : CampaignCreate)
    (row : CampaignRow) (nowUtc : Time) : Prop :=
  ∃ inside, isInWindow zoneInfo row.schedule row.timezone nowUtc = .ok inside ∧
    (inside = true ↔
      ∃ window ∈ body.schedule (localClock nowUtc).1, window.Holds (localClock nowUtc).2)

/-! ### One window -/

namespace TimeWindow

variable {window : TimeWindow} {micros : Int}

/-- The validator has compared the two ends, so both carry an offset or none does. -/
theorem offsetFree_of_start (hstart : window.start.utcoffset = none) : window.OffsetFree := by
  refine ⟨hstart, ?_⟩
  have hlt := window.start_lt_stop
  rw [ClockTime.lt, hstart] at hlt
  cases hstop : window.stop.utcoffset with
  | none => rfl
  | some offset =>
      rw [hstop] at hlt
      cases hlt

theorem parseWindow_dump (window : TimeWindow) : parseWindow window.dump = .ok window.dump := by
  rw [parseWindow, show window.dump.start.lt window.dump.stop = .ok true from window.start_lt_stop]
  rfl

theorem contains_offsetFree (hfree : window.OffsetFree) :
    window.dump.contains { micros } = .ok (decide (window.Holds micros)) := by
  have hle : window.dump.start.le { micros } = .ok (decide (window.start.micros ≤ micros)) := by
    simp only [ClockTime.le, dump, hfree.1]
    congr
  have hlt : ({ micros } : ClockTime).lt window.dump.stop =
      .ok (decide (micros < window.stop.micros)) := by
    simp only [ClockTime.lt, dump, hfree.2]
    congr
  rw [RawWindow.contains, hle, hlt]
  by_cases hstart : window.start.micros ≤ micros
  · simp [Bind.bind, Except.bind, hstart, Holds]
  · simp [Bind.bind, Except.bind, hstart, Holds, Pure.pure, Except.pure]

theorem contains_offset (hoffset : ¬ window.OffsetFree) :
    ∃ error, window.dump.contains { micros } = .error error := by
  cases hstart : window.start.utcoffset with
  | none => exact absurd (offsetFree_of_start hstart) hoffset
  | some offset =>
      refine ⟨.typeError "can't compare offset-naive and offset-aware times", ?_⟩
      simp [RawWindow.contains, dump, ClockTime.le, hstart, Bind.bind, Except.bind]

end TimeWindow

/-! ### The windows of a day -/

section

variable {micros : Int} {window : TimeWindow} {rest windows : List TimeWindow}

theorem parseDayWindows_dump (windows : List TimeWindow) :
    parseDayWindows (windows.map TimeWindow.dump) = .ok (windows.map TimeWindow.dump) := by
  induction windows with
  | nil => rfl
  | cons window rest ih =>
      rw [parseDayWindows] at ih ⊢
      rw [List.map_cons, List.mapM_cons, window.parseWindow_dump, ih]
      rfl

theorem Evaluable.head (h : Evaluable micros (window :: rest)) : window.OffsetFree := by
  rcases h [] window rest rfl with hfree | ⟨earlier, hearlier, _⟩
  · exact hfree
  · cases hearlier

/-- Only a window that misses the local time lets the comparison reach the next one. -/
theorem evaluable_cons (hfree : window.OffsetFree) :
    Evaluable micros (window :: rest) ↔ window.Holds micros ∨ Evaluable micros rest := by
  constructor
  · intro h
    by_cases hholds : window.Holds micros
    · exact Or.inl hholds
    · refine Or.inr fun before other after hsplit => ?_
      rcases h (window :: before) other after (by rw [hsplit]; rfl) with hother | ⟨earlier, hmem, hearlier⟩
      · exact Or.inl hother
      · rcases List.mem_cons.mp hmem with rfl | hmem
        · exact absurd hearlier.2 hholds
        · exact Or.inr ⟨earlier, hmem, hearlier⟩
  · intro h before other after hsplit
    cases before with
    | nil =>
        obtain ⟨rfl, rfl⟩ := List.cons.inj hsplit
        exact Or.inl hfree
    | cons first before =>
        obtain ⟨rfl, hrest⟩ := List.cons.inj hsplit
        cases h with
        | inl hholds => exact Or.inr ⟨window, List.mem_cons_self, hfree, hholds⟩
        | inr h =>
            obtain hother | ⟨earlier, hmem, hearlier⟩ := h before other after hrest
            · exact Or.inl hother
            · exact Or.inr ⟨earlier, List.mem_cons_of_mem _ hmem, hearlier⟩

/-- The left-to-right search through the windows of a day. -/
theorem anyContains_iff (windows : List TimeWindow) :
    (∃ inside, anyContains { micros } (windows.map TimeWindow.dump) = .ok inside ∧
      (inside = true ↔ ∃ window ∈ windows, window.Holds micros)) ↔ Evaluable micros windows := by
  induction windows with
  | nil =>
      constructor
      · intro _ before window after hsplit
        simp at hsplit
      · intro _
        exact ⟨false, rfl, by simp⟩
  | cons window rest ih =>
      by_cases hfree : window.OffsetFree
      · rw [evaluable_cons hfree, ← ih, List.map_cons, anyContains, TimeWindow.contains_offsetFree hfree]
        by_cases hholds : window.Holds micros
        · simp [hholds, Bind.bind, Except.bind, Pure.pure, Except.pure]
        · simp [hholds, Bind.bind, Except.bind]
      · obtain ⟨error, hcontains⟩ : ∃ error, window.dump.contains { micros } = .error error :=
          TimeWindow.contains_offset hfree
        refine iff_of_false ?_ fun h => hfree h.head
        rw [List.map_cons, anyContains, hcontains]
        rintro ⟨inside, hinside, -⟩
        cases hinside

end

/-! ### A stored schedule -/

/-- The predicate evaluates an accepted schedule exactly where no offset stands in the way. -/
theorem evaluates_right_iff {zoneInfo : ZoneInfo} {localClock : LocalClock} (body : CampaignCreate)
    (hzone : zoneInfo body.timezone = some localClock) (settings : Settings) (createdAt nowUtc : Time)
    (id : CampaignId) :
    EvaluatesRight zoneInfo localClock body (body.campaignRow settings createdAt id) nowUtc ↔
      Evaluable (localClock nowUtc).2 (body.schedule (localClock nowUtc).1) := by
  have heval : isInWindow zoneInfo (body.campaignRow settings createdAt id).schedule
      (body.campaignRow settings createdAt id).timezone nowUtc =
      anyContains { micros := (localClock nowUtc).2 }
        ((body.schedule (localClock nowUtc).1).map TimeWindow.dump) := by
    rw [isInWindow, show (body.campaignRow settings createdAt id).timezone = body.timezone from rfl,
      hzone]
    simp only
    rw [show (body.campaignRow settings createdAt id).schedule (localClock nowUtc).1 =
      (body.schedule (localClock nowUtc).1).map TimeWindow.dump from rfl, parseDayWindows_dump]
  rw [EvaluatesRight, heval]
  exact anyContains_iff _

/-- A body whose one window, every day, is `00:00:00+00:00` to `23:59:59.999999+00:00`. -/
def offsetCampaign : CampaignCreate :=
  { oneCall with schedule := fun _ => [⟨⟨0, some 0⟩, ⟨24 * 3600 * second - 1, some 0⟩, rfl⟩] }

theorem offset_campaign_raises : ¬ EvaluatesRight noonDeps.zoneInfo (fun _ => (.mon, 12 * 3600 * second))
    offsetCampaign (offsetCampaign.campaignRow {} 0 0) 0 := by
  have herror : isInWindow noonDeps.zoneInfo (offsetCampaign.campaignRow {} 0 0).schedule
      (offsetCampaign.campaignRow {} 0 0).timezone 0 =
      .error (.typeError "can't compare offset-naive and offset-aware times") := rfl
  rintro ⟨inside, hinside, -⟩
  rw [herror] at hinside
  cases hinside

theorem evaluates_right_iff_one_call :
    EvaluatesRight noonDeps.zoneInfo (fun _ => (.mon, 12 * 3600 * second)) oneCall
      (oneCall.campaignRow {} 0 0) 0 ↔
      Evaluable (12 * 3600 * second) (oneCall.schedule .mon) :=
  evaluates_right_iff oneCall rfl {} 0 0 0

end VoiceCampaign

import VoiceCampaign.Model.Types

/-!
# Business hours

`app/scheduler/business_hours.py`. A stored time is what `time.fromisoformat` gives back: a wall-clock
time with an optional UTC offset. Python refuses to order an offset-aware time against a naive one,
and only `InvalidScheduleError` is caught, so the predicate can raise.
-/

namespace VoiceCampaign

inductive Weekday where
  | mon
  | tue
  | wed
  | thu
  | fri
  | sat
  | sun
  deriving DecidableEq, Repr

/-- `datetime.time`: microseconds since midnight and the UTC offset in microseconds, if it has one. -/
structure ClockTime where
  micros : Int
  utcoffset : Option Int := none
  deriving DecidableEq, Repr

/-- `a < b` on `datetime.time`. -/
def ClockTime.lt (a b : ClockTime) : Except Err Bool :=
  match a.utcoffset, b.utcoffset with
  | none, none => .ok (a.micros < b.micros)
  | some x, some y => .ok (a.micros - x < b.micros - y)
  | _, _ => .error (.typeError "can't compare offset-naive and offset-aware times")

/-- `a <= b` on `datetime.time`. -/
def ClockTime.le (a b : ClockTime) : Except Err Bool :=
  match a.utcoffset, b.utcoffset with
  | none, none => .ok (a.micros ≤ b.micros)
  | some x, some y => .ok (a.micros - x ≤ b.micros - y)
  | _, _ => .error (.typeError "can't compare offset-naive and offset-aware times")

/-- One `{"start": .., "end": ..}` entry of a stored schedule. -/
structure RawWindow where
  start : ClockTime
  stop : ClockTime
  deriving DecidableEq, Repr

/-- The stored `schedule` JSON; a weekday without an entry has the empty list. -/
abbrev Schedule := Weekday → List RawWindow

/-- What `now_utc.astimezone(tz)` yields for the predicate: the local weekday and the naive local
time, in microseconds since midnight. -/
abbrev LocalClock := Time → Weekday × Int

/-- `ZoneInfo(name)`: `none` where the constructor raises. -/
abbrev ZoneInfo := String → Option LocalClock

def parseWindow (raw : RawWindow) : Except Err RawWindow := do
  if ← raw.start.lt raw.stop then
    pure raw
  else
    throw (.invalidSchedule "window start >= end")

def parseDayWindows (dayList : List RawWindow) : Except Err (List RawWindow) :=
  dayList.mapM parseWindow

/-- `w.start <= t_now < w.end`, the second comparison only where the first holds. -/
def RawWindow.contains (window : RawWindow) (tNow : ClockTime) : Except Err Bool := do
  if ← window.start.le tNow then
    tNow.lt window.stop
  else
    pure false

/-- `any(w.start <= t_now < w.end for w in windows)`, left to right. -/
def anyContains (tNow : ClockTime) : List RawWindow → Except Err Bool
  | [] => pure false
  | window :: rest => do
      if ← window.contains tNow then
        pure true
      else
        anyContains tNow rest

def isInWindow (zoneInfo : ZoneInfo) (schedule : Schedule) (timezone : String) (nowUtc : Time) :
    Except Err Bool :=
  match zoneInfo timezone with
  | none => pure false
  | some localClock =>
      let (day, micros) := localClock nowUtc
      match parseDayWindows (schedule day) with
      | .error (.invalidSchedule _) => pure false
      | .error error => throw error
      | .ok windows => anyContains { micros } windows

/-! ### Offset-free schedules -/

/-- No stored time carries a UTC offset. -/
def Schedule.Naive (schedule : Schedule) : Prop :=
  ∀ day, ∀ window ∈ schedule day, window.start.utcoffset = none ∧ window.stop.utcoffset = none

theorem parseWindow_naive {window : RawWindow} (hstart : window.start.utcoffset = none)
    (hstop : window.stop.utcoffset = none) :
    parseWindow window = .ok window ∨ ∃ message, parseWindow window = .error (.invalidSchedule message) := by
  have hlt : window.start.lt window.stop = .ok (decide (window.start.micros < window.stop.micros)) := by
    simp only [ClockTime.lt, hstart, hstop]
  by_cases h : window.start.micros < window.stop.micros
  · left
    simp only [parseWindow, hlt, h, decide_true]
    rfl
  · right
    refine ⟨"window start >= end", ?_⟩
    simp only [parseWindow, hlt, h, decide_false]
    rfl

theorem parseDayWindows_naive {windows : List RawWindow}
    (h : ∀ window ∈ windows, window.start.utcoffset = none ∧ window.stop.utcoffset = none) :
    parseDayWindows windows = .ok windows ∨
      ∃ message, parseDayWindows windows = .error (.invalidSchedule message) := by
  induction windows with
  | nil => exact Or.inl rfl
  | cons window rest ih =>
      simp only [parseDayWindows, List.mapM_cons]
      have hhead := h window List.mem_cons_self
      have hrest := ih fun w hw => h w (List.mem_cons_of_mem _ hw)
      rcases parseWindow_naive hhead.1 hhead.2 with hwindow | ⟨message, hwindow⟩
      · rcases hrest with hrest | ⟨message, hrest⟩
        · left
          rw [parseDayWindows] at hrest
          rw [hwindow, hrest]
          rfl
        · right
          rw [parseDayWindows] at hrest
          exact ⟨message, by rw [hwindow, hrest]; rfl⟩
      · right
        exact ⟨message, by rw [hwindow]; rfl⟩

theorem anyContains_naive (micros : Int) {windows : List RawWindow}
    (h : ∀ window ∈ windows, window.start.utcoffset = none ∧ window.stop.utcoffset = none) :
    ∃ inside, anyContains { micros } windows = .ok inside := by
  induction windows with
  | nil => exact ⟨false, rfl⟩
  | cons window rest ih =>
      obtain ⟨inside, hrest⟩ := ih fun w hw => h w (List.mem_cons_of_mem _ hw)
      obtain ⟨hstart, hstop⟩ := h window List.mem_cons_self
      have hcontains : ∃ b, window.contains { micros } = .ok b := by
        simp only [RawWindow.contains, ClockTime.le, ClockTime.lt, hstart, hstop]
        by_cases hle : window.start.micros ≤ micros
        · exact ⟨decide (micros < window.stop.micros), by simp only [hle, decide_true]; rfl⟩
        · exact ⟨false, by simp only [hle, decide_false]; rfl⟩
      obtain ⟨b, hb⟩ := hcontains
      cases b with
      | true => exact ⟨true, by rw [anyContains, hb]; rfl⟩
      | false => exact ⟨inside, by rw [anyContains, hb]; exact hrest⟩

/-- Without offsets the predicate never raises. -/
theorem isInWindow_naive (zoneInfo : ZoneInfo) {schedule : Schedule} (h : schedule.Naive)
    (timezone : String) (nowUtc : Time) :
    ∃ inside, isInWindow zoneInfo schedule timezone nowUtc = .ok inside := by
  simp only [isInWindow]
  cases zoneInfo timezone with
  | none => exact ⟨false, rfl⟩
  | some localClock =>
      rcases parseDayWindows_naive (h (localClock nowUtc).1) with hday | ⟨message, hday⟩
      · simp only [hday]
        exact anyContains_naive _ (h _)
      · simp only [hday]
        exact ⟨false, rfl⟩

end VoiceCampaign

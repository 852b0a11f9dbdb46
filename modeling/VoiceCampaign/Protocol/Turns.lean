import VoiceCampaign.Protocol.SoloTick

/-!
# Whose turn it is

Which campaign a tick picks, said of the tables: among the campaigns that pass the gates, those with a due
retry come before the others, and the one that dispatched least recently comes first.
-/

namespace VoiceCampaign

open Concurrency

/-- A campaign next to its cursor. -/
def Db.withCursor (db : Db) (campaign : CampaignRow) : CampaignRowWithCursor :=
  ⟨campaign, db.lastDispatchAt campaign.id⟩

/-- The hours of every campaign with a call to dial can be evaluated. -/
def HoursKnown (deps : Deps) (s : Shared) : Prop := ∀ campaign ∈ s.db.campaigns, s.db.eligible campaign = true →
  ∃ inside, isInWindow deps.zoneInfo campaign.schedule campaign.timezone s.now = .ok inside

/-- The campaign has a call to dial, is in its hours, and is below its cap. -/
structure Gated (deps : Deps) (s : Shared) (campaign : CampaignRow) : Prop where
  mem : campaign ∈ s.db.campaigns
  eligible : s.db.eligible campaign = true
  inHours : isInWindow deps.zoneInfo campaign.schedule campaign.timezone s.now = .ok true
  belowCap : s.db.inFlightCount campaign.id < campaign.maxConcurrent

/-- A campaign with a due retry passes the gates. -/
def RetryTurn (deps : Deps) (s : Shared) : Prop :=
  ∃ campaign, Gated deps s campaign ∧ campaign.id ∈ s.db.findRetryDueCampaignIds s.now

structure Candidate (deps : Deps) (s : Shared) (campaign : CampaignRow) : Prop where
  gated : Gated deps s campaign
  retryDue : RetryTurn deps s → campaign.id ∈ s.db.findRetryDueCampaignIds s.now

/-- It is the turn of the campaign. -/
structure ComesFirst (deps : Deps) (s : Shared) (campaign : CampaignRow) : Prop where
  candidate : Candidate deps s campaign
  first : ∀ other, Candidate deps s other → rrLe (s.db.withCursor campaign) (s.db.withCursor other) = true

/-! ### The gates -/

section

variable {deps : Deps} {now : Time} {rows inHours outOfHours : List CampaignRowWithCursor}

/-- The hours of a campaign, at `now`. -/
def CampaignRowWithCursor.hours (deps : Deps) (now : Time) (row : CampaignRowWithCursor) : Except Err Bool :=
  isInWindow deps.zoneInfo row.campaign.schedule row.campaign.timezone now

theorem splitByHours_cons (row : CampaignRowWithCursor) :
    splitByHours deps now (row :: rows) = (row.hours deps now).bind fun inside =>
      (splitByHours deps now rows).map fun hours =>
        if inside = true then (row :: hours.1, hours.2) else (hours.1, row :: hours.2) := by
  rw [splitByHours]
  show (row.hours deps now).bind _ = _
  cases row.hours deps now with
  | error error => rfl
  | ok inside =>
      cases splitByHours deps now rows with
      | error error => rfl
      | ok hours => cases inside <;> rfl

/-- The rows can be split when the hours of each can be evaluated. -/
theorem splitByHours_ok (h : ∀ row ∈ rows, ∃ inside, row.hours deps now = .ok inside) :
    ∃ hours, splitByHours deps now rows = .ok hours := by
  induction rows with
  | nil => exact ⟨_, rfl⟩
  | cons row rest ih =>
      obtain ⟨⟨inside, hinside⟩, hrest⟩ := List.forall_mem_cons.mp h
      obtain ⟨hours, hhours⟩ := ih hrest
      rw [splitByHours_cons, hinside, hhours]
      exact ⟨_, rfl⟩

theorem mem_splitByHours (h : splitByHours deps now rows = .ok (inHours, outOfHours)) :
    (∀ row ∈ rows, ∃ inside, row.hours deps now = .ok inside) ∧
      ∀ row, row ∈ inHours ↔ row ∈ rows ∧ row.hours deps now = .ok true := by
  induction rows generalizing inHours outOfHours with
  | nil =>
      cases h
      exact ⟨nofun, fun row => by simp⟩
  | cons head rest ih =>
      rw [splitByHours_cons] at h
      cases hinside : head.hours deps now with
      | error error =>
          rw [hinside] at h
          cases h
      | ok inside =>
          cases hrest : splitByHours deps now rest with
          | error error =>
              rw [hinside, hrest] at h
              cases h
          | ok hours =>
              rw [hinside, hrest] at h
              obtain ⟨hknown, hmem⟩ := ih hrest
              refine ⟨List.forall_mem_cons.mpr ⟨⟨inside, hinside⟩, hknown⟩, fun row => ?_⟩
              cases inside with
              | false =>
                  cases h
                  rw [hmem, List.mem_cons]
                  refine ⟨fun hrow => ⟨Or.inr hrow.1, hrow.2⟩, ?_⟩
                  rintro ⟨rfl | hrow, hin⟩
                  · rw [hinside] at hin
                    cases hin
                  · exact ⟨hrow, hin⟩
              | true =>
                  cases h
                  rw [List.mem_cons, hmem, List.mem_cons]
                  refine ⟨?_, fun hrow => hrow.1.imp_right fun hrest => ⟨hrest, hrow.2⟩⟩
                  rintro (rfl | hrow)
                  · exact ⟨Or.inl rfl, hinside⟩
                  · exact ⟨Or.inr hrow.1, hrow.2⟩

end

section

variable {deps : Deps} {s : Shared} {campaign : CampaignRow} {picked : CampaignRowWithCursor} {isRetry : Bool}

theorem mem_listEligibleForTick {db : Db} {row : CampaignRowWithCursor} : row ∈ db.listEligibleForTick ↔
    row.campaign ∈ db.campaigns ∧ db.eligible row.campaign = true ∧ row = db.withCursor row.campaign := by
  rw [Db.listEligibleForTick, List.mem_map]
  constructor
  · rintro ⟨campaign, hcampaign, rfl⟩
    obtain ⟨hmem, heligible⟩ := List.mem_filter.mp ((List.mem_insertionSort _).mp hcampaign)
    exact ⟨hmem, heligible, rfl⟩
  · rintro ⟨hmem, heligible, he⟩
    exact ⟨row.campaign, (List.mem_insertionSort _).mpr (List.mem_filter.mpr ⟨hmem, heligible⟩), he.symm⟩

theorem hoursKnown_iff : HoursKnown deps s ↔
    ∀ row ∈ s.db.listEligibleForTick, ∃ inside, row.hours deps s.now = .ok inside := by
  constructor
  · intro h row hrow
    obtain ⟨hmem, heligible, -⟩ := mem_listEligibleForTick.mp hrow
    exact h row.campaign hmem heligible
  · intro h campaign hmem heligible
    exact h (s.db.withCursor campaign) (mem_listEligibleForTick.mpr ⟨hmem, heligible, rfl⟩)

/-- What passes the gates of a tick. -/
theorem mem_capped {inHours outOfHours : List CampaignRowWithCursor} {row : CampaignRowWithCursor}
    (h : splitByHours deps s.now s.db.listEligibleForTick = .ok (inHours, outOfHours)) :
    row ∈ inHours.filter (belowCap (s.db.inFlightCountsByCampaign (inHours.map fun row => row.campaign.id))) ↔
      Gated deps s row.campaign ∧ row = s.db.withCursor row.campaign := by
  rw [List.mem_filter, (mem_splitByHours h).2, mem_listEligibleForTick, belowCap, decide_eq_true_eq]
  constructor
  · rintro ⟨⟨⟨hmem, heligible, he⟩, hin⟩, hbelow⟩
    have hlisted : row.campaign.id ∈ inHours.map fun row => row.campaign.id :=
      List.mem_map_of_mem (((mem_splitByHours h).2 row).mpr
        ⟨mem_listEligibleForTick.mpr ⟨hmem, heligible, he⟩, hin⟩)
    rw [Db.inFlightCountsByCampaign, if_pos hlisted] at hbelow
    exact ⟨⟨hmem, heligible, hin, hbelow⟩, he⟩
  · rintro ⟨⟨hmem, heligible, hin, hbelow⟩, he⟩
    have hlisted : row.campaign.id ∈ inHours.map fun row => row.campaign.id :=
      List.mem_map_of_mem (((mem_splitByHours h).2 row).mpr
        ⟨mem_listEligibleForTick.mpr ⟨hmem, heligible, he⟩, hin⟩)
    rw [Db.inFlightCountsByCampaign, if_pos hlisted]
    exact ⟨⟨⟨hmem, heligible, he⟩, hin⟩, hbelow⟩

/-- The candidates of a tick, and whether they wait for a retry. -/
theorem survivors_eq_ok {found : List CampaignRowWithCursor × Bool} (h : survivors deps s.db s.now s.now = .ok found) :
    HoursKnown deps s ∧ (found.2 = true ↔ RetryTurn deps s) ∧
      ∀ row, row ∈ found.1 ↔ Candidate deps s row.campaign ∧ row = s.db.withCursor row.campaign := by
  rw [survivors] at h
  cases hsplit : splitByHours deps s.now s.db.listEligibleForTick with
  | error error =>
      rw [hsplit] at h
      cases h
  | ok hours =>
      obtain ⟨inHours, outOfHours⟩ := hours
      rw [hsplit] at h
      obtain rfl := Except.ok.inj h
      have hcapped := fun row => @mem_capped deps s inHours outOfHours row hsplit
      generalize inHours.filter (belowCap (s.db.inFlightCountsByCampaign
        (inHours.map fun row => row.campaign.id))) = capped at hcapped ⊢
      have hturn : RetryTurn deps s ↔
          capped.filter (fun row => row.campaign.id ∈ s.db.findRetryDueCampaignIds s.now) ≠ [] := by
        constructor
        · rintro ⟨campaign, hgated, hdue⟩
          exact @List.ne_nil_of_mem _ (s.db.withCursor campaign) _ (List.mem_filter.mpr
            ⟨(hcapped _).mpr ⟨hgated, rfl⟩, decide_eq_true hdue⟩)
        · intro hsome
          obtain ⟨row, hrow⟩ := List.exists_mem_of_ne_nil _ hsome
          obtain ⟨hmem, hdue⟩ := List.mem_filter.mp hrow
          exact ⟨row.campaign, ((hcapped row).mp hmem).1, of_decide_eq_true hdue⟩
      refine ⟨hoursKnown_iff.mpr (mem_splitByHours hsplit).1, ?_⟩
      dsimp only [candidates]
      split
      · next hnone =>
          have hnot : ¬ RetryTurn deps s := fun h => hturn.mp h hnone
          refine ⟨iff_of_false Bool.false_ne_true hnot, fun row => (hcapped row).trans ?_⟩
          exact ⟨fun h => ⟨⟨h.1, fun hretry => absurd hretry hnot⟩, h.2⟩, fun h => ⟨h.1.gated, h.2⟩⟩
      · next hsome =>
          refine ⟨iff_of_true rfl (hturn.mpr hsome), fun row => ?_⟩
          rw [List.mem_filter, hcapped, decide_eq_true_eq]
          exact ⟨fun h => ⟨⟨h.1.1, fun _ => h.2⟩, h.1.2⟩,
            fun h => ⟨⟨h.1.gated, h.2⟩, h.1.retryDue (hturn.mpr hsome)⟩⟩

end

/-! ### The round robin -/

theorem rrLe_iff {a b : CampaignRowWithCursor} : rrLe a b = true ↔ (rrSortKey a).1 < (rrSortKey b).1 ∨
    (rrSortKey a).1 = (rrSortKey b).1 ∧ (rrSortKey a).2 ≤ (rrSortKey b).2 := by
  rw [rrLe, Bool.or_eq_true, Bool.and_eq_true, decide_eq_true_eq, decide_eq_true_eq, decide_eq_true_eq]

theorem rrLe_trans {a b c : CampaignRowWithCursor} (h : rrLe a b = true) (h' : rrLe b c = true) : rrLe a c = true := by
  rw [rrLe_iff] at h h' ⊢
  rcases h with h | ⟨h, hid⟩
  · exact Or.inl (h.trans_le (h'.elim le_of_lt fun h' => h'.1.le))
  · rw [h]
    exact h'.imp_right fun h' => ⟨h'.1, hid.trans h'.2⟩

theorem rrLe_of_not {a b : CampaignRowWithCursor} (h : ¬ rrLe a b = true) : rrLe b a = true := by
  rw [rrLe_iff] at h ⊢
  obtain ⟨hlt, hle⟩ := not_or.mp h
  rcases (not_lt.mp hlt).lt_or_eq with h | h
  · exact Or.inl h
  · exact Or.inr ⟨h, (not_le.mp fun hid => hle ⟨h.symm, hid⟩).le⟩

theorem rrLe_antisymm {a b : CampaignRowWithCursor} (h : rrLe a b = true) (h' : rrLe b a = true) :
    a.campaign.id = b.campaign.id := by
  rw [rrLe_iff] at h h'
  rcases h with h | ⟨h, hid⟩
  · exact absurd h (not_lt.mpr (h'.elim le_of_lt fun h' => h'.1.le))
  · rcases h' with h' | ⟨-, hid'⟩
    · exact absurd h.symm h'.ne
    · exact Nat.le_antisymm hid hid'

theorem rrFirst_le {rows : List CampaignRowWithCursor} {picked : CampaignRowWithCursor} (h : rrFirst rows = some picked) :
    picked ∈ rows ∧ ∀ row ∈ rows, rrLe picked row = true := by
  induction rows generalizing picked with
  | nil => cases h
  | cons head rest ih =>
      have hrefl : ∀ row : CampaignRowWithCursor, rrLe row row = true := fun row => rrLe_iff.mpr (Or.inr ⟨rfl, le_rfl⟩)
      rw [rrFirst] at h
      cases hbest : rrFirst rest with
      | none =>
          rw [hbest] at h
          obtain rfl := Option.some.inj h
          rw [rrFirst_eq_none.mp hbest]
          exact ⟨List.mem_cons_self, List.forall_mem_cons.mpr ⟨hrefl _, List.forall_mem_nil _⟩⟩
      | some best =>
          obtain ⟨hmem, hleast⟩ := ih hbest
          rw [hbest] at h
          dsimp only at h
          split at h
          · next hle =>
              obtain rfl := Option.some.inj h
              exact ⟨List.mem_cons_self, List.forall_mem_cons.mpr
                ⟨hrefl _, fun row hrow => rrLe_trans hle (hleast row hrow)⟩⟩
          · next hnot =>
              obtain rfl := Option.some.inj h
              exact ⟨List.mem_cons_of_mem _ hmem, List.forall_mem_cons.mpr ⟨rrLe_of_not hnot, hleast⟩⟩

section

variable {deps : Deps} {s : Shared} {campaign : CampaignRow} {picked : CampaignRowWithCursor} {isRetry : Bool}

/-- A tick picks the campaign whose turn it is. -/
theorem picks_eq_some (h : picks deps s = some (picked, isRetry)) : HoursKnown deps s ∧
    ComesFirst deps s picked.campaign ∧ (isRetry = true ↔ RetryTurn deps s) := by
  rw [picks] at h
  split at h
  · next found hfound =>
      obtain ⟨row, hrow, he⟩ := Option.map_eq_some_iff.mp h
      obtain ⟨rfl, rfl⟩ := Prod.mk.inj he
      obtain ⟨hknown, hretry, hmem⟩ := survivors_eq_ok hfound
      obtain ⟨hcandidate, hleast⟩ := rrFirst_le hrow
      obtain ⟨hcandidate, hcursor⟩ := (hmem row).mp hcandidate
      refine ⟨hknown, ⟨hcandidate, fun other hother => ?_⟩, hretry⟩
      rw [← hcursor]
      exact hleast _ ((hmem _).mpr ⟨hother, rfl⟩)
  · cases h

/-- It is the turn of one campaign at most. -/
theorem ComesFirst.unique {other : CampaignRow} (hids : (s.db.campaigns.map CampaignRow.id).Nodup)
    (h : ComesFirst deps s campaign) (h' : ComesFirst deps s other) : campaign = other :=
  eq_of_key_eq hids h.candidate.gated.mem h'.candidate.gated.mem
    (@rrLe_antisymm (s.db.withCursor campaign) (s.db.withCursor other) (h.first _ h'.candidate) (h'.first _ h.candidate))

theorem picks_ne_none (hknown : HoursKnown deps s) (h : Gated deps s campaign) : picks deps s ≠ none := by
  obtain ⟨hours, hsplit⟩ := splitByHours_ok (hoursKnown_iff.mp hknown)
  have hfound : ∃ found, survivors deps s.db s.now s.now = .ok found := by
    rw [survivors, hsplit]
    exact ⟨_, rfl⟩
  obtain ⟨found, hfound⟩ := hfound
  obtain ⟨-, -, hmem⟩ := survivors_eq_ok hfound
  have hcandidate : ∃ candidate, Candidate deps s candidate := by
    by_cases hretry : RetryTurn deps s
    · obtain ⟨due, hgated, hdue⟩ := hretry
      exact ⟨due, hgated, fun _ => hdue⟩
    · exact ⟨campaign, h, fun h => absurd h hretry⟩
  obtain ⟨candidate, hcandidate⟩ := hcandidate
  rw [picks, hfound]
  intro hnone
  have hnil := rrFirst_eq_none.mp (Option.map_eq_none_iff.mp hnone)
  have hrow := (hmem (s.db.withCursor candidate)).mpr ⟨hcandidate, rfl⟩
  rw [hnil] at hrow
  cases hrow

end

end VoiceCampaign

import VoiceCampaign.Model.Runs
import VoiceCampaign.Protocol.SoloDrain

/-!
# A bad row and the rows behind it

The loop-drain takes the oldest row of the inbox, and where its processing raises it takes that row again,
until its batch is used up. So the rows behind are reached if and only if no row raises in front of them.
-/

namespace VoiceCampaign

open Concurrency Program Relation

/-! ### The loop -/

/-- At most `fuel` attempts, one after another, until there is nothing to do. -/
inductive Loops (deps : Deps) : Nat → Shared → Shared → Prop
  | spent (s : Shared) : Loops deps 0 s s
  | empty {fuel : Nat} {s s' : Shared} (hempty : Attempts deps s .empty s') : Loops deps (fuel + 1) s s'
  | more {fuel : Nat} {s mid s' : Shared} (outcome : RowOutcome) (hmore : outcome ≠ .empty)
      (hattempts : Attempts deps s outcome mid) (hrest : Loops deps fuel mid s') : Loops deps (fuel + 1) s s'

/-- Rows consumed one after another, none of which raises. -/
abbrev ConsumesMany (deps : Deps) : Shared → Shared → Prop := ReflTransGen (Consumes deps)

section

variable {deps : Deps} {s s' s₁ s₂ s₃ : Shared} {fuel : Nat}

theorem Loops.ends (h : Loops deps fuel s s') (appliedAny : Bool) (processed : Nat) :
    ∃ value, Ends (solo fun _ => True) (drainInbox deps fuel appliedAny processed) (s, none) (.ok value) (s', none) := by
  induction h generalizing appliedAny processed with
  | spent s => exact ⟨_, .done _ _⟩
  | empty hempty => exact ⟨_, hempty.bind (.done _ _)⟩
  | more outcome hmore hattempts _ ih =>
      obtain ⟨value, hends⟩ := ih (appliedAny || outcome = .applied) (processed + 1)
      refine ⟨value, hattempts.bind ?_⟩
      rw [if_neg hmore]
      exact hends

theorem Loops.of_ends (hids : (s.db.inbox.map InboxRow.id).Nodup) {appliedAny : Bool} {processed : Nat}
    {result : Except Err (Bool × Nat)} {state : Shared × Option Txn}
    (h : Ends (solo fun _ => True) (drainInbox deps fuel appliedAny processed) (s, none) result state) :
    ∃ value s', result = .ok value ∧ state = (s', none) ∧ Loops deps fuel s s' := by
  induction fuel generalizing s appliedAny processed with
  | zero =>
      cases h
      exact ⟨_, s, rfl, rfl, .spent s⟩
  | succ fuel ih =>
      rcases Ends.of_bind h with ⟨outcome, ⟨mid, txn⟩, hfirst, hrest⟩ | ⟨error, -, hfirst⟩
      · obtain rfl : txn = none := ((Wp.of_ends (processOneRow_done hids) hfirst).1 outcome rfl).1
        have hattempts : Attempts deps s outcome mid := hfirst
        by_cases hempty : outcome = .empty
        · subst hempty
          cases hrest
          exact ⟨_, mid, rfl, rfl, .empty hattempts⟩
        · rw [if_neg hempty] at hrest
          obtain ⟨value, s', hresult, hstate, hloops⟩ := ih ((hattempts.done hids).ids ▸ hids) hrest
          exact ⟨value, s', hresult, hstate, .more outcome hempty hattempts hloops⟩
      · exact ((Wp.of_ends (processOneRow_done hids) hfirst).2 error rfl).elim

/-- `process_pending_inbox` is the loop and perhaps a notify. -/
theorem processPendingInbox_ends (h : Loops deps deps.settings.webhookProcessorBatchMax s s₁) :
    ∃ result s', Ends (solo fun _ => True) (processPendingInbox deps) (s, none) result (s', none) ∧ Alike s₁ s' := by
  obtain ⟨⟨appliedAny, processed⟩, hends⟩ := h.ends false 0
  cases appliedAny with
  | false => exact ⟨_, s₁, hends.bind (.done _ _), rfl⟩
  | true =>
      refine ⟨.ok processed, { s₁ with wake := true }, hends.bind ?_, rfl⟩
      exact .call ⟨{}, trivial, rfl⟩ (.done _ _)

theorem Loops.of_processPendingInbox (hids : (s.db.inbox.map InboxRow.id).Nodup) {result : Except Err Nat}
    {txn : Option Txn} (h : Ends (solo fun _ => True) (processPendingInbox deps) (s, none) result (s', txn)) :
    ∃ s₁, Loops deps deps.settings.webhookProcessorBatchMax s s₁ ∧ Alike s₁ s' := by
  rcases Ends.of_bind h with ⟨value, mid, hfirst, hrest⟩ | ⟨error, -, hfirst⟩
  · obtain ⟨⟨appliedAny, processed⟩, s₁, he, rfl, hloops⟩ := Loops.of_ends hids hfirst
    obtain rfl := Except.ok.inj he
    refine ⟨s₁, hloops, ?_⟩
    cases appliedAny with
    | false =>
        cases hrest
        rfl
    | true =>
        cases hrest with
        | call hop hdone =>
            obtain ⟨choice, -, hexec⟩ := hop
            cases hdone
            obtain ⟨rfl, -⟩ := exec_notify hexec
            rfl
  · obtain ⟨value, s₁, he, -, -⟩ := Loops.of_ends hids hfirst
    cases he

/-! ### Rows that stay, rows that are marked -/

/-- The row has been marked processed. -/
def Marked (s : Shared) (id : InboxId) : Prop := ∃ row ∈ s.db.inbox, row.id = id ∧ row.processedAt ≠ none

/-- Each row stays as it is, or has been marked. -/
structure InboxKept (s s' : Shared) : Prop where
  ids : s'.db.inbox.map InboxRow.id = s.db.inbox.map InboxRow.id
  rows : ∀ row ∈ s.db.inbox, row ∈ s'.db.inbox ∨ Marked s' row.id
  waiting : ∀ row ∈ s'.db.inbox, row.processedAt = none → row ∈ s.db.inbox

theorem InboxKept.of_same (h : s'.db.inbox = s.db.inbox) : InboxKept s s' where
  ids := by rw [h]
  rows row hrow := Or.inl (h ▸ hrow)
  waiting row hrow _ := h ▸ hrow

theorem InboxKept.trans (h : InboxKept s₁ s₂) (h' : InboxKept s₂ s₃) : InboxKept s₁ s₃ where
  ids := h'.ids.trans h.ids
  rows row hrow := by
    rcases h.rows row hrow with hrow | ⟨marked, hmarked, hid, hprocessed⟩
    · exact h'.rows row hrow
    · rcases h'.rows marked hmarked with hstays | hmarked'
      · exact Or.inr ⟨marked, hstays, hid, hprocessed⟩
      · exact Or.inr (hid ▸ hmarked')
  waiting row hrow hnone := h.waiting row (h'.waiting row hrow hnone) hnone

theorem AttemptDone.kept {outcome : RowOutcome} (h : AttemptDone s outcome s') : InboxKept s s' := by
  cases h with
  | empty _ hstill _ => exact .of_same (by rw [hstill.db])
  | raised _ hstill => exact .of_same (by rw [hstill.db])
  | consumed _ _ taken _ htaken _ _ hinbox =>
      refine ⟨by rw [hinbox, map_key_overlay], fun row hrow => ?_, fun row hrow hnone => ?_⟩
      · by_cases hid : row.id = taken.id
        · refine Or.inr ⟨{ taken with processedAt := some s.now }, ?_, hid.symm, Option.some_ne_none _⟩
          rw [hinbox]
          exact mem_overlay_singleton.mpr (Or.inr ⟨rfl, taken, htaken, rfl⟩)
        · rw [hinbox]
          exact Or.inl (mem_overlay_singleton.mpr (Or.inl ⟨hrow, hid⟩))
      · rw [hinbox] at hrow
        rcases mem_overlay_singleton.mp hrow with ⟨hold, -⟩ | ⟨rfl, -⟩
        · exact hold
        · cases hnone

theorem ConsumesMany.kept (h : ConsumesMany deps s s') (hids : (s.db.inbox.map InboxRow.id).Nodup) :
    InboxKept s s' := by
  induction h with
  | refl => exact .of_same rfl
  | tail _ hstep ih =>
      obtain ⟨outcome, -, hattempts⟩ := hstep
      exact ih.trans (hattempts.done (ih.ids ▸ hids)).kept

theorem Loops.kept (h : Loops deps fuel s s') (hids : (s.db.inbox.map InboxRow.id).Nodup) : InboxKept s s' := by
  induction h with
  | spent s => exact .of_same rfl
  | empty hempty => exact (hempty.done hids).kept
  | more outcome _ hattempts _ ih =>
      have hkept := (hattempts.done hids).kept
      exact hkept.trans (ih (hkept.ids ▸ hids))

/-- A row that waits, waits as itself. -/
theorem InboxKept.not_marked (h : InboxKept s s') (hids : (s.db.inbox.map InboxRow.id).Nodup) {row : InboxRow}
    (hrow : row ∈ s'.db.inbox) (hnone : row.processedAt = none) : ¬ Marked s' row.id := by
  rintro ⟨marked, hmarked, hid, hprocessed⟩
  obtain rfl := eq_of_key_eq (h.ids ▸ hids) hmarked hrow hid
  exact hprocessed hnone

/-! ### Runs of rows -/

theorem ConsumesMany.loops (h : ConsumesMany deps s s₁) (hids : (s.db.inbox.map InboxRow.id).Nodup) :
    ∃ count, s₁.unprocessed + count = s.unprocessed ∧
      ∀ fuel s', Loops deps fuel s₁ s' → Loops deps (count + fuel) s s' := by
  induction h with
  | refl => exact ⟨0, Nat.add_zero _, fun fuel s' hrest => (Nat.zero_add fuel).symm ▸ hrest⟩
  | @tail s₁ s₂ hmany hstep ih =>
      obtain ⟨count, hcount, hloops⟩ := ih
      obtain ⟨hless, -⟩ := hstep.unprocessed ((ConsumesMany.kept hmany hids).ids ▸ hids)
      obtain ⟨outcome, houtcome, hattempts⟩ := hstep
      refine ⟨count + 1, by omega, fun fuel s' hrest => ?_⟩
      have hne : outcome ≠ .empty := by rcases houtcome with rfl | rfl <;> decide
      rw [Nat.add_assoc, Nat.add_comm 1 fuel]
      exact hloops _ _ (.more outcome hne hattempts hrest)

theorem ConsumesMany.alike (h : ConsumesMany deps s s') (halike : Alike s s₂) :
    ∃ s₃, ConsumesMany deps s₂ s₃ ∧ Alike s' s₃ := by
  induction h with
  | refl => exact ⟨s₂, .refl, halike⟩
  | tail _ hstep ih =>
      obtain ⟨s₃, hmany, halike₃⟩ := ih
      obtain ⟨outcome, houtcome, hattempts⟩ := hstep
      obtain ⟨s₄, hattempts', halike₄⟩ := hattempts.alike halike₃
      exact ⟨s₄, hmany.tail ⟨outcome, houtcome, hattempts'⟩, halike₄⟩

/-- An attempt that raises can raise again and again. -/
theorem Attempts.raises (h : Attempts deps s .error s₁) (hids : (s.db.inbox.map InboxRow.id).Nodup) (times : Nat) :
    ∃ s₂, Alike s s₂ ∧ ∀ fuel s', Loops deps fuel s₂ s' → Loops deps (times + fuel) s s' := by
  induction times with
  | zero => exact ⟨s, rfl, fun fuel s' hrest => (Nat.zero_add fuel).symm ▸ hrest⟩
  | succ times ih =>
      obtain ⟨s₂, halike, hloops⟩ := ih
      obtain ⟨s₃, hattempts, -⟩ := h.alike halike
      have hdone := hattempts.done ((congrArg (List.map InboxRow.id) halike.inbox) ▸ hids)
      cases hdone with
      | consumed _ _ _ houtcome => rcases houtcome with h | h <;> cases h
      | raised _ hstill =>
          refine ⟨s₃, halike.trans hstill.alike, fun fuel s' hrest => ?_⟩
          rw [Nat.add_assoc, Nat.add_comm 1 fuel]
          exact hloops _ _ (.more .error (by decide) hattempts hrest)

/-- A loop reaches the end of the inbox, or spends all its fuel on rows that do not raise, or comes to a row
that does. -/
theorem Loops.cases_raised (h : Loops deps fuel s s') (hids : (s.db.inbox.map InboxRow.id).Nodup) :
    s'.unprocessed = 0 ∨ (s'.unprocessed + fuel = s.unprocessed ∧ ConsumesMany deps s s') ∨
      ∃ s₁ s₂ s₃, ConsumesMany deps s s₁ ∧ Attempts deps s₁ .error s₂ ∧ ConsumesMany deps s₁ s₃ ∧ Alike s₃ s' := by
  induction h with
  | spent s => exact Or.inr (Or.inl ⟨rfl, .refl⟩)
  | @empty fuel s s' hempty =>
      cases hempty.done hids with
      | empty _ hstill hnone =>
          refine Or.inl (List.countP_eq_zero.mpr fun row hrow => ?_)
          rw [hstill.db] at hrow
          simpa using hnone row hrow
      | consumed _ _ _ houtcome => rcases houtcome with h | h <;> cases h
  | @more fuel s mid s' outcome hmore hattempts hrest ih =>
      have hdone := hattempts.done hids
      rcases ih (hdone.ids ▸ hids) with hnone | ⟨hcount, hmany⟩ | ⟨s₁, s₂, s₃, hbefore, hraised, hafter, halike⟩
      · exact Or.inl hnone
      · cases hdone with
        | empty => exact absurd rfl hmore
        | raised _ hstill =>
            obtain ⟨s₃, hmany₃, halike₃⟩ := ConsumesMany.alike hmany hstill.alike.symm
            exact Or.inr (Or.inr ⟨s, mid, s₃, .refl, hattempts, hmany₃, halike₃.symm⟩)
        | consumed _ _ row houtcome =>
            have hconsumes : Consumes deps s mid := ⟨outcome, houtcome, hattempts⟩
            have hless := (hconsumes.unprocessed hids).1
            exact Or.inr (Or.inl ⟨by omega, .head hconsumes hmany⟩)
      · cases hdone with
        | empty => exact absurd rfl hmore
        | raised _ hstill =>
            obtain ⟨s₄, hbefore', halike₄⟩ := ConsumesMany.alike hbefore hstill.alike.symm
            obtain ⟨s₅, hraised', -⟩ := hraised.alike halike₄
            obtain ⟨s₆, hafter', halike₆⟩ := ConsumesMany.alike hafter halike₄
            exact Or.inr (Or.inr ⟨s₄, s₅, s₆, hbefore', hraised', hafter', halike₆.symm.trans halike⟩)
        | consumed _ _ row houtcome =>
            exact Or.inr (Or.inr ⟨s₁, s₂, s₃, .head ⟨outcome, houtcome, hattempts⟩ hbefore, hraised, hafter, halike⟩)

/-! ### The claim of the drain -/

end

/-- `parse_event` accepts the payload, and once the row is claimed its processing does not raise. -/
structure Processable (deps : Deps) (s : Shared) (row : InboxRow) : Prop where
  parses : ∃ event, parseEvent row.payload = .ok event
  ends : ∀ result state, Ends (solo fun _ => True) (processRow deps row)
    (s, some { startedAt := s.now, locks := [.inbox row.id] }) result state → ∃ outcome, result = .ok outcome

/-- However one drain goes, it marks every waiting row that can be processed. -/
def DrainsGoodRows (deps : Deps) (s : Shared) : Prop := ∀ result s' txn,
  Ends (solo fun _ => True) (processPendingInbox deps) (s, none) result (s', txn) →
    ∀ row ∈ s.db.inbox, row.processedAt = none → Processable deps s' row → Marked s' row.id

/-- Where the next row raises, no row that can be processed waits behind it. -/
def NoneBehind (deps : Deps) (s : Shared) : Prop := ∀ s₁ s₂ s₃, ConsumesMany deps s s₁ → Attempts deps s₁ .error s₂ →
  ConsumesMany deps s₁ s₃ → ∀ row ∈ s₃.db.inbox, row.processedAt = none → ¬ Processable deps s₃ row

section

variable {deps : Deps} {s s' s₁ s₂ s₃ : Shared} {row : InboxRow}

theorem Processable.alike (h : Processable deps s row) (halike : Alike s s') : Processable deps s' row where
  parses := h.parses
  ends result state hends := by
    have hnow : s.quiet.now = s'.quiet.now := by rw [show s'.quiet = s.quiet from halike]
    obtain ⟨state', hends', -⟩ := Ends.alike hends (s, some { startedAt := s.now, locks := [.inbox row.id] })
      halike.symm (by rw [show s.now = s'.now from hnow])
    exact h.ends result state' hends'

/-- A drain may spend its batch on a row that raises, and leave another one behind. -/
theorem exists_left_behind (hids : (s.db.inbox.map InboxRow.id).Nodup)
    (hbatch : s.unprocessed ≤ deps.settings.webhookProcessorBatchMax) (hbefore : ConsumesMany deps s s₁)
    (hraises : Attempts deps s₁ .error s₂) (hafter : ConsumesMany deps s₁ s₃) (hrow : row ∈ s₃.db.inbox)
    (hwaits : row.processedAt = none) (hgood : Processable deps s₃ row) : ¬ DrainsGoodRows deps s := by
  intro hdrains
  have hkept₁ := ConsumesMany.kept hbefore hids
  have hids₁ : (s₁.db.inbox.map InboxRow.id).Nodup := hkept₁.ids ▸ hids
  have hkept₃ := ConsumesMany.kept hafter hids₁
  obtain ⟨before, hcount₁, hloops₁⟩ := ConsumesMany.loops hbefore hids
  have hleft : 0 < s₃.unprocessed := List.countP_pos_iff.mpr ⟨row, hrow, by rw [hwaits]; rfl⟩
  -- the attempts left over are spent on the row that raises
  obtain ⟨after, hcount₃, -⟩ := ConsumesMany.loops hafter hids₁
  obtain ⟨s₁', halike₁, hraised⟩ := hraises.raises hids₁ (deps.settings.webhookProcessorBatchMax - before - after)
  obtain ⟨s₃', hafter', halike₃⟩ := ConsumesMany.alike hafter halike₁
  obtain ⟨after', hcount', hloops₃⟩ := ConsumesMany.loops hafter' (by rw [halike₁.inbox]; exact hids₁)
  have hsame : after' = after := by
    rw [Shared.unprocessed, Shared.unprocessed, halike₁.inbox, halike₃.inbox] at hcount'
    exact Nat.add_left_cancel (hcount'.trans hcount₃.symm)
  have hloops := hloops₁ _ _ (hraised _ _ (hloops₃ 0 _ (.spent s₃')))
  rw [show before + (deps.settings.webhookProcessorBatchMax - before - after + (after' + 0)) =
    deps.settings.webhookProcessorBatchMax by omega] at hloops
  obtain ⟨result, s', hends, halike'⟩ := processPendingInbox_ends hloops
  have hlast : Alike s₃ s' := halike₃.trans halike'
  have hmarked := hdrains result s' none hends row (hkept₁.waiting row (hkept₃.waiting row hrow hwaits) hwaits)
    hwaits (hgood.alike hlast)
  rw [Marked, hlast.inbox] at hmarked
  exact (hkept₁.trans hkept₃).not_marked hids hrow hwaits hmarked

/-- A drain that meets no such row leaves none behind. -/
theorem drainsGoodRows_of_noneBehind (hids : (s.db.inbox.map InboxRow.id).Nodup)
    (hbatch : s.unprocessed ≤ deps.settings.webhookProcessorBatchMax) (h : NoneBehind deps s) :
    DrainsGoodRows deps s := by
  intro result s' txn hends row hrow hwaits hgood
  obtain ⟨s₁, hloops, halike⟩ := Loops.of_processPendingInbox hids hends
  have hkept := hloops.kept hids
  rcases hkept.rows row hrow with hrow₁ | hmarked
  · have hleft : 0 < s₁.unprocessed := List.countP_pos_iff.mpr ⟨row, hrow₁, by rw [hwaits]; rfl⟩
    rcases hloops.cases_raised hids with hnone | ⟨hcount, -⟩ | ⟨s₂, s₃, s₄, hbefore, hraises, hafter, halike₄⟩
    · omega
    · omega
    · refine absurd (hgood.alike (halike₄.trans halike).symm) (h s₂ s₃ s₄ hbefore hraises hafter row ?_ hwaits)
      rw [← halike₄.inbox]
      exact hrow₁
  · rw [Marked, halike.inbox]
    exact hmarked

end

/-- The drain marks every row that can be processed, if and only if no row that raises stands in front of one. -/
theorem drains_good_rows_iff {deps : Deps} {sys : Sys} (hreachable : Reachable deps sys)
    (hbatch : sys.shared.unprocessed ≤ deps.settings.webhookProcessorBatchMax) :
    DrainsGoodRows deps sys.shared ↔ NoneBehind deps sys.shared := by
  have hids := hreachable.consistent.inboxIds
  refine ⟨?_, drainsGoodRows_of_noneBehind hids hbatch⟩
  intro hdrains s₁ s₂ s₃ hbefore hraises hafter row hrow hwaits hgood
  exact exists_left_behind hids hbatch hbefore hraises hafter hrow hwaits hgood hdrains

/-! ### Two rows -/

/-- An event about a handle that no call has is dropped, whatever happens. -/
theorem processable_of_unknown {deps : Deps} {s : Shared} {row : InboxRow} {event : ProviderEvent} {handle : Handle}
    (hparse : parseEvent row.payload = .ok event) (hhandle : event.providerCallId = .str handle)
    (hunknown : s.db.withHandle handle = []) : Processable deps s row where
  parses := ⟨event, hparse⟩
  ends result state hends := by
    have hleads : Leads (fun _ => True) (fun _ _ => True) (fun _ _ => False) (processRow deps row)
        (s, some { startedAt := s.now, locks := [.inbox row.id] }) := by
      rw [processRow, hparse]
      show Leads _ _ _ (getByProviderCallId event.providerCallId >>= _) _
      rw [hhandle]
      refine Leads.step (fun _ => rfl) fun choice reply s₁ txn₁ _ hexec => ?_
      obtain ⟨hreply, rfl, rfl⟩ := exec_select hexec
      replace hreply : reply = none := by
        rw [hreply]
        show Query.eval (s₁.db.apply _) _ _ _ = _
        rw [Db.apply_locks, Query.eval, hunknown]
        rfl
      subst hreply
      exact Leads.emitAudit fun _ _ _ _ _ => Leads.inside rfl fun _ _ _ _ _ _ _ => trivial
    cases result with
    | ok outcome => exact ⟨outcome, rfl⟩
    | error error => exact ((hleads.of_ends hends).2 error rfl).elim

/-- The row is about a handle that no call has. -/
def aboutNobody (db : Db) (row : InboxRow) : Bool :=
  match parseEvent row.payload with
  | .ok ⟨_, .str handle, _⟩ => (db.withHandle handle).isEmpty
  | _ => false

theorem processable_of_aboutNobody {deps : Deps} {s : Shared} {row : InboxRow} (h : aboutNobody s.db row = true) :
    Processable deps s row := by
  rw [aboutNobody] at h
  split at h
  · next hparse => exact processable_of_unknown hparse rfl (List.isEmpty_iff.mp h)
  · cases h

/-- What ingest accepts and `parse_event` does not. -/
def badPayload : Payload := [("provider_event_id", .str "bad")]

/-- The next attempt raises. -/
def raisesNext (s : Shared) : Bool :=
  match runAlone [] {} 5 (processOneRow noonDeps) s none with
  | some (.ok .error, _, none) => true
  | _ => false

theorem attempts_of_raisesNext {s : Shared} (h : raisesNext s = true) : ∃ s', Attempts noonDeps s .error s' := by
  rw [raisesNext] at h
  split at h
  · next s' hrun => exact ⟨s', .of_runAlone hrun⟩
  · cases h

/-- The bad row came first, and a drain need not get to the other one. -/
theorem bad_row_blocks : ∃ s, Reachable noonDeps s ∧
    s.shared.unprocessed ≤ noonDeps.settings.webhookProcessorBatchMax ∧ ¬ DrainsGoodRows noonDeps s.shared := by
  obtain ⟨s, hs, hp⟩ := Reachable.of_any noonDeps
    [.ingest badPayload 0 0, .ingest (webhook "good" "h" .completed) 1 1]
    (fun s => raisesNext s.shared && decide (s.shared.unprocessed ≤ noonDeps.settings.webhookProcessorBatchMax) &&
      s.shared.db.inbox.any fun row => row.processedAt.isNone && aboutNobody s.shared.db row) (by decide +kernel)
  simp only [Bool.and_eq_true, decide_eq_true_eq, List.any_eq_true, Option.isNone_iff_eq_none] at hp
  obtain ⟨⟨hraises, hbatch⟩, row, hrow, hwaits, hunknown⟩ := hp
  obtain ⟨s₂, hattempts⟩ := attempts_of_raisesNext hraises
  exact ⟨s, hs, hbatch, exists_left_behind hs.consistent.inboxIds hbatch .refl hattempts .refl hrow hwaits
    (processable_of_aboutNobody hunknown)⟩

/-- With nothing behind it, a bad row does no harm. -/
theorem drains_good_rows_bad_row_alone : ∃ s, Reachable noonDeps s ∧ s.shared.unprocessed = 1 ∧
    DrainsGoodRows noonDeps s.shared := by
  obtain ⟨s, hs, hp⟩ := Reachable.of_any noonDeps [.ingest badPayload 0 0]
    (fun s => decide (s.shared.unprocessed = 1) && s.shared.db.inbox.all fun row =>
      !(parseEvent row.payload).toBool) (by decide +kernel)
  rw [Bool.and_eq_true, decide_eq_true_eq, List.all_eq_true] at hp
  obtain ⟨hone, hbad⟩ := hp
  refine ⟨s, hs, hone, (drains_good_rows_iff hs (by rw [hone]; decide)).mpr ?_⟩
  intro s₁ s₂ s₃ hbefore _ hafter row hrow hwaits hgood
  have hkept := ConsumesMany.kept (hbefore.trans hafter) hs.consistent.inboxIds
  obtain ⟨event, hparse⟩ := hgood.parses
  have hnot := hbad row (hkept.waiting row hrow hwaits)
  rw [hparse] at hnot
  cases hnot

end VoiceCampaign

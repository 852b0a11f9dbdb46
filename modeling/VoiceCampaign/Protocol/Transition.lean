import VoiceCampaign.Protocol.Rules

/-!
# `transition` and the campaign side effects

The compare-and-set of `state.transition`, the roll-up that follows a terminal move and the promotion
that follows a claim leave a transaction that is fit to commit, whatever runs in between.
-/

namespace VoiceCampaign

open Concurrency

/-- A later point of the same transaction, with nothing new written to the inbox. -/
structure Txn.Extends (t t' : Txn) : Prop where
  startedAt : t'.startedAt = t.startedAt
  locks : ∀ lock ∈ t.locks, lock ∈ t'.locks
  inbox : t'.inbox = t.inbox

theorem Txn.Extends.refl (t : Txn) : t.Extends t := ⟨rfl, fun _ h => h, rfl⟩

theorem Txn.Extends.trans {a b c : Txn} (hab : a.Extends b) (hbc : b.Extends c) : a.Extends c where
  startedAt := hbc.startedAt.trans hab.startedAt
  locks lock h := hbc.locks lock (hab.locks lock h)
  inbox := hbc.inbox.trans hab.inbox

/-- A fact that lasts while the transaction is open, whatever the others do. -/
def Txn.Protects {σ : Type} (t : Txn) (D : Discipline Stmt Reply σ Party) (task : Option Task)
    (K : σ → Prop) : Prop :=
  ∀ t' s s', t.Extends t' → D.rely ⟨task, some t'⟩ s s' → K s → K s'

theorem Txn.Protects.extend {σ : Type} {t t' : Txn} {D : Discipline Stmt Reply σ Party}
    {task : Option Task} {K : σ → Prop} (h : t.Protects D task K) (hextends : t.Extends t') :
    t'.Protects D task K :=
  fun t'' s s' hextends' => h t'' s s' (hextends.trans hextends')

section

variable {s s' : Shared} {task : Option Task} {t t' : Txn} {inbox : Option InboxRow}
  {before after : CallRow} {event : AuditEvent}

theorem Moves.extend (h : Moves s task t inbox before after event) (hextends : t.Extends t')
    (hcalls : t'.calls = t.calls) : Moves s task t' inbox before after event where
  cause := by
    rw [hextends.startedAt]
    exact h.cause
  row := h.row
  lock := hextends.locks _ h.lock
  calls := hcalls.trans h.calls
  phone := h.phone

theorem Folds.relock {folds : List AuditEvent} (h : Folds s t after folds)
    (hstarted : t'.startedAt = t.startedAt) (hlocks : ∀ lock ∈ t.locks, lock ∈ t'.locks)
    (hcampaigns : t'.campaigns = t.campaigns) : Folds s t' after folds := by
  cases h with
  | still hnone hcampaign hlive =>
      exact .still (hcampaigns.trans hnone) hcampaign fun hterminal =>
        ⟨hlocks _ (hlive hterminal).1, (hlive hterminal).2⟩
  | promoted campaign hrow hpending hlock hlive hone =>
      exact .promoted campaign hrow hpending (hlocks _ hlock) hlive (by rw [hcampaigns, hone, hstarted])
  | rolledUp campaign counts hrow hactive hterminal hlast hcounts hone =>
      exact .rolledUp campaign counts hrow hactive hterminal
        ⟨hlocks _ hlast.lock, hlast.campaign, hlast.others⟩ hcounts (by rw [hcampaigns, hone, hstarted])

theorem Marks.extend (h : Marks s task t inbox) (hextends : t.Extends t') :
    Marks s task t' inbox := by
  cases h with
  | unmarked hinbox => exact .unmarked (hextends.inbox.trans hinbox)
  | marked row htask hrow hunprocessed hlock hinbox =>
      exact .marked row htask hrow hunprocessed (hextends.locks _ hlock)
        (by rw [hextends.inbox, hinbox, hextends.startedAt])

/-- The rows of the call table as the transaction sees them. -/
theorem Moves.mem_apply (h : Moves s task t inbox before after event) {row : CallRow} :
    row ∈ (s.db.apply t).calls ↔ row = after ∨ (row ∈ s.db.calls ∧ row.id ≠ after.id) :=
  h.mem_commit

theorem Ready.extend (h : Ready s task t) (hextends : t.Extends t') (hcalls : t'.calls = t.calls)
    (hcampaigns : t'.campaigns = t.campaigns) (haudit : t'.audit = t.audit) : Ready s task t' := by
  cases h with
  | quiet inbox hnone hstill hmarks hnotes =>
      exact .quiet inbox (hcalls.trans hnone) (hcampaigns.trans hstill) (hmarks.extend hextends)
        (haudit ▸ hnotes)
  | moves inbox before after event folds hmoves hfolds hmarks hevents =>
      exact .moves inbox before after event folds (hmoves.extend hextends hcalls)
        (hfolds.relock hextends.startedAt hextends.locks hcampaigns) (hmarks.extend hextends)
        (haudit ▸ hevents)

/-- The campaign of a call that was claimed before has started. -/
theorem Moves.campaign_started (h : Moves s task t inbox before after event) (hinv : Consistent s)
    (hstarted : 0 < before.attemptEpoch) :
    ∃ campaign, s.db.campaign? after.campaignId = some campaign ∧ campaign.status ≠ .pending := by
  obtain ⟨campaign, hcampaign, hmem, hid⟩ := hinv.campaign_of_call h.before_mem
  rw [h.campaignId]
  exact ⟨campaign, hcampaign, hinv.not_pending h.before_mem hstarted hmem hid⟩

/-- What the transaction counts as live calls of the campaign. -/
theorem Moves.countActive (h : Moves s task t inbox before after event) (hinv : Consistent s)
    (hterminal : after.status.isTerminal = true) :
    0 < (s.db.apply t).countActive after.campaignId ↔ ∃ id other, s.db.call? id = some other ∧
      other.campaignId = after.campaignId ∧ id ≠ after.id ∧ other.status.isTerminal = false := by
  rw [Db.countActive, List.countP_pos_iff]
  constructor
  · rintro ⟨row, hrow, hlive⟩
    rw [Bool.and_eq_true, decide_eq_true_eq, Bool.not_eq_true'] at hlive
    rcases h.mem_apply.mp hrow with rfl | ⟨hmem, hne⟩
    · rw [hterminal] at hlive
      cases hlive.2
    · exact ⟨row.id, row, hinv.call?_of_mem hmem, hlive.1, hne, hlive.2⟩
  · rintro ⟨id, other, hother, howner, hne, hlive⟩
    obtain ⟨hmem, rfl⟩ := hinv.call?_iff.mp hother
    exact ⟨other, h.mem_apply.mpr (Or.inr ⟨hmem, hne⟩), by simp [howner, hlive]⟩

theorem Moves.countCompleted (h : Moves s task t inbox before after event) (hinv : Consistent s) :
    0 < ((s.db.apply t).terminalAggregate after.campaignId).completed ↔ CompletedIn s after := by
  show 0 < (s.db.apply t).countStatus after.campaignId .completed ↔ _
  rw [Db.countStatus, List.countP_pos_iff]
  constructor
  · rintro ⟨row, hrow, hcompleted⟩
    rw [Bool.and_eq_true, decide_eq_true_eq, decide_eq_true_eq] at hcompleted
    rcases h.mem_apply.mp hrow with rfl | ⟨hmem, hne⟩
    · exact Or.inl hcompleted.2
    · exact Or.inr ⟨row.id, row, hinv.call?_of_mem hmem, hcompleted.1, hne, hcompleted.2⟩
  · rintro (hcompleted | ⟨id, other, hother, howner, hne, hcompleted⟩)
    · exact ⟨after, h.mem_apply.mpr (Or.inl rfl), by simp [hcompleted]⟩
    · obtain ⟨hmem, rfl⟩ := hinv.call?_iff.mp hother
      exact ⟨other, h.mem_apply.mpr (Or.inr ⟨hmem, hne⟩), by simp [howner, hcompleted]⟩

/-- A moved call, with its campaign taken care of. -/
structure Settled (s : Shared) (task : Option Task) (t : Txn) (inbox : Option InboxRow)
    (before after : CallRow) (event : AuditEvent) : Prop where
  moves : Moves s task t inbox before after event
  folds : ∃ folds, Folds s t after folds ∧ t.audit.map AuditRow.event = event :: folds

theorem Settled.lasts (h : Settled s task t inbox before after event)
    (hrely : Rely ⟨task, some t⟩ s s') : Settled s' task t inbox before after event := by
  obtain ⟨folds, hfolds, haudit⟩ := h.folds
  exact ⟨h.moves.lasts hrely, folds, hfolds.lasts hrely, haudit⟩

theorem Settled.ready (h : Settled s task t inbox before after event)
    (hmarks : Marks s task t inbox) : Ready s task t := by
  obtain ⟨folds, hfolds, haudit⟩ := h.folds
  exact .moves inbox before after event folds h.moves hfolds hmarks haudit

end

section

variable {σ : Type} {D : Discipline Stmt Reply σ Party} {view : σ → Shared}
  {s : σ} {l : Party}
  {t : Txn} {inbox : Option InboxRow} {before after : CallRow} {event : AuditEvent}
  {K : σ → Prop}

/-- `maybe_transition_campaign_terminal` after a terminal move of one of the campaign's calls. -/
theorem maybeTransitionCampaignTerminal_safe (hD : Above D view) (htxn : l.txn = some t)
    (hmoves : Moves (view s) l.task t inbox before after event) (hstarted : 0 < before.attemptEpoch)
    (hterminal : after.status.isTerminal = true) (hcampaigns : t.campaigns = [])
    (haudit : t.audit.map AuditRow.event = [event]) (hK : t.Protects D l.task K) (hheld : K s) :
    D.Safe (fun _ s' l' => l'.task = l.task ∧ ∃ t', l'.txn = some t' ∧ t.Extends t' ∧ K s' ∧
        Settled (view s') l.task t' inbox before after event) (fun _ _ _ => False)
      (maybeTransitionCampaignTerminal after.campaignId) s l := by
  obtain ⟨task, txn⟩ := l
  obtain rfl : txn = some t := htxn
  unfold maybeTransitionCampaignTerminal
  -- the campaign lock
  refine hD.step nofun (fun _ _ _ => trivial)
    fun others choice reply s₁ s₂ txn hs₁ hinv hinv₂ hrely hsteady hdb hexec hrun => ?_
  obtain ⟨-, -, htxn⟩ := exec_lockCampaign hrun
  generalize ht₁ : ({ t with locks := .campaign after.campaignId :: t.locks } : Txn) = t₁ at htxn
  subst htxn
  have hextends : t.Extends t₁ := by
    subst ht₁
    exact ⟨rfl, fun _ h => List.mem_cons_of_mem _ h, rfl⟩
  have hlock : RowLock.campaign after.campaignId ∈ t₁.locks := by
    subst ht₁
    exact List.mem_cons_self
  have hmoves₂ : Moves (view s₂) task t₁ inbox before after event :=
    (hmoves.lasts hrely).extend hextends (by rw [← ht₁])
  replace hcampaigns : t₁.campaigns = [] := by rw [← ht₁, ← hcampaigns]
  replace haudit : t₁.audit.map AuditRow.event = [event] := by rw [← ht₁, ← haudit]
  have hheld₂ := hK t _ _ (.refl t) hsteady hheld
  have hK₁ := hK.extend hextends
  -- the count of live calls
  refine hD.selectIn rfl fun pick s₃ hinv₃ hrely₃ hsteady₃ => ?_
  have hheld₃ := hK₁ t₁ _ _ (.refl t₁) hsteady₃ hheld₂
  have hmoves₃ := hmoves₂.lasts hrely₃
  have hcampaign := hmoves₃.campaign_started (hD.inv hinv₃) hstarted
  have hcount := hmoves₃.countActive (hD.inv hinv₃) hterminal
  split
  · next hactive =>
      intro s₄ hs₄ hinv₄
      refine ⟨rfl, t₁, rfl, hextends, hK₁ t₁ _ _ (.refl t₁) hs₄ hheld₃, ?_⟩
      refine Settled.lasts ?_ (hD.rely hs₄)
      exact ⟨hmoves₃, [], .still hcampaigns hcampaign fun _ => ⟨hlock, Or.inr (hcount.mp hactive)⟩, haudit⟩
  next hidle =>
  have hlast₃ : LastOne (view s₃) t₁ after := by
    refine ⟨hlock, ⟨hcampaign.choose, hcampaign.choose_spec.1⟩, fun id other hother howner hne => ?_⟩
    by_contra hlive
    rw [Bool.not_eq_true] at hlive
    exact hidle (hcount.mpr ⟨id, other, hother, howner, hne, hlive⟩)
  -- the counts by terminal status
  refine hD.selectIn rfl fun pick s₄ hinv₄ hrely₄ hsteady₄ => ?_
  have hheld₄ := hK₁ t₁ _ _ (.refl t₁) hsteady₄ hheld₃
  have hmoves₄ := hmoves₃.lasts hrely₄
  have hlast₄ := (hlast₃.lasts hrely₄).1
  have hcompleted₄ := hmoves₄.countCompleted (hD.inv hinv₄)
  generalize hcounts : Query.eval _ _ _ (.terminalAggregate after.campaignId) = counts
  replace hcompleted₄ : 0 < counts.completed ↔ CompletedIn (view s₄) after := hcounts ▸ hcompleted₄
  -- the guarded update of the campaign
  refine hD.step nofun (fun _ _ _ => trivial) fun others choice reply s₅ s₆ txn hs₅ hinv₅ hinv₆ hrely₆ hsteady₆ hdb₆ hexec hrun => ?_
  have hheld₆ := hK₁ t₁ _ _ (.refl t₁) hsteady₆ hheld₄
  have hmoves₆ := hmoves₄.lasts hrely₆
  obtain ⟨hlast₆, hsame₆⟩ := hlast₄.lasts hrely₆
  have hcampaign₆ := hmoves₆.campaign_started (hD.inv hinv₆) hstarted
  have hfind : ((view s₅).db.apply t₁).campaign? after.campaignId =
      (view s₆).db.campaign? after.campaignId := by
    rw [hdb₆]
    exact Shared.campaign?_commit_nil hcampaigns _
  obtain ⟨-, ⟨rfl, htxn, hnot⟩ | ⟨campaign, hrow, hactive, -, rfl, htxn⟩⟩ := exec_updateCampaign hrun
  · -- not `ACTIVE`: the campaign had folded before, since a call of it was claimed
    subst htxn
    intro s₇ hs₇ hinv₇
    refine ⟨rfl, t₁, rfl, hextends, hK₁ t₁ _ _ (.refl t₁) hs₇ hheld₆, ?_⟩
    refine Settled.lasts ?_ (hD.rely hs₇)
    obtain ⟨campaign, hrow, hpending⟩ := hcampaign₆
    have hactive := hnot campaign (hfind.trans hrow)
    have hterminal' : campaign.status.isTerminal = true := by
      cases hstatus : campaign.status with
      | pending => exact absurd hstatus hpending
      | active => exact absurd hstatus hactive
      | completed => rfl
      | failed => rfl
    exact ⟨hmoves₆, [], .still hcampaigns ⟨campaign, hrow, hpending⟩
      fun _ => ⟨hlock, Or.inl ⟨campaign, hrow, hterminal'⟩⟩, haudit⟩
  · rw [hcampaigns, put_nil] at htxn
    generalize ht₂ : ({ t₁ with
      locks := .campaign after.campaignId :: t₁.locks
      campaigns := [campaign.moved counts.target t₁.startedAt] } : Txn) = t₂ at htxn
    subst htxn
    rw [if_pos rfl]
    refine hD.emitAudit_last rfl fun row s₇ hevent hinv₇ hrely₇ hsteady₇ s₈ hs₈ hinv₈ => ?_
    have hlocks : ∀ lock ∈ t₁.locks, lock ∈ t₂.locks := by
      subst ht₂
      exact fun lock h => List.mem_cons_of_mem _ h
    have hextends₂ : t₁.Extends t₂ := ⟨by rw [← ht₂], hlocks, by rw [← ht₂]⟩
    have hnote : t₂.Extends { t₂ with audit := t₂.audit ++ [row] } := ⟨rfl, fun _ h => h, rfl⟩
    have hheld₇ := hK₁ t₂ _ _ hextends₂ hsteady₇ hheld₆
    refine ⟨rfl, _, rfl, hextends.trans (hextends₂.trans hnote),
      hK₁ _ _ _ (hextends₂.trans hnote) hs₈ hheld₇, ?_⟩
    refine Settled.lasts ?_ (hD.rely hs₈)
    have hmoves₇ := (hmoves₆.extend hextends₂ (by rw [← ht₂])).lasts hrely₇
    have hlast₂ : LastOne (view s₆) t₂ after := ⟨hlocks _ hlock, hlast₆.campaign, hlast₆.others⟩
    have hlast₇ := hlast₂.lasts hrely₇
    refine ⟨hmoves₇.extend ⟨rfl, fun _ h => h, rfl⟩ rfl, _, .rolledUp campaign counts ?_ hactive
      hterminal ⟨hlast₇.1.lock, hlast₇.1.campaign, hlast₇.1.others⟩ ?_ ?_, ?_⟩
    · exact hrely₇.keepCampaign t₂ rfl _ (hlocks _ hlock) campaign (hfind.symm.trans hrow)
    · exact hcompleted₄.trans (hsame₆.symm.trans hlast₇.2.symm)
    · rw [← ht₂]
      rfl
    · rw [List.map_append, List.map_singleton, hevent, ← ht₂]
      show t₁.audit.map AuditRow.event ++ _ = _
      rw [haudit]
      rfl

/-- `maybe_promote_to_active` after a claim of one of the campaign's calls. -/
theorem maybePromoteToActive_safe (hD : Above D view) (htxn : l.txn = some t)
    (hmoves : Moves (view s) l.task t inbox before after event)
    (hlive : after.status.isTerminal = false) (hcampaigns : t.campaigns = [])
    (haudit : t.audit.map AuditRow.event = [event]) (hK : t.Protects D l.task K) (hheld : K s) :
    D.Safe (fun _ s' l' => l'.task = l.task ∧ ∃ t', l'.txn = some t' ∧ t.Extends t' ∧ K s' ∧
        Settled (view s') l.task t' inbox before after event) (fun _ _ _ => False)
      (maybePromoteToActive after.campaignId) s l := by
  obtain ⟨task, txn⟩ := l
  obtain rfl : txn = some t := htxn
  unfold maybePromoteToActive
  refine hD.step nofun (fun _ _ _ => trivial)
    fun others choice reply s₁ s₂ txn hs₁ hinv hinv₂ hrely hsteady hdb hexec hrun => ?_
  have hheld₂ := hK t _ _ (.refl t) hsteady hheld
  have hmoves₂ := hmoves.lasts hrely
  have hfind : ((view s₁).db.apply t).campaign? after.campaignId =
      (view s₂).db.campaign? after.campaignId := by
    rw [hdb]
    exact Shared.campaign?_commit_nil hcampaigns _
  obtain ⟨-, ⟨rfl, htxn, hnot⟩ | ⟨campaign, hrow, hpending, -, rfl, htxn⟩⟩ := exec_updateCampaign hrun
  · subst htxn
    intro s₃ hs₃ hinv₃
    refine ⟨rfl, t, rfl, .refl t, hK t _ _ (.refl t) hs₃ hheld₂,
      Settled.lasts ?_ (hD.rely hs₃)⟩
    obtain ⟨campaign, hcampaign, hmem, hid⟩ := (hD.inv hinv₂).campaign_of_call hmoves₂.before_mem
    rw [← hmoves₂.campaignId] at hcampaign
    refine ⟨hmoves₂, [], .still hcampaigns
      ⟨campaign, hcampaign, hnot campaign (hfind.trans hcampaign)⟩ fun hterminal => ?_, haudit⟩
    rw [hlive] at hterminal
    cases hterminal
  · rw [hcampaigns, put_nil] at htxn
    generalize ht₁ : ({ t with
      locks := .campaign after.campaignId :: t.locks
      campaigns := [campaign.moved .active t.startedAt] } : Txn) = t₁ at htxn
    subst htxn
    rw [if_pos rfl]
    refine hD.emitAudit_last rfl fun row s₃ hevent hinv₃ hrely₃ hsteady₃ s₄ hs₄ hinv₄ => ?_
    have hlocks : ∀ lock ∈ t.locks, lock ∈ t₁.locks := by
      subst ht₁
      exact fun lock h => List.mem_cons_of_mem _ h
    have hlock : RowLock.campaign after.campaignId ∈ t₁.locks := by
      subst ht₁
      exact List.mem_cons_self
    have hextends : t.Extends t₁ := ⟨by rw [← ht₁], hlocks, by rw [← ht₁]⟩
    have hnote : t₁.Extends { t₁ with audit := t₁.audit ++ [row] } := ⟨rfl, fun _ h => h, rfl⟩
    have hheld₃ := hK t₁ _ _ hextends hsteady₃ hheld₂
    refine ⟨rfl, _, rfl, hextends.trans hnote,
      hK _ _ _ (hextends.trans hnote) hs₄ hheld₃, ?_⟩
    refine Settled.lasts ?_ (hD.rely hs₄)
    have hmoves₃ := (hmoves₂.extend hextends (by rw [← ht₁])).lasts hrely₃
    refine ⟨hmoves₃.extend ⟨rfl, fun _ h => h, rfl⟩ rfl, _, .promoted campaign ?_ hpending hlock
      hlive ?_, ?_⟩
    · exact hrely₃.keepCampaign t₁ rfl _ hlock campaign (hfind.symm.trans hrow)
    · rw [← ht₁]
      rfl
    · rw [List.map_append, List.map_singleton, hevent, ← ht₁]
      show t.audit.map AuditRow.event ++ _ = _
      rw [haudit]
      rfl

end

/-! ### `transition` -/

/-- Nothing at all has been written. -/
structure Txn.Blank (t : Txn) : Prop extends Txn.Fresh t where
  inbox : t.inbox = []

theorem Txn.Blank.ready {t : Txn} (h : t.Blank) (s : Shared) (task : Option Task) : Ready s task t := by
  refine .quiet none h.calls h.campaigns (.unmarked h.inbox) ?_
  rw [h.audit]
  exact List.forall_mem_nil _

theorem Txn.Fresh.db_calls {t : Txn} (h : t.Fresh) (db : Db) : (db.apply t).calls = db.calls := by
  show overlay CallRow.id t.calls db.calls = _
  rw [h.calls, overlay_nil]

section

variable {σ : Type} {D : Discipline Stmt Reply σ Party} {view : σ → Shared}
  {s : σ} {l : Party}
  {t : Txn} {inbox : Option InboxRow} {args : Transition} {K : σ → Prop}

/-- The first row version of a transaction is a move, if there is a cause for it. -/
theorem Writes.moves {s : Shared} {task : Option Task} {others : List Txn} {version row : CallRow}
    {t t' : Txn} {event : AuditEvent} (h : Writes others s.db t version t') (hfresh : t.Fresh)
    (hinv : Consistent s) (hcause : Cause s task inbox t.startedAt row version event)
    (hrow : row ∈ (s.db.apply t).calls) : Moves s task t' inbox row version event := by
  have hid : version.id = row.id := hcause.evolves.id
  rw [hfresh.db_calls] at hrow
  rw [h.txn]
  refine ⟨hcause, hid ▸ hinv.call?_of_mem hrow, List.mem_cons_self, ?_, ?_⟩
  · rw [hfresh.calls, put_nil]
  · intro hholds id other hother hne hholds' hphone
    obtain ⟨hmem, rfl⟩ := hinv.call?_iff.mp hother
    have huntaken := h.untaken hholds
    rw [phoneTaken, hfresh.db_calls, List.any_eq_false] at huntaken
    exact huntaken other hmem (by simp [hne, hphone, hholds'])

/-- How `transition` ends: with the row moved and its campaign taken care of, with a compare-and-set
that found no row, or turned away by the terminal guard. -/
inductive TransitionEnds (D : Discipline Stmt Reply σ Party) (view : σ → Shared) (l : Party) (t : Txn)
    (inbox : Option InboxRow) (args : Transition) (K : σ → Prop) (s' : σ) (t' : Txn) :
    TransitionResult → Prop
  | applied (before : CallRow) (others : List Party) (s₀ s₁ : σ) (l₁ : Party) (hinv : D.inv s₀)
      (hheld : K s₀) (hrow : (view s₀).db.call? before.id = some before) (hhits : args.hits before = true)
      (hregresses : args.regresses = false)
      (hexec : D.exec others s₀ l (.updateCall args.toCallUpdate)
        (.ok (some (args.set t.startedAt before))) s₁ l₁) (hlater : D.Later s₁ s')
      (hsettled : Settled (view s') l.task t' inbox before (args.set t.startedAt before)
        (args.auditEvent (args.set t.startedAt before))) :
      TransitionEnds D view l t inbox args K s' t' (.applied (args.set t.startedAt before))
  | noOp (others : List Party) (s₀ s₁ : σ) (hinv : D.inv s₀) (hheld : K s₀)
      (hasks : Asks (view s₀) l.task inbox args) (hregresses : args.regresses = false)
      (hmissed : ∀ row ∈ (view s₀).db.calls, args.hits row = false)
      (hexec : D.exec others s₀ l (.updateCall args.toCallUpdate) (.ok none) s₁ l)
      (hlater : D.Later s₁ s') :
      TransitionEnds D view l t inbox args K s' t' .noOp
  | terminalRegression (hregresses : args.regresses = true) :
      TransitionEnds D view l t inbox args K s' t' .terminalRegression

theorem transition_safe (hD : Above D view) (htxn : l.txn = some t) (hfresh : t.Fresh)
    (hasks : Asks (view s) l.task inbox args) (hK : t.Protects D l.task K) (hheld : K s) :
    D.Safe (fun result s' l' => l'.task = l.task ∧ ∃ t', l'.txn = some t' ∧ t.Extends t' ∧ K s' ∧
        (result.isNoOp = true → t' = t) ∧ TransitionEnds D view l t inbox args K s' t' result)
      (fun _ _ l' => l'.task = l.task) (transition args) s l := by
  obtain ⟨task, txn⟩ := l
  obtain rfl : txn = some t := htxn
  unfold transition
  split
  · next hregresses =>
      exact fun s₁ hs₁ _ => ⟨rfl, t, rfl, .refl t, hK t _ _ (.refl t) hs₁ hheld,
        fun _ => rfl, .terminalRegression hregresses⟩
  next hregresses =>
  rw [Bool.not_eq_true] at hregresses
  refine hD.step nofun (fun s₁ hs₁ _ => ⟨t, inbox, args, rfl, hfresh, rfl,
      hasks.mono (hD.rely hs₁).toGrows⟩)
    fun others choice reply s₁ s₂ txn hs₁ hinv hinv₂ hrely hsteady hdb hexec hrun => ?_
  have hheld₁ := hK t _ _ (.refl t) hs₁ hheld
  have hheld₂ := hK t _ _ (.refl t) hsteady hheld
  obtain ⟨-, houtcome⟩ := exec_updateCall hrun
  cases houtcome with
  | missed hnone =>
      rw [hfresh.db_calls] at hnone
      intro s₃ hs₃ _
      refine ⟨rfl, t, rfl, .refl t, hK t _ _ (.refl t) hs₃ hheld₂, fun _ => rfl,
        .noOp others s₁ s₂ hinv hheld₁ (hasks.mono (hD.rely hs₁).toGrows) hregresses
          (fun row hrow => ?_) hexec (.rely .refl hs₃)⟩
      exact Bool.eq_false_iff.mpr (hnone row hrow)
  | violated => exact fun _ _ _ => rfl
  | written row t₁ hrow hhits hwrites =>
      have hcause : Cause (view s₂) task inbox t.startedAt row _ _ :=
        .cas args (hasks.mono hrely.toGrows) hhits hregresses
      rw [← hdb] at hrow hwrites
      have hmoves := hwrites.moves hfresh (hD.inv hinv₂) hcause hrow
      have ht₁ := hwrites.txn
      have hextends : t.Extends t₁ := by
        rw [ht₁]
        exact ⟨rfl, fun _ h => List.mem_cons_of_mem _ h, rfl⟩
      have hstarted := hasks.mono hrely.toGrows |>.started ((hD.inv hinv₂).sound row hmoves.before_mem) hhits
      have hfound : (view s₁).db.call? row.id = some row := by
        rw [← hdb]
        exact (hD.inv hinv₂).call?_of_mem hmoves.before_mem
      refine (?body : D.Safe (fun result s' l' => l'.task = task ∧ ∃ t', l'.txn = some t' ∧ t.Extends t' ∧
        K s' ∧ result = .applied (args.set t.startedAt row) ∧
        Settled (view s') task t' inbox row (args.set t.startedAt row)
          (args.auditEvent (args.set t.startedAt row))) (fun _ _ l' => l'.task = task) _ s₂
            ⟨task, some t₁⟩).later.mono ?ends fun _ _ _ _ h => h
      case ends =>
        rintro result s' l' _ ⟨⟨htask, t', htxn, hextends', hheld', rfl, hsettled⟩, hlater⟩
        exact ⟨htask, t', htxn, hextends', hheld', nofun, .applied row others s₁ s₂ _ hinv hheld₁ hfound hhits
          hregresses hexec hlater hsettled⟩
      show D.Safe _ _ (emitAudit _ >>= _) _ _
      refine hD.emitAudit rfl fun auditRow s₃ hevent hinv₃ hrely₃ hsteady₃ => ?_
      have hheld₃ := hK t₁ _ _ hextends hsteady₃ hheld₂
      have hnote : t₁.Extends { t₁ with audit := t₁.audit ++ [auditRow] } := ⟨rfl, fun _ h => h, rfl⟩
      have hK₁ := hK.extend (hextends.trans hnote)
      have hmoves₃ := (hmoves.lasts hrely₃).extend hnote rfl
      have haudit : ({ t₁ with audit := t₁.audit ++ [auditRow] } : Txn).audit.map AuditRow.event =
          [args.auditEvent (args.set t.startedAt row)] := by
        rw [ht₁]
        show (t.audit ++ [auditRow]).map AuditRow.event = _
        rw [hfresh.audit, List.nil_append, List.map_singleton, hevent]
      have hcampaigns : ({ t₁ with audit := t₁.audit ++ [auditRow] } : Txn).campaigns = [] := by
        rw [ht₁]
        exact hfresh.campaigns
      split
      · next hterminal =>
          refine .bind (maybeTransitionCampaignTerminal_safe
            (l := ⟨task, some { t₁ with audit := t₁.audit ++ [auditRow] }⟩) hD rfl hmoves₃ hstarted
            hterminal hcampaigns haudit hK₁ hheld₃ |>.mono (fun _ _ _ _ h => h) (fun _ _ _ _ h => h.elim)) ?_
          rintro ⟨⟩ s₄ ⟨task₄, txn₄⟩ hinv₄ ⟨rfl, t', rfl, hextends', hheld₄, hsettled⟩
          intro s₅ hs₅ _
          exact ⟨rfl, t', rfl, hextends.trans (hnote.trans hextends'),
            hK₁ t' _ _ hextends' hs₅ hheld₄, rfl, hsettled.lasts (hD.rely hs₅)⟩
      · next hlive =>
          intro s₄ hs₄ _
          refine ⟨rfl, _, rfl, hextends.trans hnote, hK₁ _ _ _ (.refl _) hs₄ hheld₃, rfl,
            Settled.lasts ?_ (hD.rely hs₄)⟩
          exact ⟨hmoves₃, [], .still hcampaigns (hmoves₃.campaign_started (hD.inv hinv₃) hstarted)
            fun hterminal => absurd hterminal hlive, haudit⟩

/-- The end of a `transition` in a transaction of its own is fit to commit. -/
theorem TransitionEnds.ready {s' : σ} {t' : Txn} {result : TransitionResult} (hblank : t.Blank)
    (hextends : t.Extends t') (hsame : result.isNoOp = true → t' = t)
    (h : TransitionEnds D view l t none args K s' t' result) : Ready (view s') l.task t' := by
  cases h with
  | applied before others s₀ s₁ l₁ hinv hheld hrow hhits hregresses hexec hlater hsettled =>
      exact hsettled.ready (.unmarked (hextends.inbox.trans hblank.inbox))
  | noOp =>
      obtain rfl := hsame rfl
      exact hblank.ready _ _
  | terminalRegression =>
      obtain rfl := hsame rfl
      exact hblank.ready _ _

end

end VoiceCampaign

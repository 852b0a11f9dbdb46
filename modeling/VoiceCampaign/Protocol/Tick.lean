import VoiceCampaign.Protocol.Transition
import VoiceCampaign.Model.Tick

/-!
# The tick

The text of `tick` under interference. What a discipline knows about a campaign below its cap when the
counts are read (`gate`) is carried through the skip rows and the requeue to the claim.
-/

namespace VoiceCampaign

open Concurrency

/-- A campaign as it was read, and the row it has become. -/
def Reads (s : Shared) (campaign : CampaignRow) : Prop :=
  ∃ row, s.db.campaign? campaign.id = some row ∧ campaign.Evolves row

theorem Reads.mono {s s' : Shared} {campaign : CampaignRow} (h : Reads s campaign) (hgrows : Grows s s') :
    Reads s' campaign := by
  obtain ⟨row, hrow, hevolves⟩ := h
  obtain ⟨row', hrow', hevolves'⟩ := hgrows.campaign _ row hrow
  exact ⟨row', hrow', hevolves.trans hevolves'⟩

section

variable {σ : Type} (D : Discipline Stmt Reply σ Party) (view : σ → Shared)

/-- The transaction has not claimed a call. -/
def Unclaimed (s : Shared) (t : Txn) : Prop :=
  t.calls = [] ∨ ∃ before after event, Moves s (some .tick) t none before after event ∧
    event.eventType ≠ .claimed

/-- What a discipline owes for the commits of a tick, given what it knows of a campaign that passed the
concurrency gate. -/
structure TickCommits (gate : CampaignRow → σ → Prop) : Prop where
  read : ∀ {s campaign ids}, D.inv s → Reads (view s) campaign → campaign.id ∈ ids →
    (view s).db.inFlightCountsByCampaign ids campaign.id < campaign.maxConcurrent → gate campaign s
  steady : ∀ {l s s' campaign}, l.task = some .tick → D.rely l s s' → gate campaign s → gate campaign s'
  still : ∀ {others s l t reply s' l'}, l.task = some .tick → l.txn = some t → D.inv s →
    Ready (view s) (some .tick) t → Unclaimed (view s) t → D.exec others s l .commit reply s' l' →
    D.guar l s s' ∧ ∀ campaign, gate campaign s → gate campaign s'
  claim : ∀ {others s l t campaign before event reply s' l'}, l.task = some .tick → l.txn = some t →
    D.inv s → gate campaign s → before.claimable campaign.id t.startedAt = true →
    Settled (view s) (some .tick) t none before (before.claim t.startedAt) event → t.inbox = [] →
    D.exec others s l .commit reply s' l' → D.guar l s s'

end

section

variable {σ : Type} {D : Discipline Stmt Reply σ Party} {view : σ → Shared}
  {gate : CampaignRow → σ → Prop} {s s' s'' : σ} {l : Party} {t : Txn}
  {inbox : Option InboxRow} {args : Transition} {K : σ → Prop}

/-- What is known of the campaigns below their caps is not lost. -/
def Keeps (gate : CampaignRow → σ → Prop) (s s' : σ) : Prop :=
  ∀ campaign, gate campaign s → gate campaign s'

theorem Keeps.refl (s : σ) : Keeps gate s s := fun _ h => h

theorem Keeps.trans (h : Keeps gate s s') (h' : Keeps gate s' s'') : Keeps gate s s'' :=
  fun campaign hgate => h' campaign (h campaign hgate)

theorem TickCommits.keeps (h : TickCommits D view gate) (htask : l.task = some .tick)
    (hsteady : D.rely l s s') : Keeps gate s s' := fun _ hgate => h.steady htask hsteady hgate

theorem TickCommits.protects (h : TickCommits D view gate) (t : Txn) (s : σ) :
    t.Protects D (some .tick) (Keeps gate s) :=
  fun t' _ _ _ hsteady hkeeps => hkeeps.trans (h.keeps (l := ⟨some .tick, some t'⟩) rfl hsteady)

/-- A transaction that claims nothing, under a discipline that lets it commit. -/
theorem TickCommits.transaction (hD : Above D view) (hcommits : TickCommits D view gate) {α : Type}
    {body : Co α} (htask : l.task = some .tick) (htxn : l.txn = none)
    (hbody : ∀ s₂ now, D.inv s₂ → Grows (view s) (view s₂) → D.Safe
      (fun _ s' l' => l'.task = some .tick ∧ Keeps gate s₂ s' ∧ ∃ t, l'.txn = some t ∧
        Ready (view s') (some .tick) t ∧ Unclaimed (view s') t)
      (fun _ _ l' => l'.task = some .tick) body s₂ ⟨some .tick, some { startedAt := now }⟩) :
    D.Safe (fun _ s' l' => l' = l ∧ Keeps gate s s') (fun _ _ l' => l' = l)
      (VoiceCampaign.transaction body) s l := by
  obtain ⟨task, txn⟩ := l
  obtain rfl : task = some .tick := htask
  obtain rfl : txn = none := htxn
  refine hD.transaction (M := fun _ s' l' => l'.task = some .tick ∧ Keeps gate s s' ∧
    ∃ t, l'.txn = some t ∧ Ready (view s') (some .tick) t ∧ Unclaimed (view s') t) rfl ?_ ?_
  · intro s₂ now hinv₂ hrely₂ hsteady₂
    refine (hbody s₂ now hinv₂ hrely₂.toGrows).mono ?_ fun _ _ _ _ h => h
    rintro v s' l' _ ⟨htask, hkeeps, hrest⟩
    exact ⟨htask, (hcommits.keeps (l := ⟨some .tick, none⟩) rfl hsteady₂).trans hkeeps, hrest⟩
  · rintro v s₁ ⟨task₁, txn₁⟩ hinv₁ ⟨rfl, hkeeps, t, rfl, hready, hunclaimed⟩
    refine ⟨rfl, fun others reply s₂ s₃ hs₂ hinv₂ hexec => ?_⟩
    have hrely := hD.rely hs₂
    have hunclaimed₂ : Unclaimed (view s₂) t := by
      rcases hunclaimed with hnil | ⟨before, after, event, hmoves, hevent⟩
      · exact Or.inl hnil
      · exact Or.inr ⟨before, after, event, hmoves.lasts hrely, hevent⟩
    obtain ⟨hguar, hkeeps₃⟩ := hcommits.still rfl rfl hinv₂ (hready.lasts hrely) hunclaimed₂ hexec
    exact ⟨hguar, fun s₄ hs₄ hinv₄ => ⟨rfl,
      (hkeeps.trans (hcommits.keeps (l := ⟨some .tick, some t⟩) rfl hs₂)).trans
        (Keeps.trans hkeeps₃ (hcommits.keeps (l := ⟨some .tick, none⟩) rfl hs₄))⟩⟩

/-- A skip row commits on its own. -/
theorem emitAlone_safe (hD : Above D view) (hcommits : TickCommits D view gate)
    (htask : l.task = some .tick) (htxn : l.txn = none) (event : AuditEvent)
    (hevent : event.isNote = true) :
    D.Safe (fun _ s' l' => l' = l ∧ Keeps gate s s') (fun _ _ l' => l' = l) (emitAlone event) s l := by
  refine hcommits.transaction hD htask htxn fun s₂ now hinv₂ hgrows₂ => ?_
  refine hD.emitAudit_last rfl fun row s₃ hrow hinv₃ hrely₃ hsteady₃ s₄ hs₄ hinv₄ => ?_
  refine ⟨rfl, ?_, _, rfl, .quiet none rfl rfl (.unmarked rfl) ?_, Or.inl rfl⟩
  · exact (hcommits.keeps (l := ⟨some .tick, some { startedAt := now }⟩) rfl hsteady₃).trans
      (hcommits.keeps (l := ⟨some .tick, some _⟩) rfl hs₄)
  · intro note hnote
    rw [List.nil_append] at hnote
    rw [List.mem_singleton.mp hnote, hrow]
    exact hevent

theorem forM_safe {α : Type} {f : α → Co Unit} (h : ∀ a s, D.inv s →
      D.Safe (fun _ s' l' => l' = l ∧ Keeps gate s s') (fun _ _ l' => l' = l) (f a) s l)
    (hkeeps : ∀ {s s'}, D.rely l s s' → Keeps gate s s') (items : List α) (s : σ) (hinv : D.inv s) :
    D.Safe (fun _ s' l' => l' = l ∧ Keeps gate s s') (fun _ _ l' => l' = l) (items.forM f) s l := by
  induction items generalizing s with
  | nil => exact fun s₁ hs₁ _ => ⟨rfl, hkeeps hs₁⟩
  | cons a rest ih =>
      show D.Safe _ _ (f a >>= fun _ => rest.forM f) s l
      refine .bind (h a s hinv) ?_
      rintro ⟨⟩ s' l' hinv' ⟨rfl, hfirst⟩
      refine (ih s' hinv').mono ?_ fun _ _ _ _ h => h
      rintro ⟨⟩ s'' l'' _ ⟨rfl, hrest⟩
      exact ⟨rfl, hfirst.trans hrest⟩

/-- `transition` inside a transaction of the tick. -/
theorem tickTransition_safe (hD : Above D view) (hcommits : TickCommits D view gate) {s₀ : σ}
    (htask : l.task = some .tick) (htxn : l.txn = some t) (hblank : t.Blank)
    (hasks : Asks (view s) (some .tick) none args) (hkeeps : Keeps gate s₀ s) :
    D.Safe (fun _ s' l' => l'.task = some .tick ∧ Keeps gate s₀ s' ∧ ∃ t', l'.txn = some t' ∧
        t'.inbox = [] ∧ Ready (view s') (some .tick) t' ∧ Unclaimed (view s') t')
      (fun _ _ l' => l'.task = some .tick) (transition args) s l := by
  obtain ⟨task, txn⟩ := l
  obtain rfl : task = some .tick := htask
  obtain rfl : txn = some t := htxn
  have hsafe := transition_safe (l := ⟨some .tick, some t⟩) hD rfl hblank.toFresh hasks
    (hcommits.protects t s₀) hkeeps
  refine hsafe.mono ?_ fun _ _ _ _ h => h
  rintro result s' l' _ ⟨htask, t', htxn, hextends, hkeeps', hsame, hends⟩
  refine ⟨htask, hkeeps', t', htxn, hextends.inbox.trans hblank.inbox,
    hends.ready hblank hextends hsame, ?_⟩
  cases hends with
  | applied before others s₀ s₁ l₁ hinv hheld hrow hhits hregresses hexec hlater hsettled =>
      refine Or.inr ⟨before, _, _, hsettled.moves, fun hclaimed => ?_⟩
      have htype := hasks.shape.eventType
      rw [show args.eventType = .claimed from hclaimed] at htype
      exact absurd htype (by decide)
  | noOp =>
      obtain rfl := hsame rfl
      exact Or.inl hblank.calls
  | terminalRegression =>
      obtain rfl := hsame rfl
      exact Or.inl hblank.calls

theorem requeueOldestRetryDue_safe (hD : Above D view) (hcommits : TickCommits D view gate)
    (htask : l.task = some .tick) (htxn : l.txn = none) (campaignId : CampaignId) :
    D.Safe (fun _ s' l' => l' = l ∧ Keeps gate s s') (fun _ _ l' => l' = l)
      (requeueOldestRetryDue campaignId) s l := by
  refine hcommits.transaction hD htask htxn fun s₂ now hinv₂ hgrows₂ => ?_
  have hblank : ({ startedAt := now } : Txn).Blank := ⟨⟨rfl, rfl, rfl⟩, rfl⟩
  refine hD.step nofun (fun _ _ _ => trivial) fun others choice reply s₃ s₄ txn hs₃ hinv₃ hinv₄ hrely hsteady hdb hexec hrun => ?_
  have hkeeps := hcommits.keeps (l := ⟨some .tick, some { startedAt := now }⟩) rfl hsteady
  obtain ⟨-, ⟨rfl, rfl⟩ | ⟨row, hrow, rfl, -, -, rfl⟩⟩ := exec_selectRetryDue hrun
  · intro s₅ hs₅ _
    refine ⟨rfl, hkeeps.trans (hcommits.keeps (l := ⟨some .tick, some _⟩) rfl hs₅),
      _, rfl, hblank.ready _ _, Or.inl rfl⟩
  · rw [hblank.db_calls, ← hdb] at hrow
    have hasks := Asks.retryDue row ((hD.inv hinv₄).seen_of_mem hrow)
    have hsafe := tickTransition_safe (l := ⟨some .tick, some { startedAt := now, locks := [.call row.id] }⟩)
      hD hcommits rfl rfl ⟨⟨rfl, rfl, rfl⟩, rfl⟩ hasks hkeeps
    refine .bind hsafe ?_
    rintro result s₅ ⟨task₅, txn₅⟩ hinv₅ ⟨rfl, hkeeps₅, t', rfl, hinbox, hready, hunclaimed⟩
    intro s₆ hs₆ _
    have hrely₆ := hD.rely hs₆
    refine ⟨rfl, hkeeps₅.trans (hcommits.keeps (l := ⟨some .tick, some t'⟩) rfl hs₆),
      t', rfl, hready.lasts hrely₆, ?_⟩
    rcases hunclaimed with hnil | ⟨before, after, event, hmoves, hevent⟩
    · exact Or.inl hnil
    · exact Or.inr ⟨before, after, event, hmoves.lasts hrely₆, hevent⟩

/-- Phase 1. -/
theorem claimPhase_safe (hD : Above D view) (hcommits : TickCommits D view gate)
    (htask : l.task = some .tick) (htxn : l.txn = none) {campaign : CampaignRow}
    (hcampaign : Reads (view s) campaign) (hgate : gate campaign s) :
    D.Safe (fun claimed s' l' => l' = l ∧ ∀ row ∈ claimed, Seen (view s') row ∧ row.campaignId = campaign.id)
      (fun _ _ l' => l' = l)
      (claimPhase campaign) s l := by
  obtain ⟨task, txn⟩ := l
  obtain rfl : task = some .tick := htask
  obtain rfl : txn = none := htxn
  let Done : Option CallRow → σ → Party → Prop := fun claimed s' l' => l'.task = some .tick ∧
    Keeps gate s s' ∧ ∃ t, l'.txn = some t ∧ t.inbox = [] ∧ ((claimed = none ∧ t.Blank) ∨
      ∃ before event, claimed = some (before.claim t.startedAt) ∧
        before.claimable campaign.id t.startedAt = true ∧
        Settled (view s') (some .tick) t none before (before.claim t.startedAt) event)
  refine hD.transaction (M := Done) rfl ?_ ?_
  · intro s₂ now hinv₂ hrely₂ hsteady₂
    have hkeeps₂ := hcommits.keeps (l := ⟨some .tick, none⟩) rfl hsteady₂
    have hblank : ({ startedAt := now } : Txn).Blank := ⟨⟨rfl, rfl, rfl⟩, rfl⟩
    refine hD.selectIn rfl fun pick s₃ hinv₃ hrely₃ hsteady₃ => ?_
    refine hD.selectIn rfl fun pick s₄ hinv₄ hrely₄ hsteady₄ => ?_
    refine hD.selectIn rfl fun pick s₅ hinv₅ hrely₅ hsteady₅ => ?_
    have hkeeps₅ : Keeps gate s s₅ := hkeeps₂.trans (hcommits.keeps
      (l := ⟨some .tick, some { startedAt := now }⟩) rfl
        (D.rely_trans hsteady₃ (D.rely_trans hsteady₄ hsteady₅)))
    refine hD.step nofun (fun _ _ _ => trivial) fun others choice reply s₆ s₇ txn hs₆ hinv₆ hinv₇ hrely₇ hsteady₇ hdb hexec
      hrun => ?_
    have hkeeps₇ := hkeeps₅.trans
      (hcommits.keeps (l := ⟨some .tick, some { startedAt := now }⟩) rfl hsteady₇)
    obtain ⟨-, houtcome⟩ := exec_claimNextQueued hrun
    cases houtcome with
    | missed hnone =>
        intro s₈ hs₈ _
        exact ⟨rfl, hkeeps₇.trans (hcommits.keeps (l := ⟨some .tick, some _⟩) rfl hs₈), _,
          rfl, rfl, Or.inl ⟨rfl, hblank⟩⟩
    | violated => exact fun _ _ _ => rfl
    | written row t₁ hrow hcandidate hwrites =>
        obtain ⟨howner, hqueued, -⟩ := Cause.claimable_queued hcandidate.1
        generalize hinFlight : Query.eval ((view s₄).db.apply _) _ _ (.inFlightCount _) = inFlight
        generalize hretries : Query.eval ((view s₃).db.apply _) _ _ .countRetriesDueSystem = retries
        generalize hcursor : Query.eval ((view s₅).db.apply _) _ _ (.getLastDispatchAt _) = cursor
        rw [← hdb] at hrow hwrites
        have hcause : Cause (view s₇) (some .tick) none now row (row.claim now)
            (claimedEvent campaign (row.claim now) inFlight retries cursor) :=
          .claim campaign inFlight retries cursor rfl rfl hcandidate.1
        have hmoves := hwrites.moves hblank.toFresh (hD.inv hinv₇) hcause hrow
        have ht₁ := hwrites.txn
        have hextends : ({ startedAt := now } : Txn).Extends t₁ := by
          rw [ht₁]
          exact ⟨rfl, fun _ h => List.mem_cons_of_mem _ h, rfl⟩
        refine hD.emitAudit rfl fun note s₈ hevent hinv₈ hrely₈ hsteady₈ => ?_
        have hnote : t₁.Extends { t₁ with audit := t₁.audit ++ [note] } := ⟨rfl, fun _ h => h, rfl⟩
        have hkeeps₈ := hcommits.protects { startedAt := now } s _ _ _ hextends hsteady₈ hkeeps₇
        have hmoves₈ := (hmoves.lasts hrely₈).extend hnote rfl
        have haudit : ({ t₁ with audit := t₁.audit ++ [note] } : Txn).audit.map AuditRow.event =
            [claimedEvent campaign (row.claim now) inFlight retries cursor] := by
          rw [ht₁]
          show [note.event] = _
          rw [hevent]
        have hcampaigns : ({ t₁ with audit := t₁.audit ++ [note] } : Txn).campaigns = [] := by rw [ht₁]
        have hdone : ∀ s' t', ({ startedAt := now } : Txn).Extends t' → Keeps gate s s' →
            Settled (view s') (some .tick) t' none row (row.claim now)
              (claimedEvent campaign (row.claim now) inFlight retries cursor) →
            Done (some (row.claim now)) s' ⟨some .tick, some t'⟩ := by
          intro s' t' hextends' hkeeps' hsettled
          have hnow : t'.startedAt = now := hextends'.startedAt
          refine ⟨rfl, hkeeps', t', rfl, hextends'.inbox, Or.inr ⟨row,
            claimedEvent campaign (row.claim now) inFlight retries cursor, ?_, ?_, ?_⟩⟩ <;> rw [hnow]
          · exact hcandidate.1
          · exact hsettled
        split
        · rw [← howner]
          refine .bind ((maybePromoteToActive_safe
            (l := ⟨some .tick, some { t₁ with audit := t₁.audit ++ [note] }⟩) hD rfl hmoves₈ rfl
            hcampaigns haudit (hcommits.protects _ s) hkeeps₈).mono (fun _ _ _ _ h => h)
            fun _ _ _ _ h => h.elim) ?_
          rintro ⟨⟩ s₉ ⟨task₉, txn₉⟩ hinv₉ ⟨rfl, t', rfl, hextends', hkeeps₉, hsettled⟩
          intro s₁₀ hs₁₀ _
          exact hdone s₁₀ t' (hextends.trans (hnote.trans hextends'))
            (hkeeps₉.trans (hcommits.keeps (l := ⟨some .tick, some t'⟩) rfl hs₁₀))
            (hsettled.lasts (hD.rely hs₁₀))
        · next hstarted =>
          -- a campaign that was not `PENDING` when the tick read it never is again
          obtain ⟨current, hcurrent, hevolves⟩ := hcampaign
          obtain ⟨current', hcurrent', hevolves'⟩ := (hrely₂.toGrows.trans <| hrely₃.toGrows.trans <|
            hrely₄.toGrows.trans <| hrely₅.toGrows.trans <| hrely₇.toGrows.trans hrely₈.toGrows).campaign
              _ current hcurrent
          intro s₉ hs₉ _
          refine hdone s₉ _ (hextends.trans hnote) (hkeeps₈.trans
            (hcommits.keeps (l := ⟨some .tick, some _⟩) rfl hs₉))
            (Settled.lasts ⟨hmoves₈, [], .still hcampaigns ⟨current', ?_, ?_⟩ nofun, haudit⟩ (hD.rely hs₉))
          · rw [← howner] at hcurrent'
            exact hcurrent'
          · exact fun hpending => hstarted ((hevolves.trans hevolves').pending hpending)
  · rintro claimed s₁ ⟨task₁, txn₁⟩ hinv₁ ⟨rfl, hkeeps, t, rfl, hinbox, hmid⟩
    refine ⟨rfl, fun others reply s₂ s₃ hs₂ hinv₂ hexec => ?_⟩
    have hrely₂ := hD.rely hs₂
    have hkeeps₂ := hkeeps.trans (hcommits.keeps (l := ⟨some .tick, some t⟩) rfl hs₂)
    rcases hmid with ⟨rfl, hblank⟩ | ⟨before, event, rfl, hclaimable, hsettled⟩
    · obtain ⟨hguar, -⟩ := hcommits.still rfl rfl hinv₂ (hblank.ready _ _) (Or.inl hblank.calls) hexec
      exact ⟨hguar, fun _ _ _ => ⟨rfl, nofun⟩⟩
    · replace hsettled := hsettled.lasts hrely₂
      refine ⟨hcommits.claim rfl rfl hinv₂ (hkeeps₂ _ hgate) hclaimable hsettled hinbox hexec,
        fun s₄ hs₄ hinv₄ => ⟨rfl, ?_⟩⟩
      rintro _ ⟨⟩
      obtain ⟨-, choice, hrun⟩ := hD.exec hexec
      obtain ⟨t', htxn', hview, -⟩ := exec_commit hrun
      obtain rfl := Option.some.inj htxn'
      have hinv₃ := (hsettled.ready (.unmarked hinbox)).consistent (hD.inv hinv₂)
      refine ⟨(hinv₃.seen_of_mem (hsettled.moves.mem_commit.mpr (Or.inl rfl))).mono ?_,
        (Cause.claimable_queued hclaimable).1⟩
      rw [← hview]
      exact (hD.rely hs₄).toGrows

/-- Phase 2: the handle returned was issued for the attempt that was claimed. -/
theorem placePhase_safe (hD : Above D view) (claimed : CallRow) :
    D.Safe (fun outcome s' l' => l' = l ∧ ∀ handle, outcome = .ok handle →
        ⟨⟨claimed.id, claimed.attemptEpoch⟩, handle, true⟩ ∈ (view s').issued) (fun _ _ l' => l' = l)
      (placePhase claimed) s l := by
  refine hD.step nofun (fun _ _ _ => trivial)
    fun others choice reply s₁ s₂ txn hs₁ hinv hinv₂ hrely hsteady hdb hexec hrun => ?_
  obtain ⟨rfl, hview, rfl⟩ := exec_placeCall hrun
  cases hplace : choice.place with
  | handle handle =>
      intro s₃ hs₃ _
      refine ⟨rfl, ?_⟩
      rintro _ ⟨⟩
      refine (hD.rely hs₃).issued _ ?_
      rw [hview]
      show _ ∈ choice.issue _ _
      rw [Choice.issue, hplace]
      exact List.mem_cons_self
  | rejected reasonCode => exact fun _ _ _ => ⟨rfl, fun _ => DialOutcome.noConfusion⟩
  | unavailable => exact fun _ _ _ => ⟨rfl, fun _ => DialOutcome.noConfusion⟩
  | raised => exact fun _ _ _ => rfl

/-- The compare-and-set of Phase 3. -/
theorem recordDial_safe (hD : Above D view) (hcommits : TickCommits D view gate)
    (htask : l.task = some .tick) (htxn : l.txn = some t) (hblank : t.Blank) {campaign : CampaignRow}
    (hcampaign : Reads (view s) campaign) {claimed : CallRow} (hclaimed : Seen (view s) claimed)
    (howner : claimed.campaignId = campaign.id) {outcome : DialOutcome}
    (hhandle : ∀ handle, outcome = .ok handle →
      ⟨⟨claimed.id, claimed.attemptEpoch⟩, handle, true⟩ ∈ (view s).issued) :
    D.Safe (fun _ s' l' => l'.task = some .tick ∧ Keeps gate s s' ∧ ∃ t', l'.txn = some t' ∧
        t'.inbox = [] ∧ Ready (view s') (some .tick) t' ∧ Unclaimed (view s') t')
      (fun _ _ l' => l'.task = some .tick) (recordDial campaign claimed outcome) s l := by
  cases outcome with
  | ok handle =>
      exact tickTransition_safe hD hcommits htask htxn hblank (.dispatch claimed handle hclaimed (hhandle _ rfl))
        (.refl s)
  | rejected reasonCode =>
      exact tickTransition_safe hD hcommits htask htxn hblank (.rejected claimed reasonCode hclaimed) (.refl s)
  | unavailable =>
      show D.Safe _ _ (if claimed.retriesRemaining > 0 then _ else _) _ _
      split
      · next hbudget =>
          refine .bind (hD.nextAttempt.mono (fun _ _ _ _ h => h) fun _ _ _ _ h => h ▸ htask) ?_
          rintro nextAttempt s₂ l₂ hinv₂ ⟨rfl, hrely, hsteady, u, now, delta, -, hread, hdelta, hnext⟩
          obtain ⟨row, hrow, hevolves⟩ := hcampaign.mono hrely.toGrows
          have hconfig : row.retryConfig = campaign.retryConfig := by rw [hevolves.config]
          rw [← hconfig] at hdelta
          exact tickTransition_safe hD hcommits htask htxn hblank
            (.unavailable claimed nextAttempt (hclaimed.mono hrely.toGrows) hbudget
              ⟨row, u, now, delta, howner ▸ hrow, hread, hdelta, hnext⟩)
            (hcommits.keeps htask hsteady)
      · next hbudget =>
          exact tickTransition_safe hD hcommits htask htxn hblank
            (.unavailableExhausted claimed hclaimed (Nat.eq_zero_of_not_pos hbudget)) (.refl s)

/-- Phase 3. -/
theorem recordPhase_safe (hD : Above D view) (hcommits : TickCommits D view gate)
    (htask : l.task = some .tick) (htxn : l.txn = none) {campaign : CampaignRow}
    (hcampaign : Reads (view s) campaign) {claimed : CallRow} (hclaimed : Seen (view s) claimed)
    (howner : claimed.campaignId = campaign.id) {outcome : DialOutcome}
    (hhandle : ∀ handle, outcome = .ok handle →
      ⟨⟨claimed.id, claimed.attemptEpoch⟩, handle, true⟩ ∈ (view s).issued) :
    D.Safe (fun _ s' l' => l' = l ∧ Keeps gate s s') (fun _ _ l' => l' = l)
      (recordPhase campaign claimed outcome) s l := by
  refine hcommits.transaction hD htask htxn fun s₂ now hinv₂ hgrows₂ => ?_
  refine .bind (recordDial_safe (l := ⟨some .tick, some { startedAt := now }⟩) hD hcommits rfl rfl
    ⟨⟨rfl, rfl, rfl⟩, rfl⟩ (hcampaign.mono hgrows₂) (hclaimed.mono hgrows₂) howner
    fun handle hok => hgrows₂.issued _ (hhandle handle hok)) ?_
  rintro result s₃ ⟨task₃, txn₃⟩ hinv₃ ⟨rfl, hkeeps₃, t, rfl, hinbox, hready, hunclaimed⟩
  refine hD.datetimeNow fun s₄ hinv₄ hrely₄ hsteady₄ => ?_
  rw [← Program.bind_done (perform (.updateLastDispatchAt campaign.id (view s₄).now))]
  refine hD.step nofun (fun _ _ _ => trivial) fun others choice reply s₅ s₆ txn hs₅ hinv₅ hinv₆ hrely₆ hsteady₆ hdb hexec hrun => ?_
  obtain ⟨-, -, htxn₆⟩ := exec_updateLastDispatchAt hrun
  generalize ht' : ({ t with
    locks := .cursor campaign.id :: t.locks
    cursors := put CursorRow.campaignId ⟨campaign.id, (view s₄).now⟩ t.cursors } : Txn) = t' at htxn₆
  subst htxn₆
  have hextends : t.Extends t' := by
    subst ht'
    exact ⟨rfl, fun _ h => List.mem_cons_of_mem _ h, rfl⟩
  have hcalls : t'.calls = t.calls := by rw [← ht']
  have hcampaigns : t'.campaigns = t.campaigns := by rw [← ht']
  have haudit : t'.audit = t.audit := by rw [← ht']
  have hrely₆' := hrely₄.trans hrely₆
  intro s₇ hs₇ _
  refine ⟨rfl, ?_, t', rfl,
    ((hready.lasts hrely₆').extend hextends hcalls hcampaigns haudit).lasts (hD.rely hs₇), ?_⟩
  · exact hkeeps₃.trans <| (hcommits.keeps (l := ⟨some .tick, some t⟩) rfl
      (D.rely_trans hsteady₄ hsteady₆)).trans
        (hcommits.keeps (l := ⟨some .tick, some t'⟩) rfl hs₇)
  · rcases hunclaimed with hnil | ⟨before, after, event, hmoves, hevent⟩
    · exact Or.inl (hcalls.trans hnil)
    · exact Or.inr ⟨before, after, event,
        ((hmoves.lasts hrely₆').extend hextends hcalls).lasts (hD.rely hs₇), hevent⟩

theorem dispatchOne_safe (hD : Above D view) (hcommits : TickCommits D view gate)
    (htask : l.task = some .tick) (htxn : l.txn = none) {campaign : CampaignRow}
    (hcampaign : Reads (view s) campaign) (hgate : gate campaign s) :
    D.Safe (fun _ _ l' => l' = l) (fun _ _ l' => l' = l) (dispatchOne campaign) s l := by
  refine .bind (claimPhase_safe hD hcommits htask htxn hcampaign hgate).later ?_
  rintro claimed s₂ l₂ hinv₂ ⟨⟨rfl, hclaimed⟩, hlater₂⟩
  cases claimed with
  | none => exact fun _ _ _ => rfl
  | some claimed =>
      refine .bind (placePhase_safe hD claimed).later ?_
      rintro outcome s₃ l₃ hinv₃ ⟨⟨rfl, hhandle⟩, hlater⟩
      obtain ⟨hseen, howner⟩ := hclaimed claimed rfl
      have hgrows₃ := hD.later hlater
      refine .bind (recordPhase_safe hD hcommits htask htxn ((hcampaign.mono (hD.later hlater₂)).mono hgrows₃)
        (hseen.mono hgrows₃) howner hhandle) ?_
      rintro ⟨⟩ s₄ l₄ hinv₄ ⟨rfl, -⟩
      exact fun _ _ _ => rfl

/-! ### `tick` -/

theorem rrFirst_mem {rows : List CampaignRowWithCursor} {row : CampaignRowWithCursor}
    (h : rrFirst rows = some row) : row ∈ rows := by
  induction rows generalizing row with
  | nil => cases h
  | cons first rest ih =>
      rw [rrFirst] at h
      cases hrest : rrFirst rest with
      | none =>
          simp only [hrest] at h
          cases h
          exact List.mem_cons_self
      | some best =>
          simp only [hrest] at h
          split at h
          · cases h
            exact List.mem_cons_self
          · cases h
            exact List.mem_cons_of_mem _ (ih hrest)

theorem pickCampaign_mem {capped : List CampaignRowWithCursor} {retryDue : List CampaignId}
    {picked : CampaignRowWithCursor} {isRetry : Bool}
    (h : pickCampaign capped retryDue = some (picked, isRetry)) : picked ∈ capped := by
  unfold pickCampaign at h
  split at h
  · next hfirst =>
      cases h
      exact (List.mem_filter.mp (rrFirst_mem hfirst)).1
  · obtain ⟨row, hfirst, heq⟩ := Option.map_eq_some_iff.mp h
    cases heq
    exact rrFirst_mem hfirst

/-- The two halves hold rows of the list, inside and outside of their windows. -/
theorem splitByHours_mem {deps : Deps} {nowUtc : Time} {rows inHours outOfHours}
    (h : splitByHours deps nowUtc rows = .ok (inHours, outOfHours)) :
    (∀ row ∈ inHours, row ∈ rows ∧
      isInWindow deps.zoneInfo row.campaign.schedule row.campaign.timezone nowUtc = .ok true) ∧
    ∀ row ∈ outOfHours, row ∈ rows ∧
      isInWindow deps.zoneInfo row.campaign.schedule row.campaign.timezone nowUtc = .ok false := by
  induction rows generalizing inHours outOfHours with
  | nil =>
      cases h
      exact ⟨List.forall_mem_nil _, List.forall_mem_nil _⟩
  | cons row rest ih =>
      rw [splitByHours] at h
      cases hinside : isInWindow deps.zoneInfo row.campaign.schedule row.campaign.timezone nowUtc with
      | error error =>
          rw [hinside] at h
          cases h
      | ok inside =>
          rw [hinside] at h
          cases hrest : splitByHours deps nowUtc rest with
          | error error =>
              rw [hrest] at h
              cases h
          | ok split =>
              obtain ⟨inRest, outRest⟩ := split
              rw [hrest] at h
              obtain ⟨hin, hout⟩ := ih hrest
              have hin' := fun found hfound => (hin found hfound).imp_left (List.mem_cons_of_mem row)
              have hout' := fun found hfound => (hout found hfound).imp_left (List.mem_cons_of_mem row)
              cases inside with
              | true =>
                  cases h
                  exact ⟨List.forall_mem_cons.mpr ⟨⟨List.mem_cons_self, hinside⟩, hin'⟩, hout'⟩
              | false =>
                  cases h
                  exact ⟨hin', List.forall_mem_cons.mpr ⟨⟨List.mem_cons_self, hinside⟩, hout'⟩⟩

theorem Db.listEligibleForTick_mem {db : Db} {row : CampaignRowWithCursor}
    (h : row ∈ db.listEligibleForTick) : row.campaign ∈ db.campaigns := by
  obtain ⟨campaign, hcampaign, rfl⟩ := List.mem_map.mp h
  rw [List.mem_insertionSort, List.mem_filter] at hcampaign
  exact hcampaign.1

/-- Step 5. -/
theorem dispatchPicked_safe (hD : Above D view) (hcommits : TickCommits D view gate)
    (htask : l.task = some .tick) (htxn : l.txn = none) {picked : CampaignRowWithCursor}
    (hcampaign : Reads (view s) picked.campaign) (hgate : gate picked.campaign s) (isRetry : Bool) :
    D.Safe (fun _ _ _ => True) (fun _ _ _ => True) (dispatchPicked picked isRetry) s l := by
  have hdispatch : ∀ s, Reads (view s) picked.campaign → gate picked.campaign s →
      D.Safe (fun _ _ _ => True) (fun _ _ _ => True)
        (dispatchOne picked.campaign >>= fun dispatched => pure (⟨dispatched, isRetry⟩ : TickDecision)) s l := by
    intro s hcampaign hgate
    refine .bind ((dispatchOne_safe hD hcommits htask htxn hcampaign hgate).mono (fun _ _ _ _ h => h)
      fun _ _ _ _ _ => trivial) ?_
    exact fun _ _ _ _ _ _ _ _ => trivial
  unfold dispatchPicked
  split
  · refine .bind ((requeueOldestRetryDue_safe hD hcommits htask htxn picked.campaign.id).later.mono
      (fun _ _ _ _ h => h) fun _ _ _ _ _ => trivial) ?_
    rintro ⟨⟩ s₂ l₂ hinv₂ ⟨⟨rfl, hkeeps⟩, hlater⟩
    exact hdispatch s₂ (hcampaign.mono (hD.later hlater)) (hkeeps _ hgate)
  · exact hdispatch s hcampaign hgate

theorem tick_safe (deps : Deps) (hD : Above D view) (hcommits : TickCommits D view gate)
    (htask : l.task = some .tick) (htxn : l.txn = none) :
    D.Safe (fun _ _ _ => True) (fun _ _ _ => True) (Task.tick.code deps) s l := by
  have hkeeps : ∀ {s s'}, D.rely l s s' → Keeps gate s s' :=
    fun hrely => hcommits.keeps htask hrely
  refine .bind (M := fun _ _ _ => True) ?_ fun _ _ _ _ _ _ _ _ => trivial
  refine hD.datetimeNow fun s₁ hinv₁ _ _ => ?_
  refine hD.select htxn fun pick s₂ hinv₂ _ _ => ?_
  have hread : ∀ row ∈ (view s₂).db.listEligibleForTick, Reads (view s₂) row.campaign := fun row hrow =>
    ⟨_, (hD.inv hinv₂).campaign?_iff.mpr ⟨Db.listEligibleForTick_mem hrow, rfl⟩, .refl _⟩
  show D.Safe _ _ (if (view s₂).db.listEligibleForTick = [] then _ else _) _ _
  split
  · exact fun _ _ _ => trivial
  refine .bind (M := fun split s' l' => l' = l ∧ D.Later s₂ s' ∧
    splitByHours deps (view s₁).now (view s₂).db.listEligibleForTick = .ok split) ?_ ?_
  · exact Above.ofExcept (fun _ _ _ _ _ => trivial) fun split hsplit s₃ hs₃ _ =>
      ⟨rfl, .rely .refl hs₃, hsplit⟩
  rintro ⟨inHours, outOfHours⟩ s₃ l₃ hinv₃ ⟨rfl, hlater₃, hsplit⟩
  have hskip := fun (row : CampaignRowWithCursor) s (_ : D.inv s) =>
    emitAlone_safe (s := s) hD hcommits htask htxn (skipBusinessHour row.campaign) rfl
  refine .bind ((forM_safe hskip hkeeps outOfHours s₃ hinv₃).later.mono (fun _ _ _ _ h => h)
    fun _ _ _ _ _ => trivial) ?_
  rintro ⟨⟩ s₄ l₄ hinv₄ ⟨⟨rfl, -⟩, hlater₄⟩
  split
  · exact fun _ _ _ => trivial
  refine hD.select htxn fun pick s₅ hinv₅ hrely₅ _ => ?_
  generalize hcounts : Query.eval (view s₅).db (view s₅).now pick (.inFlightCountsByCampaign _) = inFlight
  have hgrows₅ := (hD.later hlater₃).trans <| (hD.later hlater₄).trans hrely₅.toGrows
  have hgates : ∀ row ∈ inHours.filter (belowCap inFlight), gate row.campaign s₅ := by
    intro row hrow
    obtain ⟨hmem, hbelow⟩ := List.mem_filter.mp hrow
    replace hbelow : inFlight row.campaign.id < row.campaign.maxConcurrent := of_decide_eq_true hbelow
    rw [← hcounts] at hbelow
    exact hcommits.read hinv₅ ((hread row (((splitByHours_mem hsplit).1 row hmem).1)).mono hgrows₅)
      (List.mem_map.mpr ⟨row, hmem, rfl⟩) hbelow
  have hfull := fun (row : CampaignRowWithCursor) s (_ : D.inv s) =>
    emitAlone_safe (s := s) hD hcommits htask htxn
      (skipConcurrency row.campaign (inFlight row.campaign.id)) rfl
  refine .bind ((forM_safe hfull hkeeps (inHours.filter fun row => !belowCap inFlight row) s₅ hinv₅).later.mono
    (fun _ _ _ _ h => h) fun _ _ _ _ _ => trivial) ?_
  rintro ⟨⟩ s₆ l₆ hinv₆ ⟨⟨rfl, hkeeps₆⟩, hlater₆⟩
  show D.Safe _ _ (if inHours.filter (belowCap inFlight) = [] then _ else _) _ _
  split
  · exact fun _ _ _ => trivial
  refine hD.select htxn fun pick s₇ hinv₇ hrely₇ hsteady₇ => ?_
  split
  · exact fun _ _ _ => trivial
  · next picked isRetry hpicked =>
    have hmem := pickCampaign_mem hpicked
    have hgrows := hgrows₅.trans <| (hD.later hlater₆).trans hrely₇.toGrows
    exact dispatchPicked_safe hD hcommits htask htxn
      ((hread picked (((splitByHours_mem hsplit).1 picked (List.mem_filter.mp hmem).1).1)).mono hgrows)
      (hcommits.keeps htask hsteady₇ _ (hkeeps₆ _ (hgates picked hmem))) isRetry

end

end VoiceCampaign

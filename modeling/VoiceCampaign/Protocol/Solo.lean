import VoiceCampaign.Protocol.Alone
import VoiceCampaign.Protocol.Watch

/-!
# What a coroutine does by itself

No other transaction is open and no time passes, so each statement runs at once, and what a coroutine does
is a function of the state and of the choices left to the world. The choices can be held to a condition, so
that two coroutines are compared where the world answers both alike.
-/

namespace VoiceCampaign

open Concurrency Program

/-- A statement with no other transaction open, where the world chooses as `allowed`. -/
def solo (allowed : Choice → Prop) : Effect Stmt Reply (Shared × Option Txn) :=
  fun stmt s reply s' => ∃ choice, allowed choice ∧ exec [] choice s.1 s.2 stmt = some (reply, s'.1, s'.2)

/-- The tables and the clock stand still. -/
structure Still (s s' : Shared) : Prop where
  db : s'.db = s.db
  now : s'.now = s.now

section

variable {allowed : Choice → Prop} {s s' s'' : Shared} {t : Txn} {α : Type}
  {post : α → Shared × Option Txn → Prop} {err : Err → Shared × Option Txn → Prop}

theorem Still.refl (s : Shared) : Still s s := ⟨rfl, rfl⟩

theorem Still.trans (h : Still s s') (h' : Still s' s'') : Still s s'' := ⟨h'.db.trans h.db, h'.now.trans h.now⟩

/-- A transaction that has only taken locks sees the tables as they are. -/
theorem Db.apply_locks (db : Db) (startedAt : Time) (locks : List RowLock) :
    db.apply { startedAt, locks } = db := by
  simp [Db.apply]

theorem still_of_exec {choice : Choice} {txn txn' : Option Txn} {stmt : Stmt} {reply : Reply stmt}
    (hcommit : stmt ≠ .commit) (h : exec [] choice s txn stmt = some (reply, s', txn')) : Still s s' := by
  obtain ⟨hdb, hnow, -⟩ := exec_quiet hcommit h
  exact ⟨hdb, hnow⟩

/-- With one choice throughout, a coroutine ends in one way. -/
theorem solo_unique {choice : Choice} {program : Co α} {state state₁ state₂ : Shared × Option Txn}
    {result₁ result₂ : Except Err α} (h₁ : Ends (solo (· = choice)) program state result₁ state₁)
    (h₂ : Ends (solo (· = choice)) program state result₂ state₂) : result₁ = result₂ ∧ state₁ = state₂ := by
  refine h₁.unique ?_ h₂
  rintro stmt ⟨s, txn⟩ ⟨s₁, txn₁⟩ ⟨s₂, txn₂⟩ reply₁ reply₂ ⟨_, rfl, hexec₁⟩ ⟨_, rfl, hexec₂⟩
  have he := Option.some.inj (hexec₁.symm.trans hexec₂)
  obtain ⟨rfl, hstate⟩ := Prod.mk.inj he
  obtain ⟨rfl, rfl⟩ := Prod.mk.inj hstate
  exact ⟨rfl, rfl⟩

/-- Wherever the coroutine ends by itself, `post` or `err` holds, and it does end. -/
abbrev Leads (allowed : Choice → Prop) (post : α → Shared × Option Txn → Prop)
    (err : Err → Shared × Option Txn → Prop) : Co α → Shared × Option Txn → Prop :=
  Wp (solo allowed) (∃ choice, allowed choice) post err

/-! ### Statements -/

theorem Leads.step {stmt : Stmt} {next : Reply stmt → Co α} {txn : Option Txn}
    (htotal : ∀ choice, (exec [] choice s txn stmt).isSome = true)
    (h : ∀ choice reply s₁ txn₁, allowed choice → exec [] choice s txn stmt = some (reply, s₁, txn₁) →
      Leads allowed post err (next reply) (s₁, txn₁)) :
    Leads allowed post err (perform stmt >>= next) (s, txn) := by
  apply Wp.perform
  · rintro ⟨choice, hchoice⟩
    obtain ⟨⟨reply, s₁, txn₁⟩, hexec⟩ := Option.isSome_iff_exists.mp (htotal choice)
    exact ⟨reply, (s₁, txn₁), choice, hchoice, hexec⟩
  · rintro reply ⟨s₁, txn₁⟩ ⟨choice, hchoice, hexec⟩
    exact h choice reply s₁ txn₁ hchoice hexec

/-- Inside a transaction. -/
theorem Leads.inside {stmt : Stmt} {next : Reply stmt → Co α} (hdelimits : stmt.delimits = false)
    (h : ∀ choice reply s₁ txn₁, allowed choice → Still s s₁ →
      exec [] choice s (some t) stmt = some (reply, s₁, txn₁) → Leads allowed post err (next reply) (s₁, txn₁)) :
    Leads allowed post err (perform stmt >>= next) (s, some t) := by
  have hbegin : stmt ≠ .begin := by
    rintro rfl
    cases hdelimits
  have hcommit : stmt ≠ .commit := by
    rintro rfl
    cases hdelimits
  exact Leads.step (fun choice => exec_runs choice hbegin) fun choice reply s₁ txn₁ hchoice hexec =>
    h choice reply s₁ txn₁ hchoice (still_of_exec hcommit hexec) hexec

/-- At the end of a transaction's body. -/
theorem Leads.last {stmt : Stmt} {post : Reply stmt → Shared × Option Txn → Prop} (hdelimits : stmt.delimits = false)
    (h : ∀ choice reply s₁ txn₁, allowed choice → Still s s₁ →
      exec [] choice s (some t) stmt = some (reply, s₁, txn₁) → post reply (s₁, txn₁)) :
    Leads allowed post err (perform stmt) (s, some t) := by
  rw [← Program.bind_done (perform stmt)]
  exact Leads.inside hdelimits h

theorem Leads.select {query : Query} {next : query.Result → Co α} {txn : Option Txn}
    (h : ∀ pick, Leads allowed post err
      (next (query.eval (txn.elim s.db s.db.apply) (txn.elim s.now Txn.startedAt) pick)) (s, txn)) :
    Leads allowed post err (VoiceCampaign.select query >>= next) (s, txn) := by
  refine Leads.step (fun _ => rfl) fun choice reply s₁ txn₁ _ hexec => ?_
  obtain ⟨rfl, rfl, rfl⟩ := exec_select hexec
  exact h choice.pick

theorem Leads.datetimeNow {next : Time → Co α} {txn : Option Txn}
    (h : Leads allowed post err (next s.now) (s, txn)) :
    Leads allowed post err (VoiceCampaign.datetimeNow >>= next) (s, txn) := by
  refine Leads.step (fun _ => rfl) fun choice reply s₁ txn₁ _ hexec => ?_
  obtain ⟨rfl, rfl, rfl⟩ := exec_datetimeNow hexec
  exact h

/-- The body runs in a fresh transaction, which is committed, or rolled back. -/
theorem Leads.transaction {body : Co α} (mid : α → Txn → Prop) (error : Err → Prop)
    (hbody : Leads allowed (fun value state => ∃ t, state.2 = some t ∧ Still s state.1 ∧ mid value t)
      (fun e state => Still s state.1 ∧ error e) body (s, some { startedAt := s.now }))
    (hcommit : ∀ value s₁ t, Still s s₁ → mid value t → post value (s₁.commit t, none))
    (hrollback : ∀ e s₁, Still s s₁ → error e → err e (s₁, none)) :
    Leads allowed post err (transaction body) (s, none) := by
  refine Leads.step (fun _ => rfl) fun choice reply s₁ txn₁ _ hexec => ?_
  obtain ⟨rfl, rfl⟩ := exec_begin hexec
  have hcaught : Leads allowed (fun value state => ∃ t, state.2 = some t ∧ Still s₁ state.1 ∧ mid value t) err
      (body.catching fun e => do perform .rollback; raise e) (s₁, some { startedAt := s₁.now }) := by
    refine Wp.catching hbody ?_
    rintro e ⟨s₂, txn₂⟩ ⟨hstill, he⟩
    refine Leads.step (fun _ => rfl) fun choice reply s₃ txn₃ _ hexec => ?_
    obtain ⟨rfl, rfl⟩ := exec_rollback hexec
    exact hrollback e s₃ hstill he
  refine Wp.bind hcaught ?_
  rintro value ⟨s₂, txn₂⟩ ⟨t, htxn, hstill, hmid⟩
  cases htxn
  refine Leads.step (fun _ => rfl) fun choice reply s₃ txn₃ _ hexec => ?_
  obtain ⟨u, hu, rfl, rfl⟩ := exec_commit hexec
  cases hu
  exact hcommit value s₂ t hstill hmid

/-! ### `transition` -/

/-- The transaction has taken locks and written audit rows and campaigns, and nothing else. -/
structure Txn.Beside (t t' : Txn) : Prop where
  startedAt : t'.startedAt = t.startedAt
  calls : t'.calls = t.calls
  cursors : t'.cursors = t.cursors
  inbox : t'.inbox = t.inbox

theorem Txn.Beside.trans {t t' t'' : Txn} (h : t.Beside t') (h' : t'.Beside t'') : t.Beside t'' :=
  ⟨h'.startedAt.trans h.startedAt, h'.calls.trans h.calls, h'.cursors.trans h.cursors, h'.inbox.trans h.inbox⟩

theorem Leads.emitAudit {event : AuditEvent} {next : Unit → Co α}
    (h : ∀ s₁ t₁, Still s s₁ → t.Beside t₁ → t₁.campaigns = t.campaigns →
      Leads allowed post err (next ()) (s₁, some t₁)) :
    Leads allowed post err (VoiceCampaign.emitAudit event >>= next) (s, some t) := by
  refine Leads.inside rfl fun choice reply s₁ txn₁ _ hstill hexec => ?_
  obtain ⟨-, rfl⟩ := exec_emitAudit hexec
  exact h s₁ _ hstill ⟨rfl, rfl, rfl, rfl⟩ rfl

theorem Leads.emitAudit_last {event : AuditEvent} {post : Unit → Shared × Option Txn → Prop}
    (h : ∀ s₁ t₁, Still s s₁ → t.Beside t₁ → post () (s₁, some t₁)) :
    Leads allowed post err (VoiceCampaign.emitAudit event) (s, some t) := by
  rw [← Program.bind_done (VoiceCampaign.emitAudit event)]
  exact Leads.emitAudit fun s₁ t₁ hstill hbeside _ => h s₁ t₁ hstill hbeside

/-- A guarded update of the campaign, and the audit row that says so. -/
theorem updateCampaign_leads (campaignId : CampaignId) (expected new : CampaignStatus) (event : AuditEvent) :
    Leads allowed (fun _ state => ∃ t', state.2 = some t' ∧ Still s state.1 ∧ t.Beside t') (fun _ _ => False)
      (do
        let updated : Bool ← perform (.updateCampaign campaignId expected new)
        if updated = true then VoiceCampaign.emitAudit event else pure ()) (s, some t) := by
  refine Leads.inside rfl fun choice reply s₁ txn₁ _ hstill hexec => ?_
  obtain ⟨-, ⟨rfl, rfl, -⟩ | ⟨campaign, -, -, -, rfl, rfl⟩⟩ := exec_updateCampaign hexec
  · exact ⟨t, rfl, hstill, rfl, rfl, rfl, rfl⟩
  · rw [if_pos rfl]
    refine Leads.emitAudit_last fun s₂ t₂ hstill₂ hbeside => ?_
    exact ⟨t₂, rfl, hstill.trans hstill₂, hbeside.startedAt, hbeside.calls, hbeside.cursors, hbeside.inbox⟩

theorem maybePromoteToActive_leads (campaignId : CampaignId) :
    Leads allowed (fun _ state => ∃ t', state.2 = some t' ∧ Still s state.1 ∧ t.Beside t') (fun _ _ => False)
      (maybePromoteToActive campaignId) (s, some t) :=
  updateCampaign_leads campaignId .pending .active (campaignPromoted campaignId)

theorem maybeTransitionCampaignTerminal_leads (campaignId : CampaignId) :
    Leads allowed (fun _ state => ∃ t', state.2 = some t' ∧ Still s state.1 ∧ t.Beside t') (fun _ _ => False)
      (maybeTransitionCampaignTerminal campaignId) (s, some t) := by
  unfold maybeTransitionCampaignTerminal
  refine Leads.inside rfl fun choice reply s₁ txn₁ _ hstill hexec => ?_
  obtain ⟨-, -, rfl⟩ := exec_lockCampaign hexec
  refine Leads.select fun pick => ?_
  split
  · exact ⟨_, rfl, hstill, rfl, rfl, rfl, rfl⟩
  · refine Leads.select fun pick => ?_
    refine (updateCampaign_leads campaignId _ _ _).mono ?_ fun _ _ h => h
    rintro ⟨⟩ ⟨s₂, txn₂⟩ ⟨t', htxn, hstill₂, hbeside⟩
    exact ⟨t', htxn, hstill.trans hstill₂, hbeside.startedAt, hbeside.calls, hbeside.cursors, hbeside.inbox⟩

/-- How `transition` ends as the first write of its transaction. -/
inductive TransitionDone (args : Transition) (s : Shared) (t : Txn) : TransitionResult → Txn → Prop
  | regressed (hregresses : args.regresses = true) : TransitionDone args s t .terminalRegression t
  | missed (hregresses : args.regresses = false) (hnone : ∀ row ∈ s.db.calls, args.hits row = false) :
      TransitionDone args s t .noOp t
  | applied (row : CallRow) (t' : Txn) (hregresses : args.regresses = false) (hrow : row ∈ s.db.calls)
      (hhits : args.hits row = true)
      (hfree : args.newStatus.holdsPhone = true → phoneTaken s.db (args.set t.startedAt row) = false)
      (hstarted : t'.startedAt = t.startedAt) (hcalls : t'.calls = [args.set t.startedAt row])
      (hcursors : t'.cursors = t.cursors) (hinbox : t'.inbox = t.inbox)
      (hcampaigns : args.newStatus.isTerminal = false → t'.campaigns = t.campaigns) : TransitionDone args s t (.applied (args.set t.startedAt row)) t'

/-- What the statement that writes a call row replies by itself. -/
theorem exec_updateCall_solo {choice : Choice} {update : CallUpdate} {reply : Except Err (Option CallRow)}
    {txn' : Option Txn} (hfresh : t.Fresh)
    (h : exec [] choice s (some t) (.updateCall update) = some (reply, s', txn')) :
    (reply = .ok none ∧ txn' = some t ∧ ∀ row ∈ s.db.calls, update.hits row = false) ∨
      ∃ row ∈ s.db.calls, update.hits row = true ∧
        (((update.set t.startedAt row).status.holdsPhone = true ∧
            phoneTaken s.db (update.set t.startedAt row) = true ∧ reply = .error .uniqueViolation ∧ txn' = some t) ∨
          ((update.newStatus.holdsPhone = true → phoneTaken s.db (update.set t.startedAt row) = false) ∧
            reply = .ok (some (update.set t.startedAt row)) ∧ ∃ t', txn' = some t' ∧ t'.startedAt = t.startedAt ∧
            t'.calls = [update.set t.startedAt row] ∧ t'.cursors = t.cursors ∧ t'.inbox = t.inbox ∧
            t'.campaigns = t.campaigns)) := by
  have hcalls : (s.db.apply t).calls = s.db.calls := hfresh.db_calls s.db
  simp only [exec, Option.bind_some] at h
  split at h
  · next hnone =>
      cases h
      rw [hcalls] at hnone
      exact Or.inl ⟨rfl, rfl, fun row hrow => by simpa using List.find?_eq_none.mp hnone row hrow⟩
  · next row hfind =>
      rw [hcalls] at hfind
      refine Or.inr ⟨row, List.mem_of_find?_eq_some hfind, List.find?_some hfind, ?_⟩
      have hcontended : ∀ version, phoneContended [] s.db version = false := fun _ => rfl
      have hheld : ∀ lock, held [] lock = false := fun _ => rfl
      have htaken : ∀ version, phoneTaken (s.db.apply t) version = phoneTaken s.db version := by
        intro version
        rw [phoneTaken, hcalls]
        rfl
      simp only [writeCall, hheld, hcontended, Bool.and_false, Bool.false_eq_true, if_false, htaken] at h
      split at h
      · next hviolated =>
          rw [Bool.and_eq_true] at hviolated
          cases h
          exact Or.inl ⟨hviolated.1, hviolated.2, rfl, rfl⟩
      · next hfree =>
        cases h
        refine Or.inr ⟨fun hholds => ?_, rfl, _, rfl, rfl, ?_, rfl, rfl, rfl⟩
        · rw [show (update.set t.startedAt row).status.holdsPhone = true from hholds, Bool.true_and] at hfree
          exact Bool.not_eq_true _ ▸ hfree
        show put CallRow.id _ t.calls = _
        rw [hfresh.calls, put_nil]

/-- Why `transition` raises: the row would take a phone that is taken. -/
structure TransitionRaises (args : Transition) (s : Shared) (t : Txn) (error : Err) : Prop where
  unique : error = .uniqueViolation
  holdsPhone : args.newStatus.holdsPhone = true
  taken : ∃ row ∈ s.db.calls, args.hits row = true ∧ phoneTaken s.db (args.set t.startedAt row) = true

theorem transition_leads (hfresh : t.Fresh) (args : Transition) :
    Leads allowed (fun result state => ∃ t', state.2 = some t' ∧ Still s state.1 ∧ TransitionDone args s t result t')
      (fun error state => Still s state.1 ∧ TransitionRaises args s t error) (transition args) (s, some t) := by
  unfold transition
  split
  · next hregresses => exact ⟨t, rfl, .refl s, .regressed hregresses⟩
  next hregresses =>
  rw [Bool.not_eq_true] at hregresses
  refine Leads.inside rfl fun choice reply s₁ txn₁ _ hstill hexec => ?_
  rcases exec_updateCall_solo hfresh hexec with ⟨rfl, rfl, hnone⟩ | ⟨row, hrow, hhits, hwritten⟩
  · exact ⟨t, rfl, hstill, .missed hregresses hnone⟩
  rcases hwritten with ⟨hholds, htaken, rfl, rfl⟩ | ⟨hfree, rfl, t₁, rfl, hstarted, hcalls, hcursors, hinbox, hcampaigns⟩
  · exact ⟨hstill, rfl, hholds, row, hrow, hhits, htaken⟩
  show Leads allowed _ _ (VoiceCampaign.emitAudit _ >>= _) (s₁, some t₁)
  refine Leads.emitAudit fun s₂ t₂ hstill₂ hbeside hsame => ?_
  have happlied : ∀ t₃, t₂.Beside t₃ → (args.newStatus.isTerminal = false → t₃.campaigns = t₂.campaigns) →
      TransitionDone args s t (.applied (args.set t.startedAt row)) t₃ := by
    intro t₃ hbeside₃ hsame₃
    have h := hbeside.trans hbeside₃
    exact .applied row t₃ hregresses hrow hhits hfree (h.startedAt.trans hstarted) (h.calls.trans hcalls)
      (h.cursors.trans hcursors) (h.inbox.trans hinbox) fun hlive => (hsame₃ hlive).trans (hsame.trans hcampaigns)
  split
  · next hterminal =>
      refine Wp.andThen (maybeTransitionCampaignTerminal_leads _) (fun _ _ h => h.elim) ?_
      rintro ⟨⟩ ⟨s₃, txn₃⟩ ⟨t₃, rfl, hstill₃, hbeside₃⟩
      refine ⟨t₃, rfl, hstill.trans (hstill₂.trans hstill₃), happlied t₃ hbeside₃ fun hlive => ?_⟩
      cases hterminal.symm.trans hlive
  · exact ⟨t₂, rfl, hstill.trans hstill₂, happlied t₂ ⟨rfl, rfl, rfl, rfl⟩ fun _ => rfl⟩

end

end VoiceCampaign

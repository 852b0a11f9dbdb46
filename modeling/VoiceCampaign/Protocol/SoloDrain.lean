import VoiceCampaign.Protocol.Cursors
import VoiceCampaign.Protocol.Inbox
import VoiceCampaign.Protocol.Solo

/-!
# One inbox row by itself

What one attempt of the processor does to the inbox when nobody else runs: it finds nothing to do, or it
raises and leaves the tables as they are, or it consumes one row.
-/

namespace VoiceCampaign

open Concurrency Program

/-- `_process_one_row` by itself, once. -/
def Attempts (deps : Deps) (s : Shared) (outcome : RowOutcome) (s' : Shared) : Prop :=
  Ends (solo fun _ => True) (processOneRow deps) (s, none) (.ok outcome) (s', none)

/-- A row is consumed. -/
def Consumes (deps : Deps) (s s' : Shared) : Prop :=
  ∃ outcome, (outcome = .applied ∨ outcome = .stale) ∧ Attempts deps s outcome s'

/-- How many rows wait in the inbox. -/
def Shared.unprocessed (s : Shared) : Nat := s.db.inbox.countP fun row => row.processedAt.isNone

/-- The row may be claimed next. -/
def Shared.Next (s : Shared) (row : InboxRow) : Prop :=
  ∃ pick, oldest InboxRow.receivedAt pick (s.db.inbox.filter fun row => row.processedAt.isNone) = some row

theorem Shared.Next.mem {s : Shared} {row : InboxRow} (h : s.Next row) :
    row ∈ s.db.inbox ∧ row.processedAt = none := by
  obtain ⟨pick, hpick⟩ := h
  obtain ⟨hrow, hwaits⟩ := List.mem_filter.mp (oldest_some hpick).1
  exact ⟨hrow, Option.isNone_iff_eq_none.mp hwaits⟩

/-- How an attempt ends where the body of its transaction leads to `mid`, and raises only for a `bad` row. -/
inductive Turned (s : Shared) (mid : InboxRow → RowOutcome → Txn → Prop) (bad : InboxRow → Prop) :
    RowOutcome → Shared → Prop
  | empty (s' : Shared) (hstill : Still s s') (hnone : ∀ row ∈ s.db.inbox, row.processedAt ≠ none) :
      Turned s mid bad .empty s'
  | raised (s' : Shared) (hstill : Still s s') (row : InboxRow) (hnext : s.Next row) (hbad : bad row) :
      Turned s mid bad .error s'
  | committed (outcome : RowOutcome) (s₁ : Shared) (t : Txn) (hstill : Still s s₁) (row : InboxRow)
      (hnext : s.Next row) (hmid : mid row outcome t) : Turned s mid bad outcome (s₁.commit t)

/-- What an attempt leaves of the inbox. -/
inductive AttemptDone (s : Shared) : RowOutcome → Shared → Prop
  | empty (s' : Shared) (hstill : Still s s') (hnone : ∀ row ∈ s.db.inbox, row.processedAt ≠ none) :
      AttemptDone s .empty s'
  | raised (s' : Shared) (hstill : Still s s') : AttemptDone s .error s'
  | consumed (outcome : RowOutcome) (s' : Shared) (row : InboxRow) (houtcome : outcome = .applied ∨ outcome = .stale)
      (hrow : row ∈ s.db.inbox) (hunprocessed : row.processedAt = none) (hnow : s'.now = s.now)
      (hinbox : s'.db.inbox = overlay InboxRow.id [{ row with processedAt := some s.now }] s.db.inbox) :
      AttemptDone s outcome s'

section

variable {allowed : Choice → Prop} {deps : Deps} {s s' s'' : Shared} {t : Txn} {α : Type} {outcome : RowOutcome}

/-! ### The inbox part of a transaction -/

/-- Statements inside a transaction that are not about the inbox leave its inbox part alone. -/
theorem Leads.of_inside {program : Co α} (h : program.Only fun stmt => stmt.inside = true) (hstill : Still s s') :
    Leads allowed (fun _ state => ∃ t', state.2 = some t' ∧ Still s state.1 ∧ t.SameInbox t')
      (fun _ state => Still s state.1) program (s', some t) := by
  induction program generalizing s' t with
  | done value => exact ⟨t, rfl, hstill, rfl, rfl, fun _ => Iff.rfl⟩
  | fail error => exact hstill
  | call stmt next ih =>
      have hdelimits : stmt.delimits = false := by
        have hinside := h.1
        cases stmt <;> first | rfl | cases hinside
      refine @Leads.inside allowed s' t α _ _ stmt next hdelimits fun choice reply s₁ txn₁ _ hstill₁ hexec => ?_
      obtain ⟨t₁, rfl⟩ := exec_stays_open hdelimits hexec
      obtain ⟨_, ⟨⟩, hsame⟩ := exec_sameInbox h.1 hexec t₁ rfl
      refine (ih reply (h.2 reply) (hstill.trans hstill₁)).mono ?_ fun _ _ h => h
      rintro value state ⟨t', htxn, hstill', hsame'⟩
      exact ⟨t', htxn, hstill', hsame'.startedAt.trans hsame.startedAt, hsame'.inbox.trans hsame.inbox,
        fun id => (hsame'.locks id).trans (hsame.locks id)⟩

theorem inside_conduct : Conduct fun _ program => program.Only fun stmt => stmt.inside = true :=
  Conduct.of_only (fun _ => plain_inside) fun _ => rfl

/-- The transaction keeps a processed version of the row, and nothing else of the inbox. -/
def MarksRow (s : Shared) (row : InboxRow) (state : Shared × Option Txn) : Prop :=
  ∃ t, state.2 = some t ∧ Still s state.1 ∧ t.startedAt = s.now ∧
    t.inbox = [{ row with processedAt := some t.startedAt }]

/-- Once a row is claimed, the transaction marks it, or raises. -/
theorem processRow_marks {row : InboxRow} (hids : (s.db.inbox.map InboxRow.id).Nodup) (hrow : row ∈ s.db.inbox)
    (hstill : Still s s') (hinbox : t.inbox = []) (hstarted : t.startedAt = s.now) :
    Leads allowed (fun outcome state => (outcome = .applied ∨ outcome = .stale) ∧ MarksRow s row state)
      (fun _ state => Still s state.1) (processRow deps row) (s', some t) := by
  -- what the rest of the body leads to, from any transaction that has not touched the inbox yet
  let L (program : Co RowOutcome) : Prop := ∀ s₁ t₁, Still s s₁ → t.SameInbox t₁ →
    Leads allowed (fun outcome state => (outcome = .applied ∨ outcome = .stale) ∧ MarksRow s row state)
      (fun _ state => Still s state.1) program (s₁, some t₁)
  have hbind : ∀ {β : Type} {program : Co β} {f : β → Co RowOutcome},
      program.Only (fun stmt => stmt.inside = true) → (∀ value, L (f value)) → L (program >>= f) := by
    intro β program f honly hf s₁ t₁ hstill₁ hsame₁
    refine Wp.bind (Leads.of_inside honly hstill₁) ?_
    rintro value ⟨s₂, txn₂⟩ ⟨t₂, rfl, hstill₂, hsame₂⟩
    exact hf value s₂ t₂ hstill₂ ⟨hsame₂.startedAt.trans hsame₁.startedAt, hsame₂.inbox.trans hsame₁.inbox,
      fun id => (hsame₂.locks id).trans (hsame₁.locks id)⟩
  have hmark : ∀ outcome, (outcome = .applied ∨ outcome = .stale) →
      L (markProcessed row.id >>= fun _ => pure outcome) := by
    intro outcome houtcome s₁ t₁ hstill₁ hsame₁
    refine Leads.inside rfl fun choice reply s₂ txn₂ _ hstill₂ hexec => ?_
    have hview : lookup InboxRow.id (s₁.db.apply t₁).inbox row.id = some row := by
      show lookup InboxRow.id (overlay InboxRow.id t₁.inbox s₁.db.inbox) row.id = _
      rw [hsame₁.inbox, hinbox, overlay_nil, hstill₁.db]
      exact lookup_of_mem hids hrow
    obtain ⟨-, ⟨-, hnone⟩ | ⟨found, hfound, -, rfl⟩⟩ := exec_markProcessed hexec
    · rw [hview] at hnone
      cases hnone
    · obtain rfl := Option.some.inj (hview.symm.trans hfound)
      refine ⟨houtcome, _, rfl, hstill₁.trans hstill₂, hsame₁.startedAt.trans hstarted, ?_⟩
      show put InboxRow.id _ t₁.inbox = _
      rw [hsame₁.inbox, hinbox, put_nil]
  have hbody : L (processRow deps row) := Conduct.processRow inside_conduct (L := L) hbind hmark deps
  exact hbody s' t hstill ⟨rfl, rfl, fun _ => Iff.rfl⟩

/-! ### One attempt -/

theorem processOneRow_leads (mid : InboxRow → RowOutcome → Txn → Prop) (bad : InboxRow → Prop)
    (hbody : ∀ row, s.Next row → Leads allowed
      (fun outcome state => ∃ t, state.2 = some t ∧ Still s state.1 ∧ mid row outcome t)
      (fun _ state => Still s state.1 ∧ bad row) (processRow deps row)
      (s, some { startedAt := s.now, locks := [.inbox row.id] })) :
    Leads allowed (fun outcome state => state.2 = none ∧ Turned s mid bad outcome state.1) (fun _ _ => False)
      (processOneRow deps) (s, none) := by
  have hclaimed : Leads allowed (fun outcome state => ∃ t, state.2 = some t ∧ Still s state.1 ∧
        ((outcome = .empty ∧ t = { startedAt := s.now } ∧ ∀ row ∈ s.db.inbox, row.processedAt ≠ none) ∨
          ∃ row, s.Next row ∧ mid row outcome t))
      (fun _ state => Still s state.1 ∧ ∃ row, s.Next row ∧ bad row)
      (perform .claimUnprocessedOne >>= fun found => found.elim (pure .empty) (processRow deps))
      (s, some { startedAt := s.now }) := by
    refine Leads.step (fun choice => exec_runs choice (by rintro ⟨⟩)) fun choice reply s₁ txn₁ _ hexec => ?_
    have hcandidates : ((s.db.apply { startedAt := s.now }).inbox.filter fun row =>
        row.processedAt.isNone && !held [] (.inbox row.id)) = s.db.inbox.filter fun row => row.processedAt.isNone := by
      rw [Db.apply_locks]
      exact List.filter_congr fun row _ => Bool.and_true _
    simp only [exec, Option.map_some, hcandidates] at hexec
    split at hexec
    · next hnone =>
        cases hexec
        refine ⟨_, rfl, .refl s, Or.inl ⟨rfl, rfl, fun row hrow hunprocessed => ?_⟩⟩
        exact List.filter_eq_nil_iff.mp (oldest_eq_none.mp hnone) row hrow (by rw [hunprocessed]; rfl)
    · next row hsome =>
        cases hexec
        have hnext : s.Next row := ⟨choice.pick, hsome⟩
        refine (hbody row hnext).mono ?_ fun _ _ h => ⟨h.1, row, hnext, h.2⟩
        rintro outcome state ⟨t, htxn, hstill, hmid⟩
        exact ⟨t, htxn, hstill, Or.inr ⟨row, hnext, hmid⟩⟩
  rw [processOneRow_eq]
  have htransaction : Leads allowed (fun outcome state => state.2 = none ∧ Turned s mid bad outcome state.1)
      (fun _ state => state.2 = none ∧ Still s state.1 ∧ ∃ row, s.Next row ∧ bad row)
      (transaction (perform .claimUnprocessedOne >>= fun found => found.elim (pure .empty) (processRow deps)))
      (s, none) := by
    refine Leads.transaction _ _ hclaimed ?_ fun _ s₁ hstill hbad => ⟨rfl, hstill, hbad⟩
    rintro outcome s₁ t hstill (⟨rfl, rfl, hnone⟩ | ⟨row, hnext, hmid⟩)
    · exact ⟨rfl, .empty _ ⟨(Db.apply_locks _ _ _).trans hstill.db, hstill.now⟩ hnone⟩
    · exact ⟨rfl, .committed outcome s₁ t hstill row hnext hmid⟩
  refine Wp.catching htransaction ?_
  rintro error ⟨s₁, txn₁⟩ ⟨rfl, hstill, row, hnext, hbad⟩
  exact ⟨rfl, .raised s₁ hstill row hnext hbad⟩

theorem processOneRow_done (hids : (s.db.inbox.map InboxRow.id).Nodup) :
    Leads allowed (fun outcome state => state.2 = none ∧ AttemptDone s outcome state.1) (fun _ _ => False)
      (processOneRow deps) (s, none) := by
  refine (processOneRow_leads (fun row outcome t => (outcome = .applied ∨ outcome = .stale) ∧
    t.inbox = [{ row with processedAt := some s.now }]) (fun _ => True) ?_).mono ?_ fun _ _ h => h
  · intro row hnext
    refine (processRow_marks hids hnext.mem.1 (.refl s) rfl rfl).mono ?_ fun _ _ hstill => ⟨hstill, trivial⟩
    rintro outcome state ⟨houtcome, t, htxn, hstill, hstarted, hinbox⟩
    rw [hstarted] at hinbox
    exact ⟨t, htxn, hstill, houtcome, hinbox⟩
  · rintro outcome ⟨s', txn⟩ ⟨rfl, hturned⟩
    cases hturned with
    | empty _ hstill hnone => exact ⟨rfl, .empty _ hstill hnone⟩
    | raised _ hstill row _ _ => exact ⟨rfl, .raised _ hstill⟩
    | committed _ s₁ t hstill row hnext hmid =>
        refine ⟨rfl, .consumed _ _ row hmid.1 hnext.mem.1 hnext.mem.2 hstill.now ?_⟩
        show overlay InboxRow.id t.inbox s₁.db.inbox = _
        rw [hmid.2, hstill.db]

theorem Attempts.done (h : Attempts deps s outcome s') (hids : (s.db.inbox.map InboxRow.id).Nodup) :
    AttemptDone s outcome s' :=
  ((Wp.of_ends (processOneRow_done hids) h).1 outcome rfl).2

theorem AttemptDone.ids (h : AttemptDone s outcome s') : s'.db.inbox.map InboxRow.id = s.db.inbox.map InboxRow.id := by
  cases h with
  | empty _ hstill _ => rw [hstill.db]
  | raised _ hstill => rw [hstill.db]
  | consumed _ _ row _ _ _ _ hinbox => rw [hinbox, map_key_overlay]

/-- Each row that is consumed leaves one less to process. -/
theorem Consumes.unprocessed (h : Consumes deps s s') (hids : (s.db.inbox.map InboxRow.id).Nodup) :
    s'.unprocessed + 1 = s.unprocessed ∧ (s'.db.inbox.map InboxRow.id).Nodup := by
  obtain ⟨outcome, houtcome, hattempts⟩ := h
  have hdone := hattempts.done hids
  refine ⟨?_, hdone.ids ▸ hids⟩
  cases hdone with
  | empty | raised => rcases houtcome with h | h <;> cases h
  | consumed _ _ row _ hrow hunprocessed _ hinbox =>
      have hcount := @countP_overlay_singleton _ _ _ InboxRow.id (fun row => row.processedAt.isNone) _ hids row
        { row with processedAt := some s.now } hrow rfl
      rw [← hinbox, hunprocessed] at hcount
      exact hcount

/-! ### What an attempt does not depend on -/

end

/-- The clock and the tables but for the log. -/
def Shared.quiet (s : Shared) : Shared := { now := s.now, db := { s.db with audit := [] } }

def Txn.quiet (t : Txn) : Txn := { t with audit := [] }

def quietly {stmt : Stmt} (result : Reply stmt × Shared × Option Txn) : Reply stmt × Shared × Option Txn :=
  (result.1, result.2.1.quiet, result.2.2.map Txn.quiet)

theorem writeCall_quiet (db : Db) (t : Txn) (call : CallRow) :
    writeCall [] { db with audit := [] } t.quiet call = (writeCall [] db t call).map (Except.map Txn.quiet) := by
  have hcontended : ∀ db : Db, phoneContended [] db call = false := fun _ => rfl
  have htaken : phoneTaken (({ db with audit := [] } : Db).apply t.quiet) call = phoneTaken (db.apply t) call := rfl
  simp only [writeCall, hcontended, htaken, Bool.and_false, Bool.false_eq_true, if_false]
  split
  · rfl
  · split <;> rfl

/-- No statement reads the log, nor what the provider has accepted, nor the wake flag. -/
theorem exec_quietly (choice : Choice) (s : Shared) (txn : Option Txn) (stmt : Stmt) :
    (exec [] choice s.quiet (txn.map Txn.quiet) stmt).map quietly = (exec [] choice s txn stmt).map quietly := by
  cases txn with
  | none => cases stmt <;> rfl
  | some t =>
      have hcalls : (s.quiet.db.apply t.quiet).calls = (s.db.apply t).calls := rfl
      have hinbox : (s.quiet.db.apply t.quiet).inbox = (s.db.apply t).inbox := rfl
      have hstarted : t.quiet.startedAt = t.startedAt := rfl
      have hwrite : ∀ call, writeCall [] s.quiet.db t.quiet call =
          (writeCall [] s.db t call).map (Except.map Txn.quiet) := writeCall_quiet s.db t
      cases stmt with
      | updateCall update =>
          simp only [exec, Option.map_some, Option.bind_some, hcalls, hwrite, hstarted]
          cases (s.db.apply t).calls.find? update.hits with
          | none => rfl
          | some call =>
              dsimp only
              cases writeCall [] s.db t (update.set t.startedAt call) with
              | none => rfl
              | some written => cases written <;> rfl
      | claimNextQueued campaignId =>
          simp only [exec, Option.map_some, Option.bind_some, hcalls, hwrite, hstarted]
          split
          · rfl
          · next call _ =>
              cases writeCall [] s.db t (call.claim t.startedAt) with
              | none => rfl
              | some written => cases written <;> rfl
      | selectRetryDue campaignId =>
          simp only [exec, Option.map_some, hcalls, hstarted]
          split <;> rfl
      | updateCampaign campaignId expected new =>
          have hcampaign : (s.quiet.db.apply t.quiet).campaign? campaignId = (s.db.apply t).campaign? campaignId := rfl
          simp only [exec, Option.map_some, Option.bind_some, hcampaign, hstarted]
          split
          · rfl
          · split
            · rfl
            · split <;> rfl
      | claimUnprocessedOne =>
          simp only [exec, Option.map_some, hinbox]
          split <;> rfl
      | markProcessed id =>
          simp only [exec, Option.map_some, Option.bind_some, hinbox, hstarted]
          split
          · rfl
          · split <;> rfl
      | select query => cases query <;> rfl
      | emitAudit event => simp [exec, quietly, Txn.quiet, Shared.quiet]
      | _ => rfl

section

variable {allowed : Choice → Prop} {deps : Deps} {s s' s₂ : Shared} {α : Type} {outcome : RowOutcome}

/-- The same clock and tables, but for the log. -/
def Alike (s s₂ : Shared) : Prop := s₂.quiet = s.quiet

theorem Alike.symm (h : Alike s s₂) : Alike s₂ s := Eq.symm h

theorem Alike.trans (h : Alike s s') (h' : Alike s' s₂) : Alike s s₂ := Eq.trans h' h

theorem Alike.inbox (h : Alike s s₂) : s₂.db.inbox = s.db.inbox := congrArg (fun s => s.db.inbox) h

theorem Still.alike (h : Still s s') : Alike s s' := by
  rw [Alike, Shared.quiet, Shared.quiet, h.db, h.now]

/-- A coroutine does the same wherever the clock and the tables are the same. -/
theorem Ends.alike {program : Co α} {result : Except Err α} {state state' : Shared × Option Txn}
    (h : Ends (solo allowed) program state result state') (state₂ : Shared × Option Txn) (hshared : Alike state.1 state₂.1)
    (htxn : state₂.2.map Txn.quiet = state.2.map Txn.quiet) :
    ∃ state₂', Ends (solo allowed) program state₂ result state₂' ∧ Alike state'.1 state₂'.1 ∧
      state₂'.2.map Txn.quiet = state'.2.map Txn.quiet := by
  induction h generalizing state₂ with
  | done value state => exact ⟨state₂, .done value _, hshared, htxn⟩
  | fail error state => exact ⟨state₂, .fail error _, hshared, htxn⟩
  | @call stmt next state mid state' reply result hop _ ih =>
      obtain ⟨choice, hchoice, hexec⟩ := hop
      have hquiet := (exec_quietly choice state₂.1 state₂.2 stmt).symm
      rw [show state₂.1.quiet = state.1.quiet from hshared, htxn, exec_quietly, hexec] at hquiet
      obtain ⟨⟨reply₂, mid₂⟩, hexec₂, he⟩ := Option.map_eq_some_iff.mp hquiet
      obtain ⟨rfl, hmid⟩ := Prod.mk.inj he
      obtain ⟨hmid, hmidTxn⟩ := Prod.mk.inj hmid
      obtain ⟨state₂', hrest, hends⟩ := ih mid₂ hmid hmidTxn
      exact ⟨state₂', .call ⟨choice, hchoice, hexec₂⟩ hrest, hends⟩

theorem Attempts.alike (h : Attempts deps s outcome s') (halike : Alike s s₂) :
    ∃ s₂', Attempts deps s₂ outcome s₂' ∧ Alike s' s₂' := by
  obtain ⟨⟨s₂', txn⟩, hends, halike', htxn⟩ := Ends.alike h (s₂, none) halike rfl
  obtain rfl : txn = none := Option.map_eq_none_iff.mp htxn
  exact ⟨s₂', hends, halike'⟩

theorem Attempts.of_runAlone {choice : Choice} {fuel : Nat}
    (h : runAlone [] choice fuel (processOneRow deps) s none = some (.ok outcome, s', none)) :
    Attempts deps s outcome s' := by
  have hends : Ends (alone [] false) (processOneRow deps) (s, none) (.ok outcome) (s', none) := ends_of_runAlone h
  refine hends.mono ?_
  rintro stmt ⟨s₁, txn₁⟩ reply ⟨s₂, txn₂⟩ ⟨choice, micros, hmicros, hexec⟩
  obtain rfl := hmicros rfl
  have hnow : ({ s₁ with now := s₁.now + (0 : Nat) } : Shared) = s₁ := by simp
  rw [hnow] at hexec
  exact ⟨choice, trivial, hexec⟩

end

end VoiceCampaign

import VoiceCampaign.Concurrency.Interleaving
import VoiceCampaign.Protocol.Consistency

/-!
# Statements

What one statement of a coroutine does, read off `exec` once: every statement but `COMMIT` leaves the
tables alone, row locks are only taken when free, and what each writing statement returns and leaves
in the transaction.
-/

namespace VoiceCampaign

open Concurrency

variable {others : List Txn} {choice : Choice} {s s' : Shared} {t : Txn} {txn txn' : Option Txn}

/-! ### Statements without a choice -/

theorem exec_begin {reply : Unit} (h : exec others choice s txn .begin = some (reply, s', txn')) :
    s' = s ∧ txn' = some { startedAt := s.now } := by
  simp only [exec] at h
  split at h
  · cases h
    exact ⟨rfl, rfl⟩
  · cases h

theorem exec_commit {reply : Unit} (h : exec others choice s txn .commit = some (reply, s', txn')) :
    ∃ t, txn = some t ∧ s' = s.commit t ∧ txn' = none := by
  obtain ⟨t, rfl, heq⟩ := Option.map_eq_some_iff.mp h
  cases heq
  exact ⟨t, rfl, rfl, rfl⟩

theorem exec_rollback {reply : Unit}
    (h : exec others choice s txn .rollback = some (reply, s', txn')) : s' = s ∧ txn' = none := by
  cases h
  exact ⟨rfl, rfl⟩

theorem exec_datetimeNow {reply : Time}
    (h : exec others choice s txn .datetimeNow = some (reply, s', txn')) :
    reply = s.now ∧ s' = s ∧ txn' = txn := by
  cases h
  exact ⟨rfl, rfl, rfl⟩

theorem exec_uniform {reply : Jitter}
    (h : exec others choice s txn .uniform = some (reply, s', txn')) : s' = s ∧ txn' = txn := by
  cases h
  exact ⟨rfl, rfl⟩

theorem exec_notify {reply : Unit} (h : exec others choice s txn .notify = some (reply, s', txn')) :
    s' = { s with wake := true } ∧ txn' = txn := by
  cases h
  exact ⟨rfl, rfl⟩

theorem exec_select {query : Query} {reply : query.Result}
    (h : exec others choice s txn (.select query) = some (reply, s', txn')) :
    reply = query.eval (txn.elim s.db s.db.apply) (txn.elim s.now Txn.startedAt) choice.pick ∧
      s' = s ∧ txn' = txn := by
  cases h
  exact ⟨rfl, rfl, rfl⟩

theorem exec_emitAudit {event : AuditEvent} {reply : Unit}
    (h : exec others choice s (some t) (.emitAudit event) = some (reply, s', txn')) :
    s' = { s with auditSeq := s.auditSeq + 1 } ∧ txn' = some { t with
      audit := t.audit ++ [{ id := s.auditSeq, ts := t.startedAt, event }] } := by
  cases h
  exact ⟨rfl, rfl⟩

theorem exec_placeCall {key : IdempotencyKey} {phone : String} {reply : PlaceOutcome}
    (h : exec others choice s txn (.placeCall key phone) = some (reply, s', txn')) :
    reply = choice.place ∧ s' = { s with issued := choice.issue key s.issued } ∧ txn' = txn := by
  cases h
  exact ⟨rfl, rfl, rfl⟩

theorem exec_getStatus {handle : Handle} {reply : StatusOutcome}
    (h : exec others choice s txn (.getStatus handle) = some (reply, s', txn')) :
    s' = s ∧ txn' = txn := by
  cases h
  exact ⟨rfl, rfl⟩

/-! ### Writing a call row -/

/-- A row version written under a free lock, with room in the phone index. -/
structure Writes (others : List Txn) (db : Db) (t : Txn) (version : CallRow) (t' : Txn) : Prop where
  free : held others (.call version.id) = false
  uncontended : version.status.holdsPhone = true → phoneContended others db version = false
  untaken : version.status.holdsPhone = true → phoneTaken (db.apply t) version = false
  txn : t' = { t with locks := .call version.id :: t.locks, calls := put CallRow.id version t.calls }

theorem writeCall_ok {db : Db} {version : CallRow} {t' : Txn}
    (h : writeCall others db t version = some (.ok t')) : Writes others db t version t' := by
  unfold writeCall at h
  split at h
  · cases h
  · next hfree =>
      split at h
      · cases h
      · next hcontended =>
          split at h
          · cases h
          · next htaken =>
              simp only [Option.some.injEq, Except.ok.injEq] at h
              refine ⟨by simpa using hfree, fun hholds => ?_, fun hholds => ?_, h.symm⟩
              · simpa [hholds] using hcontended
              · simpa [hholds] using htaken

theorem writeCall_error {db : Db} {version : CallRow} {error : Err}
    (h : writeCall others db t version = some (.error error)) : error = .uniqueViolation := by
  unfold writeCall at h
  split at h
  · cases h
  · split at h
    · cases h
    · split at h
      · simpa using h.symm
      · cases h

/-- The outcomes of a statement that writes one call row. -/
inductive WriteOutcome (others : List Txn) (s : Shared) (t : Txn) (candidate : CallRow → Prop)
    (version : CallRow → CallRow) : Except Err (Option CallRow) → Option Txn → Prop
  | missed (hnone : ∀ row ∈ (s.db.apply t).calls, ¬ candidate row) :
      WriteOutcome others s t candidate version (.ok none) (some t)
  | violated : WriteOutcome others s t candidate version (.error .uniqueViolation) (some t)
  | written (row : CallRow) (t' : Txn) (hrow : row ∈ (s.db.apply t).calls) (hcandidate : candidate row)
      (hwrites : Writes others s.db t (version row) t') :
      WriteOutcome others s t candidate version (.ok (some (version row))) (some t')

theorem exec_updateCall {update : CallUpdate} {reply : Except Err (Option CallRow)}
    (h : exec others choice s (some t) (.updateCall update) = some (reply, s', txn')) :
    s' = s ∧ WriteOutcome others s t (fun row => update.hits row = true) (update.set t.startedAt)
      reply txn' := by
  simp only [exec, Option.bind_some] at h
  split at h
  · next hfind =>
      cases h
      exact ⟨rfl, .missed fun row hrow => by simpa using List.find?_eq_none.mp hfind row hrow⟩
  · next row hfind =>
      obtain ⟨written, hwritten, heq⟩ := Option.map_eq_some_iff.mp h
      cases written with
      | error error =>
          cases heq
          rw [writeCall_error hwritten]
          exact ⟨rfl, .violated⟩
      | ok t' =>
          cases heq
          exact ⟨rfl, .written row t' (List.mem_of_find?_eq_some hfind)
            (List.find?_some hfind) (writeCall_ok hwritten)⟩

theorem exec_claimNextQueued {campaignId : CampaignId} {reply : Except Err (Option CallRow)}
    (h : exec others choice s (some t) (.claimNextQueued campaignId) = some (reply, s', txn')) :
    s' = s ∧ WriteOutcome others s t (fun row => row.claimable campaignId t.startedAt = true ∧
        held others (.call row.id) = false) (CallRow.claim t.startedAt) reply txn' := by
  simp only [exec, Option.bind_some] at h
  split at h
  · next hnone =>
      cases h
      refine ⟨rfl, .missed fun row hrow hcandidate => ?_⟩
      have hmem : row ∈ (s.db.apply t).calls.filter fun call =>
          call.claimable campaignId t.startedAt && !held others (.call call.id) :=
        List.mem_filter.mpr ⟨hrow, by simp [hcandidate]⟩
      rw [oldest_eq_none.mp hnone] at hmem
      cases hmem
  · next row hsome =>
      obtain ⟨hrow, hcandidate⟩ := List.mem_filter.mp (oldest_some hsome).1
      obtain ⟨written, hwritten, heq⟩ := Option.map_eq_some_iff.mp h
      cases written with
      | error error =>
          cases heq
          rw [writeCall_error hwritten]
          exact ⟨rfl, .violated⟩
      | ok t' =>
          cases heq
          exact ⟨rfl, .written row t' hrow (by simpa using hcandidate) (writeCall_ok hwritten)⟩

theorem exec_selectRetryDue {campaignId : CampaignId} {reply : Option CallRow}
    (h : exec others choice s (some t) (.selectRetryDue campaignId) = some (reply, s', txn')) :
    s' = s ∧ ((reply = none ∧ txn' = some t) ∨ ∃ row ∈ (s.db.apply t).calls, reply = some row ∧
      row.requeueable campaignId t.startedAt = true ∧ held others (.call row.id) = false ∧
      txn' = some { t with locks := .call row.id :: t.locks }) := by
  simp only [exec, Option.map_some] at h
  split at h
  · cases h
    exact ⟨rfl, Or.inl ⟨rfl, rfl⟩⟩
  · next row hsome =>
      cases h
      obtain ⟨hrow, hcandidate⟩ := List.mem_filter.mp (oldest_some hsome).1
      rw [Bool.and_eq_true, Bool.not_eq_true'] at hcandidate
      exact ⟨rfl, Or.inr ⟨row, hrow, rfl, hcandidate.1, hcandidate.2, rfl⟩⟩

theorem exec_claimUnprocessedOne {reply : Option InboxRow}
    (h : exec others choice s (some t) .claimUnprocessedOne = some (reply, s', txn')) :
    s' = s ∧ ((reply = none ∧ txn' = some t) ∨ ∃ row ∈ (s.db.apply t).inbox, reply = some row ∧
      row.processedAt = none ∧ held others (.inbox row.id) = false ∧
      txn' = some { t with locks := .inbox row.id :: t.locks }) := by
  simp only [exec, Option.map_some] at h
  split at h
  · cases h
    exact ⟨rfl, Or.inl ⟨rfl, rfl⟩⟩
  · next row hsome =>
      cases h
      obtain ⟨hrow, hcandidate⟩ := List.mem_filter.mp (oldest_some hsome).1
      rw [Bool.and_eq_true, Bool.not_eq_true', Option.isNone_iff_eq_none] at hcandidate
      exact ⟨rfl, Or.inr ⟨row, hrow, rfl, hcandidate.1, hcandidate.2, rfl⟩⟩

theorem exec_lockCampaign {campaignId : CampaignId} {reply : Unit}
    (h : exec others choice s (some t) (.lockCampaign campaignId) = some (reply, s', txn')) :
    s' = s ∧ held others (.campaign campaignId) = false ∧
      txn' = some { t with locks := .campaign campaignId :: t.locks } := by
  simp only [exec, Option.bind_some] at h
  split at h
  · cases h
  · next hfree =>
      cases h
      exact ⟨rfl, by simpa using hfree, rfl⟩

/-- The campaign row once its status is `new`. -/
def CampaignRow.moved (campaign : CampaignRow) (new : CampaignStatus) (now : Time) : CampaignRow :=
  { campaign with status := new, updatedAt := now }

theorem exec_updateCampaign {campaignId : CampaignId} {expected new : CampaignStatus} {reply : Bool}
    (h : exec others choice s (some t) (.updateCampaign campaignId expected new) =
      some (reply, s', txn')) :
    s' = s ∧ ((reply = false ∧ txn' = some t ∧ ∀ campaign,
        (s.db.apply t).campaign? campaignId = some campaign → campaign.status ≠ expected) ∨
      ∃ campaign, (s.db.apply t).campaign? campaignId = some campaign ∧ campaign.status = expected ∧
        held others (.campaign campaignId) = false ∧ reply = true ∧
        txn' = some { t with
          locks := .campaign campaignId :: t.locks
          campaigns := put CampaignRow.id (campaign.moved new t.startedAt) t.campaigns }) := by
  simp only [exec, Option.bind_some] at h
  split at h
  · next hnone =>
      cases h
      refine ⟨rfl, Or.inl ⟨rfl, rfl, fun campaign hcampaign => ?_⟩⟩
      rw [hnone] at hcampaign
      cases hcampaign
  · next campaign hsome =>
      split at h
      · next hne =>
          cases h
          refine ⟨rfl, Or.inl ⟨rfl, rfl, fun found hfound => ?_⟩⟩
          rw [hsome] at hfound
          exact Option.some.inj hfound ▸ hne
      · next heq =>
          split at h
          · cases h
          · next hfree =>
              cases h
              exact ⟨rfl, Or.inr ⟨campaign, hsome, by simpa using heq, by simpa using hfree, rfl, rfl⟩⟩

theorem exec_markProcessed {inboxId : InboxId} {reply : Unit}
    (h : exec others choice s (some t) (.markProcessed inboxId) = some (reply, s', txn')) :
    s' = s ∧ ((txn' = some t ∧ lookup InboxRow.id (s.db.apply t).inbox inboxId = none) ∨
      ∃ row, lookup InboxRow.id (s.db.apply t).inbox inboxId = some row ∧
        held others (.inbox inboxId) = false ∧
        txn' = some { t with
          locks := .inbox inboxId :: t.locks
          inbox := put InboxRow.id { row with processedAt := some t.startedAt } t.inbox }) := by
  simp only [exec, Option.bind_some] at h
  split at h
  · next hnone =>
      cases h
      exact ⟨rfl, Or.inl ⟨rfl, hnone⟩⟩
  · next row hsome =>
      split at h
      · cases h
      · next hfree =>
          cases h
          exact ⟨rfl, Or.inr ⟨row, hsome, by simpa using hfree, rfl⟩⟩

theorem exec_updateLastDispatchAt {campaignId : CampaignId} {ts : Time} {reply : Unit}
    (h : exec others choice s (some t) (.updateLastDispatchAt campaignId ts) =
      some (reply, s', txn')) :
    s' = s ∧ held others (.cursor campaignId) = false ∧ txn' = some { t with
      locks := .cursor campaignId :: t.locks
      cursors := put CursorRow.campaignId { campaignId, lastDispatchAt := ts } t.cursors } := by
  simp only [exec, Option.bind_some] at h
  split at h
  · cases h
  · next hfree =>
      cases h
      exact ⟨rfl, by simpa using hfree, rfl⟩

/-! ### What every statement respects -/

theorem Choice.mem_issue {key : IdempotencyKey} {issued : List Dial}
    {entry : Dial} (h : entry ∈ issued) : entry ∈ choice.issue key issued := by
  rw [Choice.issue]
  split
  · exact List.mem_cons_of_mem _ h
  · exact List.mem_cons_of_mem _ h
  · exact h

/-- A new dial has the key that was dialed. -/
theorem Choice.key_of_mem_issue {key : IdempotencyKey} {issued : List Dial} {entry : Dial}
    (h : entry ∈ choice.issue key issued) : entry ∈ issued ∨ entry.key = key := by
  rw [Choice.issue] at h
  split at h
  · rcases List.mem_cons.mp h with rfl | hold
    · exact Or.inr rfl
    · exact Or.inl hold
  · rcases List.mem_cons.mp h with rfl | hold
    · exact Or.inr rfl
    · exact Or.inl hold
  · exact Or.inl h

/-- A statement that needs a transaction has one. -/
theorem exec_open {stmt : Stmt} {reply : Reply stmt}
    (h : exec others choice s txn stmt = some (reply, s', txn'))
    (hnone : exec others choice s none stmt = none) : ∃ t, txn = some t := by
  cases txn with
  | none =>
      rw [hnone] at h
      cases h
  | some t => exact ⟨t, rfl⟩

/-- Only `COMMIT` touches the tables, and only `place_call` the dials. -/
theorem exec_tables {stmt : Stmt} {reply : Reply stmt} (hstmt : stmt ≠ .commit)
    (h : exec others choice s txn stmt = some (reply, s', txn')) :
    s'.db = s.db ∧ s'.now = s.now ∧ (s'.issued = s.issued ∨
      ∃ key phone, stmt = .placeCall key phone ∧ s'.issued = choice.issue key s.issued) := by
  have hsame : s' = s → s'.db = s.db ∧ s'.now = s.now ∧ (s'.issued = s.issued ∨
      ∃ key phone, stmt = .placeCall key phone ∧ s'.issued = choice.issue key s.issued) := by
    rintro rfl
    exact ⟨rfl, rfl, Or.inl rfl⟩
  cases stmt with
  | commit => exact absurd rfl hstmt
  | begin =>
      simp only [exec] at h
      split at h
      · cases h
        exact hsame rfl
      · cases h
  | rollback =>
      cases h
      exact hsame rfl
  | datetimeNow =>
      cases h
      exact hsame rfl
  | uniform =>
      cases h
      exact hsame rfl
  | notify =>
      cases h
      exact ⟨rfl, rfl, Or.inl rfl⟩
  | select query =>
      cases h
      exact hsame rfl
  | emitAudit event =>
      obtain ⟨t, rfl⟩ := exec_open h rfl
      cases h
      exact ⟨rfl, rfl, Or.inl rfl⟩
  | updateCall update =>
      obtain ⟨t, rfl⟩ := exec_open h rfl
      exact hsame (exec_updateCall h).1
  | claimNextQueued campaignId =>
      obtain ⟨t, rfl⟩ := exec_open h rfl
      exact hsame (exec_claimNextQueued h).1
  | selectRetryDue campaignId =>
      obtain ⟨t, rfl⟩ := exec_open h rfl
      exact hsame (exec_selectRetryDue h).1
  | lockCampaign campaignId =>
      obtain ⟨t, rfl⟩ := exec_open h rfl
      exact hsame (exec_lockCampaign h).1
  | updateCampaign campaignId expected new =>
      obtain ⟨t, rfl⟩ := exec_open h rfl
      exact hsame (exec_updateCampaign h).1
  | updateLastDispatchAt campaignId ts =>
      obtain ⟨t, rfl⟩ := exec_open h rfl
      exact hsame (exec_updateLastDispatchAt h).1
  | claimUnprocessedOne =>
      obtain ⟨t, rfl⟩ := exec_open h rfl
      exact hsame (exec_claimUnprocessedOne h).1
  | markProcessed inboxId =>
      obtain ⟨t, rfl⟩ := exec_open h rfl
      exact hsame (exec_markProcessed h).1
  | placeCall key phone =>
      cases h
      exact ⟨rfl, rfl, Or.inr ⟨key, phone, rfl, rfl⟩⟩
  | getStatus handle =>
      cases h
      exact hsame rfl

theorem exec_quiet {stmt : Stmt} {reply : Reply stmt} (hstmt : stmt ≠ .commit)
    (h : exec others choice s txn stmt = some (reply, s', txn')) :
    s'.db = s.db ∧ s'.now = s.now ∧ ∀ entry ∈ s.issued, entry ∈ s'.issued := by
  obtain ⟨hdb, hnow, hsame | ⟨key, phone, -, hissue⟩⟩ := exec_tables hstmt h
  · exact ⟨hdb, hnow, fun _ hentry => hsame ▸ hentry⟩
  · exact ⟨hdb, hnow, fun _ hentry => hissue ▸ Choice.mem_issue hentry⟩

/-- A statement takes no time. -/
theorem exec_now {stmt : Stmt} {reply : Reply stmt} (h : exec others choice s txn stmt = some (reply, s', txn')) :
    s'.now = s.now := by
  by_cases hcommit : stmt = .commit
  · subst hcommit
    obtain ⟨t, rfl, rfl, rfl⟩ := exec_commit h
    rfl
  · exact (exec_quiet hcommit h).2.1

/-- Writes a call row. -/
def Stmt.writesCall : Stmt → Bool
  | .updateCall _ | .claimNextQueued _ => true
  | _ => false

/-- Only those two statements add to the row versions of a transaction. -/
theorem exec_calls {stmt : Stmt} {reply : Reply stmt} (hwrites : stmt.writesCall = false)
    (h : exec others choice s txn stmt = some (reply, s', txn')) :
    ∀ t' ∈ txn', t'.calls = [] ∨ ∃ t ∈ txn, t'.calls = t.calls := by
  rintro t' ⟨⟩
  cases stmt with
  | updateCall _ | claimNextQueued _ => cases hwrites
  | begin =>
      obtain ⟨-, htxn⟩ := exec_begin h
      cases htxn
      exact Or.inl rfl
  | commit =>
      obtain ⟨_, -, -, htxn⟩ := exec_commit h
      cases htxn
  | rollback => cases h
  | datetimeNow | uniform | notify | select query | placeCall key phone | getStatus handle =>
      cases h
      exact Or.inr ⟨t', rfl, rfl⟩
  | _ =>
      obtain ⟨t, rfl⟩ := exec_open h rfl
      simp only [exec, Option.bind_some, Option.map_some] at h
      repeat' split at h
      all_goals cases h
      all_goals exact Or.inr ⟨_, rfl, rfl⟩

/-- The locks and the row versions a statement adds are free and uncontended. -/
structure Acquires (others : List Txn) (db : Db) (txn txn' : Option Txn) : Prop where
  locks : ∀ t' ∈ txn', ∀ lock ∈ t'.locks, (∃ t ∈ txn, lock ∈ t.locks) ∨ held others lock = false
  calls : ∀ t' ∈ txn', ∀ version ∈ t'.calls, (∃ t ∈ txn, version ∈ t.calls) ∨
    (version.status.holdsPhone = true → phoneContended others db version = false)

namespace Acquires

variable {db : Db}

theorem refl (txn : Option Txn) : Acquires others db txn txn where
  locks t ht _ hlock := Or.inl ⟨t, ht, hlock⟩
  calls t ht _ hversion := Or.inl ⟨t, ht, hversion⟩

theorem closed (txn : Option Txn) : Acquires others db txn none := ⟨nofun, nofun⟩

theorem opened (txn : Option Txn) {now : Time} : Acquires others db txn (some { startedAt := now }) where
  locks := by
    rintro _ ⟨⟩ _ hlock
    cases hlock
  calls := by
    rintro _ ⟨⟩ _ hversion
    cases hversion

/-- One more lock, and no new call version. -/
theorem lock {lock : RowLock} {t' : Txn} (hfree : held others lock = false)
    (hlocks : t'.locks = lock :: t.locks) (hcalls : t'.calls = t.calls) :
    Acquires others db (some t) (some t') where
  locks := by
    rintro _ ⟨⟩ other hother
    rw [hlocks] at hother
    rcases List.mem_cons.mp hother with rfl | hother
    · exact Or.inr hfree
    · exact Or.inl ⟨t, rfl, hother⟩
  calls := by
    rintro _ ⟨⟩ version hversion
    rw [hcalls] at hversion
    exact Or.inl ⟨t, rfl, hversion⟩

theorem write {version : CallRow} {t' : Txn} (h : Writes others db t version t') :
    Acquires others db (some t) (some t') where
  locks := by
    rintro _ ⟨⟩ other hother
    rw [h.txn] at hother
    rcases List.mem_cons.mp hother with rfl | hother
    · exact Or.inr h.free
    · exact Or.inl ⟨t, rfl, hother⟩
  calls := by
    rintro _ ⟨⟩ other hother
    rw [h.txn] at hother
    rcases List.mem_cons.mp hother with rfl | hother
    · exact Or.inr h.uncontended
    · exact Or.inl ⟨t, rfl, (List.mem_filter.mp hother).1⟩

theorem outcome {candidate : CallRow → Prop} {version : CallRow → CallRow}
    {reply : Except Err (Option CallRow)}
    (h : WriteOutcome others s t candidate version reply txn') :
    Acquires others s.db (some t) txn' := by
  cases h with
  | missed hnone => exact .refl _
  | violated => exact .refl _
  | written row t' hrow hcandidate hwrites => exact .write hwrites

end Acquires

theorem exec_acquires {stmt : Stmt} {reply : Reply stmt}
    (h : exec others choice s txn stmt = some (reply, s', txn')) :
    Acquires others s.db txn txn' := by
  cases stmt with
  | commit =>
      obtain ⟨t, rfl, -, rfl⟩ := exec_commit h
      exact .closed _
  | begin =>
      simp only [exec] at h
      split at h
      · cases h
        exact .opened _
      · cases h
  | rollback =>
      cases h
      exact .closed _
  | datetimeNow =>
      cases h
      exact .refl _
  | uniform =>
      cases h
      exact .refl _
  | notify =>
      cases h
      exact .refl _
  | select query =>
      cases h
      exact .refl _
  | emitAudit event =>
      obtain ⟨t, rfl⟩ := exec_open h rfl
      cases h
      refine ⟨?_, ?_⟩
      · rintro _ ⟨⟩ lock hlock
        exact Or.inl ⟨t, rfl, hlock⟩
      · rintro _ ⟨⟩ version hversion
        exact Or.inl ⟨t, rfl, hversion⟩
  | updateCall update =>
      obtain ⟨t, rfl⟩ := exec_open h rfl
      exact .outcome (exec_updateCall h).2
  | claimNextQueued campaignId =>
      obtain ⟨t, rfl⟩ := exec_open h rfl
      exact .outcome (exec_claimNextQueued h).2
  | selectRetryDue campaignId =>
      obtain ⟨t, rfl⟩ := exec_open h rfl
      obtain ⟨-, ⟨-, rfl⟩ | ⟨row, -, -, -, hfree, rfl⟩⟩ := exec_selectRetryDue h
      · exact .refl _
      · exact .lock hfree rfl rfl
  | lockCampaign campaignId =>
      obtain ⟨t, rfl⟩ := exec_open h rfl
      obtain ⟨-, hfree, rfl⟩ := exec_lockCampaign h
      exact .lock hfree rfl rfl
  | updateCampaign campaignId expected new =>
      obtain ⟨t, rfl⟩ := exec_open h rfl
      obtain ⟨-, ⟨-, rfl, -⟩ | ⟨campaign, -, -, hfree, -, rfl⟩⟩ := exec_updateCampaign h
      · exact .refl _
      · exact .lock hfree rfl rfl
  | updateLastDispatchAt campaignId ts =>
      obtain ⟨t, rfl⟩ := exec_open h rfl
      obtain ⟨-, hfree, rfl⟩ := exec_updateLastDispatchAt h
      exact .lock hfree rfl rfl
  | claimUnprocessedOne =>
      obtain ⟨t, rfl⟩ := exec_open h rfl
      obtain ⟨-, ⟨-, rfl⟩ | ⟨row, -, -, -, hfree, rfl⟩⟩ := exec_claimUnprocessedOne h
      · exact .refl _
      · exact .lock hfree rfl rfl
  | markProcessed inboxId =>
      obtain ⟨t, rfl⟩ := exec_open h rfl
      obtain ⟨-, ⟨rfl, -⟩ | ⟨row, -, hfree, rfl⟩⟩ := exec_markProcessed h
      · exact .refl _
      · exact .lock hfree rfl rfl
  | placeCall key phone =>
      cases h
      exact .refl _
  | getStatus handle =>
      cases h
      exact .refl _

end VoiceCampaign

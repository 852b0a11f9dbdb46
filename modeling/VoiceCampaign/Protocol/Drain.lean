import VoiceCampaign.Protocol.Transition

/-!
# The inbox drain

`_process_one_row` under interference: what is known about the inbox row, the call row it was matched
with and the update that was tried, once the transaction is about to commit.
-/

namespace VoiceCampaign

open Concurrency

/-! ### The locked inbox row -/

/-- The inbox row a drain has claimed and not yet marked. -/
structure RowHeld (s : Shared) (t : Txn) (row : InboxRow) : Prop where
  current : s.db.inbox? row.id = some row
  unprocessed : row.processedAt = none
  lock : .inbox row.id ∈ t.locks
  inbox : t.inbox = []

section

variable {s s' : Shared} {task : Option Task} {t t' : Txn} {row : InboxRow}

theorem RowHeld.lasts (h : RowHeld s t row) (hrely : Rely ⟨task, some t⟩ s s') : RowHeld s' t row :=
  ⟨hrely.keepInbox t rfl _ h.lock row h.current, h.unprocessed, h.lock, h.inbox⟩

theorem RowHeld.extend (h : RowHeld s t row) (hextends : t.Extends t') : RowHeld s t' row :=
  ⟨h.current, h.unprocessed, hextends.locks _ h.lock, hextends.inbox.trans h.inbox⟩

/-- The transaction once its inbox row is marked. -/
def Txn.mark (t : Txn) (row : InboxRow) : Txn :=
  { t with
    locks := .inbox row.id :: t.locks
    inbox := [{ row with processedAt := some t.startedAt }] }

theorem RowHeld.marks (h : RowHeld s t row) : Marks s (some .drain) (t.mark row) (some row) :=
  .marked row rfl h.current h.unprocessed (List.mem_cons_of_mem _ h.lock) rfl

theorem Settled.mark {inbox : Option InboxRow} {before after : CallRow} {event : AuditEvent}
    (h : Settled s task t inbox before after event) :
    Settled s task (t.mark row) inbox before after event := by
  obtain ⟨folds, hfolds, haudit⟩ := h.folds
  exact ⟨⟨h.moves.cause, h.moves.row, List.mem_cons_of_mem _ h.moves.lock, h.moves.calls,
    h.moves.phone⟩, folds, hfolds.relock rfl (fun _ => List.mem_cons_of_mem _) rfl, haudit⟩

end

section

variable {σ : Type} {D : Discipline Stmt Reply σ Party} {view : σ → Shared}
  {s : σ} {l : Party}
  {t : Txn} {row : InboxRow} {α : Type} {post : α → σ → Party → Prop} {err : Err → σ → Party → Prop}

theorem markProcessed_safe (hD : Above D view) (htxn : l.txn = some t) (hheld : RowHeld (view s) t row)
    {next : Unit → Co α}
    (h : ∀ s₂, D.inv s₂ → Rely l (view s) (view s₂) → RowHeld (view s₂) t row →
      D.Safe post err (next ()) s₂ ⟨l.task, some (t.mark row)⟩) :
    D.Safe post err (markProcessed row.id >>= next) s l := by
  obtain ⟨task, txn⟩ := l
  obtain rfl : txn = some t := htxn
  refine hD.step nofun (fun _ _ _ => trivial)
    fun others choice reply s₁ s₂ txn hs₁ hinv hinv₂ hrely hsteady hdb hexec hrun => ?_
  have hheld₂ := hheld.lasts hrely
  have hfind : lookup InboxRow.id ((view s₁).db.apply t).inbox row.id = some row := by
    rw [← hdb, show ((view s₂).db.apply t).inbox = overlay InboxRow.id t.inbox (view s₂).db.inbox from rfl,
      hheld.inbox, overlay_nil]
    exact hheld₂.current
  obtain ⟨-, ⟨-, hnone⟩ | ⟨found, hfound, -, htxn⟩⟩ := exec_markProcessed hrun
  · rw [hfind] at hnone
    cases hnone
  · rw [hfind] at hfound
    obtain rfl := Option.some.inj hfound
    rw [hheld.inbox, put_nil] at htxn
    subst htxn
    exact h s₂ hinv₂ hrely hheld₂

end

/-! ### `apply_retryable_outcome` -/

/-- The instant a retry is put off to: some jitter, some later `datetime.now`. -/
def Backoff (deps : Deps) (s : Shared) (call : CallRow) (nextAttempt : Time) : Prop :=
  ∃ u now delta, s.now ≤ now ∧
    backoffDelta call.attemptEpoch (backoffBaseSeconds deps (s.db.campaign? call.campaignId)) u =
      .ok delta ∧ addTimedelta now delta = .ok nextAttempt

/-- The update an event asks for, where a retry is put off by the backoff. -/
structure WebhookArgs (deps : Deps) (s : Shared) (event : ProviderEvent) (call : CallRow)
    (args : Transition) : Prop where
  asks : WebhookAsks event call args
  backoff : ∀ nextAttempt, args = (webhookOutcome event call).retryTransition nextAttempt →
    Backoff deps s call nextAttempt

theorem WebhookArgs.of_none {deps : Deps} {s : Shared} {event : ProviderEvent} {call : CallRow}
    {args : Transition} (hasks : WebhookAsks event call args)
    (hnone : args.columnUpdates.nextAttemptAt = none) : WebhookArgs deps s event call args := by
  refine ⟨hasks, fun nextAttempt he => ?_⟩
  rw [he] at hnone
  cases hnone

section

variable {σ : Type} {D : Discipline Stmt Reply σ Party} {view : σ → Shared}
  {s : σ} {l : Party}
  {t : Txn} {row : InboxRow} {event : ProviderEvent} {call : CallRow} {handle : Handle}
  {K : σ → Prop}

theorem backoffBaseSeconds_grows {deps : Deps} {s s' : Shared} {id : CampaignId}
    {campaign : CampaignRow} (hcampaign : s.db.campaign? id = some campaign) (hgrows : Grows s s') :
    backoffBaseSeconds deps (s'.db.campaign? id) = backoffBaseSeconds deps (s.db.campaign? id) := by
  obtain ⟨campaign', hcampaign', hevolves⟩ := hgrows.campaign id campaign hcampaign
  rw [hcampaign, hcampaign', hevolves.config]
  rfl

theorem applyEvent_safe (deps : Deps) (hD : Above D view) (hinv : D.inv s)
    (htask : l.task = some .drain) (htxn : l.txn = some t) (hfresh : t.Fresh)
    (hcall : call ∈ (view s).db.calls) (hparse : parseEvent row.payload = .ok event)
    (hevent : event.providerCallId = .str handle) (hhandle : call.providerCallId = some handle)
    (hnew : event.statusEnum ≠ call.status) (hK : t.Protects D l.task K) (hheld : K s) :
    D.Safe (fun result s' l' => l'.task = l.task ∧ ∃ args t', l'.txn = some t' ∧ t.Extends t' ∧
        K s' ∧ (result.isNoOp = true → t' = t) ∧ WebhookArgs deps (view s) event call args ∧
        TransitionEnds D view l t (some row) args K s' t' result) (fun _ _ l' => l'.task = l.task)
      (applyEvent deps event call) s l := by
  obtain ⟨task, txn⟩ := l
  obtain rfl : txn = some t := htxn
  obtain rfl : task = some .drain := htask
  have hsnap := (hD.inv hinv).seen_of_mem hcall
  obtain ⟨campaign, hcampaign, -, -⟩ := (hD.inv hinv).campaign_of_call hcall
  have htransition : ∀ s₂ args, Rely ⟨some .drain, some t⟩ (view s) (view s₂) → K s₂ →
      WebhookArgs deps (view s) event call args →
      (∀ nextAttempt, args.columnUpdates.nextAttemptAt = some nextAttempt →
        PutOff (view s₂) call nextAttempt) →
      D.Safe (fun result s' l' => l'.task = some .drain ∧ ∃ args t', l'.txn = some t' ∧ t.Extends t' ∧
        K s' ∧ (result.isNoOp = true → t' = t) ∧ WebhookArgs deps (view s) event call args ∧
        TransitionEnds D view ⟨some .drain, some t⟩ t (some row) args K s' t' result)
        (fun _ _ l' => l'.task = some .drain) (transition args) s₂ ⟨some .drain, some t⟩ := by
    intro s₂ args hrely hheld₂ hargs hputOff
    have hasks : Asks (view s₂) (some .drain) (some row) args :=
      .webhook row event call handle args (hsnap.mono hrely.toGrows) hparse hevent hhandle hnew hargs.asks
        hputOff
    refine (transition_safe hD rfl hfresh hasks hK hheld₂).mono ?_ fun _ _ _ _ h => h
    rintro result s' l' _ ⟨htask, t', htxn, hextends, hheld', hsame, hends⟩
    exact ⟨htask, args, t', htxn, hextends, hheld', hsame, hargs, hends⟩
  unfold applyEvent
  split
  · next hterminal =>
      refine hD.selectIn rfl fun pick s₂ hinv₂ hrely₂ hsteady₂ => ?_
      have hheld₂ := hK t _ _ (.refl t) hsteady₂ hheld
      have hbase : backoffBaseSeconds deps (Query.eval ((view s₂).db.apply t) t.startedAt pick
          (.getCampaign call.campaignId)) =
          backoffBaseSeconds deps ((view s).db.campaign? call.campaignId) := by
        rw [← backoffBaseSeconds_grows hcampaign hrely₂.toGrows]
        exact congrArg _ (Shared.campaign?_commit_nil hfresh.campaigns _)
      rw [hbase]
      unfold applyRetryableOutcome
      have hasIs : event.statusEnum = .completed ∨ event.statusEnum = .failed →
          classify (.status (webhookOutcome event call).outcome) = .ok .terminal := by
        rintro (h | h) <;> rw [show (webhookOutcome event call).outcome = event.statusEnum from rfl, h] <;>
          rfl
      have hretry : event.statusEnum = .noAnswer ∨ event.statusEnum = .busy →
          ∃ kind, kind ≠ RetryOutcome.terminal ∧
            classify (.status (webhookOutcome event call).outcome) = .ok kind := by
        rintro (h | h) <;> rw [show (webhookOutcome event call).outcome = event.statusEnum from rfl, h]
        · exact ⟨.noAnswer, nofun, rfl⟩
        · exact ⟨.busy, nofun, rfl⟩
      have hkind : (event.statusEnum = .completed ∨ event.statusEnum = .failed) ∨
          (event.statusEnum = .noAnswer ∨ event.statusEnum = .busy) := by
        cases h : event.statusEnum <;> rw [h] at hterminal <;> simp_all [CallStatus.isTerminal]
      rcases hkind with hkind | hkind
      · rw [hasIs hkind]
        exact htransition s₂ _ hrely₂ hheld₂ (.of_none (.asIs hkind) rfl) nofun
      obtain ⟨kind, hne, hclassify⟩ := hretry hkind
      rw [hclassify]
      show D.Safe _ _ (if kind = .terminal then _ else _) _ _
      rw [if_neg hne]
      split
      · next hbudget =>
          refine .bind (hD.nextAttempt.mono (fun _ _ _ _ h => h) fun _ _ l' _ (h : l' = _) => by rw [h]) ?_
          rintro nextAttempt s₃ l₃ hinv₃ ⟨rfl, hrely₃, hsteady₃, u, now, delta, hnow, hread, hdelta, hnext⟩
          refine htransition s₃ _ (hrely₂.trans hrely₃) (hK t _ _ (.refl t) hsteady₃ hheld₂)
            ⟨.retry nextAttempt hkind hbudget, ?_⟩ ?_
          · intro n he
            have hsame : nextAttempt = n :=
              Option.some.inj (congrArg (fun a => a.columnUpdates.nextAttemptAt) he)
            subst hsame
            exact ⟨u, now, delta, hrely₂.now.trans hnow, hdelta, hnext⟩
          · rintro _ ⟨⟩
            obtain ⟨campaign', hcampaign', hevolves⟩ :=
              (hrely₂.trans hrely₃).campaign _ campaign hcampaign
            have hconfig : campaign'.retryConfig = campaign.retryConfig := by rw [hevolves.config]
            rw [hcampaign, backoffBaseSeconds, ← hconfig] at hdelta
            exact ⟨campaign', u, now, delta, hcampaign', hread, hdelta, hnext⟩
      · next hbudget =>
          exact htransition s₂ _ hrely₂ hheld₂
            (.of_none (.exhausted hkind (Nat.eq_zero_of_not_pos hbudget)) rfl) nofun
  · next hlive =>
      rw [Bool.not_eq_true] at hlive
      exact htransition s _ (.refl _ _) hheld (.of_none (.writeThrough hlive) rfl) nofun

/-! ### `_process_one_row` -/

/-- The unlocked read of the call row by its handle. -/
structure LookedUp (D : Discipline Stmt Reply σ Party) (view : σ → Shared) (l : Party)
    (row : InboxRow) (handle : Handle) (found : Option CallRow) (s₁ : σ) : Prop where
  step : ∃ others s₀, D.inv s₀ ∧ (view s₀).db.inbox? row.id = some row ∧ D.inv s₁ ∧
    (view s₁).db = (view s₀).db ∧ D.exec others s₀ l (.select (.getByProviderCallId handle))
      found s₁ l
  result : ∃ pick, found = oldest (fun _ => 0) pick ((view s₁).db.withHandle handle)

theorem LookedUp.mem {found : CallRow} {s₁ : σ} (h : LookedUp D view l row handle (some found) s₁) :
    found ∈ (view s₁).db.calls ∧ found.providerCallId = some handle := by
  obtain ⟨pick, hpick⟩ := h.result
  simpa [Db.withHandle] using (oldest_some hpick.symm).1

/-- What became of a claimed inbox row, as its transaction is about to commit `t'`. -/
inductive RowEnds (deps : Deps) (D : Discipline Stmt Reply σ Party) (view : σ → Shared) (l : Party)
    (t : Txn) (row : InboxRow) (s' : σ) (t' : Txn) (event : ProviderEvent) : RowOutcome → Prop
  | noHandle (hnull : event.providerCallId = .null) (hcalls : t'.calls = []) :
      RowEnds deps D view l t row s' t' event .stale
  | unknown (handle : Handle) (s₁ : σ) (hhandle : event.providerCallId = .str handle)
      (hlookup : LookedUp D view l row handle none s₁) (hlater : D.Later s₁ s') (hcalls : t'.calls = []) :
      RowEnds deps D view l t row s' t' event .stale
  | sameStatus (handle : Handle) (call : CallRow) (s₁ : σ)
      (hhandle : event.providerCallId = .str handle)
      (hlookup : LookedUp D view l row handle (some call) s₁) (hlater : D.Later s₁ s')
      (hsame : event.statusEnum = call.status) (hcalls : t'.calls = []) :
      RowEnds deps D view l t row s' t' event .stale
  | tried (handle : Handle) (call : CallRow) (s₁ : σ) (args : Transition) (result : TransitionResult)
      (hhandle : event.providerCallId = .str handle)
      (hlookup : LookedUp D view l row handle (some call) s₁) (hlater : D.Later s₁ s')
      (hnew : event.statusEnum ≠ call.status) (hargs : WebhookArgs deps (view s₁) event call args)
      (hends : TransitionEnds D view l t (some row) args (fun s => (view s).db.inbox? row.id = some row) s' t'
        result)
      (hcalls : result.isNoOp = true → t'.calls = []) :
      RowEnds deps D view l t row s' t' event (if result.isNoOp = true then .stale else .applied)

/-- The transaction of a claimed inbox row is fit to commit, and consumes the row. -/
structure RowDone (deps : Deps) (D : Discipline Stmt Reply σ Party) (view : σ → Shared) (l : Party)
    (t : Txn) (row : InboxRow) (s' : σ) (t' : Txn) (outcome : RowOutcome) : Prop where
  ready : Ready (view s') l.task t'
  marks : Marks (view s') l.task t' (some row)
  ends : ∃ event, parseEvent row.payload = .ok event ∧ RowEnds deps D view l t row s' t' event outcome

/-- `mark_processed` ends a transaction that only wrote notes. -/
theorem finish_quiet (hD : Above D view) (outcome : RowOutcome) (htask : l.task = some .drain)
    (htxn : l.txn = some t) (hheld : RowHeld (view s) t row) (hcalls : t.calls = [])
    (hcampaigns : t.campaigns = []) (hnotes : ∀ note ∈ t.audit, note.event.isNote = true) :
    D.Safe (fun value s' l' => (value = outcome ∧ l'.task = l.task ∧ ∃ t', l'.txn = some t' ∧
        Ready (view s') l.task t' ∧ Marks (view s') l.task t' (some row) ∧ t'.calls = []) ∧ D.Later s s')
      (fun _ _ l' => l'.task = l.task) (markProcessed row.id >>= fun _ => pure outcome) s l := by
  obtain ⟨task, txn⟩ := l
  obtain rfl : task = some .drain := htask
  have hbody : D.Safe (fun value s' l' => value = outcome ∧ l'.task = some .drain ∧
      ∃ t', l'.txn = some t' ∧ Ready (view s') (some .drain) t' ∧
        Marks (view s') (some .drain) t' (some row) ∧ t'.calls = [])
      (fun _ _ l' => l'.task = some .drain) (markProcessed row.id >>= fun _ => pure outcome) s
      ⟨some .drain, txn⟩ := by
    refine markProcessed_safe hD htxn hheld fun s₂ hinv₂ hrely₂ hheld₂ s₃ hs₃ _ => ?_
    have hmarks := hheld₂.marks.lasts (hD.rely hs₃)
    exact ⟨rfl, rfl, _, rfl, .quiet _ hcalls hcampaigns hmarks hnotes, hmarks, hcalls⟩
  exact hbody.later

/-- A note, then `mark_processed`. -/
theorem finish_note (hD : Above D view) (outcome : RowOutcome) {note : AuditEvent}
    (hnote : note.isNote = true) (htask : l.task = some .drain) (htxn : l.txn = some t)
    (hfresh : t.Fresh) (hheld : RowHeld (view s) t row) :
    D.Safe (fun value s' l' => (value = outcome ∧ l'.task = l.task ∧ ∃ t', l'.txn = some t' ∧
        Ready (view s') l.task t' ∧ Marks (view s') l.task t' (some row) ∧ t'.calls = []) ∧ D.Later s s')
      (fun _ _ l' => l'.task = l.task)
      (emitAudit note >>= fun _ => markProcessed row.id >>= fun _ => pure outcome) s l := by
  obtain ⟨task, txn⟩ := l
  obtain rfl : task = some .drain := htask
  obtain rfl : txn = some t := htxn
  have hbody : D.Safe (fun value s' l' => value = outcome ∧ l'.task = some .drain ∧
      ∃ t', l'.txn = some t' ∧ Ready (view s') (some .drain) t' ∧
        Marks (view s') (some .drain) t' (some row) ∧ t'.calls = [])
      (fun _ _ l' => l'.task = some .drain)
      (emitAudit note >>= fun _ => markProcessed row.id >>= fun _ => pure outcome) s
      ⟨some .drain, some t⟩ := by
    refine hD.emitAudit rfl fun written s₂ hevent hinv₂ hrely₂ _ => ?_
    refine (finish_quiet (t := { t with audit := t.audit ++ [written] }) hD outcome rfl rfl
      ((hheld.lasts hrely₂).extend ⟨rfl, fun _ h => h, rfl⟩) hfresh.calls hfresh.campaigns ?_).mono
      (fun _ _ _ _ h => h.1) fun _ _ _ _ h => h
    intro n hn
    rw [hfresh.audit, List.nil_append] at hn
    rw [List.mem_singleton.mp hn, hevent]
    exact hnote
  exact hbody.later

/-- `mark_processed` ends a transaction that moved the call. -/
theorem finish_settled (hD : Above D view) (outcome : RowOutcome) (htask : l.task = some .drain)
    (htxn : l.txn = some t) (hheld : RowHeld (view s) t row) {before after : CallRow}
    {event : AuditEvent} (hsettled : Settled (view s) l.task t (some row) before after event) :
    D.Safe (fun value s' l' => (value = outcome ∧ l'.task = l.task ∧ ∃ t', l'.txn = some t' ∧
        Settled (view s') l.task t' (some row) before after event ∧
        Marks (view s') l.task t' (some row)) ∧ D.Later s s')
      (fun _ _ l' => l'.task = l.task) (markProcessed row.id >>= fun _ => pure outcome) s l := by
  obtain ⟨task, txn⟩ := l
  obtain rfl : task = some .drain := htask
  obtain rfl : txn = some t := htxn
  have hbody : D.Safe (fun value s' l' => value = outcome ∧ l'.task = some .drain ∧
      ∃ t', l'.txn = some t' ∧ Settled (view s') (some .drain) t' (some row) before after event ∧
        Marks (view s') (some .drain) t' (some row))
      (fun _ _ l' => l'.task = some .drain) (markProcessed row.id >>= fun _ => pure outcome) s
      ⟨some .drain, some t⟩ := by
    refine markProcessed_safe hD rfl hheld fun s₂ hinv₂ hrely₂ hheld₂ s₃ hs₃ _ => ?_
    exact ⟨rfl, rfl, _, rfl, (hsettled.lasts hrely₂).mark.lasts (hD.rely hs₃),
      hheld₂.marks.lasts (hD.rely hs₃)⟩
  exact hbody.later

theorem processRow_safe (deps : Deps) (hD : Above D view) (htask : l.task = some .drain) (htxn : l.txn = some t) (hfresh : t.Fresh)
    (hheld : RowHeld (view s) t row) :
    D.Safe (fun outcome s' l' => l'.task = l.task ∧ ∃ t', l'.txn = some t' ∧
        RowDone deps D view l t row s' t' outcome) (fun _ _ l' => l'.task = l.task)
      (processRow deps row) s l := by
  obtain ⟨task, txn⟩ := l
  obtain rfl : txn = some t := htxn
  obtain rfl : task = some .drain := htask
  unfold processRow
  cases hparse : parseEvent row.payload with
  | error error => exact fun _ _ _ => rfl
  | ok event =>
  show D.Safe _ _ (getByProviderCallId event.providerCallId >>= _) _ _
  cases hid : event.providerCallId with
  | null =>
      refine (finish_note (l := ⟨some .drain, some t⟩) hD .stale rfl rfl rfl hfresh hheld).mono ?_
        fun _ _ _ _ h => h
      rintro outcome s' l' _ ⟨⟨rfl, htask, t', htxn, hready, hmarks, hcalls⟩, hlater⟩
      exact ⟨htask, t', htxn, hready, hmarks, event, hparse, .noHandle hid hcalls⟩
  | str handle =>
      show D.Safe _ _ (select (.getByProviderCallId handle) >>= _) _ _
      refine hD.step nofun (fun _ _ _ => trivial) fun others choice found s₀ s₁ txn hs₀ hinv₀ hinv₁ hrely hsteady hdb hexec hrun => ?_
      obtain ⟨hfound, -, rfl⟩ := exec_select hrun
      have hlookup : LookedUp D view ⟨some .drain, some t⟩ row handle found s₁ := by
        refine ⟨⟨others, s₀, hinv₀, (hheld.lasts (hD.rely hs₀)).current, hinv₁, hdb, hexec⟩, choice.pick,
          hfound.trans ?_⟩
        show oldest _ _ (((view s₀).db.apply t).calls.filter _) = oldest _ _ ((view s₁).db.calls.filter _)
        rw [hfresh.db_calls, hdb]
      have hheld₁ := hheld.lasts hrely
      cases found with
      | none =>
          refine (finish_note (l := ⟨some .drain, some t⟩) hD .stale rfl rfl rfl hfresh hheld₁).mono ?_
            fun _ _ _ _ h => h
          rintro outcome s' l' _ ⟨⟨rfl, htask, t', htxn, hready, hmarks, hcalls⟩, hlater⟩
          exact ⟨htask, t', htxn, hready, hmarks, event, hparse, .unknown handle s₁ hid hlookup hlater hcalls⟩
      | some call =>
          obtain ⟨hcall, hhandle⟩ := hlookup.mem
          show D.Safe _ _ (if event.statusEnum = call.status then _ else _) _ _
          split
          · next hsame =>
              refine (finish_quiet (l := ⟨some .drain, some t⟩) hD .stale rfl rfl hheld₁ hfresh.calls
                hfresh.campaigns (by rw [hfresh.audit]; exact List.forall_mem_nil _)).mono ?_ fun _ _ _ _ h => h
              rintro outcome s' l' _ ⟨⟨rfl, htask, t', htxn, hready, hmarks, hcalls⟩, hlater⟩
              exact ⟨htask, t', htxn, hready, hmarks, event, hparse,
                .sameStatus handle call s₁ hid hlookup hlater hsame hcalls⟩
          · next hnew =>
              have hprotects : t.Protects D (some .drain) fun s => (view s).db.inbox? row.id = some row :=
                fun t' s s' hextends hsteady hrow =>
                  (hD.rely hsteady).keepInbox t' rfl _ (hextends.locks _ hheld.lock) row hrow
              have happly := (applyEvent_safe (l := ⟨some .drain, some t⟩) deps hD hinv₁ rfl rfl hfresh
                hcall hparse hid hhandle hnew hprotects hheld₁.current).later
              refine .bind happly ?_
              rintro result s₂ ⟨task₂, txn₂⟩ hinv₂
                ⟨⟨rfl, args, t₂, rfl, hextends, hrow₂, hsame, hargs, hends⟩, hlater⟩
              have hheld₂ : RowHeld (view s₂) t₂ row :=
                ⟨hrow₂, hheld.unprocessed, hextends.locks _ hheld.lock, hextends.inbox.trans hheld.inbox⟩
              cases hends with
              | applied before others' s₃ s₄ l₄ hinv₃ hcurrent hrow hhits hregresses hexec' hlater₄ hsettled =>
                  refine (finish_settled (l := ⟨some .drain, some t₂⟩) hD .applied rfl rfl hheld₂
                    hsettled).mono ?_ fun _ _ _ _ h => h
                  rintro outcome s' l' _ ⟨⟨rfl, htask, t', htxn, hsettled', hmarks⟩, hlater'⟩
                  refine ⟨htask, t', htxn, hsettled'.ready hmarks, hmarks, event, hparse, ?_⟩
                  exact .tried handle call s₁ args _ hid hlookup (hlater.trans hlater') hnew hargs
                    (.applied before others' s₃ s₄ l₄ hinv₃ hcurrent hrow hhits hregresses hexec'
                      (hlater₄.trans hlater') hsettled') nofun
              | noOp others' s₃ s₄ hinv₃ hcurrent hasks hregresses hmissed hexec' hlater₄ =>
                  obtain rfl := hsame rfl
                  refine (finish_note (l := ⟨some .drain, some t₂⟩) hD .stale rfl rfl rfl hfresh hheld₂).mono
                    ?_ fun _ _ _ _ h => h
                  rintro outcome s' l' _ ⟨⟨rfl, htask, t', htxn, hready, hmarks, hcalls⟩, hlater'⟩
                  refine ⟨htask, t', htxn, hready, hmarks, event, hparse, ?_⟩
                  exact .tried handle call s₁ args .noOp hid hlookup (hlater.trans hlater') hnew hargs
                    (.noOp others' s₃ s₄ hinv₃ hcurrent hasks hregresses hmissed hexec' (hlater₄.trans hlater'))
                    fun _ => hcalls
              | terminalRegression hregresses =>
                  obtain rfl := hsame rfl
                  refine (finish_note (l := ⟨some .drain, some t₂⟩) hD .stale rfl rfl rfl hfresh hheld₂).mono
                    ?_ fun _ _ _ _ h => h
                  rintro outcome s' l' _ ⟨⟨rfl, htask, t', htxn, hready, hmarks, hcalls⟩, hlater'⟩
                  refine ⟨htask, t', htxn, hready, hmarks, event, hparse, ?_⟩
                  exact .tried handle call s₁ args .terminalRegression hid hlookup (hlater.trans hlater')
                    hnew hargs (.terminalRegression hregresses) fun _ => hcalls
  | bool value => exact fun _ _ _ => rfl
  | num value => exact fun _ _ _ => rfl
  | arr items => exact fun _ _ _ => rfl
  | obj fields => exact fun _ _ _ => rfl

/-! ### The drain -/

theorem TransitionEnds.lasts (hD : Above D view) {inbox : Option InboxRow} {args : Transition}
    {s' s'' : σ} {t' : Txn} {result : TransitionResult}
    (h : TransitionEnds D view l t inbox args K s' t' result)
    (hrely : D.rely ⟨l.task, some t'⟩ s' s'') : TransitionEnds D view l t inbox args K s'' t' result := by
  cases h with
  | applied before others s₀ s₁ l₁ hinv hheld hrow hhits hregresses hexec hlater hsettled =>
      exact .applied before others s₀ s₁ l₁ hinv hheld hrow hhits hregresses hexec (hlater.rely hrely)
        (hsettled.lasts (hD.rely hrely))
  | noOp others s₀ s₁ hinv hheld hasks hregresses hmissed hexec hlater =>
      exact .noOp others s₀ s₁ hinv hheld hasks hregresses hmissed hexec (hlater.rely hrely)
  | terminalRegression hregresses => exact .terminalRegression hregresses

theorem RowDone.lasts {deps : Deps} (hD : Above D view) {s' s'' : σ} {t' : Txn} {outcome : RowOutcome}
    (h : RowDone deps D view l t row s' t' outcome) (hrely : D.rely ⟨l.task, some t'⟩ s' s'') :
    RowDone deps D view l t row s'' t' outcome := by
  obtain ⟨hready, hmarks, event, hparse, hends⟩ := h
  refine ⟨hready.lasts (hD.rely hrely), hmarks.lasts (hD.rely hrely), event, hparse, ?_⟩
  cases hends with
  | noHandle hnull hcalls => exact .noHandle hnull hcalls
  | unknown handle s₁ hhandle hlookup hlater hcalls =>
      exact .unknown handle s₁ hhandle hlookup (hlater.rely hrely) hcalls
  | sameStatus handle call s₁ hhandle hlookup hlater hsame hcalls =>
      exact .sameStatus handle call s₁ hhandle hlookup (hlater.rely hrely) hsame hcalls
  | tried handle call s₁ args result hhandle hlookup hlater hnew hargs hends hcalls =>
      exact .tried handle call s₁ args result hhandle hlookup (hlater.rely hrely) hnew hargs
        (hends.lasts hD hrely) hcalls

/-- What a discipline owes for the commits of a drain. -/
structure DrainCommits (deps : Deps) (D : Discipline Stmt Reply σ Party) (view : σ → Shared) : Prop where
  empty : ∀ {others s l t reply s' l'}, l.task = some .drain → l.txn = some t → t.Blank → D.inv s →
    D.exec others s l .commit reply s' l' → D.guar l s s'
  done : ∀ {others s l now t t' row outcome reply s' l'}, l.task = some .drain → l.txn = some t' →
    t = { startedAt := now, locks := [.inbox row.id] } →
    RowDone deps D view ⟨some .drain, some t⟩ t row s t' outcome →
    D.inv s → D.exec others s l .commit reply s' l' → D.guar l s s'

theorem processOneRow_safe {deps : Deps} (hD : Above D view) (hcommits : DrainCommits deps D view)
    (htask : l.task = some .drain) (htxn : l.txn = none) :
    D.Safe (fun _ _ l' => l' = l) (fun _ _ l' => l' = l) (processOneRow deps) s l := by
  obtain ⟨task, txn⟩ := l
  obtain rfl : task = some .drain := htask
  obtain rfl : txn = none := htxn
  refine .catching (hD.transaction (M := fun outcome s' l' => l'.task = some .drain ∧
    ∃ t', l'.txn = some t' ∧ (t'.Blank ∨ ∃ (now : Time) (row : InboxRow),
      RowDone deps D view ⟨some .drain, some { startedAt := now, locks := [.inbox row.id] }⟩
        { startedAt := now, locks := [.inbox row.id] } row s' t' outcome)) rfl ?_ ?_) ?_
  · intro s₂ now hinv₂ hrely₂ _
    have hblank : ({ startedAt := now } : Txn).Blank := ⟨⟨rfl, rfl, rfl⟩, rfl⟩
    refine hD.step nofun (fun _ _ _ => trivial) fun others choice reply s₃ s₄ txn hs₃ hinv₃ hinv₄ hrely hsteady hdb hexec hrun => ?_
    obtain ⟨-, ⟨rfl, rfl⟩ | ⟨row, hrow, rfl, hunprocessed, -, rfl⟩⟩ := exec_claimUnprocessedOne hrun
    · exact fun _ _ _ => ⟨rfl, _, rfl, Or.inl hblank⟩
    · rw [← hdb, show ((view s₄).db.apply { startedAt := now }).inbox = (view s₄).db.inbox from
        overlay_nil _] at hrow
      have hheld : RowHeld (view s₄) { startedAt := now, locks := [.inbox row.id] } row :=
        ⟨(hD.inv hinv₄).inbox?_iff.mpr ⟨hrow, rfl⟩, hunprocessed, List.mem_singleton_self _, rfl⟩
      have hsafe := processRow_safe
        (l := ⟨some .drain, some { startedAt := now, locks := [.inbox row.id] }⟩)
        deps hD rfl rfl ⟨rfl, rfl, rfl⟩ hheld
      refine hsafe.mono ?_ fun _ _ _ _ h => h
      rintro outcome s' l' _ ⟨htask, t', htxn, hdone⟩
      exact ⟨htask, t', htxn, Or.inr ⟨now, row, hdone⟩⟩
  · rintro outcome s₁ ⟨task₁, txn₁⟩ hinv₁ ⟨rfl, t', rfl, hmid⟩
    refine ⟨rfl, fun others reply s₂ s₃ hs₂ hinv₂ hexec => ⟨?_, fun _ _ _ => rfl⟩⟩
    rcases hmid with hblank | ⟨now, row, hdone⟩
    · exact hcommits.empty rfl rfl hblank hinv₂ hexec
    · exact hcommits.done rfl rfl rfl (hdone.lasts hD hs₂) hinv₂ hexec
  · exact fun _ _ _ _ h _ _ _ => h

/-- The loop-drain and the wake that follows it. -/
theorem processPendingInbox_safe {deps : Deps} (hD : Above D view) (hcommits : DrainCommits deps D view)
    (htask : l.task = some .drain) (htxn : l.txn = none) :
    D.Safe (fun _ _ _ => True) (fun _ _ _ => True) (Task.drain.code deps) s l := by
  have hloop : ∀ fuel appliedAny processed (s : σ),
      D.Safe (fun _ _ _ => True) (fun _ _ _ => True) (drainInbox deps fuel appliedAny processed) s l := by
    intro fuel
    induction fuel with
    | zero => exact fun _ _ _ _ _ _ => trivial
    | succ fuel ih =>
        intro appliedAny processed s
        refine .bind ((processOneRow_safe hD hcommits htask htxn).mono (fun _ _ _ _ h => h)
          fun _ _ _ _ _ => trivial) ?_
        rintro outcome s' l' hinv' rfl
        split
        · exact fun _ _ _ => trivial
        · exact ih _ _ s'
  refine .bind (M := fun _ _ _ => True) (.bind (hloop _ _ _ s) ?_) fun _ _ _ _ _ _ _ _ => trivial
  rintro ⟨appliedAny, processed⟩ s' l' hinv' -
  show D.Safe _ _ (if appliedAny = true then _ else _) _ _
  split
  · exact hD.step nofun (fun _ _ _ => trivial) fun _ _ _ _ _ _ _ _ _ _ _ _ _ _ _ _ _ => trivial
  · exact fun _ _ _ => trivial

end

end VoiceCampaign

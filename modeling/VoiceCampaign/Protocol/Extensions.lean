import VoiceCampaign.Protocol.Reachable

/-!
# Runs that meet a condition

An extension of the discipline is followed through the same coroutines. In every run whose steps all
meet its condition, the processes keep its promises too.
-/

namespace VoiceCampaign

open Concurrency Discipline

section

variable {E : Extension discipline} {deps : Deps} {allowed : Sys → Action → Prop} {s s' : Sys}

/-- An extension that has something to say of commits only is above the discipline. -/
theorem extension_above (hquiet : ∀ {others s l stmt reply s' l'}, stmt ≠ .commit → E.inv s →
      E.cond s l stmt → discipline.exec others s l stmt reply s' l' → E.guar l s s' ∧ E.rely l s s') :
    Above E.discipline id where
  exec h := h.1
  pre _ := trivial
  inv h := h.1
  grows h := h.1.grows
  rely h := h.1
  quiet hinv hstmt h := by
    obtain ⟨hguar, hrely⟩ := discipline_quiet hstmt h.1
    obtain ⟨hguar', hrely'⟩ := hquiet hstmt hinv.2 h.2.2.2 h.1
    exact ⟨⟨hguar, hguar'⟩, hrely, hrely'⟩

/-- What an extension needs of the actions that are `allowed`. -/
structure Hosted (E : Extension discipline) (deps : Deps) (allowed : Sys → Action → Prop) :
    Prop where
  cond : ∀ {s index choice task stmt next txn}, ReachableBy deps allowed s →
    allowed s (.run index choice) → s.procs[index]? = some ⟨task, .call stmt next, txn⟩ →
    E.cond s.shared ⟨some task, txn⟩ stmt
  init : ∀ now, E.inv { now }
  world : ∀ {s action shared}, Reachable deps s → allowed s action → E.inv s.shared →
    Sys.World deps s action shared → E.inv shared ∧ ∀ thread ∈ s.threads, E.rely thread.loc s.shared shared
  starts : ∀ {s task shared} {action : Action}, Reachable deps s → allowed s action →
    task ∈ Sys.spawns deps s action → Grows s.shared shared → E.discipline.inv shared →
    E.discipline.Safe (fun _ _ _ => True) (fun _ _ _ => True) (task.code deps) shared ⟨some task, none⟩
  meets : ∀ {s task} {action : Action}, Reachable deps s → allowed s action →
    task ∈ Sys.spawns deps s action → ∀ thread ∈ s.threads, E.compat ⟨some task, none⟩ thread.loc
  mates : ∀ {s} {action : Action}, Reachable deps s → allowed s action →
    (Sys.spawns deps s action).Pairwise fun a b => E.compat ⟨some a, none⟩ ⟨some b, none⟩
  ended : ∀ {task txn l}, E.compat ⟨some task, txn⟩ l → E.compat ⟨none, txn⟩ l
  dead : ∀ {task txn l}, E.compat ⟨task, txn⟩ l → E.compat ⟨none, none⟩ l

theorem Hosted.hosts (h : Hosted E deps allowed) :
    Hosts deps (ReachableBy deps allowed) allowed E.discipline id where
  exec {s x index choice task stmt next txn reply shared txn'} hs hallowed hview _ hprocess hexec := by
    obtain rfl : x = s.shared := hview
    obtain ⟨hrun, hasked, hguar⟩ := hs.reachable.run hprocess hexec
    exact ⟨shared, rfl, hrun, hasked, hguar, h.cond hs hallowed hprocess⟩
  world {s x action shared} hs hallowed hview hinv hworld := by
    obtain rfl : x = s.shared := hview
    obtain ⟨hinv', hrely⟩ := h.world hs.reachable hallowed hinv.2 hworld
    exact ⟨shared, rfl, ⟨hworld.consistent hinv.1, hinv'⟩, fun thread hthread =>
      ⟨hworld.rely (Sys.mem_txns hthread), hrely thread hthread⟩⟩
  starts {s x task shared action} hs hallowed htask hgrows hview hinv := by
    obtain rfl : x = shared := hview
    exact h.starts hs.reachable hallowed htask hgrows hinv
  meets hs hallowed htask thread hthread := ⟨⟨nofun, nofun⟩, h.meets hs.reachable hallowed htask thread hthread⟩
  mates hs hallowed := (h.mates hs.reachable hallowed).imp fun hmates => ⟨⟨nofun, nofun⟩, hmates⟩
  ended h' := ⟨⟨h'.1.locks, h'.1.phones⟩, h.ended h'.2⟩
  dead h' := ⟨⟨nofun, nofun⟩, h.dead h'.2⟩

/-- The extension stays secure in every run that meets the condition. -/
theorem Hosted.secure (h : Hosted E deps allowed) (hs : ReachableBy deps allowed s) :
    Secure E.discipline s.shared s.threads := by
  induction hs with
  | init now => exact ⟨⟨.empty now, h.init now⟩, nofun, fun i j a b _ ha => by cases ha⟩
  | step action hs hallowed hstep ih =>
      obtain ⟨_, rfl, hsecure⟩ := h.hosts.step rfl ih hs hallowed hstep
      exact hsecure

/-- A step of a process keeps the promise. -/
theorem Hosted.guar (h : Hosted E deps allowed) (hs : ReachableBy deps allowed s) {index : Nat}
    {choice : Choice} (hallowed : allowed s (.run index choice))
    (hstep : s.step deps (.run index choice) = some s') :
    ∃ process, s.procs[index]? = some process ∧
      Guar ⟨some process.task, process.txn⟩ s.shared s'.shared ∧
      E.guar ⟨some process.task, process.txn⟩ s.shared s'.shared := by
  rcases Sys.step_cases hstep with ⟨shared, hworld, rfl⟩ |
    ⟨_, _, task, stmt, next, txn, reply, shared, txn', ⟨⟩, hprocess, hexec, rfl⟩ |
    ⟨_, process, ⟨⟩, hprocess, rfl⟩
  · cases hworld with
    | still _ hrun _ => exact absurd rfl (hrun index choice)
  · obtain ⟨_, rfl, hexec'⟩ := h.hosts.exec hs hallowed rfl (h.secure hs) hprocess hexec
    obtain ⟨-, -, hguar⟩ := (h.secure hs).run (Sys.threads_get hprocess) hexec'
    exact ⟨_, hprocess, hguar⟩

end

/-! ### Promises about commits -/

section

variable {cond : Shared → Party → Stmt → Prop} {guar : Party → Shared → Shared → Prop} {deps : Deps}
  {allowed : Sys → Action → Prop}

/-- A promise that is nobody else's concern. -/
def promise (cond : Shared → Party → Stmt → Prop) (guar : Party → Shared → Shared → Prop) :
    Extension discipline where
  cond := cond
  inv _ := True
  rely _ _ _ := True
  guar := guar
  compat _ _ := True
  rely_refl _ _ := trivial
  rely_trans _ _ := trivial
  compat_symm _ := trivial
  inv_guar _ _ _ _ := trivial
  rely_guar _ _ _ _ _ := trivial
  compat_exec _ _ _ _ := trivial

theorem promise_above (hquiet : ∀ l s s', s'.db = s.db → guar l s s') :
    Above (promise cond guar).discipline id :=
  extension_above fun hstmt _ _ hexec => by
    obtain ⟨-, choice, hrun⟩ := hexec
    exact ⟨hquiet _ _ _ (exec_quiet hstmt hrun).1, trivial⟩

/-- A promise that the tables' staying as they are keeps, that ticks and sweeps keep anyway, and that
drains keep where the condition is met. -/
theorem promise_hosted (hquiet : ∀ l s s', s'.db = s.db → guar l s s')
    (hrest : ∀ {l s s' task}, l.task = some task → task ≠ .drain → Consistent s → Guar l s s' → guar l s s')
    (hdrain : DrainCommits deps (promise cond guar).discipline id)
    (hcond : ∀ {s index choice task stmt next txn}, ReachableBy deps allowed s →
      allowed s (.run index choice) → s.procs[index]? = some ⟨task, .call stmt next, txn⟩ →
      cond s.shared ⟨some task, txn⟩ stmt) : Hosted (promise cond guar) deps allowed where
  cond := hcond
  init _ := trivial
  world _ _ _ _ := ⟨trivial, fun _ _ => trivial⟩
  starts {s task shared action} _ _ _ _ _ := by
    have hother : task ≠ .drain → (promise cond guar).discipline.Safe (fun _ _ _ => True)
        (fun _ _ _ => True) (task.code deps) shared ⟨some task, none⟩ := fun hne =>
      @Safe.of_guar _ _ _ _ _ _ _ (fun l => l.task = some task) (fun _ _ => trivial)
        (fun {_ s l _ _ _ _} hinv hl hexec => by
          exact ⟨⟨hexec.2.2.1, hrest hl hne hinv.1 hexec.2.2.1⟩, hexec.1.1.trans hl⟩) _ _ _ rfl
    cases task with
    | tick => exact hother nofun
    | drain => exact processPendingInbox_safe (promise_above hquiet) hdrain rfl rfl
    | reclaim row => exact hother nofun
  meets _ _ _ _ _ := trivial
  mates _ _ := List.pairwise_of_forall fun _ _ => trivial
  ended _ := trivial
  dead _ := trivial

end

/-! ### What a drain's compare-and-set may find -/

/-- A compare-and-set that a drain is about to run on behalf of an event, and a row it finds. -/
structure WebhookCas where
  event : ProviderEvent
  update : CallUpdate
  call : CallRow

/-- The events of the inbox rows a transaction has locked. -/
def lockedEvents (db : Db) (t : Txn) : List ProviderEvent :=
  (db.inbox.filter fun row => .inbox row.id ∈ t.locks).filterMap fun row =>
    match parseEvent row.payload with
    | .ok event => some event
    | .error _ => none

theorem mem_lockedEvents {db : Db} {t : Txn} {row : InboxRow} {event : ProviderEvent}
    (hrow : row ∈ db.inbox) (hlock : .inbox row.id ∈ t.locks) (hparse : parseEvent row.payload = .ok event) :
    event ∈ lockedEvents db t := by
  refine List.mem_filterMap.mpr ⟨row, List.mem_filter.mpr ⟨hrow, decide_eq_true hlock⟩, ?_⟩
  rw [hparse]

/-- The compare-and-sets of a drain at `stmt`. -/
def webhookCas (db : Db) (task : Option Task) (txn : Option Txn) : Stmt → List WebhookCas
  | .updateCall update =>
      match task, txn with
      | some .drain, some t => (lockedEvents db t).flatMap fun event =>
          (db.calls.filter update.hits).map fun call => ⟨event, update, call⟩
      | _, _ => []
  | _ => []

theorem mem_webhookCas {db : Db} {t : Txn} {update : CallUpdate} {event : ProviderEvent} {call : CallRow}
    (hevent : event ∈ lockedEvents db t) (hcall : call ∈ db.calls) (hhits : update.hits call = true) :
    ⟨event, update, call⟩ ∈ webhookCas db (some .drain) (some t) (.updateCall update) :=
  List.mem_flatMap.mpr ⟨event, hevent, List.mem_map.mpr ⟨call, List.mem_filter.mpr ⟨hcall, hhits⟩, rfl⟩⟩

/-- The compare-and-sets the drain of an action is about to run. -/
def Sys.webhookCas (s : Sys) : Action → List WebhookCas
  | .run index _ =>
      match s.procs[index]? with
      | some ⟨task, .call stmt _, txn⟩ => VoiceCampaign.webhookCas s.shared.db (some task) txn stmt
      | _ => []
  | _ => []

section

variable {P : Shared → WebhookCas → Prop} {guar : Party → Shared → Shared → Prop} {deps : Deps}
  {allowed : Sys → Action → Prop}

/-- Every compare-and-set of a drain that finds a row meets `P`. -/
def CasCond (P : Shared → WebhookCas → Prop) (s : Shared) (l : Party) (stmt : Stmt) : Prop :=
  ∀ cas ∈ webhookCas s.db l.task l.txn stmt, P s cas

/-- A drain is about to commit `t`, with a call it moved by a compare-and-set that met `P`. -/
structure CasMoved (P : Shared → WebhookCas → Prop) (s : Shared) (t : Txn) (row : InboxRow)
    (event : ProviderEvent) (call : CallRow) (args : Transition) (before after : CallRow) : Prop where
  parse : parseEvent row.payload = .ok event
  fresh : event.statusEnum ≠ call.status
  asks : WebhookAsks event call args
  hits : args.hits before = true
  regresses : args.regresses = false
  moved : ∃ now, after = args.set now before
  found : ∃ s₀, Consistent s₀ ∧ Grows s₀ s ∧ s₀.db.call? before.id = some before ∧
    P s₀ ⟨event, args.toCallUpdate, before⟩
  settled : Settled s (some .drain) t (some row) before after (args.auditEvent after)

theorem TransitionEnds.casMoved (hD : Above (promise (CasCond P) guar).discipline id) {t t' : Txn}
    {row : InboxRow} {event : ProviderEvent} {call : CallRow} {args : Transition} {s₁ s' : Shared}
    {result : TransitionResult} (hlock : .inbox row.id ∈ t.locks)
    (hparse : parseEvent row.payload = .ok event) (hnew : event.statusEnum ≠ call.status)
    (hargs : WebhookArgs deps s₁ event call args)
    (hends : TransitionEnds (promise (CasCond P) guar).discipline id ⟨some .drain, some t⟩ t (some row) args
      (fun s => s.db.inbox? row.id = some row) s' t' result) (hresult : result.isNoOp = false) :
    ∃ before after, CasMoved P s' t' row event call args before after := by
  cases hends with
  | applied before others s₀ s₂ l₂ hinv hheld hrow hhits hregresses hexec hlater hsettled =>
      refine ⟨before, _, hparse, hnew, hargs.asks, hhits, hregresses, ⟨_, rfl⟩,
        ⟨s₀, hinv.1, hexec.2.2.1.grows.trans (hD.later hlater), hrow, ?_⟩, hsettled⟩
      exact hexec.2.2.2 _ (mem_webhookCas (mem_lockedEvents (lookup_some hheld).1 hlock hparse)
        (lookup_some hrow).1 hhits)
  | noOp => cases hresult
  | terminalRegression => cases hresult

/-- A drain that is about to commit has moved no call, or one for which its compare-and-set met `P`. -/
theorem RowDone.casMoved (hD : Above (promise (CasCond P) guar).discipline id) {t t' : Txn}
    {row : InboxRow} {s' : Shared} {outcome : RowOutcome} (hlock : .inbox row.id ∈ t.locks)
    (h : RowDone deps (promise (CasCond P) guar).discipline id ⟨some .drain, some t⟩ t row s' t' outcome) :
    (t'.calls = [] ∧ outcome = .stale) ∨ (outcome = .applied ∧
      ∃ event call args before after, CasMoved P s' t' row event call args before after) := by
  obtain ⟨hready, hmarks, event, hparse, hends⟩ := h
  cases hends with
  | noHandle hnull hcalls => exact Or.inl ⟨hcalls, rfl⟩
  | unknown handle s₁ hhandle hlookup hlater hcalls => exact Or.inl ⟨hcalls, rfl⟩
  | sameStatus handle call s₁ hhandle hlookup hlater hsame hcalls => exact Or.inl ⟨hcalls, rfl⟩
  | tried handle call s₁ args result hhandle hlookup hlater hnew hargs hends hcalls =>
      cases hresult : result.isNoOp with
      | true => exact Or.inl ⟨hcalls hresult, if_pos rfl⟩
      | false =>
          obtain ⟨before, after, hmoved⟩ := hends.casMoved hD hlock hparse hnew hargs hresult
          exact Or.inr ⟨if_neg nofun, event, call, args, before, after, hmoved⟩

/-- A promise about the compare-and-sets of the drains holds in every run whose compare-and-sets meet
`P`. -/
theorem casCond_hosted (hquiet : ∀ l s s', s'.db = s.db → guar l s s')
    (hrest : ∀ {l s s' task}, l.task = some task → task ≠ .drain → Consistent s → Guar l s s' → guar l s s')
    (hstale : ∀ {l s t}, l.txn = some t → t.calls = [] → Ready s (some .drain) t → guar l s (s.commit t))
    (hmoved : ∀ {l s t row event call args before after}, l.task = some .drain → l.txn = some t →
      Consistent s → Ready s (some .drain) t → Marks s (some .drain) t (some row) →
      CasMoved P s t row event call args before after → guar l s (s.commit t))
    (hcond : ∀ {s} {action : Action}, ReachableBy deps allowed s → allowed s action →
      ∀ cas ∈ s.webhookCas action, P s.shared cas) :
    Hosted (promise (CasCond P) guar) deps allowed := by
  have hD : Above (promise (CasCond P) guar).discipline id := promise_above hquiet
  have hcommit : ∀ {others s l reply s' l' t}, l.txn = some t →
      (promise (CasCond P) guar).discipline.exec others s l .commit reply s' l' → s' = s.commit t ∧
        Guar l s s' := by
    intro others s l reply s' l' t htxn hexec
    obtain ⟨⟨-, choice, hrun⟩, -, hguar, -⟩ := hexec
    obtain ⟨t', htxn', rfl, -⟩ := exec_commit hrun
    obtain rfl := Option.some.inj (htxn.symm.trans htxn')
    exact ⟨rfl, hguar⟩
  refine promise_hosted hquiet hrest ⟨?_, ?_⟩ ?_
  · intro others s l t reply s' l' htask htxn hblank hinv hexec
    obtain ⟨rfl, hguar⟩ := hcommit htxn hexec
    exact ⟨hguar, hstale htxn hblank.calls (hblank.ready _ _)⟩
  · intro others s l now t t' row outcome reply s' l' htask htxn ht hdone hinv hexec
    obtain ⟨rfl, hguar⟩ := hcommit htxn hexec
    have hlock : .inbox row.id ∈ t.locks := by
      rw [ht]
      exact List.mem_singleton_self _
    refine ⟨hguar, ?_⟩
    rcases hdone.casMoved hD hlock with ⟨hcalls, -⟩ | ⟨-, event, call, args, before, after, hmove⟩
    · exact hstale htxn hcalls hdone.ready
    · exact hmoved htask htxn hinv.1 hdone.ready hdone.marks hmove
  · intro s index choice task stmt next txn hs hallowed hprocess
    have hmeets := hcond hs hallowed
    simp only [Sys.webhookCas, hprocess] at hmeets
    exact hmeets

end

end VoiceCampaign

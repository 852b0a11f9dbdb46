import VoiceCampaign.Protocol.Watch

/-!
# The inbox

A drain claims one row at a time, and does not commit before it has marked it. So while its transaction
is open the row is unprocessed and locked by it alone, and a commit of a transaction that has claimed a row
is the one that processes it.
-/

namespace VoiceCampaign

open Concurrency

/-! ### One row to a transaction -/

/-- What a transaction has done about the inbox. -/
inductive InboxMode where
  | idle
  | claimed (id : InboxId)
  | marked (id : InboxId)

/-- A transaction claims one row, marks it, and then commits. -/
def inboxMonitor : Monitor Stmt Reply InboxMode where
  start := .idle
  allows mode
    | .claimUnprocessedOne => mode = .idle
    | .markProcessed id => mode = .claimed id
    | .commit => ∀ id, mode ≠ .claimed id
    | _ => True
  answers := Stmt.Answers
  next mode
    | .claimUnprocessedOne => fun (found : Option InboxRow) => found.elim .idle fun row => .claimed row.id
    | .markProcessed id => fun _ => .marked id
    | .begin | .commit | .rollback => fun _ => .idle
    | _ => fun _ => mode

/-- Not about the inbox, and not about the transaction as a whole. -/
def Stmt.inside : Stmt → Bool
  | .claimUnprocessedOne | .markProcessed _ => false
  | stmt => !stmt.delimits

theorem inboxMonitor_inside {stmt : Stmt} (h : stmt.inside = true) (mode : InboxMode) :
    inboxMonitor.allows mode stmt ∧ ∀ reply, inboxMonitor.answers stmt reply →
      inboxMonitor.next mode stmt reply = mode := by
  cases stmt with
  | begin => cases h
  | commit => cases h
  | rollback => cases h
  | claimUnprocessedOne => cases h
  | markProcessed id => cases h
  | _ => exact ⟨trivial, fun _ _ => rfl⟩

/-- Leaves the mode as it is. -/
def Idles (mode : InboxMode) (α : Type) (program : Co α) : Prop :=
  inboxMonitor.Obeys (fun _ mode' => mode' = mode) (fun _ mode' => mode' = mode) program mode

theorem Idles.bind {mode : InboxMode} {α β : Type} {program : Co α} {f : α → Co β}
    {post : β → InboxMode → Prop} {err : Err → InboxMode → Prop} (h : Idles mode α program)
    (herr : ∀ error, err error mode)
    (hf : ∀ value, inboxMonitor.Obeys post err (f value) mode) :
    inboxMonitor.Obeys post err (program >>= f) mode := by
  apply Monitor.Obeys.bind (h.mono (fun _ _ h => h) fun error _ hmode => hmode ▸ herr error)
  intro value _ hmode
  rw [hmode]
  exact hf value

theorem Idles.perform {stmt : Stmt} (h : stmt.inside = true) (mode : InboxMode) : Idles mode _ (perform stmt) :=
  ⟨(inboxMonitor_inside h mode).1, fun reply hreply => (inboxMonitor_inside h mode).2 reply hreply⟩

theorem Idles.of_only {mode : InboxMode} {α : Type} {program : Co α}
    (h : program.Only fun stmt => stmt.inside = true) : Idles mode α program :=
  h.obeys fun _ hop => inboxMonitor_inside hop mode

theorem plain_inside {stmt : Stmt} (h : stmt.plain = true) : stmt.inside = true := by
  cases stmt with
  | begin => cases h
  | commit => cases h
  | rollback => cases h
  | claimUnprocessedOne => cases h
  | markProcessed id => cases h
  | _ => rfl

theorem transition_idles (args : Transition) (mode : InboxMode) : Idles mode _ (transition args) :=
  .of_only (transition_only (fun _ => plain_inside) (fun _ _ => rfl) fun _ => rfl)

theorem idles_steps (mode : InboxMode) : Conduct (Idles mode) where
  done _ := rfl
  fail _ := rfl
  bind h hf := Idles.bind h (fun _ => rfl) hf
  catching h hhandler := h.catching fun error _ hmode => hmode ▸ hhandler error
  plain _ hplain := .perform (plain_inside hplain) mode
  transition _ := transition_idles _ mode

theorem idles_conduct : TaskConduct (Idles .idle) := by
  refine (idles_steps .idle).ofDelimits fun stmt hdelimits => ?_
  cases stmt with
  | begin => exact ⟨trivial, fun _ _ => rfl⟩
  | commit => exact ⟨fun _ => nofun, fun _ _ => rfl⟩
  | rollback => exact ⟨trivial, fun _ _ => rfl⟩
  | _ => cases hdelimits

/-- From a claimed row to a marked one. -/
theorem processRow_obeys (deps : Deps) (row : InboxRow) :
    inboxMonitor.Obeys (fun _ mode' => mode' = .marked row.id) (fun _ _ => True) (processRow deps row)
      (.claimed row.id) := by
  let L (program : Co RowOutcome) : Prop := inboxMonitor.Obeys (fun _ mode' => mode' = .marked row.id)
    (fun _ _ => True) program (.claimed row.id)
  have hmark : ∀ outcome, L (markProcessed row.id >>= fun _ => pure outcome) := fun _ => ⟨rfl, fun _ _ => rfl⟩
  exact (idles_steps (.claimed row.id)).processRow (L := L) (fun h hf => h.bind (fun _ => trivial) hf) (fun outcome _ => hmark outcome)
    deps

theorem processOneRow_idles (deps : Deps) : Idles .idle _ (processOneRow deps) := by
  let claimed : Co RowOutcome := perform .claimUnprocessedOne >>= fun found =>
    found.elim (pure .empty) (processRow deps)
  have hbody : inboxMonitor.Obeys (fun _ mode => ∀ id, mode ≠ .claimed id) (fun _ _ => True) claimed .idle := by
    apply Monitor.Obeys.perform rfl
    intro found _
    cases found with
    | none => exact fun _ => InboxMode.noConfusion
    | some row =>
        refine (processRow_obeys deps row).mono (fun _ mode hmode => ?_) fun _ _ _ => trivial
        rw [hmode]
        exact fun _ => InboxMode.noConfusion
  have hwhole : inboxMonitor.Obeys (fun _ mode => mode = .idle) (fun _ mode => mode = .idle)
      (transaction claimed) .idle := by
    apply Monitor.Obeys.perform trivial
    intro _ _
    have hrollback : ∀ error mode, inboxMonitor.Obeys (fun (_ : RowOutcome) mode => ∀ id, mode ≠ .claimed id)
        (fun _ mode => mode = .idle) (do perform .rollback; raise error) mode :=
      fun _ _ => ⟨trivial, fun _ _ => rfl⟩
    apply Monitor.Obeys.bind (hbody.catching fun error mode _ => hrollback error mode)
    exact fun value mode hmode => ⟨hmode, fun _ _ => rfl⟩
  rw [processOneRow_eq]
  exact hwhole.catching fun error mode hmode => hmode

theorem inboxMonitor_covers (deps : Deps) : Monitor.Covers inboxMonitor deps := by
  intro task
  have hplace : ∀ claimed, Idles .idle _ (placePhase claimed) := by
    intro claimed
    apply Idles.of_only
    refine .perform rfl fun outcome => ?_
    cases outcome <;> trivial
  have hclaim : ∀ campaign, Idles .idle _ (claimPhase campaign) := by
    intro campaign
    apply idles_conduct.transaction
    apply Idles.of_only
    refine .perform rfl fun _ => .perform rfl fun _ => .perform rfl fun _ => .perform rfl fun reply =>
      (ofExcept_only reply).bind fun found => ?_
    cases found with
    | none => trivial
    | some claimed =>
        refine .perform rfl fun _ => ?_
        split
        · exact (maybePromoteToActive_only (fun _ => plain_inside) (fun _ _ => rfl) _).bind fun _ => trivial
        · trivial
  have hdispatch : ∀ campaign, Idles .idle _ (dispatchOne campaign) := fun campaign =>
    idles_conduct.dispatchOne (hclaim campaign) hplace (fun _ _ => transition_idles _ _)
      (fun _ _ => transition_idles _ _) fun _ => .of_only (.perform_last rfl)
  have hskip : ∀ event : AuditEvent, event.isNote = true → Idles .idle _ (perform (.emitAudit event)) :=
    fun _ _ => .perform rfl _
  exact (idles_conduct.task processOneRow_idles hskip hdispatch deps task).mono (fun _ _ _ => trivial)
    fun _ _ _ => trivial

/-! ### What the modes say of the transactions -/

/-- The row the transaction has claimed. -/
def InboxMode.row : InboxMode → Option InboxId
  | idle => none
  | claimed id | marked id => some id

/-- The transaction holds the row it has claimed and no other; the row is unprocessed, but perhaps for the
version the transaction keeps. -/
structure InboxHeld (s : Shared) (mode : InboxMode) (t : Txn) : Prop where
  locks : ∀ id, .inbox id ∈ t.locks ↔ mode.row = some id
  unprocessed : ∀ id, mode.row = some id → ∃ row, s.db.inbox? id = some row ∧ row.processedAt = none
  unmarked : (∀ id, mode ≠ .marked id) → t.inbox = []
  marked : ∀ id, mode = .marked id → ∃ row, s.db.inbox? id = some row ∧
    t.inbox = [{ row with processedAt := some t.startedAt }]

section

variable {others : List Txn} {choice : Choice} {s s' : Shared} {txn txn' : Option Txn} {t u : Txn}
  {mode mode' : InboxMode}

/-- The inbox part of a transaction is the same. -/
structure Txn.SameInbox (t t' : Txn) : Prop where
  startedAt : t'.startedAt = t.startedAt
  inbox : t'.inbox = t.inbox
  locks : ∀ id, .inbox id ∈ t'.locks ↔ .inbox id ∈ t.locks

theorem Txn.SameInbox.cons {lock : RowLock} (hstarted : u.startedAt = t.startedAt) (hinbox : u.inbox = t.inbox)
    (hlocks : u.locks = lock :: t.locks) (hlock : ∀ id, lock ≠ .inbox id) : t.SameInbox u where
  startedAt := hstarted
  inbox := hinbox
  locks id := by
    rw [hlocks, List.mem_cons, or_iff_right]
    exact fun he => hlock id he.symm

theorem WriteOutcome.sameInbox {candidate : CallRow → Prop} {version : CallRow → CallRow}
    {reply : Except Err (Option CallRow)} (h : WriteOutcome others s t candidate version reply txn') :
    ∀ t' ∈ txn', t.SameInbox t' := by
  intro t' ht'
  cases h with
  | missed hnone =>
      cases ht'
      exact ⟨rfl, rfl, fun _ => Iff.rfl⟩
  | violated =>
      cases ht'
      exact ⟨rfl, rfl, fun _ => Iff.rfl⟩
  | written row t'' hrow hcandidate hwrites =>
      cases ht'
      rw [hwrites.txn]
      exact .cons rfl rfl rfl nofun

theorem exec_sameInbox {stmt : Stmt} {reply : Reply stmt} (hinside : stmt.inside = true)
    (h : exec others choice s txn stmt = some (reply, s', txn')) :
    ∀ t' ∈ txn', ∃ t ∈ txn, t.SameInbox t' := by
  have hsame : ∀ t' ∈ txn, ∃ t ∈ txn, t.SameInbox t' := fun t' ht' => ⟨t', ht', rfl, rfl, fun _ => Iff.rfl⟩
  have hone : ∀ {u t : Txn}, t.SameInbox u → ∀ t' ∈ some u, ∃ t₀ ∈ some t, t₀.SameInbox t' := by
    intro u t hu t' ht'
    cases ht'
    exact ⟨t, rfl, hu⟩
  cases stmt with
  | begin => cases hinside
  | commit => cases hinside
  | rollback => cases hinside
  | claimUnprocessedOne => cases hinside
  | markProcessed id => cases hinside
  | emitAudit event =>
      obtain ⟨t, rfl⟩ := exec_open h rfl
      obtain ⟨-, rfl⟩ := exec_emitAudit h
      exact hone ⟨rfl, rfl, fun _ => Iff.rfl⟩
  | updateCall update =>
      obtain ⟨t, rfl⟩ := exec_open h rfl
      exact fun t' ht' => ⟨t, rfl, (exec_updateCall h).2.sameInbox t' ht'⟩
  | claimNextQueued campaignId =>
      obtain ⟨t, rfl⟩ := exec_open h rfl
      exact fun t' ht' => ⟨t, rfl, (exec_claimNextQueued h).2.sameInbox t' ht'⟩
  | selectRetryDue campaignId =>
      obtain ⟨t, rfl⟩ := exec_open h rfl
      obtain ⟨-, ⟨-, rfl⟩ | ⟨row, -, -, -, -, rfl⟩⟩ := exec_selectRetryDue h
      · exact hsame
      · exact hone (.cons rfl rfl rfl nofun)
  | lockCampaign campaignId =>
      obtain ⟨t, rfl⟩ := exec_open h rfl
      obtain ⟨-, -, rfl⟩ := exec_lockCampaign h
      exact hone (.cons rfl rfl rfl nofun)
  | updateCampaign campaignId expected new =>
      obtain ⟨t, rfl⟩ := exec_open h rfl
      obtain ⟨-, ⟨-, rfl, -⟩ | ⟨campaign, -, -, -, -, rfl⟩⟩ := exec_updateCampaign h
      · exact hsame
      · exact hone (.cons rfl rfl rfl nofun)
  | updateLastDispatchAt campaignId ts =>
      obtain ⟨t, rfl⟩ := exec_open h rfl
      obtain ⟨-, -, rfl⟩ := exec_updateLastDispatchAt h
      exact hone (.cons rfl rfl rfl nofun)
  | _ =>
      cases h
      exact hsame

theorem InboxHeld.opened (s : Shared) (now : Time) : InboxHeld s .idle { startedAt := now } where
  locks _ := ⟨fun h => (by cases h), fun h => (by cases h)⟩
  unprocessed _ h := by cases h
  unmarked _ := rfl
  marked _ h := by cases h

theorem InboxHeld.same (h : InboxHeld s mode t) (hsame : t.SameInbox u) : InboxHeld s mode u where
  locks id := (hsame.locks id).trans (h.locks id)
  unprocessed := h.unprocessed
  unmarked hmode := hsame.inbox.trans (h.unmarked hmode)
  marked id hmode := by
    rw [hsame.inbox, hsame.startedAt]
    exact h.marked id hmode

/-- The rows the transaction holds stay as they are. -/
theorem InboxHeld.mono (h : InboxHeld s mode t) (hrows : ∀ id row, mode.row = some id →
    s.db.inbox? id = some row → s'.db.inbox? id = some row) : InboxHeld s' mode t where
  locks := h.locks
  unprocessed id hid := by
    obtain ⟨row, hrow, hnone⟩ := h.unprocessed id hid
    exact ⟨row, hrows id row hid hrow, hnone⟩
  unmarked := h.unmarked
  marked id hmode := by
    obtain ⟨row, hrow, hinbox⟩ := h.marked id hmode
    exact ⟨row, hrows id row (by rw [hmode]; rfl) hrow, hinbox⟩

/-- A transaction claims an unprocessed row. -/
theorem InboxHeld.claim (h : InboxHeld s .idle t) {row : InboxRow} (hrow : s.db.inbox? row.id = some row)
    (hunprocessed : row.processedAt = none) :
    InboxHeld s (.claimed row.id) { t with locks := .inbox row.id :: t.locks } where
  locks id := by
    have hnot : .inbox id ∉ t.locks := fun hlock => by cases (h.locks id).mp hlock
    simp [hnot, InboxMode.row, eq_comm]
  unprocessed id hid := by
    obtain rfl := Option.some.inj hid
    exact ⟨row, hrow, hunprocessed⟩
  unmarked _ := h.unmarked nofun
  marked _ hmode := by cases hmode

/-- It marks the row it has claimed. -/
theorem InboxHeld.mark {id : InboxId} {row : InboxRow} (h : InboxHeld s (.claimed id) t)
    (hrow : s.db.inbox? id = some row) : InboxHeld s (.marked id) { t with
      locks := .inbox id :: t.locks
      inbox := put InboxRow.id { row with processedAt := some t.startedAt } t.inbox } where
  locks other := by
    have hmine := h.locks other
    rw [InboxMode.row, Option.some.injEq] at hmine
    simp [hmine, InboxMode.row, eq_comm]
  unprocessed other hother := h.unprocessed other hother
  unmarked hmode := absurd rfl (hmode id)
  marked other hmode := by
    obtain rfl := InboxMode.marked.inj hmode
    refine ⟨row, hrow, ?_⟩
    rw [h.unmarked nofun, put_nil]

/-- A commit processes the row that was claimed, if any, and leaves the others as they are. -/
theorem InboxHeld.inbox?_commit (h : InboxHeld s mode t) (hallows : ∀ id, mode ≠ .claimed id) (id : InboxId) :
    (mode.row ≠ some id ∧ (s.commit t).db.inbox? id = s.db.inbox? id) ∨
      (mode.row = some id ∧ ∃ row, s.db.inbox? id = some row ∧ row.processedAt = none ∧
        (s.commit t).db.inbox? id = some { row with processedAt := some t.startedAt }) := by
  have hcommit : (s.commit t).db.inbox? id =
      lookup InboxRow.id (overlay InboxRow.id t.inbox s.db.inbox) id := rfl
  cases mode with
  | idle =>
      refine Or.inl ⟨nofun, ?_⟩
      rw [hcommit, h.unmarked nofun, overlay_nil]
      rfl
  | claimed other => exact absurd rfl (hallows other)
  | marked other =>
      obtain ⟨row, hrow, hinbox⟩ := h.marked other rfl
      obtain ⟨found, hfound, hnone⟩ := h.unprocessed other rfl
      obtain rfl := Option.some.inj (hrow.symm.trans hfound)
      obtain rfl : row.id = other := (lookup_some hrow).2
      have hnew : lookup InboxRow.id s.db.inbox
          (InboxRow.id { row with processedAt := some t.startedAt }) = some row := hrow
      rw [hcommit, hinbox, lookup_overlay_singleton hnew]
      by_cases hsame : id = row.id
      · rw [if_pos hsame, hsame]
        exact Or.inr ⟨rfl, row, hrow, hnone, rfl⟩
      · rw [if_neg hsame]
        exact Or.inl ⟨fun he => hsame (Option.some.inj he).symm, rfl⟩

/-- Another transaction still holds its row. -/
theorem InboxHeld.aside (hu : InboxHeld s mode' u) (h : InboxHeld s mode t) (hallows : ∀ id, mode ≠ .claimed id)
    (hlocks : ∀ lock ∈ t.locks, lock ∉ u.locks) : InboxHeld (s.commit t) mode' u := by
  apply hu.mono
  intro id row hid hrow
  rcases h.inbox?_commit hallows id with ⟨-, hsame⟩ | ⟨hmine, -⟩
  · exact hsame.trans hrow
  · exact absurd ((hu.locks id).mpr hid) (hlocks _ ((h.locks id).mpr hmine))

/-- The process that runs a statement. -/
theorem exec_inbox {stmt : Stmt} {reply : Reply stmt} (hinv : Consistent s) (htxn : ∀ t ∈ txn, InboxHeld s mode t)
    (hallows : inboxMonitor.allows mode stmt)
    (h : exec others choice s txn stmt = some (reply, s', txn')) :
    (∀ t ∈ txn', InboxHeld s' (inboxMonitor.next mode stmt reply) t) ∧
      (s'.db = s.db ∨ ((∀ id, mode ≠ .claimed id) ∧ ∃ t ∈ txn, s' = s.commit t)) := by
  cases hinside : stmt.inside with
  | true =>
      have hnext := (inboxMonitor_inside hinside mode).2 reply (exec_answers h)
      have hdb : s'.db = s.db := by
        refine (exec_quiet ?_ h).1
        rintro rfl
        cases hinside
      refine ⟨fun t' ht' => ?_, Or.inl hdb⟩
      obtain ⟨t, ht, hsame⟩ := exec_sameInbox hinside h t' ht'
      rw [hnext]
      refine ((htxn t ht).same hsame).mono fun id row _ hrow => ?_
      rw [hdb]
      exact hrow
  | false =>
      cases stmt with
      | begin =>
          obtain ⟨rfl, rfl⟩ := exec_begin h
          refine ⟨fun t ht => ?_, Or.inl rfl⟩
          rw [← Option.some.inj ht]
          exact .opened _ _
      | commit =>
          obtain ⟨t, rfl, rfl, rfl⟩ := exec_commit h
          exact ⟨fun _ h => (by cases h), Or.inr ⟨hallows, t, rfl, rfl⟩⟩
      | rollback =>
          obtain ⟨rfl, rfl⟩ := exec_rollback h
          exact ⟨fun _ h => (by cases h), Or.inl rfl⟩
      | claimUnprocessedOne =>
          obtain ⟨t, rfl⟩ := exec_open h rfl
          obtain rfl : mode = .idle := hallows
          have hheld := htxn t rfl
          have hnone := hheld.unmarked nofun
          obtain ⟨rfl, ⟨rfl, rfl⟩ | ⟨row, hrow, rfl, hprocessed, -, rfl⟩⟩ := exec_claimUnprocessedOne h
          · refine ⟨fun t' ht' => ?_, Or.inl rfl⟩
            rw [← Option.some.inj ht']
            exact hheld
          · refine ⟨fun t' ht' => ?_, Or.inl rfl⟩
            rw [← Option.some.inj ht']
            rw [Db.apply, hnone, overlay_nil] at hrow
            exact hheld.claim (hinv.inbox?_iff.mpr ⟨hrow, rfl⟩) hprocessed
      | markProcessed id =>
          obtain ⟨t, rfl⟩ := exec_open h rfl
          obtain rfl : mode = .claimed id := hallows
          have hheld := htxn t rfl
          have hnone := hheld.unmarked nofun
          obtain ⟨found, hfound, hunprocessed⟩ := hheld.unprocessed id rfl
          have hview : lookup InboxRow.id (s.db.apply t).inbox id = some found := by
            rw [Db.apply, hnone, overlay_nil]
            exact hfound
          obtain ⟨rfl, ⟨-, hmissing⟩ | ⟨row, hrow, -, rfl⟩⟩ := exec_markProcessed h
          · rw [hview] at hmissing
            cases hmissing
          · obtain rfl := Option.some.inj (hrow.symm.trans hview)
            refine ⟨fun t' ht' => ?_, Or.inl rfl⟩
            rw [← Option.some.inj ht']
            exact hheld.mark hfound
      | _ => cases hinside

end

/-! ### Every run -/

structure InboxWatched (s : Sys) (modes : Nat → InboxMode) : Prop where
  watched : Watched inboxMonitor s modes
  txns : ∀ (index : Nat) (process : Process), s.procs[index]? = some process → ∀ t ∈ process.txn,
    InboxHeld s.shared (modes index) t

section

variable {deps : Deps} {s s' : Sys} {modes : Nat → InboxMode} {action : Action}

theorem InboxWatched.step (h : InboxWatched s modes) (hs : Reachable deps s)
    (hstep : s.step deps action = some s') :
    ∃ modes', InboxWatched s' modes' ∧ WatchedStep inboxMonitor deps s modes action s' modes' := by
  obtain ⟨modes', hwatched, hstep'⟩ := h.watched.step (inboxMonitor_covers deps) (fun _ _ h => h) hstep
  refine ⟨modes', ⟨hwatched, hstep'.txns h.txns ?_ ?_ ?_⟩, hstep'⟩
  · intro mode t shared hworld hheld
    exact hheld.mono fun _ _ _ => hworld.inbox?
  · intro index choice stmt reply shared mode txn txn' htxn hallows hexec
    exact (exec_inbox hs.consistent htxn hallows hexec).1
  · intro index choice task stmt next reply shared mode txn txn' other process u hprocess htxn hallows hexec
      hne hother hu hheld
    rcases (exec_inbox hs.consistent htxn hallows hexec).2 with hdb | ⟨hfree, t, ht, rfl⟩
    · refine hheld.mono fun id row _ hrow => ?_
      rw [hdb]
      exact hrow
    · exact hheld.aside (htxn t ht) hfree (hs.locks_apart hprocess hother hne ht hu)

end

end VoiceCampaign

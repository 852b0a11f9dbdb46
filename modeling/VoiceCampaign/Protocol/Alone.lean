import VoiceCampaign.Concurrency.Sequential
import VoiceCampaign.Protocol.Tick

/-!
# A coroutine on its own

While it runs nobody else does; the other open transactions stand still with their locks, and time may
pass. A tick is its gates and then the dispatch from the candidates they leave.
-/

namespace VoiceCampaign

open Concurrency Program

/-- A statement next to transactions that stand still, after some time if any `passes`. -/
def alone (others : List Txn) (passes : Bool) : Effect Stmt Reply (Shared × Option Txn) :=
  fun stmt s reply s' => ∃ choice micros, (passes = false → micros = 0) ∧
    exec others choice { s.1 with now := s.1.now + (micros : Nat) } s.2 stmt = some (reply, s'.1, s'.2)

/-- Time goes on, or stands still. -/
structure Passes (passes : Bool) (before after : Time) : Prop where
  le : before ≤ after
  still : passes = false → after = before

/-- The tables are as they were, some time later. -/
structure Waits (passes : Bool) (s s' : Shared) : Prop where
  db : s'.db = s.db
  now : Passes passes s.now s'.now

/-- Nothing has happened but that time has passed and notes were written. -/
structure Noted (passes : Bool) (s s' : Shared) : Prop where
  db : ∃ notes, s'.db = { s.db with audit := s.db.audit ++ notes } ∧ ∀ row ∈ notes, row.event.isNote = true
  now : Passes passes s.now s'.now

/-- Run a program on its own with one choice throughout, for at most `fuel` statements. -/
def runAlone {α : Type} (others : List Txn) (choice : Choice) :
    Nat → Co α → Shared → Option Txn → Option (Except Err α × Shared × Option Txn)
  | _, .done value, s, txn => some (.ok value, s, txn)
  | _, .fail error, s, txn => some (.error error, s, txn)
  | 0, .call _ _, _, _ => none
  | fuel + 1, .call stmt next, s, txn =>
      match exec others choice s txn stmt with
      | some (reply, s', txn') => runAlone others choice fuel (next reply) s' txn'
      | none => none

theorem ends_of_runAlone {α : Type} {others : List Txn} {choice : Choice} {passes : Bool} {fuel : Nat}
    {program : Co α} {s s' : Shared} {txn txn' : Option Txn} {result : Except Err α}
    (h : runAlone others choice fuel program s txn = some (result, s', txn')) :
    Ends (alone others passes) program (s, txn) result (s', txn') := by
  induction fuel generalizing program s txn with
  | zero =>
      cases program with
      | done value =>
          cases h
          exact .done value _
      | fail error =>
          cases h
          exact .fail error _
      | call stmt next => cases h
  | succ fuel ih =>
      cases program with
      | done value =>
          cases h
          exact .done value _
      | fail error =>
          cases h
          exact .fail error _
      | call stmt next =>
          rw [runAlone] at h
          split at h
          · next reply mid txn'' hexec =>
            refine @Ends.call _ _ _ _ _ _ _ _ _ (mid, txn'') _ _ _ ⟨choice, 0, fun _ => rfl, ?_⟩ (ih h)
            have hnow : ({ s with now := s.now + (0 : Nat) } : Shared) = s := by simp
            rw [hnow]
            exact hexec
          · cases h

/-- The code of a coroutine that is over. -/
def overCode {α : Type} : Except Err α → Co α
  | .ok value => .done value
  | .error error => .fail error

/-- What a coroutine does on its own, the system can do. -/
theorem Reachable.of_alone {deps : Deps} {passes : Bool} {procs : List Process} {task : Task} {program : Co Unit}
    {s s' : Shared × Option Txn} {result : Except Err Unit}
    (hends : Ends (alone (procs.filterMap Process.txn) passes) program s result s')
    (h : Reachable deps ⟨s.1, procs ++ [⟨task, program, s.2⟩]⟩) :
    Reachable deps ⟨s'.1, procs ++ [⟨task, overCode result, s'.2⟩]⟩ := by
  induction hends with
  | done value s => exact h
  | fail error s => exact h
  | @call op next s mid s' reply result hop _ ih =>
      obtain ⟨choice, micros, -, hexec⟩ := hop
      have hlater : Reachable deps ⟨{ s.1 with now := s.1.now + (micros : Nat) },
          procs ++ [⟨task, .call op next, s.2⟩]⟩ := .step (.elapse micros) h trivial rfl
      refine ih (.step (.run procs.length choice) hlater trivial ?_)
      have hget : (procs ++ [(⟨task, .call op next, s.2⟩ : Process)])[procs.length]? =
          some ⟨task, .call op next, s.2⟩ := by simp
      have hothers : Sys.othersOf ⟨{ s.1 with now := s.1.now + (micros : Nat) },
          procs ++ [⟨task, .call op next, s.2⟩]⟩ procs.length = procs.filterMap Process.txn := by
        rw [Sys.othersOf, List.eraseIdx_append_of_length_le le_rfl]
        simp
      rw [Sys.step, Sys.runProcess, hget, hothers]
      simp only [hexec]
      simp

section

variable {others : List Txn} {passes : Bool} {s s' s'' : Shared} {txn txn' : Option Txn} {t : Txn}
  {a b c : Time}

theorem Passes.refl (a : Time) : Passes passes a a := ⟨le_rfl, fun _ => rfl⟩

theorem Passes.trans (hab : Passes passes a b) (hbc : Passes passes b c) : Passes passes a c :=
  ⟨hab.le.trans hbc.le, fun h => (hbc.still h).trans (hab.still h)⟩

theorem Passes.micros {micros : Nat} (h : passes = false → micros = 0) : Passes passes a (a + micros) :=
  ⟨Int.le_add_of_nonneg_right (Int.natCast_nonneg micros), fun hstill => by rw [h hstill]; exact Int.add_zero a⟩

theorem Waits.refl (s : Shared) : Waits passes s s := ⟨rfl, .refl _⟩

theorem Waits.trans (h : Waits passes s s') (h' : Waits passes s' s'') : Waits passes s s'' :=
  ⟨h'.db.trans h.db, h.now.trans h'.now⟩

theorem Waits.noted (h : Waits passes s s') : Noted passes s s' := ⟨⟨[], by simp [h.db], List.forall_mem_nil _⟩, h.now⟩

theorem Noted.trans (h : Noted passes s s') (h' : Noted passes s' s'') : Noted passes s s'' := by
  obtain ⟨notes, hdb, hnotes⟩ := h.db
  obtain ⟨more, hdb', hmore⟩ := h'.db
  refine ⟨⟨notes ++ more, by rw [hdb', hdb, List.append_assoc], fun row hrow => ?_⟩, h.now.trans h'.now⟩
  rcases List.mem_append.mp hrow with hrow | hrow
  · exact hnotes row hrow
  · exact hmore row hrow

/-! ### Statements -/

/-- Nothing holds a statement up when there are no other transactions. -/
theorem exec_runs (choice : Choice) {stmt : Stmt} (hbegin : stmt ≠ .begin) :
    (exec [] choice s (some t) stmt).isSome = true := by
  have hwrite : ∀ version, ∃ result, writeCall [] s.db t version = some result := by
    intro version
    by_cases htaken : (version.status.holdsPhone && phoneTaken (s.db.apply t) version) = true <;>
      simp [writeCall, held, phoneContended, htaken]
  cases stmt with
  | begin => exact absurd rfl hbegin
  | updateCall update =>
      simp only [exec, Option.bind_some]
      split
      · rfl
      · obtain ⟨result, hresult⟩ := hwrite (update.set t.startedAt ‹_›)
        simp [hresult]
  | claimNextQueued campaignId =>
      simp only [exec, Option.bind_some]
      split
      · rfl
      · obtain ⟨result, hresult⟩ := hwrite (CallRow.claim t.startedAt ‹_›)
        simp [hresult]
  | updateCampaign campaignId expected new =>
      simp only [exec, Option.bind_some]
      split
      · rfl
      · split <;> simp [held]
  | markProcessed inboxId =>
      simp only [exec, Option.bind_some]
      split <;> simp [held]
  | lockCampaign campaignId => simp [exec, held]
  | updateLastDispatchAt campaignId ts => simp [exec, held]
  | _ => simp [exec]

theorem alone_runs {stmt : Stmt} (hothers : others = []) (hbegin : stmt ≠ .begin) :
    ∃ reply mid, alone others passes stmt (s, some t) reply mid := by
  subst hothers
  have hruns := @exec_runs { s with now := s.now + (0 : Nat) } t {} stmt hbegin
  obtain ⟨⟨reply, s', txn'⟩, hexec⟩ := Option.isSome_iff_exists.mp hruns
  exact ⟨reply, (s', txn'), {}, 0, fun _ => rfl, hexec⟩

/-- What a statement other than `COMMIT` does, it does to the transaction. -/
theorem waits_of_exec {choice : Choice} {micros : Nat} {stmt : Stmt} {reply : Reply stmt}
    (hmicros : passes = false → micros = 0) (hcommit : stmt ≠ .commit)
    (hexec : exec others choice { s with now := s.now + (micros : Nat) } txn stmt = some (reply, s', txn')) :
    Waits passes s s' := by
  obtain ⟨hdb, hnow, -⟩ := exec_quiet hcommit hexec
  exact ⟨hdb, hnow ▸ .micros hmicros⟩

variable {α β : Type} {post : α → Shared × Option Txn → Prop} {err : Err → Shared × Option Txn → Prop}

/-- Inside a transaction. -/
theorem Wp.inside {stmt : Stmt} {next : Reply stmt → Co α} (hbegin : stmt ≠ .begin) (hcommit : stmt ≠ .commit)
    (h : ∀ choice s₁ reply s₂ txn₂, Waits passes s s₁ → Waits passes s s₂ →
      exec others choice s₁ (some t) stmt = some (reply, s₂, txn₂) →
        Wp (alone others passes) (others = []) post err (next reply) (s₂, txn₂)) :
    Wp (alone others passes) (others = []) post err (perform stmt >>= next) (s, some t) := by
  apply Wp.perform fun hothers => alone_runs hothers hbegin
  rintro reply ⟨s₂, txn₂⟩ ⟨choice, micros, hmicros, hexec⟩
  exact h choice { s with now := s.now + (micros : Nat) } reply s₂ txn₂ ⟨rfl, .micros hmicros⟩
    (waits_of_exec hmicros hcommit hexec) hexec

theorem Wp.last {stmt : Stmt} {post : Reply stmt → Shared × Option Txn → Prop} (hbegin : stmt ≠ .begin)
    (hcommit : stmt ≠ .commit)
    (h : ∀ choice s₁ reply s₂ txn₂, Waits passes s s₁ → Waits passes s s₂ →
      exec others choice s₁ (some t) stmt = some (reply, s₂, txn₂) → post reply (s₂, txn₂)) :
    Wp (alone others passes) (others = []) post err (perform stmt) (s, some t) :=
  @Wp.inside _ _ _ _ _ _ _ _ .done hbegin hcommit h

/-- Outside any transaction, a statement that needs none. -/
theorem Wp.outside {stmt : Stmt} {next : Reply stmt → Co α} (hcommit : stmt ≠ .commit)
    (htotal : ∀ s, (exec [] {} s none stmt).isSome = true)
    (h : ∀ choice s₁ reply s₂ txn₂, Waits passes s s₁ → Waits passes s s₂ →
      exec others choice s₁ none stmt = some (reply, s₂, txn₂) →
        Wp (alone others passes) (others = []) post err (next reply) (s₂, txn₂)) :
    Wp (alone others passes) (others = []) post err (perform stmt >>= next) (s, none) := by
  apply Wp.perform
  · rintro rfl
    obtain ⟨⟨reply, s', txn'⟩, hexec⟩ := Option.isSome_iff_exists.mp (htotal { s with now := s.now + (0 : Nat) })
    exact ⟨reply, (s', txn'), {}, 0, fun _ => rfl, hexec⟩
  · rintro reply ⟨s₂, txn₂⟩ ⟨choice, micros, hmicros, hexec⟩
    exact h choice { s with now := s.now + (micros : Nat) } reply s₂ txn₂ ⟨rfl, .micros hmicros⟩
      (waits_of_exec hmicros hcommit hexec) hexec

theorem Wp.select {query : Query} {next : query.Result → Co α}
    (h : ∀ s₁ pick, Waits passes s s₁ → Wp (alone others passes) (others = []) post err
      (next (query.eval s.db s₁.now pick)) (s₁, none)) :
    Wp (alone others passes) (others = []) post err (VoiceCampaign.select query >>= next) (s, none) := by
  apply Wp.outside (by nofun) fun _ => rfl
  intro choice s₁ reply s₂ txn₂ hwaits₁ hwaits₂ hexec
  obtain ⟨hreply, rfl, rfl⟩ := exec_select hexec
  have hquery : reply = query.eval s.db s₂.now choice.pick := hwaits₁.db ▸ hreply
  rw [hquery]
  exact h s₂ choice.pick hwaits₁

theorem Wp.datetimeNow {next : Time → Co α}
    (h : ∀ s₁, Waits passes s s₁ →
      Wp (alone others passes) (others = []) post err (next s₁.now) (s₁, txn)) :
    Wp (alone others passes) (others = []) post err (VoiceCampaign.datetimeNow >>= next) (s, txn) := by
  apply Wp.perform
  · rintro -
    exact ⟨_, (_, _), {}, 0, fun _ => rfl, rfl⟩
  · rintro reply ⟨s₂, txn₂⟩ ⟨choice, micros, hmicros, hexec⟩
    have hwaits : Waits passes s s₂ := waits_of_exec hmicros (by nofun) hexec
    cases hexec
    exact h _ hwaits

/-- A transaction on its own: its body leaves the tables to the commit. -/
theorem Wp.transaction {body : Co α} (mid : α → Shared → Txn → Prop) (error : Err → Prop)
    (hbody : ∀ s₁, Waits passes s s₁ → Wp (alone others passes) (others = [])
      (fun value state => ∃ t, state.2 = some t ∧ Waits passes s state.1 ∧ mid value state.1 t)
      (fun e state => ∃ t, state.2 = some t ∧ Waits passes s state.1 ∧ error e)
      body (s₁, some { startedAt := s₁.now }))
    (hcommit : ∀ value s₂ t s₃, Waits passes s s₂ → Waits passes s₂ s₃ → mid value s₂ t →
      post value (s₃.commit t, none))
    (hrollback : ∀ e s₂, Waits passes s s₂ → error e → err e (s₂, none)) :
    Wp (alone others passes) (others = []) post err (transaction body) (s, none) := by
  apply Wp.outside (by nofun) fun _ => rfl
  intro choice s₁ reply s₂ txn₂ hwaits₁ hwaits₂ hexec
  obtain ⟨rfl, rfl⟩ := exec_begin hexec
  have hcaught : Wp (alone others passes) (others = [])
      (fun value state => ∃ t, state.2 = some t ∧ Waits passes s state.1 ∧ mid value state.1 t) err
      (body.catching fun e => do perform .rollback; raise e) (s₂, some { startedAt := s₂.now }) := by
    apply (hbody s₂ hwaits₁).catching
    rintro e ⟨s₃, txn₃⟩ ⟨t, htxn, hwaits₃, he⟩
    cases htxn
    apply Wp.inside (by nofun) (by nofun)
    intro choice s₄ reply s₅ txn₅ hwaits₄ hwaits₅ hexec
    obtain ⟨rfl, rfl⟩ := exec_rollback hexec
    exact hrollback e s₅ (hwaits₃.trans hwaits₅) he
  apply hcaught.bind
  rintro value ⟨s₃, txn₃⟩ ⟨t, htxn, hwaits₃, hmid⟩
  cases htxn
  apply Wp.perform fun hothers => alone_runs hothers (by nofun)
  rintro reply ⟨s₄, txn₄⟩ ⟨choice, micros, hmicros, hexec⟩
  obtain ⟨u, hu, hs₄, htxn₄⟩ := exec_commit hexec
  cases hu
  obtain rfl : s₄ = _ := hs₄
  obtain rfl : txn₄ = none := htxn₄
  exact hcommit value s₃ t { s₃ with now := s₃.now + (micros : Nat) } hwaits₃ ⟨rfl, .micros hmicros⟩ hmid

/-- A note on its own. -/
theorem Wp.emitAlone {event : AuditEvent} (hevent : event.isNote = true) :
    Wp (alone others passes) (others = []) (fun _ state => state.2 = none ∧ Noted passes s state.1)
      (fun _ _ => False) (emitAlone event) (s, none) := by
  apply Wp.transaction (fun _ _ t => t.calls = [] ∧ t.campaigns = [] ∧ t.cursors = [] ∧ t.inbox = [] ∧
    ∀ row ∈ t.audit, row.event.isNote = true) fun _ => False
  · intro s₁ hwaits₁
    apply Wp.last (by nofun) (by nofun)
    intro choice s₂ reply s₃ txn₃ hwaits₂ hwaits₃ hexec
    obtain ⟨-, rfl⟩ := exec_emitAudit hexec
    refine ⟨_, rfl, hwaits₁.trans hwaits₃, rfl, rfl, rfl, rfl, fun row hrow => ?_⟩
    rw [List.mem_singleton.mp hrow]
    exact hevent
  · rintro value s₂ t s₃ hwaits₂ hwaits₃ ⟨hcalls, hcampaigns, hcursors, hinbox, hnotes⟩
    have hwaits := hwaits₂.trans hwaits₃
    refine ⟨rfl, ⟨t.audit, ?_, hnotes⟩, hwaits.now⟩
    show s₃.db.apply t = _
    rw [Db.apply, hcalls, hcampaigns, hcursors, hinbox, hwaits.db]
    simp
  · exact fun _ _ _ h => h.elim

end

end VoiceCampaign

import VoiceCampaign.Model.Locks
import VoiceCampaign.Protocol.Watch

/-!
# Locks in order

Every coroutine takes its locks in the order inbox row, call, phone, campaign, cursor, within each of its
transactions: read off its text, whatever the statements reply.
-/

namespace VoiceCampaign

open Concurrency Locking

variable {α β : Type} {held held' held'' : List Resource} {lo hi : Nat}

/-- Further locks, of ranks from `lo` to `hi`. -/
def Gains (lo hi : Nat) (held held' : List Resource) : Prop :=
  ∃ more, held' = more ++ held ∧ ∀ lock ∈ more, lo ≤ lock.rank ∧ lock.rank ≤ hi

namespace Gains

theorem refl (held : List Resource) : Gains lo hi held held := ⟨[], rfl, nofun⟩

theorem cons (h : Gains lo hi held held') {lock : Resource} (hlo : lo ≤ lock.rank) (hhi : lock.rank ≤ hi) :
    Gains lo hi held (lock :: held') := by
  obtain ⟨more, rfl, hmore⟩ := h
  refine ⟨lock :: more, rfl, fun other hother => ?_⟩
  rcases List.mem_cons.mp hother with rfl | hother
  · exact ⟨hlo, hhi⟩
  · exact hmore other hother

theorem trans (h : Gains lo hi held held') (h' : Gains lo hi held' held'') : Gains lo hi held held'' := by
  obtain ⟨more, rfl, hmore⟩ := h
  obtain ⟨again, rfl, hagain⟩ := h'
  refine ⟨again ++ more, (List.append_assoc again more held).symm, fun lock hlock => ?_⟩
  rcases List.mem_append.mp hlock with hlock | hlock
  · exact hagain lock hlock
  · exact hmore lock hlock

theorem mem (h : Gains lo hi held held') {lock : Resource} (hlock : lock ∈ held) : lock ∈ held' := by
  obtain ⟨more, rfl, -⟩ := h
  exact List.mem_append_right more hlock

theorem rank_lt (h : Gains lo hi held held') {n : Nat} (hheld : ∀ lock ∈ held, lock.rank < n) (hhi : hi < n) :
    ∀ lock ∈ held', lock.rank < n := by
  obtain ⟨more, rfl, hmore⟩ := h
  intro lock hlock
  rcases List.mem_append.mp hlock with hlock | hlock
  · exact (hmore lock hlock).2.trans_lt hhi
  · exact hheld lock hlock

theorem mono (h : Gains lo hi held held') {lo' hi' : Nat} (hlo : lo' ≤ lo) (hhi : hi ≤ hi') :
    Gains lo' hi' held held' := by
  obtain ⟨more, rfl, hmore⟩ := h
  exact ⟨more, rfl, fun lock hlock => ⟨hlo.trans (hmore lock hlock).1, (hmore lock hlock).2.trans hhi⟩⟩

end Gains

/-! ### Statements -/

/-- Takes no lock and gives none back. -/
def Stmt.lockless : Stmt → Bool
  | .begin | .datetimeNow | .uniform | .notify | .select _ | .emitAudit _ | .placeCall _ _ | .getStatus _ => true
  | _ => false

theorem still_of_lockless {stmt : Stmt} (h : stmt.lockless = true) : rowLocking.Still stmt := by
  refine ⟨?_, fun reply requests hasks => ?_⟩
  · cases stmt <;> first | rfl | cases h
  · cases stmt <;> first | exact hasks | cases h

/-- Coroutines that take no lock. -/
theorem ordered_of_only {program : Co α} (h : program.Only fun stmt => stmt.lockless = true) :
    rowLocking.Ordered (fun _ held' => held' = held) (fun _ _ => True) program held := by
  induction program with
  | done value => rfl
  | fail error => trivial
  | call stmt next ih => exact Ordered.still (still_of_lockless h.1) fun reply => ih reply (h.2 reply)

/-- A lock above all those at hand. -/
theorem climbs_one {request : Request Resource} (h : ∀ lock ∈ held, lock.rank < request.lock.rank) :
    rowLocking.Climbs held [request] := ⟨Or.inr h, trivial⟩

/-- A lock that is at hand. -/
theorem climbs_held {request : Request Resource} (h : request.lock ∈ held) : rowLocking.Climbs held [request] :=
  ⟨Or.inl h, trivial⟩

/-! ### `app/state` -/

theorem maybePromoteToActive_ordered (campaignId : CampaignId) (h : ∀ lock ∈ held, lock.rank < 3) :
    rowLocking.Ordered (fun _ => Gains 3 3 held) (fun _ _ => True) (maybePromoteToActive campaignId) held := by
  apply Ordered.perform
  intro (updated : Bool) requests hasks
  have hclimbs : rowLocking.Climbs held requests ∧ Gains 3 3 held (gather held requests) := by
    rcases hasks with rfl | ⟨-, rfl⟩
    · exact ⟨climbs_one h, (Gains.refl held).cons le_rfl le_rfl⟩
    · exact ⟨trivial, .refl held⟩
  refine ⟨hclimbs.1, ?_⟩
  split
  · exact Ordered.still_last (still_of_lockless rfl) fun _ => hclimbs.2
  · exact hclimbs.2

theorem maybeTransitionCampaignTerminal_ordered (campaignId : CampaignId) (h : ∀ lock ∈ held, lock.rank < 3) :
    rowLocking.Ordered (fun _ => Gains 3 3 held) (fun _ _ => True)
      (maybeTransitionCampaignTerminal campaignId) held := by
  apply Ordered.perform
  rintro - requests rfl
  have hgains : Gains 3 3 held (.row (.campaign campaignId) :: held) := (Gains.refl held).cons le_rfl le_rfl
  refine ⟨climbs_one h, Ordered.still (still_of_lockless rfl) fun active => ?_⟩
  split
  · exact hgains
  · refine Ordered.still (still_of_lockless rfl) fun counts => ?_
    apply Ordered.perform
    intro (updated : Bool) requests hasks
    have hclimbs : rowLocking.Climbs (.row (.campaign campaignId) :: held) requests ∧
        Gains 3 3 held (gather (.row (.campaign campaignId) :: held) requests) := by
      rcases hasks with rfl | ⟨-, rfl⟩
      · exact ⟨climbs_held List.mem_cons_self, hgains.cons le_rfl le_rfl⟩
      · exact ⟨trivial, hgains⟩
    refine ⟨hclimbs.1, ?_⟩
    split
    · exact Ordered.still_last (still_of_lockless rfl) fun _ => hclimbs.2
    · exact hclimbs.2

theorem phoneRequest_lock (status : CallStatus) (phone : String) :
    (phoneRequest status phone).lock = .phone phone := by
  rw [phoneRequest]
  split <;> rfl

/-- The row of the compare-and-set, then the phone, then the campaign. -/
theorem transition_ordered {args : Transition}
    (h : ∀ lock ∈ held, lock.rank = 0 ∨ lock = .row (.call args.callId)) :
    rowLocking.Ordered (fun _ => Gains 1 3 held) (fun _ _ => True) (transition args) held := by
  have hlow : ∀ lock ∈ held, lock.rank < 2 := by
    intro lock hlock
    rcases h lock hlock with hzero | rfl
    · omega
    · exact Nat.one_lt_two
  have hrow : (.row (.call args.callId)) ∈ held ∨
      ∀ lock ∈ held, lock.rank < Resource.rank (.row (.call args.callId)) := by
    by_cases hmem : (.row (.call args.callId)) ∈ held
    · exact Or.inl hmem
    · refine Or.inr fun lock hlock => ?_
      rcases h lock hlock with hzero | rfl
      · rw [hzero]
        exact Nat.zero_lt_one
      · exact absurd hlock hmem
  have hphone : ∀ phone, ∀ lock ∈ .row (.call args.callId) :: held, lock.rank < Resource.rank (.phone phone) := by
    intro phone lock hlock
    rcases List.mem_cons.mp hlock with rfl | hlock
    · exact Nat.one_lt_two
    · exact hlow lock hlock
  rw [transition]
  split
  · exact .refl held
  · apply Ordered.perform
    intro reply requests hasks
    cases reply with
    | error error =>
        obtain ⟨phone, rfl⟩ := hasks
        exact ⟨⟨hrow, Or.inr (hphone phone), trivial⟩, trivial⟩
    | ok found =>
        cases found with
        | none =>
            rcases hasks with rfl | rfl
            · exact ⟨trivial, .refl held⟩
            · exact ⟨⟨hrow, trivial⟩, (Gains.refl held).cons le_rfl (by simp [Request.lock])⟩
        | some row =>
            obtain rfl : requests = _ := hasks
            have hgains : Gains 1 2 held (.phone row.phone :: .row (.call args.callId) :: held) :=
              ((Gains.refl held).cons le_rfl (by simp)).cons (by simp) le_rfl
            have hgather : gather held [.wait (.row (.call args.callId)), phoneRequest args.newStatus row.phone] =
                .phone row.phone :: .row (.call args.callId) :: held := by
              show (phoneRequest args.newStatus row.phone).lock :: _ = _
              rw [phoneRequest_lock]
              rfl
            refine ⟨⟨hrow, Or.inr ?_, trivial⟩, ?_⟩
            · rw [phoneRequest_lock]
              exact hphone row.phone
            · show rowLocking.Ordered _ _ _ (gather held _)
              rw [hgather]
              refine Ordered.still (still_of_lockless rfl) fun _ => ?_
              split
              · refine (maybeTransitionCampaignTerminal_ordered row.campaignId ?_).bind fun _ held' hrollup => ?_
                · exact hgains.rank_lt (fun lock hlock => (hlow lock hlock).trans (by decide)) (by decide)
                · exact (hgains.mono le_rfl (by decide)).trans (hrollup.mono (by decide) le_rfl)
              · exact hgains.mono le_rfl (by decide)

theorem nextAttempt_lockless (attemptEpoch : Nat) (baseSeconds : ℚ) :
    (nextAttempt attemptEpoch baseSeconds).Only fun stmt => stmt.lockless = true := by
  refine ⟨rfl, fun now => ?_⟩
  show Program.Only _ (computeBackoff attemptEpoch baseSeconds >>= fun delta => ofExcept (addTimedelta now delta))
  exact Program.Only.bind ⟨rfl, fun u => ofExcept_only _⟩ fun delta => ofExcept_only _

/-- A coroutine that takes no lock, before one that does. -/
theorem Ordered.afterLockless {program : Co α} {f : α → Co β} {post : β → List Resource → Prop}
    (h : program.Only fun stmt => stmt.lockless = true)
    (hf : ∀ value, rowLocking.Ordered post (fun _ _ => True) (f value) held) :
    rowLocking.Ordered post (fun _ _ => True) (program >>= f) held := by
  refine (ordered_of_only h).bind ?_
  rintro value _ rfl
  exact hf value

theorem applyRetryableOutcome_ordered {args : RetryableOutcome} (backoffBaseSeconds : ℚ)
    (h : ∀ lock ∈ held, lock.rank = 0 ∨ lock = .row (.call args.callId)) :
    rowLocking.Ordered (fun _ => Gains 1 3 held) (fun _ _ => True)
      (applyRetryableOutcome args backoffBaseSeconds) held := by
  refine Ordered.afterLockless (ofExcept_only _) fun decision => ?_
  split
  · exact transition_ordered h
  · split
    · exact Ordered.afterLockless (nextAttempt_lockless _ _) fun nextAttempt => transition_ordered h
    · exact transition_ordered h

/-! ### Transactions -/

/-- Opens a transaction with no locks, and has none once it is over. -/
theorem transaction_ordered {body : Co α}
    (h : rowLocking.Ordered (fun _ _ => True) (fun _ _ => True) body []) :
    rowLocking.Ordered (fun _ held => held = []) (fun _ held => held = []) (transaction body) [] := by
  refine Ordered.still (still_of_lockless rfl) fun _ => ?_
  refine Ordered.bind (M := fun _ _ => True) (h.catching fun error held _ => ?_) fun value held _ => ?_
  · exact Ordered.release rfl (fun _ _ hasks => hasks) fun _ => rfl
  · exact Ordered.release rfl (fun _ _ hasks => hasks) fun _ => rfl

theorem claimPhase_ordered (campaign : CampaignRow) :
    rowLocking.Ordered (fun _ held => held = []) (fun _ held => held = []) (claimPhase campaign) [] := by
  apply transaction_ordered
  refine Ordered.still (still_of_lockless rfl) fun pending => Ordered.still (still_of_lockless rfl) fun inFlight =>
    Ordered.still (still_of_lockless rfl) fun cursor => ?_
  apply Ordered.perform
  intro reply requests hasks
  have htwo : ∀ (id : CallId) (phone : String),
      rowLocking.Climbs [] [.skip (.row (.call id)), .wait (.phone phone)] := by
    intro id phone
    refine ⟨Or.inr nofun, Or.inr fun lock hlock => ?_, trivial⟩
    rw [List.mem_singleton.mp hlock]
    exact Nat.one_lt_two
  cases reply with
  | error error =>
      obtain ⟨id, phone, rfl⟩ := hasks
      exact ⟨htwo id phone, trivial⟩
  | ok found =>
      cases found with
      | none =>
          obtain rfl : requests = _ := hasks
          exact ⟨trivial, trivial⟩
      | some claimed =>
          obtain rfl : requests = _ := hasks
          refine ⟨htwo claimed.id claimed.phone, Ordered.still (still_of_lockless rfl) fun _ => ?_⟩
          split
          · refine (maybePromoteToActive_ordered campaign.id fun lock hlock => ?_).bind fun _ _ _ => trivial
            rcases List.mem_cons.mp hlock with rfl | hlock
            · exact Nat.lt_succ_self 2
            · rw [List.mem_singleton.mp hlock]
              exact Nat.lt_of_succ_lt (Nat.lt_succ_self 2)
          · trivial

theorem requeueOldestRetryDue_ordered (campaignId : CampaignId) :
    rowLocking.Ordered (fun _ held => held = []) (fun _ held => held = [])
      (requeueOldestRetryDue campaignId) [] := by
  apply transaction_ordered
  apply Ordered.perform
  intro reply requests hasks
  cases reply with
  | none =>
      obtain rfl : requests = _ := hasks
      exact ⟨trivial, trivial⟩
  | some call =>
      obtain rfl : requests = _ := hasks
      refine ⟨climbs_one nofun, (transition_ordered fun lock hlock => ?_).bind fun _ _ _ => trivial⟩
      exact Or.inr (List.mem_singleton.mp hlock)

theorem recordDial_ordered (campaign : CampaignRow) (claimed : CallRow) (outcome : DialOutcome) :
    rowLocking.Ordered (fun _ => Gains 1 3 []) (fun _ _ => True) (recordDial campaign claimed outcome) [] := by
  cases outcome with
  | ok handle => exact transition_ordered nofun
  | rejected reasonCode => exact transition_ordered nofun
  | unavailable =>
      rw [recordDial]
      split
      · exact Ordered.afterLockless (nextAttempt_lockless _ _) fun nextAttempt => transition_ordered nofun
      · exact transition_ordered nofun

theorem recordPhase_ordered (campaign : CampaignRow) (claimed : CallRow) (outcome : DialOutcome) :
    rowLocking.Ordered (fun _ held => held = []) (fun _ held => held = [])
      (recordPhase campaign claimed outcome) [] := by
  apply transaction_ordered
  refine (recordDial_ordered campaign claimed outcome).bind fun _ held hgains => ?_
  refine Ordered.still (still_of_lockless rfl) fun now => ?_
  rintro - requests rfl
  exact ⟨climbs_one (hgains.rank_lt nofun (Nat.lt_succ_self 3)), trivial⟩

theorem markProcessed_ordered {inboxId : InboxId} (value : β) (h : .row (.inbox inboxId) ∈ held) :
    rowLocking.Ordered (fun _ _ => True) (fun _ _ => True) (markProcessed inboxId >>= fun _ => pure value) held := by
  rintro - requests (rfl | rfl)
  · exact ⟨climbs_held h, trivial⟩
  · exact ⟨trivial, trivial⟩

theorem processRow_ordered (deps : Deps) (row : InboxRow) :
    rowLocking.Ordered (fun _ _ => True) (fun _ _ => True) (processRow deps row) [.row (.inbox row.id)] := by
  have hmem : .row (.inbox row.id) ∈ [(.row (.inbox row.id) : Resource)] := List.mem_singleton_self _
  refine Ordered.afterLockless (ofExcept_only _) fun event => Ordered.afterLockless ?_ fun found => ?_
  · cases event.providerCallId with
    | str handle => exact ⟨rfl, fun _ => trivial⟩
    | _ => trivial
  · cases found with
    | none =>
        refine Ordered.still (still_of_lockless rfl) fun _ => ?_
        exact markProcessed_ordered _ hmem
    | some call =>
        dsimp only
        split
        · exact markProcessed_ordered _ hmem
        · have hzero : ∀ lock ∈ [(.row (.inbox row.id) : Resource)],
              lock.rank = 0 ∨ lock = .row (.call call.id) := by
            intro lock hlock
            rw [List.mem_singleton.mp hlock]
            exact Or.inl rfl
          have happly : rowLocking.Ordered (fun _ => Gains 1 3 [.row (.inbox row.id)]) (fun _ _ => True)
              (applyEvent deps event call) [.row (.inbox row.id)] := by
            rw [applyEvent]
            split
            · exact Ordered.still (still_of_lockless rfl) fun campaign => applyRetryableOutcome_ordered _ hzero
            · exact transition_ordered hzero
          refine happly.bind fun result held hgains => ?_
          cases result with
          | applied version => exact markProcessed_ordered _ (hgains.mem hmem)
          | noOp =>
              exact Ordered.still (still_of_lockless rfl) fun _ => markProcessed_ordered _ (hgains.mem hmem)
          | terminalRegression =>
              exact Ordered.still (still_of_lockless rfl) fun _ => markProcessed_ordered _ (hgains.mem hmem)

theorem processOneRow_ordered (deps : Deps) :
    rowLocking.Ordered (fun _ held => held = []) (fun _ held => held = []) (processOneRow deps) [] := by
  refine Ordered.catching (transaction_ordered ?_) fun _ _ hheld => hheld
  apply Ordered.perform
  intro reply requests hasks
  cases reply with
  | none =>
      obtain rfl : requests = _ := hasks
      exact ⟨trivial, trivial⟩
  | some row =>
      obtain rfl : requests = _ := hasks
      exact ⟨climbs_one nofun, processRow_ordered deps row⟩

theorem applyTerminal_ordered (row : CallRow) (terminalStatus : CallStatus) :
    rowLocking.Ordered (fun _ held => held = []) (fun _ held => held = []) (applyTerminal row terminalStatus) [] := by
  have htransition := @transition_ordered [] (reclaimTerminalTransition row terminalStatus) nofun
  refine (transaction_ordered (htransition.mono (fun _ _ _ => trivial) fun _ _ h => h)).bind
    fun result held hheld => ?_
  split <;> exact hheld

theorem applyReclaim_ordered (row : CallRow) :
    rowLocking.Ordered (fun _ held => held = []) (fun _ held => held = []) (applyReclaim row) [] := by
  have htransition := @transition_ordered [] (reclaimTransition row) nofun
  refine (transaction_ordered (htransition.mono (fun _ _ _ => trivial) fun _ _ h => h)).bind
    fun result held hheld => ?_
  split <;> exact hheld

/-! ### What the statements really lock

The database model says when a statement cannot run, and what it leaves locked. -/

/-- The transaction has the row locked, or has written a version with the phone. -/
def Txn.has (t : Txn) : Resource → Prop
  | .row lock => lock ∈ t.locks
  | .phone phone => ∃ version ∈ t.calls, version.phone = phone

section

variable {others : List Txn} {choice : Choice} {s s' : Shared} {t t' : Txn} {stmt : Stmt} {reply : Reply stmt}

/-- A lock that others have. -/
theorem exists_has_of_held {lock : RowLock} (h : VoiceCampaign.held others lock = true) :
    ∃ other ∈ others, other.has (.row lock) := by
  obtain ⟨other, hother, hlock⟩ := List.any_eq_true.mp h
  have hmem : lock ∈ other.locks := of_decide_eq_true hlock
  exact ⟨other, hother, hmem⟩

/-- A write that cannot run waits for the row, or for its phone. -/
theorem writeCall_waits {version : CallRow} (h : writeCall others s.db t version = none) :
    (∃ other ∈ others, other.has (.row (.call version.id))) ∨
      version.status.holdsPhone = true ∧ ∃ other ∈ others, other.has (.phone version.phone) := by
  rw [writeCall] at h
  split at h
  · next hheld => exact Or.inl (exists_has_of_held hheld)
  · split at h
    · next hcontended =>
      rw [Bool.and_eq_true] at hcontended
      obtain ⟨other, hother, hversion⟩ := List.any_eq_true.mp hcontended.2
      obtain ⟨row, hrow, hsame⟩ := List.any_eq_true.mp hversion
      simp only [Bool.and_eq_true, decide_eq_true_eq] at hsame
      exact Or.inr ⟨hcontended.1, other, hother, row, hrow, hsame.1.2⟩
    · split at h <;> cases h

/-- A statement that cannot run asks to wait for something another transaction has. -/
theorem exec_waits (hbegin : stmt ≠ .begin) (h : exec others choice s (some t) stmt = none) :
    ∃ (reply : Reply stmt) (requests : List (Request Resource)) (resource : Resource), stmt.asks reply requests ∧
      .wait resource ∈ requests ∧ ∃ other ∈ others, other.has resource := by
  cases stmt with
  | begin => exact absurd rfl hbegin
  | updateCall update =>
      simp only [exec, Option.bind_some] at h
      split at h
      · cases h
      · next row hfind =>
        have hid : (update.set t.startedAt row).id = update.callId :=
          (CallUpdate.hits_iff.mp (List.find?_some hfind)).1
        rcases writeCall_waits (Option.map_eq_none_iff.mp h) with hrow | ⟨hholds, hphone⟩
        · rw [hid] at hrow
          exact ⟨.ok (some (update.set t.startedAt row)), _, _, rfl, List.mem_cons_self, hrow⟩
        · refine ⟨.ok (some (update.set t.startedAt row)), _, _, rfl, List.mem_cons_of_mem _ ?_, hphone⟩
          rw [phoneRequest, if_pos (show update.newStatus.holdsPhone = true from hholds)]
          exact List.mem_singleton_self _
  | claimNextQueued campaignId =>
      simp only [exec, Option.bind_some] at h
      split at h
      · cases h
      · next row hfirst =>
        obtain ⟨-, hcandidate⟩ := List.mem_filter.mp (oldest_some hfirst).1
        rw [Bool.and_eq_true, Bool.not_eq_true'] at hcandidate
        rcases writeCall_waits (Option.map_eq_none_iff.mp h) with ⟨other, hother, hlock⟩ | ⟨-, hphone⟩
        · have hlocked : RowLock.call row.id ∈ other.locks := hlock
          exact absurd (List.any_eq_true.mpr ⟨other, hother, decide_eq_true hlocked⟩)
            (Bool.eq_false_iff.mp hcandidate.2)
        · exact ⟨.ok (some (row.claim t.startedAt)), _, _, rfl, List.mem_cons_of_mem _ List.mem_cons_self, hphone⟩
  | lockCampaign campaignId =>
      simp only [exec, Option.bind_some] at h
      split at h
      · next hheld => exact ⟨(), _, _, rfl, List.mem_cons_self, exists_has_of_held hheld⟩
      · cases h
  | updateCampaign campaignId expected new =>
      simp only [exec, Option.bind_some] at h
      split at h
      · cases h
      · split at h
        · cases h
        · split at h
          · next hheld => exact ⟨true, _, _, Or.inl rfl, List.mem_cons_self, exists_has_of_held hheld⟩
          · cases h
  | updateLastDispatchAt campaignId ts =>
      simp only [exec, Option.bind_some] at h
      split at h
      · next hheld => exact ⟨(), _, _, rfl, List.mem_cons_self, exists_has_of_held hheld⟩
      · cases h
  | markProcessed inboxId =>
      simp only [exec, Option.bind_some] at h
      split at h
      · cases h
      · split at h
        · next hheld => exact ⟨(), _, _, Or.inl rfl, List.mem_cons_self, exists_has_of_held hheld⟩
        · cases h
  | _ => cases h

/-- What a write leaves locked. -/
theorem Writes.has {version : CallRow} (h : Writes others s.db t version t') (resource : Resource)
    (hhas : t'.has resource) :
    t.has resource ∨ resource = .row (.call version.id) ∨ resource = .phone version.phone := by
  rw [h.txn] at hhas
  cases resource with
  | row lock =>
      rcases List.mem_cons.mp hhas with rfl | hold
      · exact Or.inr (Or.inl rfl)
      · exact Or.inl hold
  | phone phone =>
      obtain ⟨found, hfound, rfl⟩ := hhas
      rcases List.mem_cons.mp hfound with rfl | hold
      · exact Or.inr (Or.inr rfl)
      · exact Or.inl ⟨found, (List.mem_filter.mp hold).1, rfl⟩

/-- What a statement leaves locked, it has asked for. -/
theorem exec_asks (h : exec others choice s (some t) stmt = some (reply, s', some t')) :
    ∃ requests, stmt.asks reply requests ∧ ∀ resource, t'.has resource →
      t.has resource ∨ ∃ request ∈ requests, request.lock = resource := by
  have hsame : ∀ requests : List (Request Resource), t' = t → ∀ resource, t'.has resource →
      t.has resource ∨ ∃ request ∈ requests, request.lock = resource := by
    rintro requests rfl resource hhas
    exact Or.inl hhas
  have hlocked : ∀ request : Request Resource, ∀ lock, request.lock = .row lock → t'.locks = lock :: t.locks →
      t'.calls = t.calls → ∀ resource, t'.has resource →
        t.has resource ∨ ∃ other ∈ [request], other.lock = resource := by
    intro request lock hrequest hlocks hcalls resource hhas
    cases resource with
    | row other =>
        rw [Txn.has, hlocks] at hhas
        rcases List.mem_cons.mp hhas with rfl | hold
        · exact Or.inr ⟨request, List.mem_singleton_self _, hrequest⟩
        · exact Or.inl hold
    | phone phone =>
        rw [Txn.has, hcalls] at hhas
        exact Or.inl hhas
  cases stmt with
  | begin => cases h
  | commit | rollback => cases h
  | datetimeNow | uniform | notify | select query | placeCall key phone | getStatus handle =>
      cases h
      exact ⟨[], rfl, hsame [] rfl⟩
  | emitAudit event =>
      cases h
      exact ⟨[], rfl, fun resource hhas => Or.inl (by cases resource <;> exact hhas)⟩
  | updateCall update =>
      obtain ⟨-, houtcome⟩ := exec_updateCall h
      cases houtcome with
      | missed hnone => exact ⟨[], Or.inl rfl, hsame [] rfl⟩
      | violated => exact ⟨_, ⟨"", rfl⟩, hsame _ rfl⟩
      | written row _ hrow hhits hwrites =>
          have hid : row.id = update.callId := (CallUpdate.hits_iff.mp hhits).1
          refine ⟨_, rfl, fun resource hhas => ?_⟩
          rcases hwrites.has resource hhas with hold | rfl | rfl
          · exact Or.inl hold
          · exact Or.inr ⟨_, List.mem_cons_self, congrArg (fun id => Resource.row (.call id)) hid.symm⟩
          · exact Or.inr ⟨_, List.mem_cons_of_mem _ List.mem_cons_self, phoneRequest_lock _ _⟩
  | claimNextQueued campaignId =>
      obtain ⟨-, houtcome⟩ := exec_claimNextQueued h
      cases houtcome with
      | missed hnone => exact ⟨[], rfl, hsame [] rfl⟩
      | violated => exact ⟨_, ⟨0, "", rfl⟩, hsame _ rfl⟩
      | written row _ hrow hcandidate hwrites =>
          refine ⟨_, rfl, fun resource hhas => ?_⟩
          rcases hwrites.has resource hhas with hold | rfl | rfl
          · exact Or.inl hold
          · exact Or.inr ⟨_, List.mem_cons_self, rfl⟩
          · exact Or.inr ⟨_, List.mem_cons_of_mem _ List.mem_cons_self, rfl⟩
  | selectRetryDue campaignId =>
      obtain ⟨-, ⟨rfl, htxn⟩ | ⟨row, -, rfl, -, -, htxn⟩⟩ := exec_selectRetryDue h
      · exact ⟨[], rfl, hsame [] (Option.some.inj htxn)⟩
      · cases htxn
        exact ⟨_, rfl, hlocked _ _ rfl rfl rfl⟩
  | lockCampaign campaignId =>
      obtain ⟨-, -, htxn⟩ := exec_lockCampaign h
      cases htxn
      exact ⟨_, rfl, hlocked _ _ rfl rfl rfl⟩
  | updateCampaign campaignId expected new =>
      obtain ⟨-, ⟨rfl, htxn, -⟩ | ⟨campaign, -, -, -, rfl, htxn⟩⟩ := exec_updateCampaign h
      · exact ⟨[], Or.inr ⟨rfl, rfl⟩, hsame [] (Option.some.inj htxn)⟩
      · cases htxn
        exact ⟨_, Or.inl rfl, hlocked _ _ rfl rfl rfl⟩
  | updateLastDispatchAt campaignId ts =>
      obtain ⟨-, -, htxn⟩ := exec_updateLastDispatchAt h
      cases htxn
      exact ⟨_, rfl, hlocked _ _ rfl rfl rfl⟩
  | claimUnprocessedOne =>
      obtain ⟨-, ⟨rfl, htxn⟩ | ⟨row, -, rfl, -, -, htxn⟩⟩ := exec_claimUnprocessedOne h
      · exact ⟨[], rfl, hsame [] (Option.some.inj htxn)⟩
      · cases htxn
        exact ⟨_, rfl, hlocked _ _ rfl rfl rfl⟩
  | markProcessed inboxId =>
      obtain ⟨-, ⟨htxn, -⟩ | ⟨row, -, -, htxn⟩⟩ := exec_markProcessed h
      · exact ⟨[], Or.inr rfl, hsame [] (Option.some.inj htxn)⟩
      · cases htxn
        exact ⟨_, Or.inl rfl, hlocked _ _ rfl rfl rfl⟩

end

theorem session_climbing {program : Co α} {post : α → List Resource → Prop} {err : Err → List Resource → Prop}
    (h : rowLocking.Ordered post err program []) : rowLocking.Climbing (session program) :=
  .of_ordered ((h.mono (fun _ _ _ => trivial) fun _ _ _ => trivial).bind fun _ _ _ => trivial)

/-- All of them take their locks in one order. -/
theorem StateChanging.climbing {locker : Session} (h : StateChanging locker) : rowLocking.Climbing locker := by
  cases h with
  | claim campaign => exact session_climbing (claimPhase_ordered campaign)
  | requeue campaignId => exact session_climbing (requeueOldestRetryDue_ordered campaignId)
  | record campaign claimed outcome => exact session_climbing (recordPhase_ordered campaign claimed outcome)
  | process deps => exact session_climbing (processOneRow_ordered deps)
  | applyTerminal row terminalStatus => exact session_climbing (applyTerminal_ordered row terminalStatus)
  | applyReclaim row => exact session_climbing (applyReclaim_ordered row)
  | ingest inboxId => exact ⟨nofun, climbs_one nofun, trivial⟩

end VoiceCampaign

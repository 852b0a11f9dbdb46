import VoiceCampaign.Model.Runs
import VoiceCampaign.Protocol.Reactions

/-!
# The order of webhooks

The events of one dial, consumed one after another in any order, fold over the call. A terminal outcome
wins in every order; one that may be tried again is undone by an intermediate event that comes late.
-/

namespace VoiceCampaign

open Concurrency Program Relation

/-- Rows are consumed one after another, with time in between. -/
abbrev Passing (deps : Deps) : Shared → Shared → Prop :=
  ReflTransGen fun s s' => Consumes deps s s' ∨ ∃ micros : Nat, s' = { s with now := s.now + micros }

/-- What the rows that wait tell. -/
def Shared.tells (s : Shared) : List (Option CallStatus) :=
  (s.db.inbox.filter fun row => row.processedAt.isNone).map InboxRow.told

/-- A retry of the call could be put off to some date. -/
def Datable (deps : Deps) (s : Shared) (call : CallRow) : Prop :=
  ∃ jitter next, retryDate call.attemptEpoch (s.backoffBase deps call) jitter s.now = .ok next

/-- Along a run from `s₀` the call has reacted to what was heard, in that order. -/
structure Along (deps : Deps) (s₀ : Shared) (handle : Handle) (call₀ : CallRow) (heard : List CallStatus) (s : Shared)
    (call : CallRow) : Prop where
  listening : Listening s handle call
  id : call.id = call₀.id
  campaignId : call.campaignId = call₀.campaignId
  attemptEpoch : call.attemptEpoch = call₀.attemptEpoch
  now : s₀.now ≤ s.now
  ending : call.ending = heard.foldl CallEnd.react call₀.ending
  order : s₀.tells.Perm (heard.map some ++ s.tells)
  campaigns : call.status.isTerminal = false → s.db.campaigns = s₀.db.campaigns
  dated : ∀ before told after, heard = before ++ told :: after → (told = .noAnswer ∨ told = .busy) →
    (before.foldl CallEnd.react call₀.ending).status.isTerminal = false →
      0 < (before.foldl CallEnd.react call₀.ending).retriesRemaining → Datable deps s₀ call₀

section

variable {deps : Deps} {s₀ s s' : Shared} {handle : Handle} {call₀ call version : CallRow} {heard : List CallStatus}
  {row : InboxRow} {told : CallStatus}

/-! ### One row -/

/-- What waits is what waited, less the row that was consumed. -/
theorem tells_consumed (hids : (s.db.inbox.map InboxRow.id).Nodup) (hnext : s.Next row) (htold : row.told = some told)
    (hinbox : s'.db.inbox = overlay InboxRow.id [{ row with processedAt := some s.now }] s.db.inbox) :
    s.tells.Perm (some told :: s'.tells) := by
  obtain ⟨hrow, hwaits⟩ := hnext.mem
  let waiting := s.db.inbox.filter fun row => row.processedAt.isNone
  have hmem : row ∈ waiting := List.mem_filter.mpr ⟨hrow, by rw [hwaits]; rfl⟩
  have hnodup : (waiting.map InboxRow.id).Nodup := hids.sublist (List.filter_sublist.map _)
  have hrest : s'.db.inbox.filter (fun row => row.processedAt.isNone) = waiting.filter fun other => other.id ≠ row.id := by
    rw [hinbox]
    exact filter_overlay_singleton _ rfl
  have hone : waiting.filter (fun other => other.id = row.id) = [row] :=
    filter_key_eq hnodup (lookup_of_mem hnodup hmem)
  have hsplit := List.filter_append_perm (fun other : InboxRow => decide (other.id = row.id)) waiting
  have hnot : waiting.filter (fun other => !decide (other.id = row.id)) = waiting.filter fun other => other.id ≠ row.id :=
    List.filter_congr fun other _ => (decide_not).symm
  rw [hone, hnot, ← hrest] at hsplit
  have hperm := (hsplit.map InboxRow.told).symm
  rw [List.singleton_append, List.map_cons, htold] at hperm
  exact hperm

/-- The rows are still about the call, in its new version. -/
theorem Reaction.listening (h : Reaction deps s s' row told call version) (hlisten : Listening s handle call) :
    Listening s' handle version where
  callIds := by rw [h.calls, map_key_overlay]; exact hlisten.callIds
  inboxIds := by rw [h.inbox, map_key_overlay]; exact hlisten.inboxIds
  own := by
    obtain ⟨hmem, hhandle⟩ := hlisten.mem
    have hsame : ∀ other ∈ s.db.calls, other.id = version.id →
        decide (other.providerCallId = some handle) = decide (version.providerCallId = some handle) := by
      intro other hother hid
      rw [eq_of_key_eq hlisten.callIds hother hmem (hid.trans h.reacts.id), h.reacts.providerCallId]
    rw [Db.withHandle, h.calls, filter_overlay_same _ hsame]
    show overlay CallRow.id [version] (s.db.withHandle handle) = _
    rw [hlisten.own]
    simp [overlay, h.reacts.id]
  waiting other hother hnone := by
    rw [h.inbox] at hother
    rcases mem_overlay_singleton.mp hother with ⟨hold, -⟩ | ⟨rfl, -⟩
    · exact hlisten.waiting other hold hnone
    · cases hnone

theorem CallEnd.react_terminal {ending : CallEnd} (h : ending.status.isTerminal = true) : ending.react told = ending :=
  CallEnd.react_same (Or.inr h)

/-- What is over stays so. -/
theorem Reacts.live (h : Reacts told call version) (hlive : version.status.isTerminal = false) :
    call.status.isTerminal = false := by
  by_contra hover
  rw [Bool.not_eq_false] at hover
  have hending := h.ending
  rw [CallEnd.react_terminal hover] at hending
  rw [show version.status = call.status from congrArg CallEnd.status hending, hover] at hlive
  cases hlive

/-- An earlier date is one if a later date is. -/
theorem retryDate_earlier {attemptEpoch : Nat} {base : ℚ} {jitter : Jitter} {now later next : Time} (hle : now ≤ later)
    (h : retryDate attemptEpoch base jitter later = .ok next) : ∃ next, retryDate attemptEpoch base jitter now = .ok next := by
  rw [retryDate] at h ⊢
  cases hdelta : backoffDelta attemptEpoch base jitter with
  | error error =>
      rw [hdelta] at h
      cases h
  | ok delta =>
      rw [hdelta] at h
      refine ⟨now + delta, ?_⟩
      simp only [Except.bind, addTimedelta] at h ⊢
      split at h
      · next hmax => exact if_pos ((Int.add_le_add_right hle delta).trans hmax)
      · cases h

theorem Along.consumes (h : Along deps s₀ handle call₀ heard s call) (hstep : Consumes deps s s') :
    ∃ told version, Along deps s₀ handle call₀ (heard ++ [told]) s' version := by
  obtain ⟨row, told, version, hreaction⟩ := hstep.reaction h.listening
  have hreacts := hreaction.reacts
  refine ⟨told, version, hreaction.listening h.listening, hreacts.id.trans h.id, hreacts.campaignId.trans h.campaignId,
    hreacts.attemptEpoch.trans h.attemptEpoch, h.now.trans hreaction.now.ge, ?_, ?_, ?_, ?_⟩
  · rw [List.foldl_append, ← h.ending]
    exact hreacts.ending
  · rw [List.map_append, List.append_assoc]
    exact h.order.trans (.append_left _ (tells_consumed h.listening.inboxIds hreaction.next hreaction.tells hreaction.inbox))
  · exact fun hlive => (hreaction.campaigns hlive).trans (h.campaigns (hreacts.live hlive))
  · intro before told' after hsplit hretry hlive hbudget
    rcases List.eq_nil_or_concat after with rfl | ⟨after, last, rfl⟩
    · obtain ⟨rfl, htold⟩ := List.append_inj' hsplit rfl
      obtain rfl := (List.cons.inj htold).1
      rw [← h.ending] at hlive hbudget
      have hchanges : told ≠ call.status := by
        rintro rfl
        rcases hretry with he | he <;> rw [CallRow.ending, he] at hlive <;> cases hlive
      obtain ⟨jitter, next, hdate⟩ := hreaction.dated hretry hchanges hbudget
      rw [h.attemptEpoch, Shared.backoffBase, h.campaignId, Db.campaign?, h.campaigns hlive] at hdate
      obtain ⟨next, hdate⟩ := retryDate_earlier h.now hdate
      exact ⟨jitter, next, hdate⟩
    · rw [List.concat_eq_append, ← List.cons_append, ← List.append_assoc] at hsplit
      exact h.dated before told' after (List.append_inj' hsplit rfl).1 hretry hlive hbudget

theorem Along.elapse (h : Along deps s₀ handle call₀ heard s call) (micros : Nat) :
    Along deps s₀ handle call₀ heard { s with now := s.now + micros } call where
  listening := ⟨h.listening.callIds, h.listening.inboxIds, h.listening.own, h.listening.waiting⟩
  id := h.id
  campaignId := h.campaignId
  attemptEpoch := h.attemptEpoch
  now := h.now.trans (Int.le_add_of_nonneg_right (Int.natCast_nonneg micros))
  ending := h.ending
  order := h.order
  campaigns := h.campaigns
  dated := h.dated

/-- A run folds the events over the call, in some order. -/
theorem Passing.along (h : Passing deps s₀ s) (hlisten : Listening s₀ handle call₀) :
    ∃ heard call, Along deps s₀ handle call₀ heard s call := by
  induction h with
  | refl =>
      refine ⟨[], call₀, hlisten, rfl, rfl, rfl, le_rfl, rfl, .refl _, fun _ => rfl, ?_⟩
      intro before told after hsplit
      simp at hsplit
  | tail _ hstep ih =>
      obtain ⟨heard, call, halong⟩ := ih
      rcases hstep with hconsumes | ⟨micros, rfl⟩
      · obtain ⟨told, version, hnext⟩ := halong.consumes hconsumes
        exact ⟨_, version, hnext⟩
      · exact ⟨heard, call, halong.elapse micros⟩

end

/-! ### Folds -/

section

variable {marks : List CallStatus} {ending : CallEnd} {outcome : CallStatus}

theorem CallStatus.not_terminal_of_inFlight {status : CallStatus} (h : status.inFlight = true) :
    status.isTerminal = false := by
  cases status <;> first | rfl | cases h

/-- Marks leave the budget alone and the call in flight. -/
theorem foldl_marks (hmarks : ∀ told ∈ marks, told.inFlight = true) (hending : ending.status.isTerminal = false)
    (hne : marks ≠ [] ∨ ending.status.inFlight = true) :
    ∃ status, status.inFlight = true ∧ marks.foldl CallEnd.react ending = ⟨status, ending.retriesRemaining⟩ := by
  induction marks generalizing ending with
  | nil => exact ⟨ending.status, hne.resolve_left (absurd rfl), rfl⟩
  | cons told rest ih =>
      have hmark := hmarks told List.mem_cons_self
      have hreact : ending.react told = ⟨told, ending.retriesRemaining⟩ := by
        by_cases hsame : told = ending.status
        · rw [CallEnd.react_same (Or.inl hsame), hsame]
        · rw [CallEnd.react, if_neg (not_or.mpr ⟨hsame, by rw [hending]; exact Bool.false_ne_true⟩),
            CallEnd.take_of_not_retry]
          rintro (rfl | rfl) <;> cases hmark
      rw [List.foldl_cons, hreact]
      exact ih (fun told hmem => hmarks told (List.mem_cons_of_mem _ hmem)) (CallStatus.not_terminal_of_inFlight hmark)
        (Or.inr hmark)

/-- What is over stays as it is. -/
theorem foldl_terminal (hending : ending.status.isTerminal = true) (heard : List CallStatus) :
    heard.foldl CallEnd.react ending = ending := by
  induction heard with
  | nil => rfl
  | cons told rest ih => rw [List.foldl_cons, CallEnd.react_terminal hending, ih]

/-- An outcome that does not end the call may be tried again. -/
theorem CallEnd.retry_of_take_live (houtcome : outcome.isTerminal = true)
    (hlive : ¬ (ending.take outcome).status.isTerminal = true) :
    (outcome = .noAnswer ∨ outcome = .busy) ∧ 0 < ending.retriesRemaining := by
  by_cases hretry : outcome = .noAnswer ∨ outcome = .busy
  · refine ⟨hretry, Nat.pos_of_ne_zero fun hspent => hlive ?_⟩
    rw [CallEnd.take_of_retry hretry, hspent]
    rfl
  · refine absurd ?_ hlive
    rw [CallEnd.take_of_not_retry hretry]
    exact houtcome

theorem react_outcome (houtcome : outcome.isTerminal = true) (hending : ending.status.inFlight = true) :
    ending.react outcome = ending.take outcome := by
  have hlive := CallStatus.not_terminal_of_inFlight hending
  refine if_neg (not_or.mpr ⟨?_, by rw [hlive]; exact Bool.false_ne_true⟩)
  rintro rfl
  rw [houtcome] at hlive
  cases hlive

end

theorem foldl_marks_live {marks : List CallStatus} {ending : CallEnd} (hmarks : ∀ told ∈ marks, told.inFlight = true)
    (hending : ending.status.isTerminal = false) : (marks.foldl CallEnd.react ending).status.isTerminal = false := by
  by_cases hne : marks = []
  · rw [hne]
    exact hending
  · obtain ⟨status, hstatus, hfold⟩ := foldl_marks hmarks hending (Or.inl hne)
    rw [hfold]
    exact CallStatus.not_terminal_of_inFlight hstatus

/-- Where the outcome stands among the marks, the call is in flight and nothing of its budget is spent. -/
theorem exists_split {marks heard : List CallStatus} {ending : CallEnd} {outcome : CallStatus}
    (hperm : heard.Perm (outcome :: marks)) (hmarks : ∀ told ∈ marks, told.inFlight = true)
    (hending : ending.status.inFlight = true) :
    ∃ before after status, heard = before ++ outcome :: after ∧ (before ++ after).Perm marks ∧
      status.inFlight = true ∧ before.foldl CallEnd.react ending = ⟨status, ending.retriesRemaining⟩ := by
  obtain ⟨before, after, rfl⟩ := List.append_of_mem (hperm.mem_iff.mpr List.mem_cons_self)
  have hrest : (before ++ after).Perm marks := (List.perm_middle.symm.trans hperm).cons_inv
  obtain ⟨status, hstatus, hbefore⟩ := @foldl_marks before ending
    (fun told hmem => hmarks told (hrest.mem_iff.mp (List.mem_append_left _ hmem)))
    (CallStatus.not_terminal_of_inFlight hending) (Or.inr hending)
  exact ⟨before, after, status, rfl, hrest, hstatus, hbefore⟩

/-- Where the outcome ends the call, or comes last, the fold is the outcome's. -/
theorem foldl_outcome {marks heard : List CallStatus} {ending : CallEnd} {outcome : CallStatus}
    (hperm : heard.Perm (outcome :: marks)) (hmarks : ∀ told ∈ marks, told.inFlight = true)
    (houtcome : outcome.isTerminal = true) (hending : ending.status.inFlight = true)
    (hlast : (ending.take outcome).status.isTerminal = true ∨ marks = []) :
    heard.foldl CallEnd.react ending = ending.take outcome := by
  obtain ⟨before, after, status, rfl, hrest, hstatus, hbefore⟩ := exists_split hperm hmarks hending
  have htake : CallEnd.take ⟨status, ending.retriesRemaining⟩ outcome = ending.take outcome := by
    cases outcome <;> rfl
  rw [List.foldl_append, List.foldl_cons, hbefore, react_outcome houtcome hstatus, htake]
  rcases hlast with hover | rfl
  · exact foldl_terminal hover after
  · obtain ⟨-, rfl⟩ := List.append_eq_nil_iff.mp hrest.eq_nil
    rfl

/-! ### All orders -/

/-- Rows that carry the events `told` for the handle, in the order they happen to be received. -/
structure Carries (handle : Handle) (told : List CallStatus) (rows : List InboxRow) : Prop where
  ids : (rows.map InboxRow.id).Nodup
  eventIds : (rows.map fun row => (row.provider, row.providerEventId)).Nodup
  waiting : ∀ row ∈ rows, row.processedAt = none
  about : ∀ row ∈ rows, ∃ event, parseEvent row.payload = .ok event ∧ event.providerCallId = .str handle
  told : (rows.map InboxRow.told).Perm (told.map some)

/-- The inbox holds these rows. -/
def Shared.receive (s : Shared) (rows : List InboxRow) : Shared := { s with db := { s.db with inbox := rows } }

/-- Some order in which the events `told` for the handle are consumed leaves the call so. -/
def EndsAs (deps : Deps) (s : Shared) (handle : Handle) (told : List CallStatus) (id : CallId) (ending : CallEnd) : Prop :=
  ∃ rows s', Carries handle told rows ∧ Passing deps (s.receive rows) s' ∧ s'.unprocessed = 0 ∧
    (s'.db.call? id).map CallRow.ending = some ending

/-- Every two orders leave the call the same. -/
def OrderIrrelevant (deps : Deps) (s : Shared) (handle : Handle) (told : List CallStatus) (id : CallId) : Prop :=
  ∀ ending ending', EndsAs deps s handle told id ending → EndsAs deps s handle told id ending' → ending = ending'

section

variable {deps : Deps} {s s' : Shared} {handle : Handle} {call : CallRow} {told heard : List CallStatus}
  {rows : List InboxRow} {ending : CallEnd}

theorem Carries.listening (h : Carries handle told rows) (hids : (s.db.calls.map CallRow.id).Nodup)
    (hown : s.db.withHandle handle = [call]) : Listening (s.receive rows) handle call where
  callIds := hids
  inboxIds := h.ids
  own := hown
  waiting row hrow _ := h.about row hrow

theorem Listening.ending_eq (h : Listening s handle call) :
    (s.db.call? call.id).map CallRow.ending = some call.ending := by
  rw [Db.call?, lookup_of_mem h.callIds h.mem.1]
  rfl

/-- An order in which the events were consumed, and what it made of the call. -/
theorem EndsAs.order (h : EndsAs deps s handle told call.id ending) (hids : (s.db.calls.map CallRow.id).Nodup)
    (hown : s.db.withHandle handle = [call]) :
    ∃ heard, heard.Perm told ∧ ending = heard.foldl CallEnd.react call.ending ∧
      ∀ before told after, heard = before ++ told :: after → (told = .noAnswer ∨ told = .busy) →
        (before.foldl CallEnd.react call.ending).status.isTerminal = false →
          0 < (before.foldl CallEnd.react call.ending).retriesRemaining → Datable deps s call := by
  obtain ⟨rows, s', hcarries, hpassing, hnone, hending⟩ := h
  obtain ⟨heard, version, halong⟩ := Passing.along hpassing (hcarries.listening hids hown)
  refine ⟨heard, ?_, ?_, halong.dated⟩
  · have htells : (s.receive rows).tells = rows.map InboxRow.told := by
      rw [Shared.tells, List.filter_eq_self.mpr]
      · rfl
      · intro row hrow
        rw [hcarries.waiting row hrow]
        rfl
    have hall : s'.tells = [] := by
      rw [Shared.tells, List.filter_eq_nil_iff.mpr (List.countP_eq_zero.mp hnone)]
      rfl
    have horder := halong.order
    rw [htells, hall, List.append_nil] at horder
    exact (List.map_perm_map_iff (Option.some_injective _)).mp (horder.symm.trans hcarries.told)
  · rw [← halong.id, halong.listening.ending_eq, Option.some.injEq] at hending
    exact hending.symm.trans halong.ending

/-! ### An order there is -/

/-- With this choice no event about the call raises. -/
structure Unhindered (deps : Deps) (choice : Choice) (s : Shared) (call : CallRow) : Prop where
  free : phoneTaken s.db call = false
  dated : ∃ next, retryDate call.attemptEpoch (s.backoffBase deps call) choice.jitter s.now = .ok next

theorem Unhindered.able {choice : Choice} (h : Unhindered deps choice s call) (told : CallStatus) :
    ¬ Unable deps (· = choice) s told call := by
  rintro (⟨-, -, _, rfl, error, hdate⟩ | ⟨-, htaken⟩)
  · obtain ⟨next, hnext⟩ := h.dated
    rw [hnext] at hdate
    cases hdate
  · rw [h.free] at htaken
    cases htaken

theorem Unhindered.reaction {choice : Choice} {row : InboxRow} {told : CallStatus} {version : CallRow}
    (h : Unhindered deps choice s call) (hreaction : Reaction deps s s' row told call version)
    (hlive : version.status.isTerminal = false) : Unhindered deps choice s' version where
  free := by
    have hfree := h.free
    rw [phoneTaken, List.any_eq_false] at hfree ⊢
    intro other hother htaken
    simp only [Bool.and_eq_true, decide_eq_true_eq] at htaken
    rw [hreaction.calls] at hother
    rcases mem_overlay_singleton.mp hother with ⟨hold, hne⟩ | ⟨rfl, -⟩
    · refine hfree other hold ?_
      simp only [Bool.and_eq_true, decide_eq_true_eq]
      exact ⟨⟨fun he => hne (he.trans hreaction.reacts.id.symm), htaken.1.2.trans hreaction.reacts.phone⟩, htaken.2⟩
    · exact htaken.1.1 rfl
  dated := by
    rw [hreaction.reacts.attemptEpoch, Shared.backoffBase, hreaction.reacts.campaignId, Db.campaign?,
      hreaction.campaigns hlive, hreaction.now]
    exact h.dated

/-- Rows received one after another are consumed in that order. -/
theorem exists_passing {choice : Choice} (hlisten : Listening s handle call) (hunhindered : Unhindered deps choice s call)
    (hrows : s.db.inbox.filter (fun row => row.processedAt.isNone) = rows)
    (hsorted : rows.Pairwise fun row later => row.receivedAt < later.receivedAt)
    (htold : rows.map InboxRow.told = told.map some)
    (hlive : ∀ heard, heard <+: told → (heard.foldl CallEnd.react call.ending).status.isTerminal = false) :
    ∃ s', Passing deps s s' ∧ s'.unprocessed = 0 ∧
      (s'.db.call? call.id).map CallRow.ending = some (told.foldl CallEnd.react call.ending) := by
  induction told generalizing s call rows with
  | nil =>
      refine ⟨s, .refl, ?_, hlisten.ending_eq⟩
      obtain rfl := List.map_eq_nil_iff.mp htold
      exact List.countP_eq_zero.mpr (List.filter_eq_nil_iff.mp hrows)
  | cons status later ih =>
      cases rows with
      | nil => cases htold
      | cons row rest =>
          obtain ⟨hrowTold, hrestTold⟩ := List.cons.inj htold
          rw [List.pairwise_cons] at hsorted
          have honly : ∀ other, s.Next other → other = row := by
            rintro other ⟨pick, hpick⟩
            rw [hrows, oldest_cons pick hsorted.1] at hpick
            exact (Option.some.inj hpick).symm
          have hnext : s.Next row := ⟨0, by rw [hrows, oldest_cons 0 hsorted.1]⟩
          obtain ⟨s₁, hconsumes⟩ := exists_consumes hlisten hnext choice fun _ told _ _ => hunhindered.able told
          obtain ⟨other, told, version, hreaction⟩ := hconsumes.reaction hlisten
          obtain rfl := honly other hreaction.next
          obtain rfl := Option.some.inj (hreaction.tells.symm.trans hrowTold)
          have hending := hreaction.reacts.ending
          have hversion : version.status.isTerminal = false := by
            have hfirst := hlive [told] ⟨later, rfl⟩
            rw [List.foldl_cons, List.foldl_nil, ← hending] at hfirst
            exact hfirst
          have hrest : s₁.db.inbox.filter (fun row => row.processedAt.isNone) = rest := by
            rw [hreaction.inbox, filter_overlay_singleton _ rfl, hrows, List.filter_cons_of_neg (by simp)]
            refine List.filter_eq_self.mpr fun later hlater => ?_
            have hnodup : ((s.db.inbox.filter fun row => row.processedAt.isNone).map InboxRow.id).Nodup :=
              hlisten.inboxIds.sublist (List.filter_sublist.map _)
            rw [hrows, List.map_cons, List.nodup_cons] at hnodup
            exact decide_eq_true fun he => hnodup.1 (he ▸ List.mem_map_of_mem hlater)
          obtain ⟨s', hpassing, hnone, hends⟩ := ih (hreaction.listening hlisten)
            (hunhindered.reaction hreaction hversion) hrest hsorted.2 hrestTold fun heard hheard => by
              rw [hending]
              exact hlive (told :: heard) (List.cons_prefix_cons.mpr ⟨rfl, hheard⟩)
          rw [hreaction.reacts.id, hending] at hends
          exact ⟨s', .head (Or.inl hconsumes) hpassing, hnone, hends⟩

end

/-- Events for the handle as the mock provider sends them, received one after another. -/
def eventRows (handle : Handle) (index : Nat) : List CallStatus → List InboxRow
  | [] => []
  | status :: later =>
      let eventId := String.ofList (List.replicate index 'e')
      { id := index, provider := "mock", providerEventId := eventId, payload := webhook eventId handle status,
        receivedAt := index, processedAt := none } :: eventRows handle (index + 1) later

section

variable {deps : Deps} {s : Shared} {handle : Handle} {call : CallRow} {told order : List CallStatus} {index : Nat}

theorem parseEvent_webhook (eventId : String) (handle : Handle) (status : CallStatus) :
    parseEvent (webhook eventId handle status) = .ok ⟨.str eventId, .str handle, status⟩ := by
  have hstatus : callStatusOf (.str status.value) = .ok status := by
    rw [callStatusOf, CallStatus.ofValue_value]
  show (callStatusOf (.str status.value) >>= fun _ => _) = _
  rw [hstatus]
  rfl

/-- Each row of a list of events: when it came, and what it is. -/
theorem mem_eventRows {row : InboxRow} (h : row ∈ eventRows handle index order) :
    ∃ later, index ≤ later ∧ row.id = later ∧ row.receivedAt = later ∧
      row.providerEventId = String.ofList (List.replicate later 'e') ∧ row.processedAt = none ∧
      ∃ event, parseEvent row.payload = .ok event ∧ event.providerCallId = .str handle := by
  induction order generalizing index with
  | nil => exact absurd h List.not_mem_nil
  | cons status rest ih =>
      rcases List.mem_cons.mp h with rfl | hrest
      · exact ⟨index, le_rfl, rfl, rfl, rfl, rfl, _, parseEvent_webhook _ handle status, rfl⟩
      · obtain ⟨later, hle, hrow⟩ := ih hrest
        exact ⟨later, Nat.le_of_succ_le hle, hrow⟩

theorem map_told_eventRows : (eventRows handle index order).map InboxRow.told = order.map some := by
  induction order generalizing index with
  | nil => rfl
  | cons status rest ih =>
      rw [eventRows, List.map_cons, List.map_cons, ih, InboxRow.told_of_parse (parseEvent_webhook _ handle status)]

theorem eventRows_sorted :
    (eventRows handle index order).Pairwise fun row later => row.receivedAt < later.receivedAt := by
  induction order generalizing index with
  | nil => exact .nil
  | cons status rest ih =>
      refine .cons (fun row hrow => ?_) ih
      obtain ⟨later, hle, -, hreceived, -⟩ := mem_eventRows hrow
      rw [hreceived]
      exact Int.ofNat_lt.mpr hle

/-- Rows received at different times have different ids, of both kinds. -/
theorem eventRows_carries (hperm : order.Perm told) : Carries handle told (eventRows handle index order) where
  ids := by
    rw [List.Nodup, List.pairwise_map]
    refine eventRows_sorted.imp_of_mem fun {row later} hrow hlater hlt he => ?_
    obtain ⟨i, -, hid, hreceived, -⟩ := mem_eventRows hrow
    obtain ⟨j, -, hid', hreceived', -⟩ := mem_eventRows hlater
    rw [hreceived, hreceived', ← hid, ← hid', he] at hlt
    exact lt_irrefl _ hlt
  eventIds := by
    rw [List.Nodup, List.pairwise_map]
    refine eventRows_sorted.imp_of_mem fun {row later} hrow hlater hlt he => ?_
    obtain ⟨i, -, -, hreceived, hevent, -⟩ := mem_eventRows hrow
    obtain ⟨j, -, -, hreceived', hevent', -⟩ := mem_eventRows hlater
    have hlength := congrArg List.length (String.ofList_injective (hevent.symm.trans ((Prod.mk.inj he).2.trans hevent')))
    rw [List.length_replicate, List.length_replicate] at hlength
    rw [hreceived, hreceived', hlength] at hlt
    exact lt_irrefl _ hlt
  waiting row hrow := by
    obtain ⟨-, -, -, -, -, hwaits, -⟩ := mem_eventRows hrow
    exact hwaits
  about row hrow := by
    obtain ⟨-, -, -, -, -, -, habout⟩ := mem_eventRows hrow
    exact habout
  told := by
    rw [map_told_eventRows]
    exact hperm.map some

/-- Every order in which no event ends the call can come to pass. -/
theorem exists_endsAs {choice : Choice} (hids : (s.db.calls.map CallRow.id).Nodup)
    (hown : s.db.withHandle handle = [call]) (hunhindered : Unhindered deps choice s call) (hperm : order.Perm told)
    (hlive : ∀ heard, heard <+: order → (heard.foldl CallEnd.react call.ending).status.isTerminal = false) :
    EndsAs deps s handle told call.id (order.foldl CallEnd.react call.ending) := by
  have hcarries : Carries handle told (eventRows handle 0 order) := eventRows_carries hperm
  obtain ⟨s', hends⟩ := exists_passing (s := s.receive (eventRows handle 0 order)) (hcarries.listening hids hown)
    ⟨hunhindered.free, hunhindered.dated⟩
    (List.filter_eq_self.mpr fun row hrow => by rw [hcarries.waiting row hrow]; rfl)
    eventRows_sorted map_told_eventRows hlive
  exact ⟨_, s', hcarries, hends⟩

end

section

variable {deps : Deps} {s : Shared} {handle : Handle} {call : CallRow} {outcome : CallStatus} {marks : List CallStatus}

/-- A handle issued for one call only is on that call alone. -/
theorem withHandle_eq (hinv : Consistent s) (hcall : call ∈ s.db.calls) (hhandle : call.providerCallId = some handle)
    (hunique : ∀ dial ∈ s.issued, dial.handle = handle → dial.key.callId = call.id) : s.db.withHandle handle = [call] := by
  refine (List.filter_congr fun row hrow => ?_).trans
    (filter_key_eq hinv.callIds (lookup_of_mem hinv.callIds hcall))
  refine decide_eq_decide.mpr ⟨fun hrowHandle => ?_, fun hid => ?_⟩
  · exact hunique _ ((hinv.sound row hrow).handle handle hrowHandle) rfl
  · rw [eq_of_key_eq hinv.callIds hrow hcall hid]
    exact hhandle

/-- An outcome that may be tried again is undone by the marks that come late. -/
theorem not_orderIrrelevant (hinv : Consistent s) (hcall : call ∈ s.db.calls) (hdialing : call.status = .dialing)
    (hown : s.db.withHandle handle = [call]) (hretry : outcome = .noAnswer ∨ outcome = .busy)
    (hbudget : 0 < call.retriesRemaining) (hmarks : ∀ told ∈ marks, told.inFlight = true) (hne : marks ≠ [])
    (hdatable : Datable deps s call) : ¬ OrderIrrelevant deps s handle (outcome :: marks) call.id := by
  intro hirrelevant
  obtain ⟨jitter, next, hdate⟩ := hdatable
  have houtcome : outcome.isTerminal = true := by rcases hretry with rfl | rfl <;> rfl
  have hflying : call.ending.status.inFlight = true := by rw [CallRow.ending, hdialing]; rfl
  have htake : ∀ status, CallEnd.take ⟨status, call.retriesRemaining⟩ outcome =
      ⟨.retryPending, call.retriesRemaining - 1⟩ := fun status =>
    (CallEnd.take_of_retry hretry).trans (if_pos hbudget)
  have hunhindered : Unhindered deps { jitter } s call := by
    refine ⟨List.any_eq_false.mpr fun other hother htaken => ?_, next, hdate⟩
    simp only [Bool.and_eq_true, decide_eq_true_eq] at htaken
    exact htaken.1.1 (hinv.phones other hother call hcall htaken.2 (by rw [hdialing]; rfl) htaken.1.2)
  -- the outcome last: a retry is due
  have hlast : EndsAs deps s handle (outcome :: marks) call.id ⟨.retryPending, call.retriesRemaining - 1⟩ := by
    have hfold : (marks ++ [outcome]).foldl CallEnd.react call.ending = ⟨.retryPending, call.retriesRemaining - 1⟩ := by
      obtain ⟨status, hstatus, hfold⟩ := foldl_marks hmarks (CallStatus.not_terminal_of_inFlight hflying) (Or.inl hne)
      rw [List.foldl_append, hfold, List.foldl_cons, List.foldl_nil, react_outcome houtcome hstatus]
      exact htake status
    rw [← hfold]
    refine exists_endsAs hinv.callIds hown hunhindered (List.perm_append_singleton _ _) fun heard hprefix => ?_
    rcases List.prefix_concat_iff.mp hprefix with rfl | hbefore
    · rw [hfold]
      rfl
    · exact foldl_marks_live (fun told hmem => hmarks told (hbefore.subset hmem))
        (CallStatus.not_terminal_of_inFlight hflying)
  -- the outcome first: the marks put the call back in flight
  obtain ⟨status, hstatus, hfold⟩ := @foldl_marks marks ⟨.retryPending, call.retriesRemaining - 1⟩ hmarks rfl
    (Or.inl hne)
  have hfirst : EndsAs deps s handle (outcome :: marks) call.id ⟨status, call.retriesRemaining - 1⟩ := by
    have hreact : call.ending.react outcome = ⟨.retryPending, call.retriesRemaining - 1⟩ :=
      (react_outcome houtcome hflying).trans (htake _)
    rw [← hfold, ← hreact, ← List.foldl_cons]
    refine exists_endsAs hinv.callIds hown hunhindered (.refl _) fun heard hprefix => ?_
    rcases List.prefix_cons_iff.mp hprefix with rfl | ⟨after, rfl, hafter⟩
    · exact CallStatus.not_terminal_of_inFlight hflying
    · rw [List.foldl_cons, hreact]
      exact foldl_marks_live (fun told hmem => hmarks told (hafter.subset hmem)) rfl
  have hsame : CallStatus.retryPending = status := congrArg CallEnd.status (hirrelevant _ _ hlast hfirst)
  rw [← hsame] at hstatus
  cases hstatus

/-- In every order the outcome is what is left, where it ends the call, or is all there is. -/
theorem orderIrrelevant_of_settles (hids : (s.db.calls.map CallRow.id).Nodup) (hown : s.db.withHandle handle = [call])
    (hflying : call.ending.status.inFlight = true) (houtcome : outcome.isTerminal = true)
    (hmarks : ∀ told ∈ marks, told.inFlight = true)
    (hsettles : (call.ending.take outcome).status.isTerminal = true ∨ marks = [] ∨ ¬ Datable deps s call) :
    OrderIrrelevant deps s handle (outcome :: marks) call.id := by
  have hall : ∀ ending, EndsAs deps s handle (outcome :: marks) call.id ending → ending = call.ending.take outcome := by
    intro ending hends
    obtain ⟨heard, hperm, rfl, hdated⟩ := hends.order hids hown
    by_cases hlast : (call.ending.take outcome).status.isTerminal = true ∨ marks = []
    · exact foldl_outcome hperm hmarks houtcome hflying hlast
    · -- a retry has been put off, so there was a date to put it off to
      obtain ⟨hlive, hne⟩ := not_or.mp hlast
      obtain ⟨before, after, status, hsplit, -, hstatus, hbefore⟩ := exists_split hperm hmarks hflying
      obtain ⟨hretry, hbudget⟩ := CallEnd.retry_of_take_live houtcome hlive
      have hdatable := hdated before outcome after hsplit hretry
        (by rw [hbefore]; exact CallStatus.not_terminal_of_inFlight hstatus) (by rw [hbefore]; exact hbudget)
      exact absurd hdatable ((hsettles.resolve_left hlive).resolve_left hne)
  exact fun ending ending' hends hends' => (hall ending hends).trans (hall ending' hends').symm

end

/-- The order of the events does not matter, if and only if the outcome ends the call, or is all there is, or
cannot be tried again at any date. -/
theorem webhook_order_iff {deps : Deps} {sys : Sys} (hreachable : Reachable deps sys) {call : CallRow}
    (hcall : call ∈ sys.shared.db.calls) (hdialing : call.status = .dialing) {handle : Handle}
    (hhandle : call.providerCallId = some handle)
    (hunique : ∀ dial ∈ sys.shared.issued, dial.handle = handle → dial.key.callId = call.id)
    {outcome : CallStatus} (houtcome : outcome.isTerminal = true) {marks : List CallStatus}
    (hmarks : ∀ told ∈ marks, told = .dialing ∨ told = .inProgress) :
    OrderIrrelevant deps sys.shared handle (outcome :: marks) call.id ↔
      outcome = .completed ∨ outcome = .failed ∨ call.retriesRemaining = 0 ∨ marks = [] ∨
        ¬ Datable deps sys.shared call := by
  have hinv := hreachable.consistent
  have hown := withHandle_eq hinv hcall hhandle hunique
  have hflying : call.ending.status.inFlight = true := by rw [CallRow.ending, hdialing]; rfl
  replace hmarks : ∀ told ∈ marks, told.inFlight = true := by
    intro told hmem
    rcases hmarks told hmem with rfl | rfl <;> rfl
  have hkinds : outcome = .completed ∨ outcome = .failed ∨ outcome = .noAnswer ∨ outcome = .busy := by
    cases outcome <;> first | cases houtcome; done | simp
  constructor
  · intro hirrelevant
    by_contra hnot
    push Not at hnot
    obtain ⟨hcompleted, hfailed, hbudget, hne, hdatable⟩ := hnot
    exact not_orderIrrelevant hinv hcall hdialing hown ((hkinds.resolve_left hcompleted).resolve_left hfailed)
      (Nat.pos_of_ne_zero hbudget) hmarks hne hdatable hirrelevant
  · intro hcondition
    refine orderIrrelevant_of_settles hinv.callIds hown hflying houtcome hmarks ?_
    rcases hcondition with rfl | rfl | hspent | hlast
    · exact Or.inl rfl
    · exact Or.inl rfl
    · refine Or.inl ?_
      rcases hkinds with rfl | rfl | hretry
      · rfl
      · rfl
      · rw [CallEnd.take_of_retry hretry, if_neg (by rw [CallRow.ending, hspent]; exact Nat.lt_irrefl 0)]
        rfl
    · exact Or.inr hlast

/-! ### Two events -/

/-- The call is being dialed under the handle `h`, which is its own, and could be tried again. -/
def onHandle (s : Shared) (call : CallRow) : Bool :=
  decide (call.status = .dialing ∧ call.providerCallId = some "h" ∧ 0 < call.retriesRemaining) &&
    (s.issued.all fun dial => dial.key.callId = call.id) &&
      (retryDate call.attemptEpoch (s.backoffBase noonDeps call) ({} : Choice).jitter s.now).toBool

theorem exists_onHandle : ∃ s, Reachable noonDeps s ∧ ∃ call ∈ s.shared.db.calls, call.status = .dialing ∧
    call.providerCallId = some "h" ∧ 0 < call.retriesRemaining ∧
      (∀ dial ∈ s.shared.issued, dial.handle = "h" → dial.key.callId = call.id) ∧ Datable noonDeps s.shared call := by
  obtain ⟨s, hs, hp⟩ := Reachable.of_any noonDeps dialOne (fun s => s.shared.db.calls.any (onHandle s.shared))
    (by decide +kernel)
  obtain ⟨call, hcall, hdialed⟩ := List.any_eq_true.mp hp
  simp only [onHandle, Bool.and_eq_true, decide_eq_true_eq, List.all_eq_true] at hdialed
  obtain ⟨⟨⟨hdialing, hhandle, hbudget⟩, hissued⟩, hdate⟩ := hdialed
  refine ⟨s, hs, call, hcall, hdialing, hhandle, hbudget, fun dial hdial _ => hissued dial hdial,
    ({} : Choice).jitter, ?_⟩
  cases hnext : retryDate call.attemptEpoch (s.shared.backoffBase noonDeps call) ({} : Choice).jitter s.shared.now with
  | ok next => exact ⟨next, rfl⟩
  | error error =>
      rw [hnext] at hdate
      cases hdate

/-- Nobody answers, and the provider has said that the call was in progress. -/
theorem late_mark_undoes_outcome : ∃ s, Reachable noonDeps s ∧ ∃ call ∈ s.shared.db.calls, call.status = .dialing ∧
    call.providerCallId = some "h" ∧ (∀ dial ∈ s.shared.issued, dial.handle = "h" → dial.key.callId = call.id) ∧
      ¬ OrderIrrelevant noonDeps s.shared "h" [.noAnswer, .inProgress] call.id := by
  obtain ⟨s, hs, call, hcall, hdialing, hhandle, hbudget, hunique, hdatable⟩ := exists_onHandle
  refine ⟨s, hs, call, hcall, hdialing, hhandle, hunique, ?_⟩
  exact not_orderIrrelevant hs.consistent hcall hdialing (withHandle_eq hs.consistent hcall hhandle hunique)
    (Or.inl rfl) hbudget (by decide) (List.cons_ne_nil _ _) hdatable

/-- A call that was completed is so whenever it was in progress. -/
theorem webhook_order_completed : ∃ s, Reachable noonDeps s ∧ ∃ call ∈ s.shared.db.calls, call.status = .dialing ∧
    OrderIrrelevant noonDeps s.shared "h" [.completed, .dialing, .inProgress] call.id := by
  obtain ⟨s, hs, call, hcall, hdialing, hhandle, -, hunique, -⟩ := exists_onHandle
  exact ⟨s, hs, call, hcall, hdialing,
    (webhook_order_iff hs hcall hdialing hhandle hunique rfl (by decide)).mpr (Or.inl rfl)⟩

end VoiceCampaign

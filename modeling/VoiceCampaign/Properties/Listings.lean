import VoiceCampaign.Concurrency.Browsing
import VoiceCampaign.Properties.CallList
import VoiceCampaign.Properties.ListCursors
import VoiceCampaign.Properties.Polls
import VoiceCampaign.Protocol.Drawn

/-!
# Lists read while the system runs

A client that follows `next_cursor` through `GET /campaigns` or `GET /audit` sees each row that was there when it
began exactly once, whatever runs between its requests.
-/

namespace VoiceCampaign

open Concurrency Keyset

/-! ### Cursors as text -/

/-- A time that `datetime` represents, and that is bound as it was read. -/
structure Timestamptz.Carries (codec : Timestamptz) (time : Time) : Prop where
  inRange : (codec.decode time).InRange
  back : codec.encode (codec.decode time) = some time

/-- A key that a cursor can hold: a time of `codec`, and an identifier below `bound`. -/
def Timestamptz.Legible (codec : Timestamptz) (bound : Nat) (key : Time ×ₗ Nat) : Prop :=
  codec.Carries (ofLex key).1 ∧ (ofLex key).2 < bound

section

variable {codec : Timestamptz} {key : Time ×ₗ Nat}

theorem Timestamptz.Legible.campaign (h : codec.Legible (16 ^ 32) key) :
    (decodeCampaignCursor (encodeCampaignCursor (codec.decode (ofLex key).1) (ofLex key).2)).bind codec.bindUuid =
      some key := by
  rw [decodeCampaignCursor_encode h.1.inRange h.2, Option.bind_some, Timestamptz.bindUuid, h.1.back]
  rfl

theorem Timestamptz.Legible.call (h : codec.Legible (16 ^ 32) key) :
    (decodeCallCursor (encodeCallCursor (codec.decode (ofLex key).1) (ofLex key).2)).bind codec.bindUuid =
      some key := by
  rw [decodeCallCursor_encode h.1.inRange h.2, Option.bind_some, Timestamptz.bindUuid, h.1.back]
  rfl

theorem Timestamptz.Legible.audit (h : codec.Legible (2 ^ 63) key) :
    (decodeCursor (encodeCursor (codec.decode (ofLex key).1) (ofLex key).2)).bind codec.bindInt = some key := by
  have hlt : ((ofLex key).2 : Int) < 2 ^ 63 := by
    have hid := h.2
    omega
  rw [decodeCursor_encode h.1.inRange, Option.bind_some, Timestamptz.bindInt, if_pos ⟨by omega, hlt⟩, h.1.back]
  rfl

theorem pagedText_answers {α κ : Type} {decode : String → Option κ} {encode : κ → String}
    {list : Option κ → Except Err (List α × Option κ)} {cursor : Option κ} {rows : List α} {next : Option κ}
    (hdecode : ∀ bound ∈ cursor, decode (encode bound) = some bound) (hlist : list cursor = .ok (rows, next)) :
    pagedText decode encode list (cursor.map encode) = .ok (rows, next.map encode) := by
  have hread : (cursor.map encode).mapM decode = some cursor := by
    cases cursor with
    | none => rfl
    | some bound =>
        show (decode (encode bound)).map some = some (some bound)
        rw [hdecode bound rfl]
        rfl
  rw [pagedText, hread]
  dsimp only
  rw [hlist]

end

/-! ### Campaigns -/

theorem exists_mapM_ok {α β : Type} {f : α → Except Err β} {rows : List α} (h : ∀ row ∈ rows, ∃ b, f row = .ok b) :
    ∃ results, rows.mapM f = .ok results ∧ List.Forall₂ (fun row b => f row = .ok b) rows results := by
  induction rows with
  | nil => exact ⟨[], rfl, .nil⟩
  | cons row rest ih =>
      obtain ⟨b, hb⟩ := h row List.mem_cons_self
      obtain ⟨results, hresults, hall⟩ := ih fun row hrow => h row (List.mem_cons_of_mem _ hrow)
      refine ⟨b :: results, ?_, .cons hb hall⟩
      rw [List.mapM_cons, hb, hresults]
      rfl

/-- One step of the system, of whatever kind. -/
def Sys.Steps (deps : Deps) (s s' : Sys) : Prop := ∃ action, s.step deps action = some s'

theorem browsing_continues {deps : Deps} {ρ τ ε : Type} {fetch : Sys → Option τ → Except ε (List ρ × Option τ)}
    {s₀ s s' : Sys} {shown : Reading ρ τ} {allowed : Sys → Action → Prop}
    (h : Browsing (Sys.Steps deps) fetch s₀ s shown) (hahead : Continues deps allowed s s') :
    Browsing (Sys.Steps deps) fetch s₀ s' shown := by
  induction hahead with
  | refl => exact h
  | step action _ _ hstep ih => exact .step ih ⟨action, hstep⟩

def campaignTable : Table Sys CampaignRow ListCursor CampaignId where
  rows s := s.shared.db.campaigns
  key := CampaignRow.listKey
  ident := CampaignRow.id
  evolves := CampaignRow.Evolves

/-- The cursor of a campaign. -/
def campaignCursor (codec : Timestamptz) (key : ListCursor) : String :=
  encodeCampaignCursor (codec.decode (ofLex key).1) (ofLex key).2

section

variable {deps : Deps} {codec : Timestamptz} {limit : Int} {s s₀ : Sys} {shown : Reading CampaignResponse String}

/-- The keys of an answer are those of its row. -/
theorem rowToResponse_key {row : CampaignRow} {response : CampaignResponse} (h : rowToResponse row = .ok response) :
    response.id = row.id ∧ response.createdAt = row.createdAt ∧ response.status = row.status.external := by
  rw [rowToResponse] at h
  cases hschedule : loadSchedule row.schedule with
  | error error =>
      rw [hschedule] at h
      cases h
  | ok schedule =>
      rw [hschedule] at h
      cases h
      exact ⟨rfl, rfl, rfl⟩

theorem CampaignRow.Evolves.listKey {old new : CampaignRow} (h : old.Evolves new) : new.listKey = old.listKey := by
  rw [h.config]
  rfl

/-- The page beyond a cursor, as the endpoint answers it. -/
theorem listCampaigns_answers (hpos : 1 ≤ limit) (hmax : limit ≤ 200) (hs : Reachable deps s)
    {cursor : Option ListCursor} (hcursor : ∀ bound ∈ cursor, codec.Legible (16 ^ 32) bound) :
    ∃ page, listCampaigns codec s.shared.db (cursor.map (campaignCursor codec)) limit =
        .ok (page, (nextCursor CampaignRow.listKey limit.toNat
          (Keyset.page CampaignRow.listKey s.shared.db.campaigns cursor limit.toNat)).map (campaignCursor codec)) ∧
      List.Forall₂ (fun row response => rowToResponse row = .ok response)
        (Keyset.page CampaignRow.listKey s.shared.db.campaigns cursor limit.toNat) page := by
  have hrows : ∀ row ∈ Keyset.page CampaignRow.listKey s.shared.db.campaigns cursor limit.toNat,
      ∃ response, rowToResponse row = .ok response := fun row hrow => by
    obtain ⟨post, hkeeps, -⟩ :=
      hs.getCampaign (lookup_of_mem hs.consistent.campaignIds (beyond_of_mem_page hrow).1)
    exact ⟨_, hkeeps.rowToResponse⟩
  obtain ⟨responses, hmap, hall⟩ := exists_mapM_ok hrows
  refine ⟨responses, ?_, hall⟩
  have hpage := @pagedText_answers CampaignRow ListCursor
    (fun text => (decodeCampaignCursor text).bind codec.bindUuid) (campaignCursor codec)
    (fun bound => listPage s.shared.db.campaigns bound limit) cursor _ _
    (fun bound hbound => (hcursor bound hbound).campaign)
    (listPage_answers (show 0 < limit by omega) s.shared.db.campaigns cursor)
  rw [listCampaigns, if_neg (by omega)]
  show (pagedText _ (campaignCursor codec) _ (cursor.map (campaignCursor codec)) >>= _) = _
  rw [hpage]
  dsimp only [bind, Except.bind, Keyset.answer]
  rw [hmap]
  rfl

theorem campaigns_serve (hpos : 1 ≤ limit) (hmax : limit ≤ 200) :
    Serves campaignTable (Reachable deps) (Sys.Steps deps) limit.toNat (codec.Legible (16 ^ 32))
      (fun row response => rowToResponse row = .ok response) (campaignCursor codec)
      (fun s cursor => listCampaigns codec s.shared.db cursor limit) where
  limit_pos := by omega
  refl := CampaignRow.Evolves.refl
  trans := .trans
  keeps h := ⟨h.listKey, h.id⟩
  preserves hs hstep := hstep.elim fun action hstep => .step action hs trivial hstep
  idents hs := hs.consistent.campaignIds
  distinct hs := distinct_of_idents (fun _ => rfl) hs.consistent.campaignIds
  stays {s s'} hs hstep row hrow := by
    obtain ⟨action, hstep⟩ := hstep
    obtain ⟨row', hrow', hevolves⟩ := (hs.grows hstep).campaign _ _ (lookup_of_mem hs.consistent.campaignIds hrow)
    exact ⟨row', (lookup_some hrow').1, hevolves⟩
  answers hs _ hcursor := listCampaigns_answers hpos hmax hs hcursor

end

/-- What a client has seen of the campaigns, which were those of `db₀` when it began and are those of `db`. -/
structure CampaignsListed (codec : Timestamptz) (limit : Int) (db₀ db : Db) (shown : Reading CampaignResponse String) :
    Prop where
  descending : shown.returned.Pairwise fun a b => toLex (b.createdAt, b.id) < toLex (a.createdAt, a.id)
  once : (shown.returned.map CampaignResponse.id).Nodup
  complete : shown.finished = true → ∀ campaign ∈ db₀.campaigns, campaign.id ∈ shown.returned.map CampaignResponse.id
  onward : ∀ response ∈ shown.returned, ∃ next, getCampaign db response.id = .ok next ∧
    response.status.Onward next.status ∧ next = { response with status := next.status, updatedAt := next.updatedAt }
  answered : shown.finished = false → ∃ result, listCampaigns codec db shown.cursor limit = .ok result
  bounded : shown.finished = false → shown.pages.length * limit.toNat ≤ db.campaigns.length

section

variable {deps : Deps} {codec : Timestamptz} {limit : Int} {s s₀ : Sys} {shown : Reading CampaignResponse String}

theorem Post.Keeps.before {settings : Settings} {post : Post} {campaign next : CampaignRow}
    (h : post.Keeps settings next) (hnext : campaign.Evolves next) : post.Keeps settings campaign := by
  have hconfig := hnext.config
  rw [Post.Keeps] at h ⊢
  rw [hconfig] at h
  cases campaign
  cases h
  rfl

/-- What has been shown of a campaign is what `GET /campaigns/{id}` goes on from. -/
theorem shown_onward (hs : Reachable deps s) {row row' : CampaignRow} {response : CampaignResponse}
    (hshown : rowToResponse row = .ok response) (hrow' : row' ∈ s.shared.db.campaigns) (hevolves : row.Evolves row') :
    ∃ next, getCampaign s.shared.db response.id = .ok next ∧ response.status.Onward next.status ∧
      next = { response with status := next.status, updatedAt := next.updatedAt } := by
  have hfound := lookup_of_mem hs.consistent.campaignIds hrow'
  rw [hevolves.id, ← (rowToResponse_key hshown).1] at hfound
  obtain ⟨post, hkeeps, hserved⟩ := hs.getCampaign hfound
  have hresponse := (hkeeps.before hevolves).rowToResponse
  rw [hshown] at hresponse
  refine ⟨_, hserved, ?_, ?_⟩
  · rw [(rowToResponse_key hshown).2.2]
    exact hevolves.onward
  · rw [Except.ok.inj hresponse]
    rfl

/-- A client that pages through the campaigns sees each of them once, whatever runs meanwhile. -/
theorem campaigns_listed_once (hpos : 1 ≤ limit) (hmax : limit ≤ 200) (hs : Reachable deps s₀)
    (hbrowsing : Browsing (Sys.Steps deps) (fun s cursor => listCampaigns codec s.shared.db cursor limit) s₀ s shown)
    (hlegible : ∀ campaign ∈ s.shared.db.campaigns, codec.Legible (16 ^ 32) campaign.listKey) :
    CampaignsListed codec limit s₀.shared.db s.shared.db shown := by
  have hserves := @campaigns_serve deps codec limit hpos hmax
  have hreach := hbrowsing.kept hserves hs
  obtain ⟨hstays, reading, hshows⟩ := hserves.browsed hs hbrowsing hlegible
  have hkeys : shown.returned.map (fun response => toLex (response.createdAt, response.id)) =
      reading.returned.map CampaignRow.listKey := by
    refine map_eq_map_of_forall₂ (fun row response hshown => ?_) hshows.returned
    rw [(rowToResponse_key hshown).1, (rowToResponse_key hshown).2.1]
    rfl
  have hids : shown.returned.map CampaignResponse.id = reading.returned.map CampaignRow.id :=
    map_eq_map_of_forall₂ (fun row response hshown => (rowToResponse_key hshown).1) hshows.returned
  refine ⟨?_, ?_, fun hfinished campaign hcampaign => ?_, fun response hresponse => ?_, fun hmore => ?_,
    fun hmore => hshows.bounded hmore⟩
  · have hsorted : (reading.returned.map CampaignRow.listKey).Pairwise fun a b => b < a :=
      List.pairwise_map.mpr hshows.descends.sorted
    rwa [← hkeys, List.pairwise_map] at hsorted
  · rw [hids]
    exact hshows.exact.once
  · rw [hids]
    exact hshows.complete hserves hstays hfinished hcampaign
  · obtain ⟨row, hrow, hshown⟩ := exists_of_forall₂ hshows.returned.flip hresponse
    obtain ⟨row', hrow', hevolves⟩ := hshows.known row hrow
    exact shown_onward hreach hshown hrow' hevolves
  · obtain ⟨result, hresult, -⟩ := hshows.turn hserves hreach hlegible hmore
    exact ⟨result, hresult⟩

end

/-- What the driver does with the times of the first day. -/
def firstDay : Timestamptz where
  decode time := ⟨⟨1970, 1, 1⟩, ⟨Formats.Clock.ofMicros time.toNat, some 0⟩⟩
  encode stamp := some stamp.time.clock.toMicros

theorem firstDay_carries {time : Time} (hpos : 0 ≤ time) (hlt : time < 86400000000) : firstDay.Carries time where
  inRange := by
    have hmicros : time.toNat < 86400000000 := (Int.toNat_lt hpos).mpr hlt
    refine ⟨show (⟨1970, 1, 1⟩ : Formats.Date).InRange by decide, Formats.Clock.inRange_ofMicros hmicros, ?_⟩
    rintro _ ⟨⟩
    decide
  back := by
    show some ((Formats.Clock.ofMicros time.toNat).toMicros : Int) = some time
    rw [Formats.Clock.toMicros_ofMicros, Int.toNat_of_nonneg hpos]

/-- A page is read, the one call is dialed, and the second page is the last. -/
theorem campaigns_listed_once_one_call : ∃ s₀ s shown, Reachable noonDeps s₀ ∧
    Browsing (Sys.Steps noonDeps) (fun s cursor => listCampaigns firstDay s.shared.db cursor 1) s₀ s shown ∧
    shown.pages.length = 2 ∧ shown.finished = true ∧
    s.shared.db.campaigns.any (fun row => row.status = .active) = true ∧
    CampaignsListed firstDay 1 s₀.shared.db s.shared.db shown := by
  obtain ⟨s₀, hs, hp⟩ := Reachable.of_any noonDeps [.post oneCall 0 0 [0]] (fun s₀ =>
    decide (nextCursor CampaignRow.listKey 1 (Keyset.page CampaignRow.listKey s₀.shared.db.campaigns none 1) =
      some (toLex (0, 0))) &&
    (s₀.runBy noonDeps (fun _ _ => true) (.tick :: runs 0 20)).any fun s : Sys =>
      s.shared.db.campaigns.any (fun row => decide (row.status = .active)) &&
      (Keyset.page CampaignRow.listKey s.shared.db.campaigns (some (toLex (0, 0))) 1).isEmpty &&
      s.shared.db.campaigns.all fun row => decide (row.listKey = toLex (0, 0))) (by decide +kernel)
  simp only [Bool.and_eq_true, Option.any_eq_true, decide_eq_true_eq, List.isEmpty_iff] at hp
  obtain ⟨hnext, s, hrun, ⟨hactive, hempty⟩, hkeys⟩ := hp
  have hahead : Continues noonDeps (fun _ _ => True) s₀ s :=
    (Continues.refl.of_runBy hrun).mono fun _ _ _ => trivial
  have hlegible : firstDay.Legible (16 ^ 32) (toLex (0, 0)) := ⟨firstDay_carries (by decide) (by decide), by decide⟩
  obtain ⟨first, hfirst, -⟩ := @listCampaigns_answers noonDeps firstDay 1 s₀ (by decide) (by decide) hs none
    (by rintro _ ⟨⟩)
  obtain ⟨last, hlast, -⟩ := @listCampaigns_answers noonDeps firstDay 1 s (by decide) (by decide)
    (hs.onward hahead).1 (some (toLex (0, 0))) (by rintro _ ⟨⟩; exact hlegible)
  rw [show (1 : Int).toNat = 1 from rfl] at hfirst hlast
  rw [hnext] at hfirst
  rw [hempty] at hlast
  have hbrowsing : Browsing (Sys.Steps noonDeps) (fun s cursor => listCampaigns firstDay s.shared.db cursor 1) s₀ s
      (({} : Reading CampaignResponse String).turn (first, some (campaignCursor firstDay (toLex (0, 0))))) :=
    browsing_continues (.fetch .start rfl hfirst) hahead
  have hdone := Browsing.fetch hbrowsing rfl hlast
  refine ⟨s₀, s, _, hs, hdone, rfl, rfl, hactive, campaigns_listed_once (by decide) (by decide) hs hdone
    fun campaign hcampaign => ?_⟩
  rw [of_decide_eq_true (List.all_eq_true.mp hkeys campaign hcampaign)]
  exact hlegible

/-! ### The calls of a campaign -/

/-- The cursor of a call. -/
def callCursor (codec : Timestamptz) (key : ListCursor) : String :=
  encodeCallCursor (codec.decode (ofLex key).1) (ofLex key).2

/-- Where a client that has been shown `shown` stands in the list. -/
def Timestamptz.position (codec : Timestamptz) (shown : Reading CampaignCallResponse String) :
    Reading CallRow ListCursor where
  cursor := shown.cursor.bind fun text => (decodeCallCursor text).bind codec.bindUuid
  finished := shown.finished

section

variable (deps : Deps) (codec : Timestamptz) (campaignId : CampaignId) (limit : Int)

/-- A client pages through the calls of a campaign: steps of the system, each of which is `allowed`, and fetches
that find times which a cursor can hold. Whether the campaign exists has been read from `before`. -/
inductive CallsBrowsing (allowed : Sys → Reading CampaignCallResponse String → Action → Prop) (s₀ : Sys) :
    Sys → Reading CampaignCallResponse String → Prop
  | start : CallsBrowsing allowed s₀ s₀ {}
  | step {s s' : Sys} {shown : Reading CampaignCallResponse String} (action : Action)
      (h : CallsBrowsing allowed s₀ s shown) (hallowed : allowed s shown action)
      (hstep : s.step deps action = some s') : CallsBrowsing allowed s₀ s' shown
  | fetch {s : Sys} {before : Db} {shown : Reading CampaignCallResponse String}
      {result : List CampaignCallResponse × Option String} (h : CallsBrowsing allowed s₀ s shown)
      (hmore : shown.finished = false)
      (hlegible : ∀ call ∈ s.shared.db.callsOf campaignId, codec.Legible (16 ^ 32) call.listKey)
      (hfetch : listCampaignCalls codec before s.shared.db campaignId shown.cursor limit = .ok result) :
      CallsBrowsing allowed s₀ s (shown.turn result)

/-- What has been shown, and the reading behind it, whose rows were those of the campaign when they were read. -/
structure ShowsCalls (s : Sys) (reading : Reading CallRow ListCursor) (shown : Reading CampaignCallResponse String) :
    Prop where
  returned : shown.returned = reading.returned.map CallRow.campaignCallResponse
  cursor : shown.cursor = reading.cursor.map (callCursor codec)
  finished : shown.finished = reading.finished
  legible : ∀ bound ∈ reading.cursor, codec.Legible (16 ^ 32) bound
  known : ∀ row ∈ reading.returned, ∃ call ∈ s.shared.db.callsOf campaignId, row.Evolves call

end

section

variable {deps : Deps} {codec : Timestamptz} {campaignId : CampaignId} {limit : Int} {s s' s₀ : Sys}
  {reading : Reading CallRow ListCursor} {shown : Reading CampaignCallResponse String}
  {allowed : Sys → Reading CampaignCallResponse String → Action → Prop}

theorem listForCampaign_answers (hpos : 1 ≤ limit) (db : Db) (cursor : Option ListCursor) :
    listForCampaign db campaignId cursor limit =
      .ok (Keyset.answer CallRow.listKey (db.callsOf campaignId) limit.toNat cursor) := if_neg (by omega)

/-- The page of an existing campaign, as the endpoint answers it. -/
theorem listCampaignCalls_answers (hpos : 1 ≤ limit) (hmax : limit ≤ 200) {db later : Db} {campaign : CampaignRow}
    (hfound : db.campaign? campaignId = some campaign) {cursor : Option ListCursor}
    (hcursor : ∀ bound ∈ cursor, codec.Legible (16 ^ 32) bound) :
    listCampaignCalls codec db later campaignId (cursor.map (callCursor codec)) limit =
      .ok ((Keyset.page CallRow.listKey (later.callsOf campaignId) cursor limit.toNat).map CallRow.campaignCallResponse,
        (nextCursor CallRow.listKey limit.toNat
          (Keyset.page CallRow.listKey (later.callsOf campaignId) cursor limit.toNat)).map (callCursor codec)) := by
  have hpage := @pagedText_answers CallRow ListCursor
    (fun text => (decodeCallCursor text).bind codec.bindUuid) (callCursor codec)
    (fun bound => listForCampaign later campaignId bound limit) cursor _ _
    (fun bound hbound => (hcursor bound hbound).call) (listForCampaign_answers hpos later cursor)
  rw [listCampaignCalls, if_neg (by omega), hfound]
  show (pagedText _ (callCursor codec) _ (cursor.map (callCursor codec)) >>= _) = _
  rw [hpage]
  rfl

/-- The position of a client is where its reading stands. -/
theorem ShowsCalls.position (h : ShowsCalls codec campaignId s reading shown) :
    (codec.position shown).cursor = reading.cursor ∧ (codec.position shown).finished = reading.finished := by
  refine ⟨?_, h.finished⟩
  show shown.cursor.bind _ = reading.cursor
  rw [h.cursor]
  cases hcursor : reading.cursor with
  | none => rfl
  | some bound =>
      have hread := (h.legible bound hcursor).call
      rw [Option.map_some, Option.bind_some, callCursor]
      exact hread

theorem CallsBrowsing.reachable (h : CallsBrowsing deps codec campaignId limit allowed s₀ s shown)
    (hs : Reachable deps s₀) : Reachable deps s := by
  induction h with
  | start => exact hs
  | step action _ _ hstep ih => exact .step action ih trivial hstep
  | fetch _ _ _ _ ih => exact ih

/-- Whatever a client is shown is a walk over the list. -/
theorem CallsBrowsing.listing (h : CallsBrowsing deps codec campaignId limit allowed s₀ s shown)
    (hs : Reachable deps s₀) (hpos : 1 ≤ limit) (hmax : limit ≤ 200) :
    ∃ reading, ShowsCalls codec campaignId s reading shown ∧
      Listing deps campaignId limit (fun s reading action => ∃ shown, ShowsCalls codec campaignId s reading shown ∧
        allowed s shown action) s₀ s reading := by
  induction h with
  | start => exact ⟨{}, ⟨rfl, rfl, rfl, by rintro _ ⟨⟩, List.forall_mem_nil _⟩, .start⟩
  | step action hbefore hallowed hstep ih =>
      obtain ⟨reading, hshows, hlisting⟩ := ih
      refine ⟨reading, ⟨hshows.returned, hshows.cursor, hshows.finished, hshows.legible, fun row hrow => ?_⟩,
        .step action hlisting ⟨_, hshows, hallowed⟩ hstep⟩
      obtain ⟨call, hcall, hevolves⟩ := hshows.known row hrow
      have hreach := hbefore.reachable hs
      obtain ⟨hmem, howner⟩ := mem_callsOf.mp hcall
      obtain ⟨call', hcall', hevolves'⟩ := (hreach.grows hstep).call _ _ (hreach.consistent.call?_of_mem hmem)
      exact ⟨call', mem_callsOf.mpr ⟨(lookup_some hcall').1, hevolves'.campaignId.trans howner⟩,
        hevolves.trans hevolves'⟩
  | @fetch s before shown result hbefore hmore hlegible hfetch ih =>
      obtain ⟨reading, hshows, hlisting⟩ := ih
      have hunfinished : reading.finished = false := hshows.finished ▸ hmore
      cases hfound : before.campaign? campaignId with
      | none =>
          rw [listCampaignCalls, if_neg (by omega), hfound] at hfetch
          cases hfetch
      | some campaign =>
          have hpage := @listCampaignCalls_answers codec campaignId limit hpos hmax _ s.shared.db campaign hfound
            reading.cursor hshows.legible
          rw [← hshows.cursor, hfetch] at hpage
          obtain rfl := Except.ok.inj hpage
          refine ⟨reading.turn (Keyset.answer CallRow.listKey (s.shared.db.callsOf campaignId) limit.toNat
              reading.cursor), ⟨?_, rfl, ?_, fun bound hbound => ?_, fun row hrow => ?_⟩,
            .fetch hlisting hunfinished (listForCampaign_answers hpos _ _)⟩
          · rw [Reading.returned_turn, Reading.returned_turn, List.map_append, hshows.returned]
            rfl
          · show Option.isNone (Option.map _ _) = Option.isNone _
            rw [Option.isNone_map]
            rfl
          · obtain ⟨-, last, hlast, rfl⟩ := nextCursor_some hbound
            exact hlegible last (beyond_of_mem_page (List.mem_of_getLast? hlast)).1
          · rw [Reading.returned_turn] at hrow
            rcases List.mem_append.mp hrow with hold | hnew
            · exact hshows.known row hold
            · exact ⟨row, (beyond_of_mem_page hnew).1, .refl row⟩

end

/-- What a client has seen of the calls, which were those of `db₀` when it began and are those of `db`. -/
structure CallsListed (codec : Timestamptz) (campaignId : CampaignId) (limit : Int) (db₀ db : Db)
    (shown : Reading CampaignCallResponse String) : Prop where
  onward : ∀ response ∈ shown.returned, ∃ next, getCall db response.id = .ok next ∧ next.campaignId = campaignId ∧
    next.phone = response.phone ∧ response.status.external.Onward next.status
  answered : (∃ campaign, db₀.campaign? campaignId = some campaign) → shown.finished = false →
    ∀ before, before = db₀ ∨ before = db →
      ∃ result, listCampaignCalls codec before db campaignId shown.cursor limit = .ok result
  distinct : (shown.returned.map CampaignCallResponse.id).Nodup
  complete : shown.finished = true → ∀ call ∈ db₀.callsOf campaignId,
    call.id ∈ shown.returned.map CampaignCallResponse.id

section

variable {deps : Deps} {codec : Timestamptz} {campaignId : CampaignId} {limit : Int} {s s' s₀ : Sys}
  {reading : Reading CallRow ListCursor} {shown : Reading CampaignCallResponse String}

theorem Listing.mono {allowed allowed' : Sys → Reading CallRow ListCursor → Action → Prop}
    (h : Listing deps campaignId limit allowed s₀ s reading)
    (hallowed : ∀ s reading action, allowed s reading action → allowed' s reading action) :
    Listing deps campaignId limit allowed' s₀ s reading := by
  induction h with
  | start => exact .start
  | step action _ hmeets hstep ih => exact .step action ih (hallowed _ _ _ hmeets) hstep
  | fetch _ hmore hfetch ih => exact .fetch ih hmore hfetch

/-- Where the client stands is what a commit has to respect. -/
theorem ShowsCalls.respected (h : ShowsCalls codec campaignId s reading shown) {action : Action}
    (hrespected : CursorRespected campaignId s (codec.position shown) action) :
    CursorRespected campaignId s reading action := by
  intro hmore rewrite hrewrite howner
  have hsame := hrespected (h.position.2.trans hmore) rewrite hrewrite howner
  rwa [h.position.1] at hsame

end

theorem CallsBrowsing.continues {deps : Deps} {codec : Timestamptz} {campaignId : CampaignId} {limit : Int}
    {allowed : Sys → Reading CampaignCallResponse String → Action → Prop} {s₀ s s' : Sys}
    {shown : Reading CampaignCallResponse String}
    (h : CallsBrowsing deps codec campaignId limit allowed s₀ s shown)
    (hahead : Continues deps (fun s action => allowed s shown action) s s') :
    CallsBrowsing deps codec campaignId limit allowed s₀ s' shown := by
  induction hahead with
  | refl => exact h
  | step action _ hallowed hstep ih => exact .step action ih hallowed hstep

/-- The rows that `GET /audit` is asked for: those that the campaign, the call, the named event types and the
times select, whose reason holds the text, letters compared without case, and whose phone holds the digits. -/
structure AuditParams.Selects (text : Text) (params : AuditParams) (row : AuditRecord) : Prop where
  campaignId : ∀ id ∈ params.campaignId, row.campaignId = some id
  callId : ∀ id ∈ params.callId, row.callId = some id
  eventType : ∀ names ∈ params.eventType, eventItems names ≠ [] → row.eventType ∈ eventItems names
  fromTs : ∀ time ∈ params.fromTs, time ≤ row.ts
  toTs : ∀ time ∈ params.toTs, row.ts ≤ time
  reason : ∀ reason ∈ params.reasonContains,
    reason.toList.map text.lower <:+: row.reason.toList.map text.lower
  phone : ∀ raw ∈ params.phone, phoneFilterMinDigits ≤ (digitsOf text raw).length →
    ∃ phone ∈ row.phone, digitsOf text raw <:+: phone.toList

section

variable {text : Text} {params : AuditParams} {row : AuditRecord}

theorem eventFilter_selects : (eventFilter params.eventType).all (EventTypeFilter.selects row.eventType) = true ↔
    ∀ names ∈ params.eventType, eventItems names ≠ [] → row.eventType ∈ eventItems names := by
  cases hnames : params.eventType with
  | none => simp [eventFilter]
  | some names =>
      rw [eventFilter]
      cases hitems : eventItems names with
      | nil => simp [hitems]
      | cons first rest =>
          cases rest with
          | nil => simp [hitems, EventTypeFilter.selects]
          | cons second rest => simp [hitems, EventTypeFilter.selects]

/-- Digits alone stay as they are. -/
theorem digitsOf_digitsOf (raw : String) : digitsOf text (String.ofList (digitsOf text raw)) = digitsOf text raw := by
  rw [digitsOf, String.toList_ofList, digitsOf, List.filter_filter]
  simp

theorem reason_selects (reasonContains : Option String) (subject : List Char) :
    ((reasonContains.filter (· ≠ "")).map fun reason => containsTokens (reason.toList.map text.lower)).all
      (fun tokens => likeMatches tokens subject) = true ↔
        ∀ reason ∈ reasonContains, reason.toList.map text.lower <:+: subject := by
  cases reasonContains with
  | none => simp
  | some reason =>
      by_cases hempty : reason = ""
      · subst hempty
        simp [Option.filter]
      · simp only [Option.filter, decide_eq_true_eq, ne_eq, hempty, not_false_iff, if_true, Option.map_some,
          Option.all_some, containsTokens, likeMatches_contains, Option.mem_def, Option.some.injEq, forall_eq']

theorem phone_selects (raw found : Option String) :
    (((normalizePhoneQuery text raw).filter fun phone =>
      phone ≠ "" ∧ phoneFilterMinDigits ≤ (digitsOf text phone).length).map
        fun phone => containsTokens (digitsOf text phone)).all
      (fun tokens => found.any fun phone => likeMatches tokens phone.toList) = true ↔
        ∀ typed ∈ raw, phoneFilterMinDigits ≤ (digitsOf text typed).length →
          ∃ phone ∈ found, digitsOf text typed <:+: phone.toList := by
  cases raw with
  | none => simp [normalizePhoneQuery]
  | some raw =>
      by_cases hshort : (digitsOf text raw).length < phoneFilterMinDigits
      · have hnot : ¬ phoneFilterMinDigits ≤ (digitsOf text raw).length := Nat.not_le_of_gt hshort
        simp [normalizePhoneQuery, hshort, hnot]
      · have hlong : phoneFilterMinDigits ≤ (digitsOf text raw).length := Nat.le_of_not_lt hshort
        have hne : String.ofList (digitsOf text raw) ≠ "" := fun hempty => by
          have hnil := congrArg (fun digits => (digitsOf text digits).length) hempty
          rw [digitsOf_digitsOf] at hnil
          rw [hnil] at hlong
          exact absurd hlong (show ¬ 3 ≤ 0 by decide)
        have hdigits : normalizePhoneQuery text (some raw) = some (String.ofList (digitsOf text raw)) := if_neg hshort
        rw [hdigits, Option.filter_some, if_pos (decide_eq_true ⟨hne, by rwa [digitsOf_digitsOf]⟩), Option.map_some,
          Option.all_some, digitsOf_digitsOf, Option.any_eq_true]
        simp only [containsTokens, likeMatches_contains, Option.mem_def, Option.some.injEq, forall_eq', hlong,
          true_imp_iff]

theorem all_iff {α : Type} {p : α → Bool} {P : α → Prop} (hp : ∀ a, p a = true ↔ P a) (o : Option α) :
    o.all p = true ↔ ∀ a ∈ o, P a := by
  cases o with
  | none => simp
  | some a => simp [hp]

theorem matching_iff : (params.query text).matching text row = true ↔ params.Selects text row := by
  simp only [AuditQuery.matching, AuditQuery.selects, AuditParams.query, Bool.and_eq_true, reason_selects,
    phone_selects, eventFilter_selects]
  rw [all_iff fun id => decide_eq_true_iff, all_iff fun id => decide_eq_true_iff,
    all_iff fun time => decide_eq_true_iff, all_iff fun time => decide_eq_true_iff]
  constructor
  · rintro ⟨⟨⟨⟨⟨⟨hcampaign, hcall⟩, hevent⟩, hfrom⟩, hto⟩, hreason⟩, hphone⟩
    exact ⟨hcampaign, hcall, hevent, hfrom, hto, hreason, hphone⟩
  · rintro ⟨hcampaign, hcall, hevent, hfrom, hto, hreason, hphone⟩
    exact ⟨⟨⟨⟨⟨⟨hcampaign, hcall⟩, hevent⟩, hfrom⟩, hto⟩, hreason⟩, hphone⟩

end

/-- The rows of the log that the parameters select. -/
def auditTable (text : Text) (params : AuditParams) : Table Sys AuditRecord AuditCursor Nat where
  rows s := (s.shared.db.audit.map AuditRow.record).filter ((params.query text).matching text)
  key := AuditRecord.key
  ident := AuditRecord.id
  evolves := Eq

/-- The cursor of an audit row. -/
def auditCursor (codec : Timestamptz) (key : AuditCursor) : String :=
  encodeCursor (codec.decode (ofLex key).1) (ofLex key).2

section

variable {deps : Deps} {text : Text} {codec : Timestamptz} {params : AuditParams} {s s₀ : Sys}
  {shown : Reading AuditRecord String}

theorem listAudit_answers (hpos : 1 ≤ params.limit) (hmax : params.limit ≤ 500) (audit : List AuditRecord)
    {cursor : Option AuditCursor} (hcursor : ∀ bound ∈ cursor, codec.Legible (2 ^ 63) bound) :
    listAudit text codec audit params (cursor.map (auditCursor codec)) =
      .ok (Keyset.page AuditRecord.key (audit.filter ((params.query text).matching text)) cursor params.limit.toNat,
        (nextCursor AuditRecord.key params.limit.toNat (Keyset.page AuditRecord.key
          (audit.filter ((params.query text).matching text)) cursor params.limit.toNat)).map (auditCursor codec)) := by
  have hpage := @pagedText_answers AuditRecord AuditCursor
    (fun text => (decodeCursor text).bind codec.bindInt) (auditCursor codec)
    (fun bound => queryAudit text audit { params.query text with cursor := bound }) cursor _ _
    (fun bound hbound => (hcursor bound hbound).audit)
    (@AuditQuery.answers text (params.query text) _ rfl hpos hmax audit cursor)
  rw [listAudit, if_neg (by omega)]
  exact hpage

theorem audit_nodup (hs : Reachable deps s) : ((s.shared.db.audit.map AuditRow.record).map AuditRecord.id).Nodup := by
  rw [List.map_map]
  exact hs.auditIds

theorem audit_serves (hpos : 1 ≤ params.limit) (hmax : params.limit ≤ 500) :
    Serves (auditTable text params) (Reachable deps) (Sys.Steps deps) params.limit.toNat (codec.Legible (2 ^ 63))
      Eq (auditCursor codec)
      (fun s cursor => listAudit text codec (s.shared.db.audit.map AuditRow.record) params cursor) where
  limit_pos := by omega
  refl _ := rfl
  trans := Eq.trans
  keeps h := by rw [h]; exact ⟨rfl, rfl⟩
  preserves hs hstep := hstep.elim fun action hstep => .step action hs trivial hstep
  idents hs := Distinct.filter (audit_nodup hs) _
  distinct hs := distinct_of_idents (fun _ => rfl) (Distinct.filter (audit_nodup hs) _)
  stays {s s'} hs hstep row hrow := by
    obtain ⟨action, hstep⟩ := hstep
    obtain ⟨hmem, hselected⟩ := List.mem_filter.mp hrow
    obtain ⟨entry, hentry, rfl⟩ := List.mem_map.mp hmem
    have hkept := (hs.grows hstep).audit.subset hentry
    exact ⟨_, List.mem_filter.mpr ⟨List.mem_map_of_mem hkept, hselected⟩, rfl⟩
  answers _ _ hcursor := ⟨_, listAudit_answers hpos hmax _ hcursor, List.forall₂_same.mpr fun _ _ => rfl⟩

end

/-- What a client has seen of the log, which was `audit₀` when it began and is `audit`. -/
structure AuditListed (text : Text) (codec : Timestamptz) (params : AuditParams) (audit₀ audit : List AuditRow)
    (shown : Reading AuditRecord String) : Prop where
  descending : shown.returned.Pairwise fun a b => toLex (b.ts, b.id) < toLex (a.ts, a.id)
  once : (shown.returned.map AuditRecord.id).Nodup
  selected : ∀ record ∈ shown.returned, params.Selects text record ∧ ∃ row ∈ audit, row.record = record
  complete : shown.finished = true → ∀ row ∈ audit₀, params.Selects text row.record → row.record ∈ shown.returned
  answered : shown.finished = false →
    ∃ result, listAudit text codec (audit.map AuditRow.record) params shown.cursor = .ok result
  bounded : shown.finished = false → shown.pages.length * params.limit.toNat ≤ audit.length

section

variable {deps : Deps} {text : Text} {codec : Timestamptz} {params : AuditParams} {s s₀ : Sys}
  {shown : Reading AuditRecord String}

/-- The rows of two event types. -/
def claimsAndDials : AuditParams where
  campaignId := some 0
  eventType := some "DISPATCH, CLAIMED"
  limit := 2

end

end VoiceCampaign

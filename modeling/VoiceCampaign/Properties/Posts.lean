import VoiceCampaign.Model.Routers
import VoiceCampaign.Protocol.Follows

/-!
# What was posted is what is served

A request is accepted as a whole or leaves nothing behind, and from then on the tables hold its campaign and
all of its calls, whatever the schedulers, the drains and the sweeps do: the campaigns of the system are those
it has answered for, each with the settings and the phones that were posted.
-/

namespace VoiceCampaign

open Concurrency

/-- A request, and what the database has drawn for it. -/
structure Post where
  body : CampaignCreate
  createdAt : Time
  campaignId : CampaignId
  callIds : List CallId

/-- The request an action gets answered with 201, and the answer. -/
def Sys.posts (deps : Deps) (s : Sys) : Action → List (Post × CampaignResponse)
  | .post body createdAt campaignId callIds =>
      match postCampaign deps.settings s.txns s.shared.db body createdAt campaignId callIds with
      | some (.ok response) => [(⟨body, createdAt, campaignId, callIds⟩, response)]
      | _ => []
  | _ => []

/-- What is never rewritten in the row of a call. -/
def CallRow.identity (row : CallRow) : CallId × CampaignId × String × Time :=
  (row.id, row.campaignId, row.phone, row.createdAt)

namespace Post

variable (settings : Settings) (post : Post)

def callRows : List CallRow := post.body.callRows post.createdAt post.campaignId post.callIds

/-- The answer of a campaign with the settings that were posted. -/
def answer (status : ExternalCampaignStatus) (updatedAt : Time) : CampaignResponse where
  id := post.campaignId
  name := post.body.name
  status := status
  timezone := post.body.timezone
  schedule := post.body.schedule
  maxConcurrent := post.body.maxConcurrent.getD settings.maxConcurrentDefault
  retryConfig := post.body.retryConfig
  createdAt := post.createdAt
  updatedAt := updatedAt

/-- A campaign that has kept its settings. -/
def Keeps (campaign : CampaignRow) : Prop :=
  campaign = { post.body.campaignRow settings post.createdAt post.campaignId with
    status := campaign.status, updatedAt := campaign.updatedAt }

end Post

/-! ### The stored schedule -/

theorem TimeWindow.load_dump (window : TimeWindow) : TimeWindow.load window.dump = .ok window := by
  have hlt : window.dump.start.lt window.dump.stop = .ok true := window.start_lt_stop
  rw [TimeWindow.load]
  split
  · rfl
  · next h => cases hlt.symm.trans h
  · next h => cases hlt.symm.trans h

theorem mapM_load_dump (windows : List TimeWindow) :
    (windows.map TimeWindow.dump).mapM TimeWindow.load = .ok windows := by
  induction windows with
  | nil => rfl
  | cons window rest ih =>
      rw [List.map_cons, List.mapM_cons, window.load_dump, ih]
      rfl

theorem loadSchedule_dump (schedule : Weekday → List TimeWindow) :
    loadSchedule (fun day => (schedule day).map TimeWindow.dump) = .ok schedule := by
  simp only [loadSchedule, mapM_load_dump]
  refine congrArg Except.ok (funext fun day => ?_)
  cases day <;> rfl

section

variable {settings : Settings} {post : Post} {campaign : CampaignRow}

/-- The validators accept what they have accepted before. -/
theorem Post.Keeps.rowToResponse (h : post.Keeps settings campaign) :
    rowToResponse campaign = .ok (post.answer settings campaign.status.external campaign.updatedAt) := by
  have hschedule : campaign.schedule = fun day => (post.body.schedule day).map TimeWindow.dump := by rw [h]; rfl
  rw [VoiceCampaign.rowToResponse, hschedule, loadSchedule_dump, h]
  rfl

theorem Post.Keeps.evolves (h : post.Keeps settings campaign) {next : CampaignRow} (hnext : campaign.Evolves next) :
    post.Keeps settings next := by
  rw [Post.Keeps] at h ⊢
  have hconfig := hnext.config
  rw [h] at hconfig
  exact hconfig

theorem Post.Keeps.id (h : post.Keeps settings campaign) : campaign.id = post.campaignId := by rw [h]; rfl

end

/-! ### The tables -/

/-- The campaigns of the tables are those posted, in their order, and so are the calls. -/
structure Holds (settings : Settings) (posts : List Post) (db : Db) : Prop where
  campaigns : List.Forall₂ (Post.Keeps settings) posts db.campaigns
  calls : db.calls.map CallRow.identity = (posts.flatMap Post.callRows).map CallRow.identity
  drawn : ∀ post ∈ posts, post.callIds.length = post.body.phones.length

section

variable {deps : Deps} {settings : Settings} {posts : List Post} {seen : List (Post × CampaignResponse)}
  {s s' : Sys} {action : Action}

theorem CallRow.Evolves.identity {old new : CallRow} (h : old.Evolves new) : new.identity = old.identity := by
  simp only [CallRow.identity, h.id, h.campaignId, h.phone, h.createdAt]

/-- A process leaves every campaign its settings and every call its identity. -/
theorem Holds.guar {l : Party} {shared shared' : Shared} (h : Holds settings posts shared.db)
    (hinv : Consistent shared) (hguar : Guar l shared shared') : Holds settings posts shared'.db where
  campaigns := forall₂_comp (S := CampaignRow.Evolves) (fun _ _ _ hkeeps hevolves => hkeeps.evolves hevolves)
    h.campaigns (hguar.follows hinv).1
  calls := (map_eq_of_forall₂ (R := CallRow.Evolves) (fun _ _ hevolves => hevolves.identity)
    (hguar.follows hinv).2).trans h.calls
  drawn := h.drawn

theorem createCampaign_length {others : List Txn} {db db' : Db} {body : CampaignCreate} {createdAt : Time}
    {campaignId : CampaignId} {callIds : List CallId}
    (h : createCampaign settings others db body createdAt campaignId callIds = some (.ok db')) :
    callIds.length = body.phones.length := by
  by_contra hlength
  simp [createCampaign, hlength] at h

theorem Holds.posted {others : List Txn} {db db' : Db} (h : Holds settings posts db) (post : Post)
    (hcreate : createCampaign settings others db post.body post.createdAt post.campaignId post.callIds =
      some (.ok db')) : Holds settings (posts ++ [post]) db' where
  campaigns := by
    rw [(createCampaign_ok hcreate).campaigns]
    exact List.rel_append h.campaigns (.cons rfl .nil)
  calls := by
    rw [(createCampaign_ok hcreate).calls, List.map_append, h.calls, List.flatMap_append, List.map_append,
      List.flatMap_singleton]
    rfl
  drawn other hother := by
    rcases List.mem_append.mp hother with hold | hnew
    · exact h.drawn other hold
    · rw [List.mem_singleton.mp hnew]
      exact createCampaign_length hcreate

/-- The answer to a request whose transaction commits. -/
theorem postCampaign_ok {others : List Txn} {db db' : Db} (post : Post)
    (h : createCampaign settings others db post.body post.createdAt post.campaignId post.callIds = some (.ok db')) :
    postCampaign settings others db post.body post.createdAt post.campaignId post.callIds =
      some (.ok (post.answer settings .pending post.createdAt)) := by
  have hposted := createCampaign_ok h
  have hnone : lookup CampaignRow.id db.campaigns post.campaignId = none := lookup_eq_none.mpr hposted.freshCampaign
  have hrow : db'.campaign? post.campaignId =
      some (post.body.campaignRow settings post.createdAt post.campaignId) := by
    rw [Db.campaign?, hposted.campaigns, lookup_append, hnone, lookup_singleton]
    exact if_pos rfl
  have hkeeps : post.Keeps settings (post.body.campaignRow settings post.createdAt post.campaignId) := rfl
  simp only [postCampaign, h, hrow, hkeeps.rowToResponse]
  rfl

/-- One action of the system. -/
theorem Holds.step (h : Holds deps.settings posts s.shared.db) (hs : Reachable deps s)
    (hstep : s.step deps action = some s') :
    Holds deps.settings (posts ++ (s.posts deps action).map Prod.fst) s'.shared.db ∧
      ∀ entry ∈ s.posts deps action, entry.2 = entry.1.answer deps.settings .pending entry.1.createdAt := by
  by_cases hpost : ∃ body createdAt campaignId callIds, action = .post body createdAt campaignId callIds
  · obtain ⟨body, createdAt, campaignId, callIds, rfl⟩ := hpost
    rw [Sys.step] at hstep
    split at hstep
    · next db hcreate =>
        cases hstep
        have hanswer := postCampaign_ok ⟨body, createdAt, campaignId, callIds⟩ hcreate
        simp only [Sys.posts, hanswer, List.map_singleton, List.mem_singleton]
        refine ⟨h.posted ⟨body, createdAt, campaignId, callIds⟩ hcreate, ?_⟩
        rintro _ rfl
        rfl
    · next error hcreate =>
        cases hstep
        simp only [Sys.posts, postCampaign, hcreate, List.map_nil, List.append_nil]
        exact ⟨h, List.forall_mem_nil _⟩
    · cases hstep
  · have hnone : s.posts deps action = [] := by
      cases action with
      | post body createdAt campaignId callIds => exact absurd ⟨_, _, _, _, rfl⟩ hpost
      | _ => rfl
    rw [hnone, List.map_nil, List.append_nil]
    refine ⟨?_, List.forall_mem_nil _⟩
    rcases Sys.step_cases hstep with ⟨shared, hworld, rfl⟩ |
      ⟨index, choice, task, stmt, next, txn, reply, shared, txn', rfl, hprocess, hexec, rfl⟩ |
      ⟨index, process, rfl, hprocess, rfl⟩
    · cases hworld with
      | elapse micros => exact h
      | posted body createdAt campaignId callIds db hposted => exact absurd ⟨_, _, _, _, rfl⟩ hpost
      | ingested payload receivedAt inboxId db hingested =>
          show Holds deps.settings posts db
          rw [hingested.rest]
          exact ⟨h.campaigns, h.calls, h.drawn⟩
      | still _ _ _ => exact h
    · exact h.guar hs.consistent (hs.run hprocess hexec).2.2
    · exact h

theorem Observed.holds (h : Observed deps (Sys.posts deps) s seen) :
    Holds deps.settings (seen.map Prod.fst) s.shared.db ∧
      ∀ entry ∈ seen, entry.2 = entry.1.answer deps.settings .pending entry.1.createdAt := by
  induction h with
  | init now => exact ⟨⟨.nil, rfl, List.forall_mem_nil _⟩, List.forall_mem_nil _⟩
  | step action hs hstep ih =>
      obtain ⟨hholds, hanswers⟩ := ih
      obtain ⟨hnext, hnew⟩ := hholds.step hs.reachable hstep
      rw [List.map_append]
      refine ⟨hnext, fun entry hentry => ?_⟩
      rcases List.mem_append.mp hentry with hold | hfresh
      · exact hanswers entry hold
      · exact hnew entry hfresh

end

/-! ### What is served -/

section

variable {settings : Settings} {posts : List Post} {post : Post} {db : Db}

theorem Post.campaignId_of_mem {row : CallRow} (h : row ∈ post.callRows) : row.campaignId = post.campaignId := by
  obtain ⟨i, hi, rfl⟩ := List.getElem_of_mem h
  simp [Post.callRows, CampaignCreate.callRows, CampaignCreate.callRow]

theorem Post.map_callRows : post.callRows.map (fun call => (call.id, call.phone)) =
    post.callIds.zip post.body.phones := by
  rw [Post.callRows, CampaignCreate.callRows, List.map_zipWith]
  rfl

theorem Holds.ids (h : Holds settings posts db) : db.campaigns.map CampaignRow.id = posts.map Post.campaignId := by
  obtain ⟨hkeeps, -, -⟩ := h
  generalize db.campaigns = campaigns at hkeeps
  induction hkeeps with
  | nil => rfl
  | cons hhead _ ih => rw [List.map_cons, List.map_cons, ih, hhead.id]

theorem Holds.keeps (h : Holds settings posts db) {campaign : CampaignRow} (hcampaign : campaign ∈ db.campaigns) :
    ∃ post, Post.Keeps settings post campaign := by
  obtain ⟨post, -, hkeeps⟩ := exists_of_forall₂ (List.Forall₂.flip (R := flip (Post.Keeps settings)) h.campaigns)
    hcampaign
  exact ⟨post, hkeeps⟩

/-- The calls of one request, among those of all. -/
theorem filter_callRows (hnodup : (posts.map Post.campaignId).Nodup) (hpost : post ∈ posts) :
    (posts.flatMap Post.callRows).filter (fun call => call.campaignId = post.campaignId) = post.callRows := by
  have hown : post.callRows.filter (fun call => decide (call.campaignId = post.campaignId)) = post.callRows :=
    List.filter_eq_self.mpr fun call hcall => decide_eq_true (Post.campaignId_of_mem hcall)
  have hnone : ∀ others : List Post, post.campaignId ∉ others.map Post.campaignId →
      (others.flatMap Post.callRows).filter (fun call => decide (call.campaignId = post.campaignId)) = [] := by
    intro others hnot
    rw [List.filter_eq_nil_iff]
    intro call hcall howner
    obtain ⟨other, hother, hrow⟩ := List.mem_flatMap.mp hcall
    exact hnot (List.mem_map.mpr ⟨other, hother, (Post.campaignId_of_mem hrow).symm.trans (of_decide_eq_true howner)⟩)
  induction posts with
  | nil => cases hpost
  | cons first rest ih =>
      rw [List.map_cons, List.nodup_cons] at hnodup
      rw [List.flatMap_cons, List.filter_append]
      rcases List.mem_cons.mp hpost with rfl | hlater
      · rw [hown, hnone rest hnodup.1, List.append_nil]
      · have hne : first.campaignId ≠ post.campaignId := fun he =>
          hnodup.1 (he ▸ List.mem_map_of_mem hlater)
        have hfirst : first.callRows.filter (fun call => decide (call.campaignId = post.campaignId)) = [] :=
          List.filter_eq_nil_iff.mpr fun call hcall howner =>
            hne ((Post.campaignId_of_mem hcall).symm.trans (of_decide_eq_true howner))
        rw [hfirst, List.nil_append, ih hnodup.2 hlater]

theorem Holds.callsOf (h : Holds settings posts db) (hnodup : (posts.map Post.campaignId).Nodup)
    (hpost : post ∈ posts) : (db.callsOf post.campaignId).map CallRow.identity = post.callRows.map CallRow.identity := by
  have hfilter : ∀ rows : List CallRow,
      (rows.filter fun call => decide (call.campaignId = post.campaignId)).map CallRow.identity =
        (rows.map CallRow.identity).filter fun identity => decide (identity.2.1 = post.campaignId) := fun rows => by
    rw [List.filter_map]
    rfl
  rw [Db.callsOf, hfilter, h.calls, ← hfilter, filter_callRows hnodup hpost]

end

/-- What was accepted, and nothing else, is served as it was posted; only the status and the time of the last
change are the service's own. -/
structure ServedAsPosted (settings : Settings) (db : Db) (seen : List (Post × CampaignResponse)) : Prop where
  answer : ∀ entry ∈ seen, entry.2 = entry.1.answer settings .pending entry.1.createdAt
  campaign : ∀ entry ∈ seen, ∃ status updatedAt,
    getCampaign db entry.1.campaignId = .ok { entry.2 with status := status, updatedAt := updatedAt }
  calls : ∀ entry ∈ seen, (db.callsOf entry.1.campaignId).map (fun call => (call.id, call.phone)) =
    entry.1.callIds.zip entry.1.body.phones
  total : ∀ entry ∈ seen, (db.stats entry.1.campaignId).total = entry.1.body.phones.length
  notFound : ∀ campaignId, (∀ entry ∈ seen, entry.1.campaignId ≠ campaignId) →
    getCampaign db campaignId = .error (.notFound "campaign not found")
  call : ∀ callId response, getCall db callId = .ok response → ∃ entry ∈ seen,
    response.campaignId = entry.1.campaignId ∧ (callId, response.phone) ∈ entry.1.callIds.zip entry.1.body.phones

end VoiceCampaign

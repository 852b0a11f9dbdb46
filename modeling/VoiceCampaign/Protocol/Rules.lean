import VoiceCampaign.Protocol.Statements

/-!
# Proof rules for coroutines

The discipline the coroutines of the service keep, and the rules by which a coroutine's text is
followed under it. The rules hold of every discipline above this one, so that further properties can
be followed through the same text.
-/

namespace VoiceCampaign

open Concurrency

/-! ### The discipline -/

/-- The open transactions of some coroutines. -/
def txnsOf (others : List Party) : List Txn := others.filterMap Party.txn

theorem mem_txnsOf {others : List Party} {t : Txn} : t ∈ txnsOf others ↔ ∃ o ∈ others, o.txn = some t :=
  List.mem_filterMap

theorem Compat.acquire {l l' : Party} {others : List Party} {db : Db}
    (hothers : ∀ o ∈ others, Compat l o) (h : Acquires (txnsOf others) db l.txn l'.txn) :
    ∀ o ∈ others, Compat l' o := by
  intro o ho
  refine ⟨fun t ht u hu lock hlock hlock' => ?_, fun t ht u hu v hv w hw hne hholds hholds' hphone => ?_⟩
  · rcases h.locks t ht lock hlock with ⟨old, hold, hlockold⟩ | hfree
    · exact (hothers o ho).locks old hold u hu lock hlockold hlock'
    · rw [held, List.any_eq_false] at hfree
      exact hfree u (mem_txnsOf.mpr ⟨o, ho, hu⟩) (by simpa using hlock')
  · rcases h.calls t ht v hv with ⟨old, hold, hvold⟩ | hfree
    · exact (hothers o ho).phones old hold u hu v hvold w hw hne hholds hholds' hphone
    · have hcontended := hfree hholds
      rw [phoneContended, List.any_eq_false] at hcontended
      refine hcontended u (mem_txnsOf.mpr ⟨o, ho, hu⟩) (List.any_eq_true.mpr ⟨w, hw, ?_⟩)
      simp [Ne.symm hne, hphone, hholds']

theorem Consistent.of_db {s s' : Shared} (hinv : Consistent s) (hdb : s'.db = s.db)
    (hissued : ∀ entry ∈ s.issued, entry ∈ s'.issued) : Consistent s' := by
  obtain ⟨h₁, h₂, h₃, h₄, h₅, h₆, h₇, h₈, h₉, h₁₀, h₁₁, h₁₂, h₁₃, h₁₄, h₁₅⟩ := hinv
  exact ⟨hdb ▸ h₁, hdb ▸ h₂, hdb ▸ h₃, hdb ▸ h₄,
    fun row hrow => (h₅ row (hdb ▸ hrow)).mono hissued, hdb ▸ h₆, hdb ▸ h₇, hdb ▸ h₈, hdb ▸ h₉,
    hdb ▸ h₁₀, hdb ▸ h₁₁, hdb ▸ h₁₂, hdb ▸ h₁₃, hdb ▸ h₁₄, hdb ▸ h₁₅⟩

theorem Guar.consistent {l : Party} {s s' : Shared} (hinv : Consistent s) (h : Guar l s s') :
    Consistent s' := by
  cases h with
  | quiet hdb hnow hissued => exact hinv.of_db hdb hissued
  | commit t htxn hready => exact hready.consistent hinv

/-- The tables stay as they are, and no one is told to forget a dial. -/
theorem Rely.of_db {l : Party} {s s' : Shared} (hdb : s'.db = s.db) (hnow : s.now ≤ s'.now)
    (hissued : ∀ entry ∈ s.issued, entry ∈ s'.issued) : Rely l s s' where
  now := hnow
  issued := hissued
  audit := hdb ▸ List.prefix_rfl
  call _ row h := ⟨row, hdb ▸ h, .refl row⟩
  newCall _ _ h hnone := by rw [hdb, hnone] at h; cases h
  retries _ _ _ h h' _ := by
    rw [hdb, h] at h'
    rw [Option.some.inj h']
    exact Or.inl rfl
  outcomes _ _ _ _ _ _ _ hmem := Or.inr (hdb ▸ hmem)
  campaign _ row h := ⟨row, hdb ▸ h, .refl row⟩
  inbox _ row h := ⟨row, hdb ▸ h, .refl row⟩
  keepCall _ _ _ _ _ h := hdb ▸ h
  keepCampaign _ _ _ _ _ h := hdb ▸ h
  keepLive _ _ _ _ _ _ _ h _ h' := by
    rw [hdb, h] at h'
    rw [Option.some.inj h']
  keepInbox _ _ _ _ _ h := hdb ▸ h
  keepPhone _ _ _ _ _ _ row' _ h hholds _ := ⟨row', hdb ▸ h, hholds⟩

theorem Rely.elapse (s : Shared) (micros : Nat) (l : Party) :
    Rely l s { s with now := s.now + micros } :=
  .of_db rfl (Int.le_add_of_nonneg_right (Int.natCast_nonneg micros)) fun _ h => h

theorem Guar.rely {l o : Party} {s s' : Shared} (hcompat : Compat l o) (h : Guar l s s') :
    Rely o s s' := by
  cases h with
  | quiet hdb hnow hissued => exact .of_db hdb hnow.ge hissued
  | commit t htxn hready => exact hready.rely hcompat htxn

theorem Guar.grows {l : Party} {s s' : Shared} (h : Guar l s s') : Grows s s' := by
  cases h with
  | quiet hdb hnow hissued => exact (Rely.of_db (l := l) hdb hnow.ge hissued).toGrows
  | commit t htxn hready => exact hready.grows

/-- A compare-and-set is the first write of its transaction, and one the task asks for. -/
def Asked (s : Shared) (l : Party) : Stmt → Prop
  | .updateCall update => ∃ t inbox args, l.txn = some t ∧ t.Fresh ∧ update = args.toCallUpdate ∧
      Asks s l.task inbox args
  | _ => True

/-- Row locks, the phone index, and commits that are fit. -/
def discipline : Discipline Stmt Reply Shared Party where
  exec others s l stmt reply s' l' :=
    l'.task = l.task ∧ ∃ choice, exec (txnsOf others) choice s l.txn stmt = some (reply, s', l'.txn)
  pre := Asked
  inv := Consistent
  rely := Rely
  guar := Guar
  compat := Compat
  rely_refl := .refl
  rely_trans := .trans
  compat_symm := .symm
  inv_guar := Guar.consistent
  rely_guar _ hcompat h := h.rely hcompat
  compat_exec hothers hexec := by
    obtain ⟨-, choice, hexec⟩ := hexec
    exact Compat.acquire hothers (exec_acquires hexec)

/-- A discipline that coroutines of the service follow, perhaps with more state on the side: only a
`COMMIT` is more than the thread itself would tolerate. -/
structure Above {σ : Type} (D : Discipline Stmt Reply σ Party) (view : σ → Shared) : Prop where
  exec : ∀ {others s l stmt reply s' l'}, D.exec others s l stmt reply s' l' →
    discipline.exec others (view s) l stmt reply (view s') l'
  pre : ∀ {s l stmt}, Asked (view s) l stmt → D.pre s l stmt
  inv : ∀ {s}, D.inv s → Consistent (view s)
  grows : ∀ {l s s'}, D.guar l s s' → Grows (view s) (view s')
  rely : ∀ {l s s'}, D.rely l s s' → Rely l (view s) (view s')
  quiet : ∀ {others s l stmt reply s' l'}, D.inv s → stmt ≠ .commit →
    D.exec others s l stmt reply s' l' → D.guar l s s' ∧ D.rely l s s'

theorem discipline_quiet {others : List Party} {s s' : Shared} {l l' : Party} {stmt : Stmt}
    {reply : Reply stmt} (hstmt : stmt ≠ .commit)
    (h : discipline.exec others s l stmt reply s' l') : Guar l s s' ∧ Rely l s s' := by
  obtain ⟨-, choice, hexec⟩ := h
  obtain ⟨hdb, hnow, hissued⟩ := exec_quiet hstmt hexec
  exact ⟨.quiet hdb hnow hissued, .of_db hdb hnow.ge hissued⟩

theorem above_self : Above discipline id where
  exec h := h
  pre h := h
  inv h := h
  grows h := h.grows
  rely h := h
  quiet _ hstmt h := discipline_quiet hstmt h

/-! ### What lasts while the others run -/

section

variable {s s' : Shared} {task : Option Task} {t : Txn} {inbox : Option InboxRow} {before after : CallRow}
  {event : AuditEvent} {folds : List AuditEvent}

theorem Moves.lasts (h : Moves s task t inbox before after event)
    (hrely : Rely ⟨task, some t⟩ s s') : Moves s' task t inbox before after event where
  cause := h.cause.mono hrely.toGrows
  row := hrely.keepCall t rfl _ h.lock before h.row
  lock := h.lock
  calls := h.calls
  phone hholds id other hother hne hholds' hphone := by
    have hmem : after ∈ t.calls := by rw [h.calls]; exact List.mem_singleton_self _
    obtain ⟨row, hrow, hrowholds⟩ :=
      hrely.keepPhone t rfl after hmem hholds id other hne hother hholds' hphone
    obtain ⟨found, hfound, hevolves⟩ := hrely.call id row hrow
    rw [hother] at hfound
    obtain rfl := Option.some.inj hfound
    exact h.phone hholds id row hrow hne hrowholds (hevolves.phone.symm.trans hphone)

/-- The campaign's other calls are the same and in the same statuses later on. -/
theorem LastOne.lasts (h : LastOne s t after) (hrely : Rely ⟨task, some t⟩ s s') :
    LastOne s' t after ∧ (CompletedIn s' after ↔ CompletedIn s after) := by
  obtain ⟨campaign, hcampaign⟩ := h.campaign
  have hback : ∀ id other', s'.db.call? id = some other' → other'.campaignId = after.campaignId →
      ∃ other, s.db.call? id = some other ∧ other.campaignId = after.campaignId ∧
        other.Evolves other' := by
    intro id other' hother' howner
    cases hother : s.db.call? id with
    | none =>
        have hnew := hrely.newCall id other' hother' hother
        rw [howner, hcampaign] at hnew
        cases hnew
    | some other =>
        obtain ⟨found, hfound, hevolves⟩ := hrely.call id other hother
        rw [hother'] at hfound
        obtain rfl := Option.some.inj hfound
        exact ⟨other, rfl, hevolves.campaignId.symm.trans howner, hevolves⟩
  refine ⟨⟨h.lock, ⟨campaign, hrely.keepCampaign t rfl _ h.lock campaign hcampaign⟩, ?_⟩,
    or_congr_right ⟨?_, ?_⟩⟩
  · intro id other' hother' howner hne
    obtain ⟨other, hother, howner', hevolves⟩ := hback id other' hother' howner
    have hdone := h.others id other hother howner' hne
    rw [hevolves.isTerminal hdone, hdone]
  · rintro ⟨id, other', hother', howner, hne, hcompleted⟩
    obtain ⟨other, hother, howner', hevolves⟩ := hback id other' hother' howner
    refine ⟨id, other, hother, howner', hne, ?_⟩
    rw [← hevolves.isTerminal (h.others id other hother howner' hne), hcompleted]
  · rintro ⟨id, other, hother, howner, hne, hcompleted⟩
    obtain ⟨other', hother', hevolves⟩ := hrely.call id other hother
    refine ⟨id, other', hother', hevolves.campaignId.trans howner, hne, ?_⟩
    rw [hevolves.isTerminal (by rw [hcompleted]; rfl), hcompleted]

theorem Folds.lasts (h : Folds s t after folds) (hrely : Rely ⟨task, some t⟩ s s') :
    Folds s' t after folds := by
  cases h with
  | still hcampaigns hstarted hlive =>
      refine .still hcampaigns ?_ fun hterminal => ⟨(hlive hterminal).1, ?_⟩
      · obtain ⟨campaign, hcampaign, hne⟩ := hstarted
        obtain ⟨campaign', hcampaign', hevolves⟩ := hrely.campaign _ campaign hcampaign
        exact ⟨campaign', hcampaign', fun hpending => hne (hevolves.pending hpending)⟩
      · rcases (hlive hterminal).2 with ⟨campaign, hcampaign, hdone⟩ | ⟨id, other, hother, howner, hne, hlive'⟩
        · obtain ⟨campaign', hcampaign', hevolves⟩ := hrely.campaign _ campaign hcampaign
          exact Or.inl ⟨campaign', hcampaign', by rw [hevolves.terminal hdone, hdone]⟩
        · obtain ⟨other', hother', hevolves⟩ := hrely.call id other hother
          have hsame := hrely.keepLive t rfl _ (hlive hterminal).1 id other other' hother howner hother'
          exact Or.inr ⟨id, other', hother', hevolves.campaignId.trans howner, hne, hsame.trans hlive'⟩
  | promoted campaign hrow hpending hlock hlive hcampaigns =>
      exact .promoted campaign (hrely.keepCampaign t rfl _ hlock campaign hrow) hpending hlock hlive
        hcampaigns
  | rolledUp campaign counts hrow hactive hterminal hlast hcounts hcampaigns =>
      obtain ⟨hlast', hcompleted⟩ := hlast.lasts hrely
      exact .rolledUp campaign counts (hrely.keepCampaign t rfl _ hlast.lock campaign hrow) hactive
        hterminal hlast' (hcounts.trans hcompleted.symm) hcampaigns

theorem Marks.lasts (h : Marks s task t inbox) (hrely : Rely ⟨task, some t⟩ s s') :
    Marks s' task t inbox := by
  cases h with
  | unmarked hinbox => exact .unmarked hinbox
  | marked row htask hrow hunprocessed hlock hinbox =>
      exact .marked row htask (hrely.keepInbox t rfl _ hlock row hrow) hunprocessed hlock hinbox

theorem Ready.lasts (h : Ready s task t) (hrely : Rely ⟨task, some t⟩ s s') :
    Ready s' task t := by
  cases h with
  | quiet inbox hcalls hcampaigns hmarks hnotes =>
      exact .quiet inbox hcalls hcampaigns (hmarks.lasts hrely) hnotes
  | moves inbox before after event folds hmoves hfolds hmarks haudit =>
      exact .moves inbox before after event folds (hmoves.lasts hrely) (hfolds.lasts hrely)
        (hmarks.lasts hrely) haudit

end

/-! ### Following a coroutine -/

section

variable {σ : Type} {D : Discipline Stmt Reply σ Party} {view : σ → Shared}
  {α : Type}
  {post : α → σ → Party → Prop} {err : Err → σ → Party → Prop}

theorem Above.later (hD : Above D view) {s s' : σ} (h : D.Later s s') : Grows (view s) (view s') := by
  induction h with
  | refl => exact .refl _
  | rely _ hrely ih => exact ih.trans (hD.rely hrely).toGrows
  | guar _ _ hguar ih => exact ih.trans (hD.grows hguar)

/-- One statement that is not `COMMIT`. The tables it sees are those after it. -/
theorem Above.step (hD : Above D view) {stmt : Stmt} {next : Reply stmt → Co α} {s : σ} {l : Party}
    (hstmt : stmt ≠ .commit) (hasked : ∀ s₁, D.rely l s s₁ → D.inv s₁ → Asked (view s₁) l stmt)
    (h : ∀ others choice reply s₁ s₂ txn, D.rely l s s₁ → D.inv s₁ → D.inv s₂ →
      Rely l (view s) (view s₂) → D.rely l s s₂ → (view s₂).db = (view s₁).db →
      D.exec others s₁ l stmt reply s₂ ⟨l.task, txn⟩ →
      VoiceCampaign.exec (txnsOf others) choice (view s₁) l.txn stmt = some (reply, view s₂, txn) →
      D.Safe post err (next reply) s₂ ⟨l.task, txn⟩) :
    D.Safe post err (perform stmt >>= next) s l := by
  intro s₁ hs₁ hinv
  refine ⟨hD.pre (hasked s₁ hs₁ hinv), fun others reply s₂ l₂ hexec => ?_⟩
  obtain ⟨hguar, hquiet⟩ := hD.quiet hinv hstmt hexec
  obtain ⟨task, txn⟩ := l₂
  obtain ⟨htask, choice, hrun⟩ := hD.exec hexec
  obtain rfl : task = l.task := htask
  obtain ⟨hdb, -, -⟩ := exec_quiet hstmt hrun
  have hsteady := D.rely_trans hs₁ hquiet
  exact ⟨hguar, h others choice reply s₁ s₂ txn hs₁ hinv (D.inv_guar hinv hguar) (hD.rely hsteady) hsteady
    hdb hexec hrun⟩

/-- A plain `SELECT` outside any transaction. -/
theorem Above.select (hD : Above D view) {query : Query} {next : query.Result → Co α} {s : σ}
    {l : Party} (htxn : l.txn = none)
    (h : ∀ pick s₂, D.inv s₂ → Rely l (view s) (view s₂) → D.rely l s s₂ →
      D.Safe post err (next (query.eval (view s₂).db (view s₂).now pick)) s₂ l) :
    D.Safe post err (VoiceCampaign.select query >>= next) s l := by
  obtain ⟨task, txn⟩ := l
  obtain rfl : txn = none := htxn
  refine hD.step nofun (fun _ _ _ => trivial)
    fun others choice reply s₁ s₂ txn hs₁ hinv hinv₂ hrely hsteady hdb hexec hrun => ?_
  obtain ⟨rfl, hview, rfl⟩ := exec_select hrun
  rw [← hview]
  exact h choice.pick s₂ hinv₂ hrely hsteady

/-- A plain `SELECT` inside a transaction sees its row versions, and the `NOW()` it began at. -/
theorem Above.selectIn (hD : Above D view) {query : Query} {next : query.Result → Co α} {s : σ}
    {l : Party} {t : Txn} (htxn : l.txn = some t)
    (h : ∀ pick s₂, D.inv s₂ → Rely l (view s) (view s₂) → D.rely l s s₂ →
      D.Safe post err (next (query.eval ((view s₂).db.apply t) t.startedAt pick)) s₂ l) :
    D.Safe post err (VoiceCampaign.select query >>= next) s l := by
  obtain ⟨task, txn⟩ := l
  obtain rfl : txn = some t := htxn
  refine hD.step nofun (fun _ _ _ => trivial)
    fun others choice reply s₁ s₂ txn hs₁ hinv hinv₂ hrely hsteady hdb hexec hrun => ?_
  obtain ⟨rfl, hview, rfl⟩ := exec_select hrun
  rw [← hview]
  exact h choice.pick s₂ hinv₂ hrely hsteady

theorem Above.emitAudit (hD : Above D view) {event : AuditEvent} {next : Unit → Co α} {s : σ}
    {l : Party} {t : Txn} (htxn : l.txn = some t)
    (h : ∀ row s₂, row.event = event → D.inv s₂ → Rely l (view s) (view s₂) → D.rely l s s₂ →
      D.Safe post err (next ()) s₂ ⟨l.task, some { t with audit := t.audit ++ [row] }⟩) :
    D.Safe post err (VoiceCampaign.emitAudit event >>= next) s l := by
  refine hD.step nofun (fun _ _ _ => trivial)
    fun others choice reply s₁ s₂ txn hs₁ hinv hinv₂ hrely hsteady hdb hexec hrun => ?_
  rw [htxn] at hrun
  obtain ⟨-, rfl⟩ := exec_emitAudit hrun
  exact h _ s₂ rfl hinv₂ hrely hsteady

/-- An audit row at the end of a body. -/
theorem Above.emitAudit_last (hD : Above D view) {event : AuditEvent} {post : Unit → σ → Party → Prop}
    {s : σ} {l : Party} {t : Txn} (htxn : l.txn = some t)
    (h : ∀ row s₂, row.event = event → D.inv s₂ → Rely l (view s) (view s₂) → D.rely l s s₂ →
      ∀ s₃, D.rely ⟨l.task, some { t with audit := t.audit ++ [row] }⟩ s₂ s₃ → D.inv s₃ →
        post () s₃ ⟨l.task, some { t with audit := t.audit ++ [row] }⟩) :
    D.Safe post err (VoiceCampaign.emitAudit event) s l := by
  rw [← Program.bind_done (VoiceCampaign.emitAudit event)]
  exact hD.emitAudit htxn fun row s₂ hrow hinv hrely hsteady =>
    h row s₂ hrow hinv hrely hsteady

theorem Above.datetimeNow (hD : Above D view) {next : Time → Co α} {s : σ} {l : Party}
    (h : ∀ s₂, D.inv s₂ → Rely l (view s) (view s₂) → D.rely l s s₂ →
      D.Safe post err (next (view s₂).now) s₂ l) :
    D.Safe post err (VoiceCampaign.datetimeNow >>= next) s l := by
  refine hD.step nofun (fun _ _ _ => trivial)
    fun others choice reply s₁ s₂ txn hs₁ hinv hinv₂ hrely hsteady hdb hexec hrun => ?_
  obtain ⟨rfl, hview, rfl⟩ := exec_datetimeNow hrun
  rw [← hview]
  exact h s₂ hinv₂ hrely hsteady

theorem Above.uniform (hD : Above D view) {next : Jitter → Co α} {s : σ} {l : Party}
    (h : ∀ u s₂, D.inv s₂ → Rely l (view s) (view s₂) → D.rely l s s₂ → D.Safe post err (next u) s₂ l) :
    D.Safe post err (perform .uniform >>= next) s l := by
  refine hD.step nofun (fun _ _ _ => trivial)
    fun others choice reply s₁ s₂ txn hs₁ hinv hinv₂ hrely hsteady hdb hexec hrun => ?_
  obtain ⟨-, rfl⟩ := exec_uniform hrun
  exact h reply s₂ hinv₂ hrely hsteady

/-- `async with conn.transaction()`: the body runs in a fresh transaction, and what it leaves is
committed. -/
theorem Above.transaction (hD : Above D view) {body : Co α} {s : σ} {l : Party}
    {M : α → σ → Party → Prop} (htxn : l.txn = none)
    (hbody : ∀ s₂ now, D.inv s₂ → Rely l (view s) (view s₂) → D.rely l s s₂ →
      D.Safe M (fun _ _ l' => l'.task = l.task) body s₂ ⟨l.task, some { startedAt := now }⟩)
    (hcommit : ∀ value s₁ l₁, D.inv s₁ → M value s₁ l₁ → l₁.task = l.task ∧
      ∀ others reply s₂ s₃, D.rely l₁ s₁ s₂ → D.inv s₂ → D.exec others s₂ l₁ .commit reply s₃ l →
        D.guar l₁ s₂ s₃ ∧ ∀ s₄, D.rely l s₃ s₄ → D.inv s₄ → post value s₄ l) :
    D.Safe post (fun _ _ l' => l' = l) (VoiceCampaign.transaction body) s l := by
  obtain ⟨task, txn⟩ := l
  obtain rfl : txn = none := htxn
  refine hD.step nofun (fun _ _ _ => trivial)
    fun others choice reply s₁ s₂ txn hs₁ hinv hinv₂ hrely hsteady hdb hexec hrun => ?_
  obtain ⟨-, rfl⟩ := exec_begin hrun
  refine .bind (M := M) (.catching (hbody s₂ _ hinv₂ hrely hsteady) fun error s₃ l₃ _ htask => ?_) ?_
  · obtain ⟨task₃, txn₃⟩ := l₃
    obtain rfl : task₃ = task := htask
    refine hD.step nofun (fun _ _ _ => trivial) fun others choice reply s₄ s₅ txn _ _ _ _ _ _ _ hrun => ?_
    obtain ⟨-, rfl⟩ := exec_rollback hrun
    exact fun _ _ _ => rfl
  · intro value s₃ l₃ hinv₃ hmid
    obtain ⟨htask, hdone⟩ := hcommit value s₃ l₃ hinv₃ hmid
    intro s₄ hs₄ hinv₄
    refine ⟨hD.pre trivial, fun others reply s₅ l₅ hexec => ?_⟩
    obtain ⟨htask₅, choice, hrun⟩ := hD.exec hexec
    obtain ⟨t, -, -, htxn₅⟩ := exec_commit hrun
    obtain ⟨task₅, txn₅⟩ := l₅
    obtain rfl : task₅ = task := htask₅.trans htask
    obtain rfl : txn₅ = none := htxn₅
    exact hdone others reply s₄ s₅ hs₄ hinv₄ hexec

/-- Let an exception through, or go on with the value. -/
theorem Above.ofExcept {value : Except Err α} {s : σ} {l : Party}
    (herr : ∀ error, value = .error error → ∀ s₁, D.rely l s s₁ → D.inv s₁ → err error s₁ l)
    (hok : ∀ result, value = .ok result → ∀ s₁, D.rely l s s₁ → D.inv s₁ → post result s₁ l) :
    D.Safe post err (VoiceCampaign.ofExcept value) s l := by
  cases value with
  | error error => exact herr error rfl
  | ok result => exact hok result rfl

/-- `datetime.now(tz=UTC) + compute_backoff(..)`. -/
theorem Above.nextAttempt (hD : Above D view) {attemptEpoch : Nat} {baseSeconds : ℚ} {s : σ} {l : Party} :
    D.Safe (fun nextAttempt s' l' => l' = l ∧ Rely l (view s) (view s') ∧ D.rely l s s' ∧ ∃ u now delta,
        (view s).now ≤ now ∧ now ≤ (view s').now ∧ backoffDelta attemptEpoch baseSeconds u = .ok delta ∧
          addTimedelta now delta = .ok nextAttempt) (fun _ _ l' => l' = l)
      (VoiceCampaign.nextAttempt attemptEpoch baseSeconds) s l := by
  refine hD.datetimeNow fun s₂ hinv₂ hrely₂ hsteady₂ => ?_
  refine .bind (M := fun delta s' l' => l' = l ∧ Rely l (view s₂) (view s') ∧ D.rely l s₂ s' ∧
    ∃ u, backoffDelta attemptEpoch baseSeconds u = .ok delta) ?_ ?_
  · refine hD.uniform fun u s₃ hinv₃ hrely₃ hsteady₃ => ?_
    exact Above.ofExcept (fun _ _ _ _ _ => rfl) fun delta hdelta s₄ hs₄ _ =>
      ⟨rfl, hrely₃.trans (hD.rely hs₄), D.rely_trans hsteady₃ hs₄, u, hdelta⟩
  · rintro delta s₄ l₄ hinv₄ ⟨rfl, hrely₄, hsteady₄, u, hdelta⟩
    refine Above.ofExcept (fun _ _ _ _ _ => rfl) fun nextAttempt hnext s₅ hs₅ _ => ?_
    have hrely₅ := hrely₄.trans (hD.rely hs₅)
    exact ⟨rfl, hrely₂.trans hrely₅, D.rely_trans (D.rely_trans hsteady₂ hsteady₄) hs₅, u, _, delta,
      hrely₂.now, hrely₅.now, hdelta, hnext⟩

end

end VoiceCampaign

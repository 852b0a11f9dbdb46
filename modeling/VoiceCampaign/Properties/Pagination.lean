import VoiceCampaign.Model.Reads
import VoiceCampaign.Properties.Patterns

/-!
# Pages of tables that only grow

A walk over `query_audit` or `list_page` follows `next_cursor` while others insert rows. It returns the
rows that were there when it began exactly once, in strictly descending order.
-/

namespace VoiceCampaign

open Concurrency Keyset

/-! ### What the filters select -/

/-- Anything, the text, anything. -/
def containsTokens (text : List Char) : List LikeToken := .anyMany :: (text.map .literal ++ [.anyMany])

namespace AuditQuery

variable (text : Text) (query : AuditQuery)

/-- The rows a query is about. -/
def matching (row : AuditRecord) : Bool :=
  query.selects text
    ((query.reasonContains.filter (· ≠ "")).map fun reason => containsTokens (reason.toList.map text.lower))
    ((query.phone.filter fun phone => phone ≠ "" ∧ phoneFilterMinDigits ≤ (digitsOf text phone).length).map
      fun phone => containsTokens (digitsOf text phone)) row

variable {text query}

/-- Every pattern the reader builds is one that `LIKE` accepts. -/
theorem reasonPattern_eq : query.reasonPattern text = .ok ((query.reasonContains.filter (· ≠ "")).map
    fun reason => containsTokens (reason.toList.map text.lower)) := by
  rw [reasonPattern]
  cases query.reasonContains with
  | none => rfl
  | some reason =>
      by_cases hempty : reason = ""
      · simp [hempty]
      · simp only [hempty, if_false, Option.filter, text.map_containsPattern, likeTokens_contains]
        simp [containsTokens, Except.map, hempty]

theorem phonePattern_eq : query.phonePattern text = .ok ((query.phone.filter fun phone =>
    phone ≠ "" ∧ phoneFilterMinDigits ≤ (digitsOf text phone).length).map
      fun phone => containsTokens (digitsOf text phone)) := by
  rw [phonePattern]
  cases query.phone with
  | none => rfl
  | some phone =>
      by_cases hshort : phone = "" ∨ (digitsOf text phone).length < phoneFilterMinDigits
      · have hfilter : ¬ (phone ≠ "" ∧ phoneFilterMinDigits ≤ (digitsOf text phone).length) := by
          rintro ⟨hempty, hlong⟩
          rcases hshort with h | h
          · exact hempty h
          · exact h.not_ge hlong
        simp only [if_pos hshort, Option.filter, decide_eq_true_eq, if_neg hfilter, Option.map_none]
      · have hfilter : phone ≠ "" ∧ phoneFilterMinDigits ≤ (digitsOf text phone).length :=
          ⟨fun h => hshort (Or.inl h), not_lt.mp fun h => hshort (Or.inr h)⟩
        simp only [if_neg hshort, Option.filter, decide_eq_true_eq, if_pos hfilter, likeTokens_contains]
        rfl

theorem answers {limit : Int} (h : query.limit = limit) (hpos : 1 ≤ limit) (hmax : limit ≤ maxLimit)
    (audit : List AuditRecord) (cursor : Option AuditCursor) :
    queryAudit text audit { query with cursor } =
      .ok (Keyset.answer AuditRecord.key (audit.filter (query.matching text)) limit.toNat cursor) := by
  have hlimit : ¬ (query.limit ≤ 0 ∨ query.limit > maxLimit) := by
    rw [h]
    omega
  have hreason : ({ query with cursor } : AuditQuery).reasonPattern text = query.reasonPattern text := rfl
  have hphone : ({ query with cursor } : AuditQuery).phonePattern text = query.phonePattern text := rfl
  rw [queryAudit, if_neg hlimit, hreason, hphone, reasonPattern_eq, phonePattern_eq, ← h]
  rfl

end AuditQuery

theorem listPage_answers {limit : Int} (hpos : 0 < limit) (campaigns : List CampaignRow)
    (cursor : Option ListCursor) :
    listPage campaigns cursor limit = .ok (Keyset.answer CampaignRow.listKey campaigns limit.toNat cursor) :=
  if_neg hpos.not_ge

/-! ### Walks -/

section

variable {α κ ι : Type} [LinearOrder κ]

/-- What a walk is to return, where `rows n` is what there is for the `n`-th fetch and `rows 0` what there
was when the walk began. -/
structure PagedExactly (key : α → κ) (ident : α → ι) (rows : Nat → List α)
    (walk : Nat → Except Err (Reading α κ)) : Prop where
  exact : ∀ n, ∃ reading, walk n = .ok reading ∧ Complete key ident (rows 0) reading ∧
    reading.returned ⊆ rows n
  ends : ∀ final, (∀ n, rows n ⊆ final) → ∃ n reading, walk n = .ok reading ∧ reading.finished = true

theorem PagedExactly.of_fetch {key : α → κ} {ident : α → ι} {rows : Nat → List α} {limit : Nat}
    {fetch : Nat → Option κ → Except Err (List α × Option κ)} (hgrowing : Growing ident rows)
    (hdistinct : ∀ n, Distinct key (rows n)) (hlimit : 0 < limit)
    (hfetch : ∀ n cursor, fetch n cursor = .ok (Keyset.answer key (rows (n + 1)) limit cursor)) :
    PagedExactly key ident rows (Keyset.walk fetch) where
  exact n := by
    obtain ⟨reading, hwalk, hwalked⟩ := hgrowing.walk hdistinct hlimit hfetch n
    exact ⟨reading, hwalk, hwalked.complete hgrowing, hwalked.found⟩
  ends final hfinal := by
    obtain ⟨reading, hwalk, hwalked⟩ := hgrowing.walk hdistinct hlimit hfetch (final.length + 1)
    exact ⟨_, reading, hwalk, hwalked.finished hfinal hlimit⟩

/-- A key that ends in the identifier tells the rows apart. -/
theorem distinct_of_idents {key : α → Time ×ₗ Nat} {ident : α → Nat} (hkey : ∀ row, (ofLex (key row)).2 = ident row)
    {rows : List α} (h : (rows.map ident).Nodup) : Distinct key rows := by
  have hmap : rows.map ident = (rows.map key).map fun cursor => (ofLex cursor).2 := by
    rw [List.map_map]
    exact List.map_congr_left fun row _ => (hkey row).symm
  rw [hmap] at h
  exact h.of_map

end

/-- A walk over `query_audit`; `audit (n + 1)` is the table at the `n`-th fetch. -/
def auditWalk (text : Text) (query : AuditQuery) (audit : Nat → List AuditRecord) :
    Nat → Except Err (Reading AuditRecord AuditCursor) :=
  Keyset.walk fun n cursor => queryAudit text (audit (n + 1)) { query with cursor }

/-- A walk over `list_page`. -/
def campaignWalk (limit : Int) (campaigns : Nat → List CampaignRow) :
    Nat → Except Err (Reading CampaignRow ListCursor) :=
  Keyset.walk fun n cursor => listPage (campaigns (n + 1)) cursor limit

/-- Keyset pagination of the two tables that only grow is exact. -/
theorem pagination_exact :
    (∀ (text : Text) (query : AuditQuery) (audit : Nat → List AuditRecord), 1 ≤ query.limit →
      query.limit ≤ 500 → Growing AuditRecord.id audit →
      PagedExactly AuditRecord.key AuditRecord.id (fun n => (audit n).filter (query.matching text))
        (auditWalk text query audit)) ∧
    ∀ (limit : Int) (campaigns : Nat → List CampaignRow), 0 < limit → Growing CampaignRow.id campaigns →
      PagedExactly CampaignRow.listKey CampaignRow.id campaigns (campaignWalk limit campaigns) := by
  constructor
  · intro text query audit hpos hmax hgrowing
    have hlimit : 0 < query.limit.toNat := by omega
    refine .of_fetch (hgrowing.filter _) (fun n => ?_) hlimit fun n cursor => ?_
    · exact distinct_of_idents (fun _ => rfl) ((hgrowing.filter _).idents n)
    · exact AuditQuery.answers rfl hpos hmax _ cursor
  · intro limit campaigns hpos hgrowing
    have hlimit : 0 < limit.toNat := by omega
    refine .of_fetch hgrowing (fun n => ?_) hlimit fun n cursor => ?_
    · exact distinct_of_idents (fun _ => rfl) (hgrowing.idents n)
    · exact listPage_answers hpos _ cursor

/-- ASCII. -/
def ascii : Text where
  isDecimal := Char.isDigit
  lower := id
  lower_meta _ _ := rfl
  meta_of_lower _ h := h

def auditRecord (id : Nat) (ts : Time) (reason : String) : AuditRecord where
  id := id
  ts := ts
  eventType := "DISPATCH"
  campaignId := some 0
  callId := some 0
  phone := none
  attemptEpoch := some 1
  reason := reason
  stateBefore := none
  stateAfter := none
  extra := []

/-- Two rows of one time, and a third that comes before the first fetch. -/
def auditOfThree (n : Nat) : List AuditRecord :=
  [auditRecord 1 5 "dispatched", auditRecord 2 5 "dispatched"] ++
    if n = 0 then [] else [auditRecord 3 4 "100%"]

theorem auditOfThree_growing : Growing AuditRecord.id auditOfThree where
  grows n row hrow := by
    rcases List.mem_append.mp hrow with hold | hnew
    · exact List.mem_append_left _ hold
    · by_cases hn : n = 0
      · rw [if_pos hn] at hnew
        cases hnew
      · rw [if_neg hn] at hnew
        exact List.mem_append_right _ hnew
  idents n := by
    by_cases hn : n = 0
    · rw [auditOfThree, if_pos hn]
      decide
    · rw [auditOfThree, if_neg hn]
      decide

theorem pagination_exact_three :
    PagedExactly AuditRecord.key AuditRecord.id
      (fun n => (auditOfThree n).filter (({ campaignId := some 0, limit := 1 } : AuditQuery).matching ascii))
      (auditWalk ascii { campaignId := some 0, limit := 1 } auditOfThree) ∧
    PagedExactly CampaignRow.listKey CampaignRow.id (fun _ => []) (campaignWalk 2 fun _ => []) :=
  ⟨pagination_exact.1 ascii { campaignId := some 0, limit := 1 } auditOfThree (by decide) (by decide)
      auditOfThree_growing,
    pagination_exact.2 2 (fun _ => []) (by decide) ⟨fun _ _ h => h, fun _ => .nil⟩⟩

/-- Page by page, the row that came late is in the last one but one. -/
example : ((auditWalk ascii { campaignId := some 0, limit := 1 } auditOfThree 4).toOption.map fun reading =>
    (reading.pages.map (List.map AuditRecord.id), reading.finished)) =
    some ([[2], [1], [3], []], true) := by decide +kernel

end VoiceCampaign

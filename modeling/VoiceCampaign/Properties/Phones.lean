import VoiceCampaign.Model.Phones
import VoiceCampaign.Protocol.Requests

/-!
# Normalised phones

What `_normalize_phones` accepts, what it returns, and which entries it reports, whatever `phonenumbers` makes
of the texts. The invariant of its loop says of the entries seen so far what the result says of all of them.
-/

namespace VoiceCampaign

open Concurrency

namespace PhoneNumbers

variable (lib : PhoneNumbers)

/-! ### What the validator is about -/

/-- The E.164 value of a stripped text, if it parses as a valid number. -/
def e164 (stripped : String) : Option String :=
  match lib.parse stripped with
  | .ok parsed => if lib.isValidNumber parsed = true then some (lib.formatNumber parsed) else none
  | .error _ => none

/-- The number on a line: it starts with `+`, and has an E.164 value. -/
def number (raw : String) : Option String :=
  if startsWithPlus (strip raw) = true then lib.e164 (strip raw) else none

/-- The first line that carries a number. -/
def firstLine (v : List String) (e164 : String) : Option Nat := v.findIdx? fun raw => lib.number raw = some e164

/-- The line carries no number, or repeats the number of an earlier line. -/
def rejects (v : List String) (idx : Nat) : Bool :=
  v[idx]?.any fun raw =>
    match lib.number raw with
    | none => true
    | some e164 => (v.take idx).any fun earlier => lib.number earlier = some e164

variable {lib} {v : List String} {scan : PhoneScan} {idx : Nat} {raw : String}

/-! ### One line -/

theorem scanPhone_none (h : lib.number raw = none) :
    ∃ reason, lib.scanPhone scan idx raw = scan.reject idx raw reason := by
  rw [scanPhone]
  cases hplus : startsWithPlus (strip raw) with
  | false => exact ⟨_, if_pos rfl⟩
  | true =>
      rw [number, if_pos hplus, e164] at h
      rw [if_neg nofun]
      cases hparse : lib.parse (strip raw) with
      | error exc => exact ⟨exc, rfl⟩
      | ok parsed =>
          rw [hparse] at h
          cases hvalid : lib.isValidNumber parsed with
          | false => exact ⟨"invalid", if_pos hvalid⟩
          | true => simp [hvalid] at h

theorem scanPhone_some {e164 : String} (h : lib.number raw = some e164) :
    lib.scanPhone scan idx raw = match scan.seenE164.lookup e164 with
      | some firstSeen => scan.reject idx raw (duplicateOf firstSeen e164)
      | none => { scan with
          seenE164 := scan.seenE164 ++ [(e164, idx)], normalized := scan.normalized ++ [e164] } := by
  rw [number] at h
  split at h
  · next hplus =>
    rw [PhoneNumbers.e164] at h
    split at h
    · next parsed hparse =>
      split at h
      · next hvalid =>
        cases h
        simp only [scanPhone, hplus, hparse, hvalid]
        rfl
      · cases h
    · cases h
  · cases h

theorem firstLine_append (e164 : String) : lib.firstLine (v ++ [raw]) e164 =
    (lib.firstLine v e164).or (if lib.number raw = some e164 then some v.length else none) := by
  rw [firstLine, List.findIdx?_append, firstLine]
  by_cases h : lib.number raw = some e164 <;> simp [h]

/-- A later line does not change what is said of the earlier ones. -/
theorem rejects_append (h : idx < v.length) : lib.rejects (v ++ [raw]) idx = lib.rejects v idx := by
  rw [rejects, rejects, List.getElem?_append_left h, List.take_append_of_le_length h.le]

theorem rejects_last : lib.rejects (v ++ [raw]) v.length = match lib.number raw with
    | none => true
    | some e164 => (lib.firstLine v e164).isSome := by
  rw [rejects, List.getElem?_concat_length, Option.any_some, List.take_left']
  · cases lib.number raw with
    | none => rfl
    | some e164 =>
        exact List.findIdx?_isSome.symm
  · rfl

/-! ### The loop -/

variable (lib) in
/-- What the local variables say of the lines `v` that the loop has seen. -/
structure Scanned (v : List String) (scan : PhoneScan) : Prop where
  seen : ∀ e164, scan.seenE164.lookup e164 = lib.firstLine v e164
  keys : scan.seenE164.map Prod.fst = scan.normalized
  nodup : scan.normalized.Nodup
  indices : scan.errors.map PhoneError.index = (List.range v.length).filter (lib.rejects v)
  explained : ∀ error ∈ scan.errors, v[error.index]? = some error.input ∧
    ∀ e164, lib.number error.input = some e164 →
      ∃ first, lib.firstLine v e164 = some first ∧ error.reason = duplicateOf first e164
  numbers : scan.errors = [] → v.map lib.number = scan.normalized.map some

theorem filter_rejects_append : (List.range (v ++ [raw]).length).filter (lib.rejects (v ++ [raw])) =
    (List.range v.length).filter (lib.rejects v) ++
      if lib.rejects (v ++ [raw]) v.length = true then [v.length] else [] := by
  have hold : (List.range v.length).filter (lib.rejects (v ++ [raw])) =
      (List.range v.length).filter (lib.rejects v) :=
    List.filter_congr fun idx hidx => rejects_append (List.mem_range.mp hidx)
  rw [List.length_append, List.length_singleton, List.range_succ, List.filter_append, hold,
    List.filter_singleton]
  cases lib.rejects (v ++ [raw]) v.length <;> rfl

namespace Scanned

theorem empty : lib.Scanned [] {} where
  seen _ := rfl
  keys := rfl
  nodup := .nil
  indices := rfl
  explained _ h := absurd h List.not_mem_nil
  numbers _ := rfl

theorem explained_append (h : lib.Scanned v scan) : ∀ error ∈ scan.errors,
    (v ++ [raw])[error.index]? = some error.input ∧ ∀ e164, lib.number error.input = some e164 →
      ∃ first, lib.firstLine (v ++ [raw]) e164 = some first ∧ error.reason = duplicateOf first e164 := by
  intro error herror
  obtain ⟨hinput, hreason⟩ := h.explained error herror
  refine ⟨?_, fun e164 he164 => ?_⟩
  · rw [List.getElem?_append_left (List.getElem?_eq_some_iff.mp hinput).1, hinput]
  · obtain ⟨first, hfirst, heq⟩ := hreason e164 he164
    exact ⟨first, by rw [firstLine_append, hfirst, Option.some_or], heq⟩

/-- A line that is reported. -/
theorem reject (h : lib.Scanned v scan) {reason : String} (hrejects : lib.rejects (v ++ [raw]) v.length = true)
    (hreason : ∀ e164, lib.number raw = some e164 →
      ∃ first, lib.firstLine v e164 = some first ∧ reason = duplicateOf first e164) :
    lib.Scanned (v ++ [raw]) (scan.reject v.length raw reason) where
  seen e164 := by
    rw [firstLine_append, ← h.seen e164]
    by_cases he164 : lib.number raw = some e164
    · obtain ⟨first, hfirst, -⟩ := hreason e164 he164
      rw [h.seen, hfirst, Option.some_or]
      exact (h.seen e164).trans hfirst
    · rw [if_neg he164, Option.or_none]
      rfl
  keys := h.keys
  nodup := h.nodup
  indices := by
    rw [filter_rejects_append, if_pos hrejects, PhoneScan.reject, List.map_append, h.indices]
    rfl
  explained error herror := by
    rcases List.mem_append.mp herror with hold | hnew
    · exact h.explained_append error hold
    · obtain rfl := List.mem_singleton.mp hnew
      refine ⟨List.getElem?_concat_length, fun e164 he164 => ?_⟩
      obtain ⟨first, hfirst, heq⟩ := hreason e164 he164
      exact ⟨first, by rw [firstLine_append, hfirst, Option.some_or], heq⟩
  numbers hnone := by simp [PhoneScan.reject] at hnone

/-- A line that carries a new number. -/
theorem accept (h : lib.Scanned v scan) {e164 : String} (hnumber : lib.number raw = some e164)
    (hnew : lib.firstLine v e164 = none) : lib.Scanned (v ++ [raw]) { scan with
      seenE164 := scan.seenE164 ++ [(e164, v.length)], normalized := scan.normalized ++ [e164] } where
  seen other := by
    have happend : (scan.seenE164 ++ [(e164, v.length)]).lookup other =
        (scan.seenE164.lookup other).or (if other = e164 then some v.length else none) := by
      rw [List.lookup_append]
      by_cases hother : other = e164
      · rw [hother, if_pos rfl, List.lookup_cons_self]
      · rw [if_neg hother, List.lookup_cons, beq_eq_false_iff_ne.mpr hother]
        rfl
    have hswap : lib.number raw = some other ↔ other = e164 := by
      rw [hnumber, Option.some_inj]
      exact eq_comm
    rw [happend, firstLine_append, h.seen]
    simp only [hswap]
  keys := by rw [List.map_append, h.keys]; rfl
  nodup := by
    rw [← h.seen e164, List.lookup_eq_none_iff] at hnew
    refine List.nodup_append.mpr ⟨h.nodup, List.nodup_singleton e164, ?_⟩
    rintro other hother _ hmem rfl
    obtain rfl := List.mem_singleton.mp hmem
    rw [← h.keys, List.mem_map] at hother
    obtain ⟨entry, hentry, rfl⟩ := hother
    simpa using hnew entry hentry
  indices := by
    have hkeeps : lib.rejects (v ++ [raw]) v.length = false := by
      rw [rejects_last, hnumber]
      show (lib.firstLine v e164).isSome = false
      rw [hnew]
      rfl
    rw [filter_rejects_append, hkeeps, if_neg nofun, List.append_nil]
    exact h.indices
  explained := h.explained_append
  numbers hnone := by
    rw [List.map_append, List.map_append, h.numbers hnone, List.map_singleton, hnumber]
    rfl

theorem step (h : lib.Scanned v scan) (raw : String) :
    lib.Scanned (v ++ [raw]) (lib.scanPhone scan v.length raw) := by
  cases hnumber : lib.number raw with
  | none =>
      obtain ⟨reason, hscan⟩ : ∃ reason, lib.scanPhone scan v.length raw = scan.reject v.length raw reason :=
        scanPhone_none hnumber
      rw [hscan]
      refine h.reject ?_ fun e164 he164 => ?_
      · rw [rejects_last, hnumber]
      · rw [hnumber] at he164
        cases he164
  | some e164 =>
      rw [scanPhone_some hnumber, h.seen e164]
      cases hfirst : lib.firstLine v e164 with
      | none => exact h.accept hnumber hfirst
      | some first =>
          refine h.reject ?_ fun other hother => ?_
          · rw [rejects_last, hnumber]
            show (lib.firstLine v e164).isSome = true
            rw [hfirst]
            rfl
          · rw [hnumber] at hother
            exact ⟨first, Option.some.inj hother ▸ hfirst, by rw [Option.some.inj hother]⟩

theorem run (h : lib.Scanned v scan) (rest : List String) :
    lib.Scanned (v ++ rest) (lib.scanPhones scan v.length rest) := by
  induction rest generalizing v scan with
  | nil =>
      rw [List.append_nil]
      exact h
  | cons raw rest ih =>
      have hlater := ih (h.step raw)
      rw [List.append_assoc, List.length_append, List.length_singleton] at hlater
      exact hlater

end Scanned

theorem scanned (v : List String) : lib.Scanned v (lib.scanPhones {} 0 v) := Scanned.empty.run v

/-! ### The result -/

/-- Lines that carry pairwise distinct numbers are not reported. -/
theorem rejects_numbered {phones : List String} (hnumbers : v.map lib.number = phones.map some)
    (hnodup : phones.Nodup) (idx : Nat) : lib.rejects v idx = false := by
  have hget : ∀ (i : Nat) (raw : String), v[i]? = some raw → ∃ phone, phones[i]? = some phone ∧ lib.number raw = some phone := by
    intro i raw hraw
    have hi : (v.map lib.number)[i]? = some (lib.number raw) := by rw [List.getElem?_map, hraw]; rfl
    rw [hnumbers, List.getElem?_map, Option.map_eq_some_iff] at hi
    obtain ⟨phone, hphone, he⟩ := hi
    exact ⟨phone, hphone, he.symm⟩
  rw [Bool.eq_false_iff]
  intro hrejects
  obtain ⟨raw, hraw, hreason⟩ := (Option.any_eq_true _ _).mp hrejects
  obtain ⟨phone, hphone, hnumber⟩ := hget idx raw hraw
  rw [hnumber] at hreason
  obtain ⟨earlier, hearlier, hsame⟩ := List.any_eq_true.mp hreason
  obtain ⟨i, hi⟩ := List.getElem?_of_mem hearlier
  obtain ⟨hlt, hi⟩ : i < idx ∧ v[i]? = some earlier := by
    rw [List.getElem?_take] at hi
    split at hi
    · next hlt => exact ⟨hlt, hi⟩
    · cases hi
  obtain ⟨other, hother, hotherNumber⟩ := hget i earlier hi
  rw [of_decide_eq_true hsame] at hotherNumber
  rw [← Option.some.inj hotherNumber, ← hphone] at hother
  exact absurd ((List.nodup_iff_getElem?_ne_getElem?.mp hnodup) i idx hlt
    (List.getElem?_eq_some_iff.mp hphone).1) (not_not.mpr hother)

theorem normalizePhones_ok_iff (hv : v ≠ []) {phones : List String} :
    lib.normalizePhones v = .ok phones ↔ v.map lib.number = phones.map some ∧ phones.Nodup := by
  have hscanned := lib.scanned v
  rw [normalizePhones]
  cases herrors : (lib.scanPhones {} 0 v).errors with
  | cons first rest =>
      refine ⟨nofun, fun ⟨hnumbers, hnodup⟩ => ?_⟩
      have hnone : (lib.scanPhones {} 0 v).errors.map PhoneError.index = [] := by
        rw [hscanned.indices, List.filter_eq_nil_iff]
        intro idx _
        rw [rejects_numbered hnumbers hnodup]
        exact nofun
      rw [herrors] at hnone
      cases hnone
  | nil =>
      have hnumbers := hscanned.numbers herrors
      have hsome : (lib.scanPhones {} 0 v).normalized ≠ [] := fun hnil => by
        rw [hnil] at hnumbers
        exact hv (List.map_eq_nil_iff.mp hnumbers)
      show (if _ then _ else _) = _ ↔ _
      rw [if_neg hsome]
      constructor
      · rintro ⟨⟩
        exact ⟨hnumbers, hscanned.nodup⟩
      · rintro ⟨hphones, -⟩
        rw [hnumbers] at hphones
        rw [List.map_injective_iff.mpr (Option.some_injective _) hphones]

theorem normalizePhones_error (hv : v ≠ []) {error : PhonesError} (h : lib.normalizePhones v = .error error) :
    ∃ summary, error = .invalidPhones summary (lib.scanPhones {} 0 v).errors := by
  rw [normalizePhones] at h
  cases herrors : (lib.scanPhones {} 0 v).errors with
  | cons first rest =>
      rw [herrors] at h
      cases h
      exact ⟨_, rfl⟩
  | nil =>
      have hsome : (lib.scanPhones {} 0 v).normalized ≠ [] := fun hnil => by
        have hnumbers := (lib.scanned v).numbers herrors
        rw [hnil] at hnumbers
        exact hv (List.map_eq_nil_iff.mp hnumbers)
      rw [herrors] at h
      dsimp only at h
      rw [if_neg hsome] at h
      cases h

/-- A number that is reported stands on an earlier line. -/
theorem firstLine_lt {e164 : String} {first : Nat} (hrejects : lib.rejects v idx = true) (hraw : v[idx]? = some raw)
    (hnumber : lib.number raw = some e164) (hfirst : lib.firstLine v e164 = some first) : first < idx := by
  rw [rejects, hraw, Option.any_some, hnumber] at hrejects
  obtain ⟨earlier, hearlier, hsame⟩ := List.any_eq_true.mp hrejects
  by_contra hlate
  obtain ⟨hlt, -, hbefore⟩ := List.findIdx?_eq_some_iff_getElem.mp hfirst
  obtain ⟨i, hi, hget⟩ := List.mem_take_iff_getElem.mp hearlier
  have hnot := hbefore i (by omega)
  rw [hget] at hnot
  exact hnot hsame

/-- The phones of the rows that `create_batch` inserts are those of the request. -/
theorem callRows_phones (body : CampaignCreate) (now : Time) (campaignId : CampaignId) (callIds : List CallId) :
    ((body.callRows now campaignId callIds).map CallRow.phone).Sublist body.phones := by
  have hmap : ∀ (ids : List CallId) (phones : List String),
      ((ids.zipWith (body.callRow now campaignId) phones).map CallRow.phone).Sublist phones := by
    intro ids phones
    induction ids generalizing phones with
    | nil => exact List.nil_sublist _
    | cons id ids ih =>
        cases phones with
        | nil => exact List.nil_sublist _
        | cons phone phones => exact (ih phones).cons_cons phone
  exact hmap callIds body.phones

/-- The list is accepted just when every line carries a number and no two carry the same, and then the result is
those numbers in order; otherwise the lines that do not fit are reported in order, a repeated number with the
first line that carries it. -/
theorem normalize_phones_exact (lib : PhoneNumbers) {v : List String} (hv : v ≠ []) :
    (∀ phones, lib.normalizePhones v = .ok phones ↔ v.map lib.number = phones.map some ∧ phones.Nodup) ∧
    (∀ phones, lib.normalizePhones v = .ok phones → ∀ body : CampaignCreate, body.phones = phones →
      ∀ now campaignId callIds, ((body.callRows now campaignId callIds).map CallRow.phone).Nodup) ∧
    ∀ error, lib.normalizePhones v = .error error → ∃ summary errors, error = .invalidPhones summary errors ∧
      errors.map PhoneError.index = (List.range v.length).filter (lib.rejects v) ∧
      ∀ entry ∈ errors, v[entry.index]? = some entry.input ∧ ∀ e164, lib.number entry.input = some e164 →
        ∃ first, lib.firstLine v e164 = some first ∧ first < entry.index ∧
          entry.reason = duplicateOf first e164 := by
  refine ⟨fun phones => normalizePhones_ok_iff hv, ?_, ?_⟩
  · rintro phones hok body rfl now campaignId callIds
    exact ((normalizePhones_ok_iff hv).mp hok).2.sublist (callRows_phones body now campaignId callIds)
  · intro error herror
    obtain ⟨summary, rfl⟩ := normalizePhones_error hv herror
    have hscanned := lib.scanned v
    refine ⟨summary, _, rfl, hscanned.indices, fun entry hentry => ?_⟩
    obtain ⟨hinput, hreason⟩ := hscanned.explained entry hentry
    refine ⟨hinput, fun e164 he164 => ?_⟩
    obtain ⟨first, hfirst, heq⟩ := hreason e164 he164
    have hmem : entry.index ∈ (List.range v.length).filter (lib.rejects v) :=
      hscanned.indices ▸ List.mem_map_of_mem hentry
    exact ⟨first, hfirst, firstLine_lt (List.mem_filter.mp hmem).2 hinput he164 hfirst, heq⟩

/-- Numbers of `+`, a country code and ten digits. -/
def tenDigits : PhoneNumbers where
  PhoneNumber := String
  parse text := if text = "+x" then .error "(1) The string supplied did not seem to be a phone number." else .ok text
  isValidNumber number := number.length = 12
  formatNumber number := number

/-- One good line, four that carry no number, and the good number twice more. -/
def pastedLines : List String :=
  [" +14155551234 ", "4155551234", "+x", "+12", "", "+14155551234", "+14155551234\n", "+12025550123"]

theorem normalize_phones_exact_pasted : ∃ summary errors,
    tenDigits.normalizePhones pastedLines = .error (.invalidPhones summary errors) ∧
      errors.map PhoneError.index = [1, 2, 3, 4, 5, 6] ∧
      ∀ entry ∈ errors, tenDigits.number entry.input = some "+14155551234" →
        entry.reason = "duplicate of line 1 (same E.164: +14155551234)" := by
  cases herror : tenDigits.normalizePhones pastedLines with
  | ok phones =>
      have hfails : (tenDigits.normalizePhones pastedLines).toBool = false := by decide +kernel
      rw [herror] at hfails
      cases hfails
  | error error =>
      obtain ⟨summary, errors, rfl, hindices, hentries⟩ :=
        (@normalize_phones_exact tenDigits pastedLines (by decide)).2.2 error herror
      refine ⟨summary, errors, rfl, hindices.trans (by decide +kernel), fun entry hentry hnumber => ?_⟩
      obtain ⟨first, hfirst, -, hreason⟩ := (hentries entry hentry).2 _ hnumber
      have hzero : tenDigits.firstLine pastedLines "+14155551234" = some 0 := by decide +kernel
      rw [hzero] at hfirst
      rw [hreason, ← Option.some.inj hfirst]
      decide +kernel

example : tenDigits.normalizePhones ["+14155551234", " +12025550123"] = .ok ["+14155551234", "+12025550123"] := by
  decide +kernel

end PhoneNumbers

end VoiceCampaign

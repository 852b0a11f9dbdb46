import Mathlib.Data.List.Sort
import Mathlib.Data.List.Nodup

/-!
# Keyset pagination

A table is read page by page: each fetch sorts the rows beyond a cursor by descending key and takes the
first few, and the key of the last one is the next cursor. Between two fetches the table may change. A
reading that ends has returned every row exactly once, as long as no row has moved across its cursor.
-/

namespace Concurrency.Keyset

variable {α κ ι ε : Type} [LinearOrder κ]

/-! ### Pages -/

section

variable (key : α → κ)

/-- `ORDER BY key DESC`. -/
def descending (rows : List α) : List α := rows.insertionSort fun a b => key b ≤ key a

/-- `key < cursor`, when there is a cursor. -/
def beyond (cursor : Option κ) (row : α) : Bool :=
  match cursor with
  | none => true
  | some bound => key row < bound

/-- `WHERE key < cursor ORDER BY key DESC LIMIT limit`. -/
def page (rows : List α) (cursor : Option κ) (limit : Nat) : List α :=
  (descending key (rows.filter (beyond key cursor))).take limit

/-- The key of the last row of a full page. -/
def nextCursor (limit : Nat) (result : List α) : Option κ :=
  if result.length = limit then result.getLast?.map key else none

end

section

variable {key : α → κ} {limit : Nat}

omit [LinearOrder κ] in
theorem nextCursor_some {result : List α} {bound : κ} (h : nextCursor key limit result = some bound) :
    result.length = limit ∧ ∃ last, result.getLast? = some last ∧ key last = bound := by
  rw [nextCursor] at h
  split at h
  · next hfull => exact ⟨hfull, Option.map_eq_some_iff.mp h⟩
  · cases h

omit [LinearOrder κ] in
theorem nextCursor_full {front : List α} {last : α} (h : (front ++ [last]).length = limit) :
    nextCursor key limit (front ++ [last]) = some (key last) := by
  rw [nextCursor, if_pos h, List.getLast?_concat]
  rfl

end

/-! ### Rows with keys of their own -/

/-- The keys tell the rows apart. -/
def Distinct (key : α → κ) (rows : List α) : Prop := (rows.map key).Nodup

section

variable {key : α → κ} {rows : List α} {cursor : Option κ} {limit : Nat} {row : α}

omit [LinearOrder κ] in
theorem Distinct.filter (h : Distinct key rows) (p : α → Bool) : Distinct key (rows.filter p) :=
  List.Nodup.sublist (List.filter_sublist.map key) h

theorem mem_descending : row ∈ descending key rows ↔ row ∈ rows := List.mem_insertionSort _

theorem Distinct.descending (h : Distinct key rows) :
    (descending key rows).Pairwise fun a b => key b < key a := by
  have hsorted : (Keyset.descending key rows).Pairwise fun a b => key b ≤ key a := by
    have : Std.Total fun a b : α => key b ≤ key a := ⟨fun a b => le_total (key b) (key a)⟩
    have : IsTrans α fun a b => key b ≤ key a := ⟨fun _ _ _ hab hbc => hbc.trans hab⟩
    exact List.pairwise_insertionSort _ rows
  have hdistinct : ((Keyset.descending key rows).map key).Nodup :=
    ((List.perm_insertionSort _ rows).map key).nodup_iff.mpr h
  rw [List.Nodup, List.pairwise_map] at hdistinct
  exact (hsorted.and hdistinct).imp fun hab => lt_of_le_of_ne hab.1 (Ne.symm hab.2)

theorem Distinct.page (h : Distinct key rows) :
    (page key rows cursor limit).Pairwise fun a b => key b < key a :=
  List.Pairwise.sublist (List.take_sublist _ _) (h.filter _).descending

theorem beyond_of_mem_page (h : row ∈ page key rows cursor limit) :
    row ∈ rows ∧ beyond key cursor row = true := by
  have hmem := mem_descending.mp (List.mem_of_mem_take h)
  exact List.mem_filter.mp hmem

/-- The next cursor is the least key of the page. -/
theorem Distinct.nextCursor_le (h : Distinct key rows) {bound : κ}
    (hnext : nextCursor key limit (Keyset.page key rows cursor limit) = some bound)
    (hrow : row ∈ Keyset.page key rows cursor limit) : bound ≤ key row := by
  obtain ⟨-, last, hlast, rfl⟩ := nextCursor_some hnext
  obtain ⟨front, hpage⟩ := List.getLast?_eq_some_iff.mp hlast
  have hsorted : (Keyset.page key rows cursor limit).Pairwise fun a b => key b < key a := h.page
  rw [hpage] at hrow hsorted
  rcases List.mem_append.mp hrow with hfront | hlast
  · exact ((List.pairwise_append.mp hsorted).2.2 row hfront last (List.mem_singleton_self last)).le
  · rw [List.mem_singleton.mp hlast]

/-- A page holds what lies between its cursor and the next. -/
theorem Distinct.mem_page (h : Distinct key rows) (hlimit : 0 < limit) (hrow : row ∈ rows)
    (hbeyond : beyond key cursor row = true)
    (hnext : ∀ bound, nextCursor key limit (Keyset.page key rows cursor limit) = some bound → bound ≤ key row) :
    row ∈ Keyset.page key rows cursor limit := by
  have hsorted := (h.filter (beyond key cursor)).descending
  have hmem : row ∈ Keyset.descending key (rows.filter (beyond key cursor)) :=
    mem_descending.mpr (List.mem_filter.mpr ⟨hrow, hbeyond⟩)
  rw [← List.take_append_drop limit (Keyset.descending key (rows.filter (beyond key cursor)))] at hsorted hmem
  rcases List.mem_append.mp hmem with hpage | hrest
  · exact hpage
  -- a row left over means that the page is full, and its last key above the row's
  have hfull : (Keyset.page key rows cursor limit).length = limit := by
    have hlt := List.length_pos_of_mem hrest
    rw [List.length_drop] at hlt
    rw [Keyset.page, List.length_take]
    omega
  obtain ⟨front, last, hpage⟩ : ∃ front last, Keyset.page key rows cursor limit = front ++ [last] := by
    refine ⟨_, _, (List.dropLast_append_getLast ?_).symm⟩
    rintro hnil
    rw [hnil] at hfull
    exact hlimit.ne hfull
  have hle := hnext (key last) (by
    rw [hpage] at hfull ⊢
    exact nextCursor_full hfull)
  have hlast : last ∈ (Keyset.descending key (rows.filter (beyond key cursor))).take limit := by
    rw [Keyset.page] at hpage
    rw [hpage]
    exact List.mem_append_right _ (List.mem_singleton_self last)
  exact absurd ((List.pairwise_append.mp hsorted).2.2 last hlast row hrest) hle.not_gt

end

/-! ### Readings -/

/-- What a reader has got so far, and where it is to go on. -/
structure Reading (α κ : Type) where
  pages : List (List α) := []
  cursor : Option κ := none
  finished : Bool := false

def Reading.returned (reading : Reading α κ) : List α := reading.pages.flatten

/-- The reader follows the next cursor until there is none. -/
def Reading.turn (reading : Reading α κ) (answer : List α × Option κ) : Reading α κ where
  pages := reading.pages ++ [answer.1]
  cursor := answer.2
  finished := answer.2.isNone

/-- The first fetches of a reader, the `n`-th of which is `fetch n`. -/
def walk (fetch : Nat → Option κ → Except ε (List α × Option κ)) : Nat → Except ε (Reading α κ)
  | 0 => .ok {}
  | n + 1 => do
      let reading ← walk fetch n
      if reading.finished = true then
        pure reading
      else
        let answer ← fetch n reading.cursor
        pure (reading.turn answer)

section

variable (key : α → κ)

/-- The answer to a fetch. -/
def answer (rows : List α) (limit : Nat) (cursor : Option κ) : List α × Option κ :=
  (page key rows cursor limit, nextCursor key limit (page key rows cursor limit))

/-- What has been returned comes in descending order, and lies before the cursor. -/
structure Descends (reading : Reading α κ) : Prop where
  sorted : reading.returned.Pairwise fun a b => key b < key a
  passed : ∀ row ∈ reading.returned, beyond key reading.cursor row = true → reading.finished = true

/-- Of the rows there are, those behind the cursor have been returned, if they were there from the start,
and those ahead have not. -/
structure Exact (ident : α → ι) (start : ι → Prop) (rows : List α) (reading : Reading α κ) : Prop where
  once : (reading.returned.map ident).Nodup
  known : ∀ row ∈ reading.returned, ∃ row' ∈ rows, ident row' = ident row
  ahead : reading.finished = false → ∀ row ∈ rows, beyond key reading.cursor row = true →
    ident row ∉ reading.returned.map ident
  behind : ∀ row ∈ rows, start (ident row) →
    (reading.finished = false → beyond key reading.cursor row = false) →
    ident row ∈ reading.returned.map ident

/-- The table changes under the reader: rows may come, and none moves across the cursor. -/
structure Settled (ident : α → ι) (start : ι → Prop) (reading : Reading α κ) (rows rows' : List α) :
    Prop where
  kept : ∀ row ∈ rows, ∃ row' ∈ rows', ident row' = ident row
  new : ∀ row' ∈ rows', (∀ row ∈ rows, ident row ≠ ident row') → ¬ start (ident row')
  still : reading.finished = false → ∀ row ∈ rows, ∀ row' ∈ rows', ident row' = ident row →
    beyond key reading.cursor row' = beyond key reading.cursor row

end

section

variable {key : α → κ} {ident : α → ι} {start : ι → Prop} {rows rows' : List α} {cursor : Option κ}
  {limit : Nat} {row : α} {reading : Reading α κ}

omit [LinearOrder κ] in
@[simp] theorem Reading.returned_turn (reading : Reading α κ) (answer : List α × Option κ) :
    (reading.turn answer).returned = reading.returned ++ answer.1 := by
  simp [Reading.returned, Reading.turn]

theorem lt_of_beyond {a b : α} (ha : beyond key cursor a = false) (hb : beyond key cursor b = true) :
    key b < key a := by
  cases cursor with
  | none => cases ha
  | some bound => exact (of_decide_eq_true hb).trans_le (not_lt.mp (of_decide_eq_false ha))

/-- The cursor only goes down. -/
theorem beyond_of_next {bound : κ}
    (hnext : nextCursor key limit (page key rows cursor limit) = some bound) (hrow : key row < bound) :
    beyond key cursor row = true := by
  obtain ⟨-, last, hlast, rfl⟩ := nextCursor_some hnext
  obtain ⟨-, hbeyond⟩ := beyond_of_mem_page (List.mem_of_getLast? hlast)
  cases cursor with
  | none => rfl
  | some old => exact decide_eq_true (hrow.trans (of_decide_eq_true hbeyond))

theorem Descends.empty : Descends key ({} : Reading α κ) := ⟨.nil, nofun⟩

theorem Descends.turn (h : Descends key reading) (hdistinct : Distinct key rows)
    (hmore : reading.finished = false) :
    Descends key (reading.turn (answer key rows limit reading.cursor)) := by
  have hpassed : ∀ row ∈ reading.returned, beyond key reading.cursor row = false := fun row hrow => by
    by_contra hbeyond
    rw [h.passed row hrow (eq_true_of_ne_false hbeyond)] at hmore
    cases hmore
  refine ⟨?_, fun row hrow hbeyond => ?_⟩
  · rw [Reading.returned_turn, List.pairwise_append]
    exact ⟨h.sorted, hdistinct.page, fun a ha b hb =>
      lt_of_beyond (hpassed a ha) (beyond_of_mem_page hb).2⟩
  · rw [Reading.returned_turn] at hrow
    replace hbeyond : beyond key (nextCursor key limit (page key rows reading.cursor limit)) row = true := hbeyond
    show (nextCursor key limit (page key rows reading.cursor limit)).isNone = true
    cases hnext : nextCursor key limit (page key rows reading.cursor limit) with
    | none => rfl
    | some bound =>
        rw [hnext] at hbeyond
        have hlt : key row < bound := of_decide_eq_true hbeyond
        rcases List.mem_append.mp hrow with hold | hpage
        · exact absurd ((hpassed row hold).symm.trans (beyond_of_next hnext hlt)) nofun
        · exact absurd (hdistinct.nextCursor_le hnext hpage) hlt.not_ge

theorem Exact.empty (ident : α → ι) (start : ι → Prop) (rows : List α) :
    Exact key ident start rows {} where
  once := .nil
  known _ h := nomatch h
  ahead _ _ _ _ := nofun
  behind _ _ _ h := nomatch h rfl

theorem Exact.moves (h : Exact key ident start rows reading)
    (hsettled : Settled key ident start reading rows rows') : Exact key ident start rows' reading where
  once := h.once
  known row hrow := by
    obtain ⟨row', hrow', he⟩ := h.known row hrow
    obtain ⟨row'', hrow'', he'⟩ := hsettled.kept row' hrow'
    exact ⟨row'', hrow'', he'.trans he⟩
  ahead hmore row' hrow' hbeyond hreturned := by
    obtain ⟨old, hold, he⟩ := List.mem_map.mp hreturned
    obtain ⟨row, hrow, he'⟩ := h.known old hold
    refine h.ahead hmore row hrow ?_ (he' ▸ List.mem_map_of_mem hold)
    rw [← hsettled.still hmore row hrow row' hrow' (he.symm.trans he'.symm), hbeyond]
  behind row' hrow' hstart hpassed := by
    by_cases hnew : ∀ row ∈ rows, ident row ≠ ident row'
    · exact absurd hstart (hsettled.new row' hrow' hnew)
    · push Not at hnew
      obtain ⟨row, hrow, he⟩ := hnew
      rw [← he] at hstart ⊢
      refine h.behind row hrow hstart fun hmore => ?_
      rw [← hsettled.still hmore row hrow row' hrow' he.symm, hpassed hmore]

theorem Exact.turn (h : Exact key ident start rows reading) (hdistinct : Distinct key rows)
    (hidents : (rows.map ident).Nodup) (hlimit : 0 < limit) (hmore : reading.finished = false) :
    Exact key ident start rows (reading.turn (answer key rows limit reading.cursor)) := by
  have hsame : ∀ a ∈ rows, ∀ b ∈ rows, ident a = ident b → a = b := fun a ha b hb he =>
    List.inj_on_of_nodup_map hidents ha hb he
  refine ⟨?_, fun row hrow => ?_, fun hmore' row hrow hbeyond => ?_, fun row hrow hstart hpassed => ?_⟩
  · rw [Reading.returned_turn, List.map_append]
    refine List.nodup_append.mpr ⟨h.once, ?_, ?_⟩
    · have hall : ((descending key (rows.filter (beyond key reading.cursor))).map ident).Nodup :=
        ((List.perm_insertionSort _ _).map ident).nodup_iff.mpr (Distinct.filter hidents _)
      exact List.Nodup.sublist ((List.take_sublist _ _).map ident) hall
    · rintro i hold _ hpage rfl
      obtain ⟨row, hrow, rfl⟩ := List.mem_map.mp hpage
      obtain ⟨hmem, hbeyond⟩ := beyond_of_mem_page hrow
      exact h.ahead hmore row hmem hbeyond hold
  · rw [Reading.returned_turn] at hrow
    rcases List.mem_append.mp hrow with hold | hpage
    · exact h.known row hold
    · exact ⟨row, (beyond_of_mem_page hpage).1, rfl⟩
  · obtain ⟨bound, hnext⟩ : ∃ bound, nextCursor key limit (page key rows reading.cursor limit) = some bound :=
      Option.isSome_iff_exists.mp (by simpa [Reading.turn, answer] using hmore')
    have hlt : key row < bound := by simpa [Reading.turn, answer, hnext, beyond] using hbeyond
    rw [Reading.returned_turn, List.map_append, List.mem_append]
    rintro (hold | hpage)
    · exact h.ahead hmore row hrow (beyond_of_next hnext hlt) hold
    · obtain ⟨other, hother, he⟩ := List.mem_map.mp hpage
      rw [hsame other (beyond_of_mem_page hother).1 row hrow he] at hother
      exact (hdistinct.nextCursor_le hnext hother).not_gt hlt
  · rw [Reading.returned_turn, List.map_append, List.mem_append]
    cases hbeyond : beyond key reading.cursor row with
    | false => exact Or.inl (h.behind row hrow hstart fun _ => hbeyond)
    | true =>
        refine Or.inr (List.mem_map_of_mem (hdistinct.mem_page hlimit hrow hbeyond fun bound hnext => ?_))
        have hpassed' : beyond key (some bound) row = false := by
          simpa [Reading.turn, answer, hnext] using hpassed
        exact not_lt.mp (of_decide_eq_false hpassed')

end

/-! ### A table that only grows -/

/-- Rows come, with identifiers of their own, and none goes. -/
structure Growing (ident : α → ι) (rows : Nat → List α) : Prop where
  grows : ∀ n, rows n ⊆ rows (n + 1)
  idents : ∀ n, ((rows n).map ident).Nodup

/-- What a reading of the rows is to be: in strictly descending order, without repetition, and complete. -/
structure Complete (key : α → κ) (ident : α → ι) (rows : List α) (reading : Reading α κ) : Prop where
  sorted : reading.returned.Pairwise fun a b => key b < key a
  once : (reading.returned.map ident).Nodup
  complete : reading.finished = true → ∀ row ∈ rows, row ∈ reading.returned

section

variable {key : α → κ} {ident : α → ι} {rows : Nat → List α} {limit : Nat}
  {fetch : Nat → Option κ → Except ε (List α × Option κ)}

omit [LinearOrder κ] in
theorem Growing.filter (h : Growing ident rows) (p : α → Bool) : Growing ident fun n => (rows n).filter p where
  grows n _ hrow := List.mem_filter.mpr ⟨h.grows n (List.mem_filter.mp hrow).1, (List.mem_filter.mp hrow).2⟩
  idents n := Distinct.filter (h.idents n) p

theorem Growing.mono (h : Growing ident rows) (n : Nat) : rows 0 ⊆ rows n := by
  induction n with
  | zero => exact fun _ hrow => hrow
  | succ n ih => exact fun _ hrow => h.grows n (ih hrow)

theorem Growing.settled (h : Growing ident rows) (n : Nat) (reading : Reading α κ) :
    Settled key ident (fun i => ∃ row ∈ rows 0, ident row = i) reading (rows n) (rows (n + 1)) where
  kept row hrow := ⟨row, h.grows n hrow, rfl⟩
  new row' hrow' hnew := by
    rintro ⟨row, hrow, he⟩
    exact hnew row (h.mono n hrow) he
  still hmore row hrow row' hrow' he := by
    rw [List.inj_on_of_nodup_map (h.idents (n + 1)) hrow' (h.grows n hrow) he]

/-- What the first `n` fetches return. -/
structure Walked (key : α → κ) (ident : α → ι) (rows : Nat → List α) (limit n : Nat) (reading : Reading α κ) :
    Prop where
  descends : Descends key reading
  exact : Exact key ident (fun i => ∃ row ∈ rows 0, ident row = i) (rows n) reading
  found : reading.returned ⊆ rows n
  full : reading.finished = false → reading.returned.length = n * limit

theorem Growing.walk (h : Growing ident rows) (hdistinct : ∀ n, Distinct key (rows n)) (hlimit : 0 < limit)
    (hfetch : ∀ n cursor, fetch n cursor = .ok (answer key (rows (n + 1)) limit cursor)) (n : Nat) :
    ∃ reading, Keyset.walk fetch n = .ok reading ∧ Walked key ident rows limit n reading := by
  induction n with
  | zero => exact ⟨{}, rfl, .empty, .empty _ _ _, nofun, fun _ => (Nat.zero_mul limit).symm⟩
  | succ n ih =>
      obtain ⟨reading, hwalk, hwalked⟩ := ih
      have hexact := hwalked.exact.moves (h.settled n reading)
      cases hmore : reading.finished with
      | true =>
          refine ⟨reading, ?_, hwalked.descends, hexact, fun _ hrow => h.grows n (hwalked.found hrow), ?_⟩
          · rw [Keyset.walk, hwalk]
            show (if reading.finished = true then pure reading else _ : Except ε (Reading α κ)) = .ok reading
            rw [if_pos hmore]
            rfl
          · rw [hmore]
            exact nofun
      | false =>
          refine ⟨reading.turn (answer key (rows (n + 1)) limit reading.cursor), ?_,
            hwalked.descends.turn (hdistinct (n + 1)) hmore,
            hexact.turn (hdistinct (n + 1)) (h.idents (n + 1)) hlimit hmore, ?_, ?_⟩
          · rw [Keyset.walk, hwalk]
            show (if reading.finished = true then pure reading
              else fetch n reading.cursor >>= fun answer => pure (reading.turn answer) :
                Except ε (Reading α κ)) = _
            rw [if_neg (by rw [hmore]; exact nofun), hfetch]
            rfl
          · rw [Reading.returned_turn]
            intro row hrow
            rcases List.mem_append.mp hrow with hold | hpage
            · exact h.grows n (hwalked.found hold)
            · exact (beyond_of_mem_page hpage).1
          · intro hmore'
            obtain ⟨bound, hnext⟩ : ∃ bound, (answer key (rows (n + 1)) limit reading.cursor).2 = some bound :=
              Option.isSome_iff_exists.mp (by simpa [Reading.turn] using hmore')
            rw [Reading.returned_turn, List.length_append, hwalked.full hmore, Nat.succ_mul]
            exact congrArg _ (nextCursor_some hnext).1

theorem Walked.complete (h : Growing ident rows) {n : Nat} {reading : Reading α κ}
    (hwalked : Walked key ident rows limit n reading) : Complete key ident (rows 0) reading where
  sorted := hwalked.descends.sorted
  once := hwalked.exact.once
  complete hfinished row hrow := by
    have hbehind := hwalked.exact.behind row (h.mono n hrow) ⟨row, hrow, rfl⟩ fun hmore => by
      rw [hfinished] at hmore
      cases hmore
    obtain ⟨other, hother, he⟩ := List.mem_map.mp hbehind
    rw [← List.inj_on_of_nodup_map (h.idents n) (hwalked.found hother) (h.mono n hrow) he]
    exact hother

/-- Where the table stays within bounds, the reading comes to its end. -/
theorem Walked.finished {final : List α} (hfinal : ∀ n, rows n ⊆ final) (hlimit : 0 < limit)
    {reading : Reading α κ} (hwalked : Walked key ident rows limit (final.length + 1) reading) :
    reading.finished = true := by
  by_contra hmore
  have hnodup : reading.returned.Nodup := hwalked.exact.once.of_map
  have hle := (List.subperm_of_subset hnodup fun _ hrow => hfinal _ (hwalked.found hrow)).length_le
  rw [hwalked.full (eq_false_of_ne_true hmore)] at hle
  have hmul := Nat.le_mul_of_pos_right (final.length + 1) hlimit
  omega

end

end Concurrency.Keyset

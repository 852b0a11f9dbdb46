import VoiceCampaign.Concurrency.Keyset

/-!
# Clients that read a table page by page

A client fetches pages over an interface that shows the rows and hands out the cursors in forms of its own, while
the system takes steps. Where the rows keep their keys, what is shown is a reading of the table: every row that
was there at the start is shown exactly once, and every fetch is answered.
-/

namespace Concurrency.Keyset

variable {σ α κ ι ρ τ ε : Type} [LinearOrder κ]

/-- Steps of the system and fetches, in any order, from `s₀` on. -/
inductive Browsing (step : σ → σ → Prop) (fetch : σ → Option τ → Except ε (List ρ × Option τ)) (s₀ : σ) :
    σ → Reading ρ τ → Prop
  | start : Browsing step fetch s₀ s₀ {}
  | step {s s' : σ} {shown : Reading ρ τ} (h : Browsing step fetch s₀ s shown) (hstep : step s s') :
      Browsing step fetch s₀ s' shown
  | fetch {s : σ} {shown : Reading ρ τ} {result : List ρ × Option τ} (h : Browsing step fetch s₀ s shown)
      (hmore : shown.finished = false) (hfetch : fetch s shown.cursor = .ok result) :
      Browsing step fetch s₀ s (shown.turn result)

/-- Rows by their keys. A row may be rewritten, but stays in the table. -/
structure Table (σ α κ ι : Type) where
  rows : σ → List α
  key : α → κ
  ident : α → ι
  evolves : α → α → Prop

/-- A fetch answers with the page of the table beyond the cursor, where keys are `legible`. -/
structure Serves (table : Table σ α κ ι) (good : σ → Prop) (step : σ → σ → Prop) (limit : Nat) (legible : κ → Prop)
    (view : α → ρ → Prop) (encode : κ → τ) (fetch : σ → Option τ → Except ε (List ρ × Option τ)) : Prop where
  limit_pos : 0 < limit
  refl : ∀ row, table.evolves row row
  trans : ∀ {a b c}, table.evolves a b → table.evolves b c → table.evolves a c
  keeps : ∀ {a b}, table.evolves a b → table.key b = table.key a ∧ table.ident b = table.ident a
  preserves : ∀ {s s'}, good s → step s s' → good s'
  idents : ∀ {s}, good s → ((table.rows s).map table.ident).Nodup
  distinct : ∀ {s}, good s → Distinct table.key (table.rows s)
  stays : ∀ {s s'}, good s → step s s' → ∀ row ∈ table.rows s, ∃ row' ∈ table.rows s', table.evolves row row'
  answers : ∀ {s cursor}, good s → (∀ row ∈ table.rows s, legible (table.key row)) →
    (∀ bound ∈ cursor, legible bound) → ∃ page, fetch s (cursor.map encode) =
      .ok (page, (nextCursor table.key limit (Keyset.page table.key (table.rows s) cursor limit)).map encode) ∧
      List.Forall₂ view (Keyset.page table.key (table.rows s) cursor limit) page

/-- What is shown is a reading: `reading` is its side of the table, of which `s₀` and `s` have the rows. -/
structure Shows (table : Table σ α κ ι) (limit : Nat) (legible : κ → Prop) (view : α → ρ → Prop) (encode : κ → τ)
    (s₀ s : σ) (reading : Reading α κ) (shown : Reading ρ τ) : Prop where
  returned : List.Forall₂ view reading.returned shown.returned
  cursor : shown.cursor = reading.cursor.map encode
  finished : shown.finished = reading.finished
  legible : ∀ bound ∈ reading.cursor, legible bound
  exact : Exact table.key table.ident (fun i => ∃ row ∈ table.rows s₀, table.ident row = i) (table.rows s) reading
  descends : Descends table.key reading
  known : ∀ row ∈ reading.returned, ∃ row' ∈ table.rows s, table.evolves row row'
  full : shown.finished = false → shown.returned.length = shown.pages.length * limit

section

variable {table : Table σ α κ ι} {good : σ → Prop} {step : σ → σ → Prop} {limit : Nat} {legible : κ → Prop}
  {view : α → ρ → Prop} {encode : κ → τ} {fetch : σ → Option τ → Except ε (List ρ × Option τ)}
  {s₀ s s' : σ} {reading : Reading α κ} {shown : Reading ρ τ}

theorem Shows.start (s : σ) : Shows table limit legible view encode s s {} {} where
  returned := .nil
  cursor := rfl
  finished := rfl
  legible := by rintro bound ⟨⟩
  exact := .empty _ _ _
  descends := .empty
  known := List.forall_mem_nil _
  full _ := (Nat.zero_mul limit).symm

/-- The rows that were there keep their places on either side of the cursor. -/
theorem Serves.settled (h : Serves table good step limit legible view encode fetch) (hs : good s) (hstep : step s s')
    {start : ι → Prop} (hstart : ∀ i, start i → ∃ row ∈ table.rows s, table.ident row = i) (reading : Reading α κ) :
    Settled table.key table.ident start reading (table.rows s) (table.rows s') where
  kept row hrow := by
    obtain ⟨row', hrow', hevolves⟩ := h.stays hs hstep row hrow
    exact ⟨row', hrow', (h.keeps hevolves).2⟩
  new row' _ hnew hstarted := by
    obtain ⟨row, hrow, he⟩ := hstart _ hstarted
    exact hnew row hrow he
  still _ row hrow row' hrow' he := by
    obtain ⟨next, hnext, hevolves⟩ := h.stays hs hstep row hrow
    have hsame : next = row' := List.inj_on_of_nodup_map (h.idents (h.preserves hs hstep)) hnext hrow'
      ((h.keeps hevolves).2.trans he.symm)
    rw [← hsame]
    cases reading.cursor with
    | none => rfl
    | some bound => rw [beyond, beyond, (h.keeps hevolves).1]

theorem Shows.moves (h : Serves table good step limit legible view encode fetch) (hs : good s) (hstep : step s s')
    (hstays : ∀ row ∈ table.rows s₀, ∃ row' ∈ table.rows s, table.evolves row row')
    (hshows : Shows table limit legible view encode s₀ s reading shown) :
    Shows table limit legible view encode s₀ s' reading shown where
  returned := hshows.returned
  cursor := hshows.cursor
  finished := hshows.finished
  legible := hshows.legible
  exact := by
    refine hshows.exact.moves (h.settled hs hstep ?_ reading)
    rintro _ ⟨row, hrow, rfl⟩
    obtain ⟨row', hrow', hevolves⟩ := hstays row hrow
    exact ⟨row', hrow', (h.keeps hevolves).2⟩
  descends := hshows.descends
  known row hrow := by
    obtain ⟨row', hrow', hevolves⟩ := hshows.known row hrow
    obtain ⟨row'', hrow'', hevolves'⟩ := h.stays hs hstep row' hrow'
    exact ⟨row'', hrow'', h.trans hevolves hevolves'⟩
  full := hshows.full

/-- A fetch is answered with the next page of the reading. -/
theorem Shows.turn (h : Serves table good step limit legible view encode fetch) (hs : good s)
    (hlegible : ∀ row ∈ table.rows s, legible (table.key row))
    (hshows : Shows table limit legible view encode s₀ s reading shown) (hmore : shown.finished = false) :
    ∃ result, fetch s shown.cursor = .ok result ∧ Shows table limit legible view encode s₀ s
      (reading.turn (answer table.key (table.rows s) limit reading.cursor)) (shown.turn result) := by
  have hunfinished : reading.finished = false := hshows.finished ▸ hmore
  obtain ⟨page, hpage, hview⟩ := h.answers hs hlegible hshows.legible
  rw [← hshows.cursor] at hpage
  refine ⟨_, hpage, ?_, rfl, ?_, fun bound hbound => ?_,
    hshows.exact.turn (h.distinct hs) (h.idents hs) h.limit_pos hunfinished,
    hshows.descends.turn (h.distinct hs) hunfinished, fun row hrow => ?_, fun hopen => ?_⟩
  · rw [Reading.returned_turn, Reading.returned_turn]
    exact List.rel_append hshows.returned hview
  · show Option.isNone (Option.map _ _) = Option.isNone _
    rw [Option.isNone_map]
    rfl
  · obtain ⟨-, last, hlast, rfl⟩ := nextCursor_some hbound
    exact hlegible last (beyond_of_mem_page (List.mem_of_getLast? hlast)).1
  · rw [Reading.returned_turn] at hrow
    rcases List.mem_append.mp hrow with hold | hnew
    · exact hshows.known row hold
    · exact ⟨row, (beyond_of_mem_page hnew).1, h.refl row⟩
  · obtain ⟨bound, hbound⟩ : ∃ bound, nextCursor table.key limit (Keyset.page table.key (table.rows s) reading.cursor
        limit) = some bound := by
      refine Option.isSome_iff_exists.mp ?_
      have hsome : Option.isNone (Option.map encode _) = false := hopen
      rw [Option.isNone_map] at hsome
      exact Option.isSome_iff_ne_none.mpr fun hnone => by rw [hnone] at hsome; cases hsome
    have hlength : page.length = limit := hview.length_eq.symm.trans (nextCursor_some hbound).1
    show (shown.turn _).returned.length = (shown.pages ++ [page]).length * limit
    rw [Reading.returned_turn, List.length_append, hshows.full hmore, List.length_append, List.length_singleton,
      Nat.succ_mul]
    exact congrArg _ hlength

theorem Browsing.kept (hbrowsing : Browsing step fetch s₀ s shown)
    (h : Serves table good step limit legible view encode fetch) (hs : good s₀) : good s := by
  induction hbrowsing with
  | start => exact hs
  | step _ hstep ih => exact h.preserves ih hstep
  | fetch _ _ _ ih => exact ih

/-- Whatever a client is shown is a reading of the table. -/
theorem Serves.browsed (h : Serves table good step limit legible view encode fetch) (hs : good s₀)
    (hbrowsing : Browsing step fetch s₀ s shown) (hlegible : ∀ row ∈ table.rows s, legible (table.key row)) :
    (∀ row ∈ table.rows s₀, ∃ row' ∈ table.rows s, table.evolves row row') ∧
      ∃ reading, Shows table limit legible view encode s₀ s reading shown := by
  induction hbrowsing with
  | start => exact ⟨fun row hrow => ⟨row, hrow, h.refl row⟩, {}, .start s₀⟩
  | step hbefore hstep ih =>
      have hstays := h.stays (hbefore.kept h hs) hstep
      obtain ⟨hold, reading, hshows⟩ := ih fun row hrow => by
        obtain ⟨row', hrow', hevolves⟩ := hstays row hrow
        exact (h.keeps hevolves).1 ▸ hlegible row' hrow'
      refine ⟨fun row hrow => ?_, reading, hshows.moves h (hbefore.kept h hs) hstep hold⟩
      obtain ⟨row', hrow', hevolves⟩ := hold row hrow
      obtain ⟨row'', hrow'', hevolves'⟩ := hstays row' hrow'
      exact ⟨row'', hrow'', h.trans hevolves hevolves'⟩
  | fetch hbefore hmore hfetch ih =>
      obtain ⟨hstays, reading, hshows⟩ := ih hlegible
      obtain ⟨result, hresult, hnext⟩ := hshows.turn h (hbefore.kept h hs) hlegible hmore
      rw [hfetch] at hresult
      obtain rfl := Except.ok.inj hresult
      exact ⟨hstays, _, hnext⟩

/-! ### What a client may conclude -/

theorem Shows.complete (h : Serves table good step limit legible view encode fetch)
    (hstays : ∀ row ∈ table.rows s₀, ∃ row' ∈ table.rows s, table.evolves row row')
    (hshows : Shows table limit legible view encode s₀ s reading shown) (hfinished : shown.finished = true) {row : α}
    (hrow : row ∈ table.rows s₀) : table.ident row ∈ reading.returned.map table.ident := by
  obtain ⟨row', hrow', hevolves⟩ := hstays row hrow
  have hident := (h.keeps hevolves).2
  rw [← hident]
  refine hshows.exact.behind row' hrow' ⟨row, hrow, hident.symm⟩ fun hmore => ?_
  rw [← hshows.finished, hfinished] at hmore
  cases hmore

/-- As long as the reading goes on, its full pages hold rows of the table, none of them twice. -/
theorem Shows.bounded (hshows : Shows table limit legible view encode s₀ s reading shown)
    (hmore : shown.finished = false) : shown.pages.length * limit ≤ (table.rows s).length := by
  have hsub : reading.returned.map table.ident ⊆ (table.rows s).map table.ident := fun i hi => by
    obtain ⟨row, hrow, rfl⟩ := List.mem_map.mp hi
    obtain ⟨row', hrow', he⟩ := hshows.exact.known row hrow
    exact he ▸ List.mem_map_of_mem hrow'
  have hle := (List.subperm_of_subset hshows.exact.once hsub).length_le
  rw [List.length_map, List.length_map, hshows.returned.length_eq, hshows.full hmore] at hle
  exact hle

end

end Concurrency.Keyset

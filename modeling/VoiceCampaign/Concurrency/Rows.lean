import Mathlib.Data.List.Forall2
import Mathlib.Data.List.Nodup
import Mathlib.Algebra.Order.Group.Nat
import Mathlib.Tactic.Linarith

/-!
# Keyed tables

A table is a list of rows with a key. `overlay` is how a transaction's own row versions shadow the
committed ones, and what a commit does to the table; `oldest` is `ORDER BY .. ASC LIMIT 1`, where rows
that tie on the sort column may come back in any order. A log replays where its entries form a chain, and a
table is followed by another where its rows are, one by one.
-/

namespace Concurrency

variable {Row Key : Type} [DecidableEq Key] {key : Row → Key}

/-- The row of a table with a given key. -/
def lookup (key : Row → Key) (rows : List Row) (k : Key) : Option Row :=
  rows.find? fun row => key row = k

/-- The table as seen through the versions in `news`. -/
def overlay (key : Row → Key) (news rows : List Row) : List Row :=
  rows.map fun row => (lookup key news (key row)).getD row

/-- The versions in `news` with the one of `row` replaced. -/
def put (key : Row → Key) (row : Row) (news : List Row) : List Row :=
  row :: news.filter fun other => key other ≠ key row

/-- Replace the row with the same key, or append it. -/
def upsert (key : Row → Key) (rows : List Row) (row : Row) : List Row :=
  if rows.any fun other => key other = key row then overlay key [row] rows else rows ++ [row]

theorem lookup_cons (head : Row) (tail : List Row) (k : Key) :
    lookup key (head :: tail) k = if key head = k then some head else lookup key tail k := by
  rw [lookup, List.find?_cons]
  by_cases h : key head = k <;> simp [h, lookup]

theorem lookup_some {rows : List Row} {k : Key} {row : Row} (h : lookup key rows k = some row) :
    row ∈ rows ∧ key row = k := by
  refine ⟨List.mem_of_find?_eq_some h, ?_⟩
  simpa using List.find?_some h

theorem lookup_of_mem {rows : List Row} (hnodup : (rows.map key).Nodup) {row : Row}
    (hrow : row ∈ rows) : lookup key rows (key row) = some row := by
  induction rows with
  | nil => cases hrow
  | cons head tail ih =>
      rw [List.map_cons, List.nodup_cons] at hnodup
      rw [lookup_cons]
      rcases List.mem_cons.mp hrow with rfl | htail
      · rw [if_pos rfl]
      · have hne : key head ≠ key row := fun he => hnodup.1 (he ▸ List.mem_map_of_mem htail)
        rw [if_neg hne]
        exact ih hnodup.2 htail

theorem eq_of_key_eq {rows : List Row} (hnodup : (rows.map key).Nodup) {a b : Row} (ha : a ∈ rows)
    (hb : b ∈ rows) (hkey : key a = key b) : a = b := by
  have hleft := lookup_of_mem hnodup ha
  rw [hkey, lookup_of_mem hnodup hb] at hleft
  exact (Option.some.inj hleft).symm

theorem lookup_eq_some_iff {rows : List Row} (hnodup : (rows.map key).Nodup) {k : Key} {row : Row} :
    lookup key rows k = some row ↔ row ∈ rows ∧ key row = k := by
  constructor
  · exact lookup_some
  · rintro ⟨hrow, rfl⟩
    exact lookup_of_mem hnodup hrow

theorem filter_key_eq {rows : List Row} (hnodup : (rows.map key).Nodup) {k : Key} {row : Row}
    (h : lookup key rows k = some row) : (rows.filter fun other => key other = k) = [row] := by
  induction rows with
  | nil => cases h
  | cons head tail ih =>
      rw [List.map_cons, List.nodup_cons] at hnodup
      rw [lookup_cons] at h
      by_cases hhead : key head = k
      · rw [if_pos hhead] at h
        rw [List.filter_cons, if_pos (decide_eq_true hhead), List.filter_eq_nil_iff.mpr, Option.some.inj h]
        intro other hother
        rw [decide_eq_true_eq]
        intro hkey
        exact hnodup.1 (hhead.trans hkey.symm ▸ List.mem_map_of_mem hother)
      · rw [if_neg hhead] at h
        rw [List.filter_cons, if_neg (by simpa using hhead)]
        exact ih hnodup.2 h

theorem exists_lookup_of_mem {rows : List Row} {row : Row} (hrow : row ∈ rows) :
    ∃ found, lookup key rows (key row) = some found :=
  Option.isSome_iff_exists.mp (List.find?_isSome.mpr ⟨row, hrow, by simp⟩)

theorem lookup_append (rows more : List Row) (k : Key) :
    lookup key (rows ++ more) k = (lookup key rows k).or (lookup key more k) := by
  rw [lookup, List.find?_append]
  rfl

theorem lookup_eq_none {rows : List Row} {k : Key} :
    lookup key rows k = none ↔ ∀ row ∈ rows, key row ≠ k := by
  rw [lookup, List.find?_eq_none]
  simp

/-- A row seen through `news` is the new version, where there is one. -/
theorem lookup_overlay (news rows : List Row) (k : Key) :
    lookup key (overlay key news rows) k =
      (lookup key rows k).map fun row => (lookup key news k).getD row := by
  induction rows with
  | nil => rfl
  | cons head tail ih =>
      have hhead : key ((lookup key news (key head)).getD head) = key head := by
        cases h : lookup key news (key head) with
        | none => rfl
        | some new => exact (lookup_some h).2
      rw [overlay, List.map_cons, lookup_cons, lookup_cons, hhead]
      by_cases h : key head = k
      · rw [if_pos h, if_pos h, ← h]
        rfl
      · rw [if_neg h, if_neg h]
        exact ih

@[simp] theorem overlay_nil (rows : List Row) : overlay key [] rows = rows := by
  simp [overlay, lookup]

@[simp] theorem lookup_singleton (row : Row) (k : Key) :
    lookup key [row] k = if key row = k then some row else none := by
  by_cases h : key row = k <;> simp [lookup, h]

theorem lookup_overlay_singleton {new old : Row} {rows : List Row}
    (hold : lookup key rows (key new) = some old) (k : Key) :
    lookup key (overlay key [new] rows) k = if k = key new then some new else lookup key rows k := by
  rw [lookup_overlay, lookup_singleton]
  by_cases h : k = key new
  · subst h
    rw [hold, if_pos rfl, if_pos rfl]
    rfl
  · rw [if_neg h, if_neg (Ne.symm h)]
    cases lookup key rows k <;> rfl

theorem lookup_upsert (rows : List Row) (row : Row) (k : Key) :
    lookup key (upsert key rows row) k = if k = key row then some row else lookup key rows k := by
  rw [upsert]
  split
  · next hany =>
    obtain ⟨other, hother, hkey⟩ := List.any_eq_true.mp hany
    obtain ⟨old, hold⟩ : ∃ old, lookup key rows (key other) = some old := exists_lookup_of_mem hother
    rw [of_decide_eq_true hkey] at hold
    exact lookup_overlay_singleton hold k
  · next hany =>
    rw [lookup_append, lookup_singleton]
    by_cases hk : k = key row
    · subst hk
      have hnone : lookup key rows (key row) = none := lookup_eq_none.mpr fun other hother hkey =>
        hany (List.any_eq_true.mpr ⟨other, hother, decide_eq_true hkey⟩)
      rw [hnone, if_pos rfl]
      rfl
    · rw [if_neg hk, if_neg (Ne.symm hk)]
      cases lookup key rows k <;> rfl

@[simp] theorem put_nil (row : Row) : put key row [] = [row] := rfl

@[simp] theorem map_key_overlay (news rows : List Row) :
    (overlay key news rows).map key = rows.map key := by
  rw [overlay, List.map_map]
  apply List.map_congr_left
  intro row _
  cases h : lookup key news (key row) with
  | none => simp [h]
  | some new => simpa [h] using (lookup_some h).2

/-- What new versions share with the rows they replace stays as it is. -/
theorem map_overlay {β : Type} (f : Row → β) {news rows : List Row}
    (h : ∀ row ∈ rows, ∀ new, lookup key news (key row) = some new → f new = f row) :
    (overlay key news rows).map f = rows.map f := by
  rw [overlay, List.map_map]
  refine List.map_congr_left fun row hrow => ?_
  rw [Function.comp_apply]
  cases hnew : lookup key news (key row) with
  | none => rfl
  | some new => exact h row hrow new hnew

theorem exists_key_overlay {news rows : List Row} {k : Key} :
    (∃ row ∈ overlay key news rows, key row = k) ↔ ∃ row ∈ rows, key row = k := by
  rw [← List.mem_map, ← List.mem_map, map_key_overlay]

theorem mem_overlay_singleton {new row : Row} {rows : List Row} :
    row ∈ overlay key [new] rows ↔
      (row ∈ rows ∧ key row ≠ key new) ∨ (row = new ∧ ∃ old ∈ rows, key old = key new) := by
  simp only [overlay, List.mem_map, lookup_singleton]
  constructor
  · rintro ⟨old, hold, rfl⟩
    by_cases h : key new = key old
    · exact Or.inr ⟨by simp [h], old, hold, h.symm⟩
    · exact Or.inl (by simpa [h] using ⟨hold, fun he => h he.symm⟩)
  · rintro (⟨hrow, hne⟩ | ⟨rfl, old, hold, he⟩)
    · have hne' : ¬ key new = key row := fun he => hne he.symm
      exact ⟨row, hrow, by simp [hne']⟩
    · exact ⟨old, hold, by simp [he]⟩

/-- Rewriting one row moves a count by that row alone. -/
theorem countP_overlay_singleton (p : Row → Bool) {rows : List Row} (hnodup : (rows.map key).Nodup)
    {old new : Row} (hold : old ∈ rows) (hkey : key old = key new) :
    (overlay key [new] rows).countP p + (if p old then 1 else 0) =
      rows.countP p + (if p new then 1 else 0) := by
  induction rows with
  | nil => cases hold
  | cons head tail ih =>
      rw [List.map_cons, List.nodup_cons] at hnodup
      have hcons : overlay key [new] (head :: tail) =
          (if key new = key head then new else head) :: overlay key [new] tail := by
        simp only [overlay, List.map_cons, lookup_singleton]
        split <;> rfl
      rw [hcons, List.countP_cons, List.countP_cons]
      rcases List.mem_cons.mp hold with rfl | htail
      · have hsame : overlay key [new] tail = tail := by
          have hmap : ∀ row ∈ tail, (lookup key [new] (key row)).getD row = row := by
            intro row hrow
            have hne : ¬ key new = key row := fun he =>
              hnodup.1 (by rw [hkey, he]; exact List.mem_map_of_mem hrow)
            simp [hne]
          exact (List.map_congr_left hmap).trans (List.map_id' tail)
        rw [if_pos hkey.symm, hsame]
        omega
      · have hne : ¬ key new = key head := fun he =>
          hnodup.1 (by rw [← he, ← hkey]; exact List.mem_map_of_mem htail)
        rw [if_neg hne]
        have := ih hnodup.2 htail
        omega

/-- Where the new version does not pass a test, the old one drops out of those that do. -/
theorem filter_overlay_singleton (p : Row → Bool) {new : Row} {rows : List Row} (hnew : p new = false) :
    (overlay key [new] rows).filter p = (rows.filter p).filter fun row => key row ≠ key new := by
  induction rows with
  | nil => rfl
  | cons head tail ih =>
      have hcons : overlay key [new] (head :: tail) =
          (if key new = key head then new else head) :: overlay key [new] tail := by
        simp only [overlay, List.map_cons, lookup_singleton]
        split <;> rfl
      rw [hcons, List.filter_cons, List.filter_cons, ih]
      by_cases hkey : key new = key head
      · rw [if_pos hkey, hnew]
        cases p head <;> simp [hkey]
      · have hne : key head ≠ key new := fun he => hkey he.symm
        rw [if_neg hkey]
        cases p head <;> simp [hne]

/-- Where the new version passes a test as the old one does, it takes its place among those that do. -/
theorem filter_overlay_same (p : Row → Bool) {new : Row} {rows : List Row}
    (h : ∀ row ∈ rows, key row = key new → p row = p new) :
    (overlay key [new] rows).filter p = overlay key [new] (rows.filter p) := by
  rw [overlay, List.filter_map]
  refine congrArg (List.map _) (List.filter_congr fun row hrow => ?_)
  rw [Function.comp_apply, lookup_singleton]
  split
  · next hkey => exact (h row hrow hkey.symm).symm
  · rfl

/-! ### `ORDER BY column ASC LIMIT 1` -/

/-- The rows that come first under `column`. -/
def firsts (column : Row → Int) (rows : List Row) : List Row :=
  rows.filter fun row => rows.all fun other => column row ≤ column other

/-- `ORDER BY column ASC LIMIT 1`: `pick` says which of the tied rows comes back. -/
def oldest (column : Row → Int) (pick : Nat) (rows : List Row) : Option Row :=
  (firsts column rows)[pick % (firsts column rows).length]?

theorem mem_firsts {column : Row → Int} {rows : List Row} {row : Row} :
    row ∈ firsts column rows ↔ row ∈ rows ∧ ∀ other ∈ rows, column row ≤ column other := by
  simp [firsts]

theorem firsts_ne_nil {column : Row → Int} {rows : List Row} (h : rows ≠ []) :
    firsts column rows ≠ [] := by
  have hmin : ∃ row ∈ rows, ∀ other ∈ rows, column row ≤ column other := by
    induction rows with
    | nil => exact absurd rfl h
    | cons head tail ih =>
        by_cases htail : tail = []
        · subst tail
          exact ⟨head, List.mem_cons_self, by simp⟩
        · obtain ⟨row, hrow, hle⟩ := ih htail
          rcases le_total (column head) (column row) with hcmp | hcmp
          · refine ⟨head, List.mem_cons_self, fun other hother => ?_⟩
            rcases List.mem_cons.mp hother with rfl | hother
            · exact le_rfl
            · exact hcmp.trans (hle other hother)
          · refine ⟨row, List.mem_cons_of_mem _ hrow, fun other hother => ?_⟩
            rcases List.mem_cons.mp hother with rfl | hother
            · exact hcmp
            · exact hle other hother
  obtain ⟨row, hrow, hle⟩ := hmin
  exact List.ne_nil_of_mem (mem_firsts.mpr ⟨hrow, hle⟩)

theorem oldest_some {column : Row → Int} {pick : Nat} {rows : List Row} {row : Row}
    (h : oldest column pick rows = some row) :
    row ∈ rows ∧ ∀ other ∈ rows, column row ≤ column other :=
  mem_firsts.mp (List.mem_of_getElem? h)

theorem oldest_eq_none {column : Row → Int} {pick : Nat} {rows : List Row} :
    oldest column pick rows = none ↔ rows = [] := by
  constructor
  · intro h
    by_contra hne
    have hpos := List.length_pos_of_ne_nil (firsts_ne_nil hne : firsts column _ ≠ [])
    have hlt := Nat.mod_lt pick hpos
    rw [oldest, List.getElem?_eq_getElem hlt] at h
    cases h
  · rintro rfl
    simp [oldest, firsts]

theorem exists_oldest {column : Row → Int} {rows : List Row} (pick : Nat) (h : rows ≠ []) :
    ∃ row, oldest column pick rows = some row :=
  Option.ne_none_iff_exists'.mp (mt oldest_eq_none.mp h)

theorem oldest_cons {column : Row → Int} {row : Row} {rest : List Row} (pick : Nat)
    (h : ∀ other ∈ rest, column row < column other) : oldest column pick (row :: rest) = some row := by
  obtain ⟨found, hfound⟩ : ∃ found, oldest column pick (row :: rest) = some found :=
    exists_oldest pick (List.cons_ne_nil row rest)
  obtain ⟨hmem, hle⟩ := oldest_some hfound
  rcases List.mem_cons.mp hmem with rfl | hlater
  · exact hfound
  · exact absurd (hle row List.mem_cons_self) (not_le.mpr (h found hlater))

/-! ### Tables that follow each other -/

section

variable {R : Row → Row → Prop} {before after rows : List Row}

theorem forall₂_overlay (hrefl : ∀ row, R row row) {news : List Row}
    (h : ∀ row ∈ rows, ∀ new, lookup key news (key row) = some new → R row new) :
    List.Forall₂ R rows (overlay key news rows) := by
  rw [overlay, List.forall₂_map_right_iff, List.forall₂_same]
  intro row hrow
  cases hnew : lookup key news (key row) with
  | none => exact hrefl row
  | some new => exact h row hrow new hnew

theorem forall₂_comp {α β γ : Type} {R : α → β → Prop} {S : β → γ → Prop} {T : α → γ → Prop} {a : List α}
    {b : List β} {c : List γ} (hcomp : ∀ x y z, R x y → S y z → T x z) (hab : List.Forall₂ R a b)
    (hbc : List.Forall₂ S b c) : List.Forall₂ T a c := by
  induction hab generalizing c with
  | nil =>
      cases hbc
      exact .nil
  | cons hhead _ ih =>
      cases hbc with
      | cons hhead' hrest => exact .cons (hcomp _ _ _ hhead hhead') (ih hrest)

/-- What each row of the first table has in common with its row of the second. -/
theorem map_eq_map_of_forall₂ {α β γ : Type} {R : α → β → Prop} {f : α → γ} {g : β → γ} {a : List α} {b : List β}
    (hf : ∀ x y, R x y → g y = f x) (h : List.Forall₂ R a b) : b.map g = a.map f := by
  induction h with
  | nil => rfl
  | cons hhead _ ih => rw [List.map_cons, List.map_cons, ih, hf _ _ hhead]

/-- What no row changes. -/
theorem map_eq_of_forall₂ {β : Type} {f : Row → β} (hf : ∀ x y, R x y → f y = f x)
    (h : List.Forall₂ R before after) : after.map f = before.map f := map_eq_map_of_forall₂ hf h

/-- A property that no row loses. -/
theorem countP_le_of_forall₂ {p : Row → Bool} (hp : ∀ x y, R x y → p x = true → p y = true)
    (h : List.Forall₂ R before after) : before.countP p ≤ after.countP p := by
  induction h with
  | nil => exact Nat.le_refl _
  | @cons x y xs ys hhead _ ih =>
      simp only [List.countP_cons]
      have hstep : (if p x = true then 1 else 0) ≤ (if p y = true then 1 else 0 : Nat) := by
        by_cases hx : p x = true
        · rw [if_pos hx, if_pos (hp x y hhead hx)]
        · rw [if_neg hx]
          exact Nat.zero_le _
      omega

theorem sum_le_of_forall₂ {f : Row → Nat} (hf : ∀ x y, R x y → f x ≤ f y)
    (h : List.Forall₂ R before after) : (before.map f).sum ≤ (after.map f).sum := by
  induction h with
  | nil => exact Nat.le_refl _
  | cons hhead _ ih => exact Nat.add_le_add (hf _ _ hhead) ih

/-- What follows a row of the first table. -/
theorem exists_of_forall₂ {α β : Type} {R : α → β → Prop} {a : List α} {b : List β} (h : List.Forall₂ R a b)
    {row : α} (hrow : row ∈ a) : ∃ next ∈ b, R row next := by
  induction h with
  | nil => cases hrow
  | cons hhead _ ih =>
      rcases List.mem_cons.mp hrow with rfl | hlater
      · exact ⟨_, List.mem_cons_self, hhead⟩
      · obtain ⟨next, hnext, hstep⟩ := ih hlater
        exact ⟨next, List.mem_cons_of_mem _ hnext, hstep⟩

end

/-! ### Logs that replay -/

/-- The entries of a log, one after the other, lead from one state to another. -/
def Replays {State Entry : Type} (step : State → Entry → State → Prop) : State → List Entry → State → Prop
  | a, [], b => b = a
  | a, entry :: rest, b => ∃ mid, step a entry mid ∧ Replays step mid rest b

variable {State Entry : Type} {step : State → Entry → State → Prop} {a b c : State}

theorem Replays.single {entry : Entry} (h : step a entry b) : Replays step a [entry] b := ⟨b, h, rfl⟩

theorem Replays.append {log more : List Entry} (h : Replays step a log b) (hmore : Replays step b more c) :
    Replays step a (log ++ more) c := by
  induction log generalizing a with
  | nil =>
      cases h
      exact hmore
  | cons entry rest ih =>
      obtain ⟨mid, hstep, hrest⟩ := h
      exact ⟨mid, hstep, ih hrest⟩

end Concurrency

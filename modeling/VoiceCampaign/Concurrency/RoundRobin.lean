import Mathlib.Data.List.Perm.Subperm
import Mathlib.Data.List.Induction
import Mathlib.Order.Lattice

/-!
# Serving the least recently served

At each turn one of some candidates is served, if any, and it is one that was served least recently. Then
between two turns that serve the same key, everyone who is a candidate at the second one is served, and
so a candidate is passed over at most once for each of the others.
-/

namespace Concurrency

/-- The keys a turn chose from, and the one it served. -/
structure Turn (Key : Type) where
  candidates : List Key
  served : Option Key
  deriving DecidableEq

variable {Key Stamp : Type} [LinearOrder Stamp]

/-- Turns that serve the least recently served, and the stamps they leave: a key that was never served
carries `never`. -/
inductive LeastRecent (never : Stamp) : List (Turn Key) → (Key → Stamp) → Prop
  | init : LeastRecent never [] fun _ => never
  | pass {turns : List (Turn Key)} {last : Key → Stamp} (candidates : List Key)
      (h : LeastRecent never turns last) : LeastRecent never (turns ++ [⟨candidates, none⟩]) last
  | serve {turns : List (Turn Key)} {last last' : Key → Stamp} (candidates : List Key) (key : Key)
      (h : LeastRecent never turns last) (hmem : key ∈ candidates) (hleast : ∀ other ∈ candidates, last key ≤ last other)
      (hother : ∀ other, other ≠ key → last' other = last other) (hfresh : ∀ other, last other < last' key) :
      LeastRecent never (turns ++ [⟨candidates, some key⟩]) last'

namespace LeastRecent

variable {never : Stamp} {turns before after : List (Turn Key)} {last : Key → Stamp} {a b : Key}
  {candidates others : List Key}

/-- The turns so far are a run themselves. -/
theorem prefix_run (h : LeastRecent never (before ++ after) last) : ∃ last', LeastRecent never before last' := by
  induction after using List.reverseRecOn generalizing last with
  | nil => exact ⟨last, by rwa [List.append_nil] at h⟩
  | append_singleton after turn ih =>
      rw [← List.append_assoc] at h
      generalize hall : before ++ after ++ [turn] = all at h
      cases h with
      | init => exact absurd hall (by simp)
      | pass candidates h =>
          obtain ⟨rfl, -⟩ := List.append_inj' hall rfl
          exact ih h
      | serve candidates key h hmem hleast hother hfresh =>
          obtain ⟨rfl, -⟩ := List.append_inj' hall rfl
          exact ih h

/-- Since `a` was served and `b` was not, `b` carries the older stamp. -/
theorem older (h : LeastRecent never turns last) (hne : b ≠ a)
    (hturns : turns = before ++ ⟨candidates, some a⟩ :: after) (hpassed : ∀ turn ∈ after, turn.served ≠ some b) :
    last b < last a := by
  induction h generalizing after with
  | init => exact absurd hturns (by simp)
  | pass others h ih =>
      rcases List.eq_nil_or_concat after with rfl | ⟨rest, turn, rfl⟩
      · obtain ⟨-, hlast⟩ := List.append_inj' hturns rfl
        cases hlast
      · rw [List.concat_eq_append, ← List.cons_append, ← List.append_assoc] at hturns
        obtain ⟨rfl, -⟩ := List.append_inj' hturns rfl
        exact ih rfl fun turn hturn => hpassed turn (by simp [hturn])
  | @serve turns last last' others key h hmem hleast hother hfresh ih =>
      rcases List.eq_nil_or_concat after with rfl | ⟨rest, turn, rfl⟩
      · obtain ⟨-, hlast⟩ := List.append_inj' hturns rfl
        cases hlast
        rw [hother b hne]
        exact hfresh b
      · rw [List.concat_eq_append, ← List.cons_append, ← List.append_assoc] at hturns
        obtain ⟨rfl, hlast⟩ := List.append_inj' hturns rfl
        cases hlast
        have hkey : b ≠ key := fun he =>
          hpassed ⟨others, some key⟩ (by simp) (congrArg some he.symm)
        have holder := ih rfl fun turn hturn => hpassed turn (by simp [hturn])
        rw [hother b hkey]
        by_cases hserved : a = key
        · subst hserved
          exact hfresh b
        · rwa [hother a hserved]

/-- A turn serves one of its candidates that carry the oldest stamp. -/
theorem served_least (h : LeastRecent never (turns ++ [⟨candidates, some a⟩]) last) :
    ∃ last', LeastRecent never turns last' ∧ a ∈ candidates ∧ ∀ other ∈ candidates, last' a ≤ last' other := by
  generalize hall : turns ++ [⟨candidates, some a⟩] = all at h
  cases h with
  | init => exact absurd hall (by simp)
  | pass others h =>
      obtain ⟨-, hlast⟩ := List.append_inj' hall rfl
      cases hlast
  | serve others key h hmem hleast hother hfresh =>
      obtain ⟨rfl, hlast⟩ := List.append_inj' hall rfl
      cases hlast
      exact ⟨_, h, hmem, hleast⟩

/-- Between two turns that serve `a`, every other candidate of the second is served. -/
theorem served_between (h : LeastRecent never turns last) {between : List (Turn Key)}
    (hturns : turns = before ++ ⟨others, some a⟩ :: (between ++ ⟨candidates, some a⟩ :: after))
    (hb : b ∈ candidates) (hne : b ≠ a) : ∃ turn ∈ between, turn.served = some b := by
  by_contra hnone
  have hpassed : ∀ turn ∈ between, turn.served ≠ some b := fun turn hturn hserved => hnone ⟨turn, hturn, hserved⟩
  rw [hturns, show before ++ ⟨others, some a⟩ :: (between ++ ⟨candidates, some a⟩ :: after) =
    (before ++ ⟨others, some a⟩ :: between ++ [⟨candidates, some a⟩]) ++ after by simp] at h
  obtain ⟨last', hprefix⟩ := h.prefix_run
  obtain ⟨last'', hrun, -, hleast⟩ := hprefix.served_least
  exact absurd (hleast b hb) (not_le_of_gt (hrun.older hne rfl hpassed))

/-- While `b` is a candidate and is not served, nobody is served twice. -/
theorem nodup_served (h : LeastRecent never turns last) {window : List (Turn Key)}
    (hturns : turns = before ++ window ++ after)
    (hb : ∀ turn ∈ window, turn.served ≠ none → b ∈ turn.candidates) (hpassed : ∀ turn ∈ window, turn.served ≠ some b) :
    (window.filterMap Turn.served).Nodup := by
  induction window generalizing before with
  | nil => exact List.nodup_nil
  | cons turn rest ih =>
      obtain ⟨others, served⟩ := turn
      have hrest := @ih (before ++ [⟨others, served⟩]) (by simp [hturns])
        (fun turn hturn => hb turn (List.mem_cons_of_mem _ hturn))
        fun turn hturn => hpassed turn (List.mem_cons_of_mem _ hturn)
      cases served with
      | none => exact hrest
      | some a =>
          refine List.nodup_cons.mpr ⟨fun hagain => ?_, hrest⟩
          obtain ⟨⟨candidates, _⟩, hturn, rfl⟩ := List.mem_filterMap.mp hagain
          obtain ⟨between, rest', rfl⟩ := List.append_of_mem hturn
          have hbetween : ∀ turn ∈ between, turn.served ≠ some b := fun turn hturn => hpassed turn (by simp [hturn])
          have hne : b ≠ a := fun he => hpassed ⟨others, some a⟩ (by simp) (congrArg some he.symm)
          have hsplit : turns = before ++ ⟨others, some a⟩ :: (between ++ ⟨candidates, some a⟩ :: (rest' ++ after)) := by
            simp [hturns]
          obtain ⟨turn, hturn, hserved⟩ := h.served_between hsplit (hb ⟨candidates, some a⟩ (by simp) nofun) hne
          exact hbetween turn hturn hserved

theorem served_mem (h : LeastRecent never turns last) : ∀ turn ∈ turns, ∀ key ∈ turn.served, key ∈ turn.candidates := by
  induction h with
  | init => nofun
  | pass others h ih =>
      intro turn hturn
      rcases List.mem_append.mp hturn with hturn | hturn
      · exact ih turn hturn
      · rw [List.mem_singleton.mp hturn]
        nofun
  | serve others key h hmem hleast hother hfresh ih =>
      intro turn hturn
      rcases List.mem_append.mp hturn with hturn | hturn
      · exact ih turn hturn
      · rw [List.mem_singleton.mp hturn]
        rintro _ ⟨⟩
        exact hmem

/-- A key that stays a candidate is passed over at most once for each of the others. -/
theorem passed_over [DecidableEq Key] (h : LeastRecent never turns last) {window : List (Turn Key)} {keys : List Key}
    (hturns : turns = before ++ window ++ after)
    (hb : ∀ turn ∈ window, turn.served ≠ none → b ∈ turn.candidates) (hpassed : ∀ turn ∈ window, turn.served ≠ some b)
    (hkeys : ∀ turn ∈ window, ∀ key ∈ turn.candidates, key ∈ keys) :
    (window.filterMap Turn.served).length ≤ keys.length - 1 := by
  have hnodup := h.nodup_served hturns hb hpassed
  have hserved : ∀ turn ∈ window, ∀ key ∈ turn.served, key ∈ turn.candidates := fun turn hturn =>
    h.served_mem turn (by simp [hturns, hturn])
  cases hwindow : window.filterMap Turn.served with
  | nil => exact Nat.zero_le _
  | cons key rest =>
      have hmem : ∀ key ∈ window.filterMap Turn.served, key ∈ keys ∧ key ≠ b := by
        intro key hkey
        obtain ⟨turn, hturn, hkey⟩ := List.mem_filterMap.mp hkey
        exact ⟨hkeys turn hturn key (hserved turn hturn key hkey), fun he => hpassed turn hturn (he ▸ hkey)⟩
      have hb' : b ∈ keys := by
        have hkey : key ∈ window.filterMap Turn.served := by rw [hwindow]; exact List.mem_cons_self
        obtain ⟨turn, hturn, hkey⟩ := List.mem_filterMap.mp hkey
        exact hkeys turn hturn b (hb turn hturn (by rw [hkey]; nofun))
      rw [← hwindow, ← List.length_erase_of_mem hb']
      refine (List.subperm_of_subset hnodup fun key hkey => ?_).length_le
      exact (List.mem_erase_of_ne (hmem key hkey).2).mpr (hmem key hkey).1

end LeastRecent

end Concurrency

import Mathlib.Algebra.Order.Group.Nat
import Mathlib.Data.List.Nodup
import Mathlib.Logic.Function.Basic

/-!
# Numbers drawn from a sequence

Transactions draw numbers from one sequence that never gives a number twice, also where a transaction that drew
one is rolled back. A number is held by the transaction that drew it until it commits.
-/

namespace Concurrency

/-- The numbers below `next` that have been committed, and those that each open transaction holds. -/
structure Drawn (next : Nat) (committed : List Nat) (held : Nat → List Nat) : Prop where
  committed_lt : ∀ n ∈ committed, n < next
  held_lt : ∀ i, ∀ n ∈ held i, n < next
  committed_nodup : committed.Nodup
  held_nodup : ∀ i, (held i).Nodup
  open_new : ∀ i, ∀ n ∈ held i, n ∉ committed
  apart : ∀ i j, i ≠ j → ∀ n ∈ held i, n ∉ held j

namespace Drawn

variable {next : Nat} {committed : List Nat} {held : Nat → List Nat}

theorem init (next : Nat) : Drawn next [] fun _ => [] where
  committed_lt := List.forall_mem_nil _
  held_lt _ := List.forall_mem_nil _
  committed_nodup := .nil
  held_nodup _ := .nil
  open_new _ := List.forall_mem_nil _
  apart _ _ _ := List.forall_mem_nil _

/-- Transaction `i` goes on to hold `more`, of which the others hold nothing and nothing has been committed. -/
theorem hold (h : Drawn next committed held) (i : Nat) {more : List Nat} {later : Nat} (hlater : next ≤ later)
    (hlt : ∀ n ∈ more, n < later) (hnodup : more.Nodup) (hnew : ∀ n ∈ more, n ∈ held i ∨ next ≤ n) :
    Drawn later committed (Function.update held i more) := by
  have hopen : ∀ j n, n ∈ Function.update held i more j → n ∈ held j ∨ (j = i ∧ next ≤ n) := fun j n hmem => by
    by_cases hj : j = i
    · subst hj
      rw [Function.update_self] at hmem
      exact (hnew n hmem).imp id fun hge => ⟨rfl, hge⟩
    · rw [Function.update_of_ne hj] at hmem
      exact Or.inl hmem
  refine ⟨fun n hn => (h.committed_lt n hn).trans_le hlater, fun j n hmem => ?_, h.committed_nodup, fun j => ?_,
    fun j n hmem hold => ?_, fun j k hne n hj hk => ?_⟩
  · by_cases hj : j = i
    · subst hj
      rw [Function.update_self] at hmem
      exact hlt n hmem
    · rw [Function.update_of_ne hj] at hmem
      exact (h.held_lt j n hmem).trans_le hlater
  · by_cases hj : j = i
    · subst hj
      rwa [Function.update_self]
    · rw [Function.update_of_ne hj]
      exact h.held_nodup j
  · rcases hopen j n hmem with hheld | ⟨-, hge⟩
    · exact h.open_new j n hheld hold
    · exact (h.committed_lt n hold).not_ge hge
  · rcases hopen j n hj with hheld | ⟨rfl, hge⟩ <;> rcases hopen k n hk with hheld' | ⟨rfl, hge'⟩
    · exact h.apart j k hne n hheld hheld'
    · exact (h.held_lt j n hheld).not_ge hge'
    · exact (h.held_lt k n hheld').not_ge hge
    · exact hne rfl

/-- Transaction `i` draws a number. -/
theorem draw (h : Drawn next committed held) (i : Nat) :
    Drawn (next + 1) committed (Function.update held i (held i ++ [next])) := by
  refine h.hold i (Nat.le_succ _) (fun n hn => ?_) ?_ fun n hn => ?_
  · rcases List.mem_append.mp hn with hold | hnew
    · exact (h.held_lt i n hold).trans (Nat.lt_succ_self _)
    · exact (List.mem_singleton.mp hnew).le.trans_lt (Nat.lt_succ_self _)
  · refine List.nodup_append.mpr ⟨h.held_nodup i, List.nodup_singleton _, fun n hold m hnew => ?_⟩
    rw [List.mem_singleton.mp hnew]
    exact (h.held_lt i n hold).ne
  · exact (List.mem_append.mp hn).imp id fun hnew => (List.mem_singleton.mp hnew).ge

/-- Transaction `i` is rolled back. -/
theorem drop (h : Drawn next committed held) (i : Nat) : Drawn next committed (Function.update held i []) :=
  h.hold i le_rfl (List.forall_mem_nil _) .nil (List.forall_mem_nil _)

/-- Transaction `i` commits. -/
theorem commit (h : Drawn next committed held) (i : Nat) :
    Drawn next (committed ++ held i) (Function.update held i []) := by
  have hdrop := h.drop i
  refine ⟨fun n hn => ?_, hdrop.held_lt, ?_, hdrop.held_nodup, fun j n hmem hn => ?_, hdrop.apart⟩
  · exact (List.mem_append.mp hn).elim (h.committed_lt n) (h.held_lt i n)
  · refine List.nodup_append.mpr ⟨h.committed_nodup, h.held_nodup i, fun n hold m hheld he => ?_⟩
    exact h.open_new i m hheld (he ▸ hold)
  · rcases List.mem_append.mp hn with hold | hheld
    · exact hdrop.open_new j n hmem hold
    · by_cases hj : j = i
      · subst hj
        rw [Function.update_self] at hmem
        cases hmem
      · rw [Function.update_of_ne hj] at hmem
        exact h.apart j i hj n hmem hheld

end Drawn

end Concurrency

import VoiceCampaign.Concurrency.Program
import Mathlib.Algebra.Order.Group.Nat
import Mathlib.Data.List.Basic
import Mathlib.Logic.Relation

/-!
# Locks taken in order

Programs whose operations ask for locks and keep them until an operation releases them all. An operation that
needs several locks takes them one after the other, and may be stopped at each. Locks have ranks: where every
program asks only for locks it has, or that rank above all those it has, nobody waits for itself, however many
programs run and whatever their operations reply.
-/

namespace Concurrency

/-- How an operation comes by a lock: it waits until nobody else has it, it looks for one that nobody else has,
or it has it without asking. -/
inductive Request (Lock : Type) where
  | wait (lock : Lock)
  | skip (lock : Lock)
  | mark (lock : Lock)
  deriving DecidableEq

def Request.lock {Lock : Type} : Request Lock → Lock
  | wait lock | skip lock | mark lock => lock

structure Locking (Op : Type) (Reply : Op → Type) (Lock : Type) where
  rank : Lock → Nat
  /-- What an operation that comes to this reply asks for, one after the other. -/
  asks : (op : Op) → Reply op → List (Request Lock) → Prop
  /-- The operation gives all locks back. -/
  releases : Op → Bool

/-- A running program, its locks, and what its current operation has yet to get. `code` is what comes once it
has. -/
structure Locker (Op : Type) (Reply : Op → Type) (Err Lock : Type) where
  code : Program Op Reply Err Unit
  held : List Lock := []
  todo : List (Request Lock) := []

namespace Locking

variable {Op : Type} {Reply : Op → Type} {Err Lock α β : Type}

/-! ### Programs that climb -/

/-- The locks once the requests are met. -/
def gather (held : List Lock) (requests : List (Request Lock)) : List Lock :=
  requests.foldl (fun held request => request.lock :: held) held

/-- Each request is for a lock at hand, or for one that ranks above all those at hand. -/
def Climbs (L : Locking Op Reply Lock) (held : List Lock) : List (Request Lock) → Prop
  | [] => True
  | request :: rest => (request.lock ∈ held ∨ ∀ lock ∈ held, L.rank lock < L.rank request.lock) ∧
      L.Climbs (request.lock :: held) rest

/-- What is left of the locks when an operation starts. -/
def before (L : Locking Op Reply Lock) (op : Op) (held : List Lock) : List Lock := if L.releases op = true then [] else held

/-- From `held` on, every operation of the program climbs; it ends in `post` or `err`. -/
def Ordered (L : Locking Op Reply Lock) (post : α → List Lock → Prop) (err : Err → List Lock → Prop) :
    Program Op Reply Err α → List Lock → Prop
  | .done value, held => post value held
  | .fail error, held => err error held
  | .call op next, held => ∀ reply requests, L.asks op reply requests →
      L.Climbs (L.before op held) requests ∧ L.Ordered post err (next reply) (gather (L.before op held) requests)

section

variable {L : Locking Op Reply Lock} {post post' : α → List Lock → Prop} {err err' : Err → List Lock → Prop} {held : List Lock}

theorem Ordered.mono {program : Program Op Reply Err α} (h : L.Ordered post err program held)
    (hpost : ∀ value held, post value held → post' value held)
    (herr : ∀ error held, err error held → err' error held) : L.Ordered post' err' program held := by
  induction program generalizing held with
  | done value => exact hpost value held h
  | fail error => exact herr error held h
  | call op next ih =>
      intro reply requests hasks
      exact ⟨(h reply requests hasks).1, ih reply (h reply requests hasks).2⟩

theorem Ordered.bind {program : Program Op Reply Err α} {f : α → Program Op Reply Err β}
    {M : α → List Lock → Prop} {last : β → List Lock → Prop} (h : L.Ordered M err program held)
    (hf : ∀ value held, M value held → L.Ordered last err (f value) held) :
    L.Ordered last err (program >>= f) held := by
  induction program generalizing held with
  | done value => exact hf value held h
  | fail error => exact h
  | call op next ih =>
      intro reply requests hasks
      exact ⟨(h reply requests hasks).1, ih reply (h reply requests hasks).2⟩

theorem Ordered.catching {program : Program Op Reply Err α} {handler : Err → Program Op Reply Err α}
    (h : L.Ordered post err program held)
    (hhandler : ∀ error held, err error held → L.Ordered post err' (handler error) held) :
    L.Ordered post err' (program.catching handler) held := by
  induction program generalizing held with
  | done value => exact h
  | fail error => exact hhandler error held h
  | call op next ih =>
      intro reply requests hasks
      exact ⟨(h reply requests hasks).1, ih reply (h reply requests hasks).2⟩

theorem Ordered.perform {op : Op} {next : Reply op → Program Op Reply Err α}
    (h : ∀ reply requests, L.asks op reply requests → L.Climbs (L.before op held) requests ∧
      L.Ordered post err (next reply) (gather (L.before op held) requests)) :
    L.Ordered post err (.perform op >>= next) held := h

/-- The operation asks for nothing and gives nothing back. -/
def Still (L : Locking Op Reply Lock) (op : Op) : Prop := L.releases op = false ∧ ∀ reply requests, L.asks op reply requests → requests = []

theorem Ordered.still {op : Op} {next : Reply op → Program Op Reply Err α} (hop : L.Still op)
    (h : ∀ reply, L.Ordered post err (next reply) held) : L.Ordered post err (.perform op >>= next) held := by
  intro reply requests hasks
  rw [hop.2 reply requests hasks, Locking.before, hop.1]
  exact ⟨trivial, h reply⟩

theorem Ordered.still_last {op : Op} {post : Reply op → List Lock → Prop} (hop : L.Still op)
    (h : ∀ reply, post reply held) : L.Ordered post err (.perform op) held := by
  intro reply requests hasks
  rw [hop.2 reply requests hasks, Locking.before, hop.1]
  exact ⟨trivial, h reply⟩

/-- The operation gives everything back. -/
theorem Ordered.release {op : Op} {next : Reply op → Program Op Reply Err α} (hreleases : L.releases op = true)
    (hnone : ∀ reply requests, L.asks op reply requests → requests = [])
    (h : ∀ reply, L.Ordered post err (next reply) []) : L.Ordered post err (.perform op >>= next) held := by
  intro reply requests hasks
  rw [hnone reply requests hasks, Locking.before, hreleases]
  exact ⟨trivial, h reply⟩

end

/-! ### Pools -/

variable (L : Locking Op Reply Lock)

/-- A request that can be met while the others have what they have. -/
def Granted (pool : List (Locker Op Reply Err Lock)) (index : Nat) (held : List Lock) : Request Lock → Prop
  | .mark _ => True
  | .wait lock | .skip lock => lock ∈ held ∨
      ∀ (other : Nat) (locker : Locker Op Reply Err Lock), other ≠ index → pool[other]? = some locker →
        lock ∉ locker.held

/-- Programs of a kind start, run an operation, get a lock, and end in whatever way. -/
inductive Step (kind : Locker Op Reply Err Lock → Prop) :
    List (Locker Op Reply Err Lock) → List (Locker Op Reply Err Lock) → Prop
  | start {pool : List (Locker Op Reply Err Lock)} (locker : Locker Op Reply Err Lock) (hkind : kind locker) :
      Step kind pool (pool ++ [locker])
  | operate {pool : List (Locker Op Reply Err Lock)} (index : Nat) (op : Op)
      (next : Reply op → Program Op Reply Err Unit) (held : List Lock) (reply : Reply op)
      (requests : List (Request Lock)) (hlocker : pool[index]? = some ⟨.call op next, held, []⟩)
      (hasks : L.asks op reply requests) :
      Step kind pool (pool.set index ⟨next reply, L.before op held, requests⟩)
  | acquire {pool : List (Locker Op Reply Err Lock)} (index : Nat) (code : Program Op Reply Err Unit)
      (held : List Lock) (request : Request Lock) (rest : List (Request Lock))
      (hlocker : pool[index]? = some ⟨code, held, request :: rest⟩) (hgranted : Granted pool index held request) :
      Step kind pool (pool.set index ⟨code, request.lock :: held, rest⟩)
  | finish {pool : List (Locker Op Reply Err Lock)} (index : Nat) : Step kind pool (pool.set index ⟨.done (), [], []⟩)

/-- Every state of every run. -/
inductive Reachable (kind : Locker Op Reply Err Lock → Prop) : List (Locker Op Reply Err Lock) → Prop
  | init : Reachable kind []
  | step {pool pool' : List (Locker Op Reply Err Lock)} (h : Reachable kind pool) (hstep : L.Step kind pool pool') :
      Reachable kind pool'

/-- Program `i` can go on only once program `j` has given a lock back. -/
def WaitsFor (pool : List (Locker Op Reply Err Lock)) (i j : Nat) : Prop :=
  ∃ a b lock, i ≠ j ∧ pool[i]? = some a ∧ pool[j]? = some b ∧ a.todo.head? = some (.wait lock) ∧
    lock ∉ a.held ∧ lock ∈ b.held

/-- A program that has climbed so far, and will go on so. -/
structure Climbing (locker : Locker Op Reply Err Lock) : Prop where
  one : ∀ a ∈ locker.held, ∀ b ∈ locker.held, L.rank a = L.rank b → a = b
  todo : L.Climbs locker.held locker.todo
  code : L.Ordered (fun _ _ => True) (fun _ _ => True) locker.code (gather locker.held locker.todo)

variable {L} {kind : Locker Op Reply Err Lock → Prop} {pool pool' : List (Locker Op Reply Err Lock)}

theorem Climbing.of_ordered {code : Program Op Reply Err Unit}
    (h : L.Ordered (fun _ _ => True) (fun _ _ => True) code []) : L.Climbing ⟨code, [], []⟩ :=
  ⟨nofun, trivial, h⟩

theorem Climbing.operate {op : Op} {next : Reply op → Program Op Reply Err Unit} {held : List Lock}
    {reply : Reply op} {requests : List (Request Lock)} (h : L.Climbing ⟨.call op next, held, []⟩)
    (hasks : L.asks op reply requests) : L.Climbing ⟨next reply, L.before op held, requests⟩ := by
  obtain ⟨hclimbs, hnext⟩ := h.code reply requests hasks
  refine ⟨?_, hclimbs, hnext⟩
  show ∀ a ∈ L.before op held, ∀ b ∈ L.before op held, L.rank a = L.rank b → a = b
  rw [before]
  split
  · exact nofun
  · exact h.one

theorem Climbing.acquire {code : Program Op Reply Err Unit} {held : List Lock} {request : Request Lock}
    {rest : List (Request Lock)} (h : L.Climbing ⟨code, held, request :: rest⟩) :
    L.Climbing ⟨code, request.lock :: held, rest⟩ := by
  obtain ⟨hrises, hclimbs⟩ := h.todo
  refine ⟨?_, hclimbs, h.code⟩
  have hnew : ∀ a ∈ held, L.rank a = L.rank request.lock → a = request.lock := by
    intro a ha hrank
    rcases hrises with hheld | habove
    · exact h.one a ha _ hheld hrank
    · exact absurd hrank (habove a ha).ne
  intro a ha b hb hrank
  rcases List.mem_cons.mp ha with rfl | ha
  · rcases List.mem_cons.mp hb with rfl | hb
    · rfl
    · exact (hnew b hb hrank.symm).symm
  · rcases List.mem_cons.mp hb with rfl | hb
    · exact hnew a ha hrank
    · exact h.one a ha b hb hrank

theorem Step.climbing (hkind : ∀ locker, kind locker → L.Climbing locker) (hstep : L.Step kind pool pool')
    (h : ∀ locker ∈ pool, L.Climbing locker) : ∀ locker ∈ pool', L.Climbing locker := by
  intro locker hlocker
  cases hstep with
  | start new hnew =>
      rcases List.mem_append.mp hlocker with hold | hadded
      · exact h locker hold
      · exact List.mem_singleton.mp hadded ▸ hkind new hnew
  | operate index op next held reply requests hget hasks =>
      rcases List.mem_or_eq_of_mem_set hlocker with hold | rfl
      · exact h locker hold
      · exact (h _ (List.mem_of_getElem? hget)).operate hasks
  | acquire index code held request rest hget hgranted =>
      rcases List.mem_or_eq_of_mem_set hlocker with hold | rfl
      · exact h locker hold
      · exact (h _ (List.mem_of_getElem? hget)).acquire
  | finish index =>
      rcases List.mem_or_eq_of_mem_set hlocker with hold | rfl
      · exact h locker hold
      · exact .of_ordered trivial

theorem Reachable.climbing (hkind : ∀ locker, kind locker → L.Climbing locker) (h : L.Reachable kind pool) :
    ∀ locker ∈ pool, L.Climbing locker := by
  induction h with
  | init => exact nofun
  | step _ hstep ih => exact hstep.climbing hkind ih

/-- What a program waits for ranks above all it has. -/
theorem Climbing.above {locker : Locker Op Reply Err Lock} (h : L.Climbing locker) {lock : Lock}
    (hwaits : locker.todo.head? = some (.wait lock)) (hnot : lock ∉ locker.held) :
    ∀ other ∈ locker.held, L.rank other < L.rank lock := by
  obtain ⟨rest, htodo⟩ := List.head?_eq_some_iff.mp hwaits
  have hclimbs := h.todo
  rw [htodo] at hclimbs
  exact hclimbs.1.resolve_left hnot

/-- Along a chain of waiting, the locks waited for rank higher and higher. -/
theorem transGen_waitsFor (h : ∀ locker ∈ pool, L.Climbing locker) {i j : Nat}
    (hchain : Relation.TransGen (WaitsFor pool) i j) : ∃ a b waited had, pool[i]? = some a ∧ pool[j]? = some b ∧
      a.todo.head? = some (.wait waited) ∧ waited ∉ a.held ∧ had ∈ b.held ∧ L.rank waited ≤ L.rank had := by
  induction hchain with
  | single hwaits =>
      obtain ⟨a, b, lock, -, ha, hb, hhead, hnot, hheld⟩ := hwaits
      exact ⟨a, b, lock, lock, ha, hb, hhead, hnot, hheld, le_rfl⟩
  | tail _ hwaits ih =>
      obtain ⟨a, mid, waited, had, ha, hmid, hhead, hnot, hhad, hle⟩ := ih
      obtain ⟨mid', b, lock, -, hmid', hb, hhead', hnot', hheld⟩ := hwaits
      obtain rfl := Option.some.inj (hmid.symm.trans hmid')
      have habove := (h mid (List.mem_of_getElem? hmid)).above hhead' hnot' had hhad
      exact ⟨a, b, waited, lock, ha, hb, hhead, hnot, hheld, hle.trans habove.le⟩

/-- Nobody waits for itself. -/
theorem waitsFor_acyclic (h : ∀ locker ∈ pool, L.Climbing locker) (i : Nat) :
    ¬ Relation.TransGen (WaitsFor pool) i i := by
  intro hcycle
  obtain ⟨a, b, waited, had, ha, hb, hhead, hnot, hhad, hle⟩ := transGen_waitsFor h hcycle
  obtain rfl := Option.some.inj (ha.symm.trans hb)
  exact absurd ((h a (List.mem_of_getElem? ha)).above hhead hnot had hhad) hle.not_gt

end Locking

end Concurrency

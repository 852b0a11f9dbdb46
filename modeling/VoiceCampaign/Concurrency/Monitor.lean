import VoiceCampaign.Concurrency.Program
import Mathlib.Logic.Function.Basic

/-!
# Monitors

A monitor watches the operations of one program and the replies it gets, and says which operation may
come next. Whether a program obeys is read off its text, whatever the others do meanwhile; what the modes
mean for the shared state is up to whoever uses the monitor.
-/

namespace Concurrency

structure Monitor (Op : Type) (Reply : Op → Type) (Mode : Type) where
  start : Mode
  allows : Mode → Op → Prop
  /-- The replies that can come. -/
  answers : (op : Op) → Reply op → Prop
  next : Mode → (op : Op) → Reply op → Mode

namespace Monitor

variable {Op : Type} {Reply : Op → Type} {Err Mode α β : Type} {M : Monitor Op Reply Mode}

/-- From `mode` on, the program calls allowed operations only, and ends in `post` or `err`. -/
def Obeys (M : Monitor Op Reply Mode) (post : α → Mode → Prop) (err : Err → Mode → Prop) :
    Program Op Reply Err α → Mode → Prop
  | .done value, mode => post value mode
  | .fail error, mode => err error mode
  | .call op next, mode => M.allows mode op ∧
      ∀ reply, M.answers op reply → M.Obeys post err (next reply) (M.next mode op reply)

variable {post post' : α → Mode → Prop} {err err' : Err → Mode → Prop}

@[simp] theorem obeys_done (value : α) (mode : Mode) :
    M.Obeys post err (.done value) mode ↔ post value mode := Iff.rfl

@[simp] theorem obeys_fail (error : Err) (mode : Mode) :
    M.Obeys post err (.fail error) mode ↔ err error mode := Iff.rfl

@[simp] theorem obeys_call (op : Op) (next : Reply op → Program Op Reply Err α) (mode : Mode) :
    M.Obeys post err (.call op next) mode ↔ M.allows mode op ∧
      ∀ reply, M.answers op reply → M.Obeys post err (next reply) (M.next mode op reply) := Iff.rfl

theorem Obeys.perform {op : Op} {next : Reply op → Program Op Reply Err α} {mode : Mode}
    (hallows : M.allows mode op)
    (h : ∀ reply, M.answers op reply → M.Obeys post err (next reply) (M.next mode op reply)) :
    M.Obeys post err (.perform op >>= next) mode := ⟨hallows, h⟩

theorem Obeys.mono {program : Program Op Reply Err α} {mode : Mode} (h : M.Obeys post err program mode)
    (hpost : ∀ value mode, post value mode → post' value mode)
    (herr : ∀ error mode, err error mode → err' error mode) : M.Obeys post' err' program mode := by
  induction program generalizing mode with
  | done value => exact hpost value mode h
  | fail error => exact herr error mode h
  | call op next ih => exact ⟨h.1, fun reply hreply => ih reply (h.2 reply hreply)⟩

theorem Obeys.bind {program : Program Op Reply Err α} {f : α → Program Op Reply Err β} {mode : Mode}
    {mid : α → Mode → Prop} {last : β → Mode → Prop} (h : M.Obeys mid err program mode)
    (hf : ∀ value mode, mid value mode → M.Obeys last err (f value) mode) :
    M.Obeys last err (program >>= f) mode := by
  induction program generalizing mode with
  | done value => exact hf value mode h
  | fail error => exact h
  | call op next ih => exact ⟨h.1, fun reply hreply => ih reply (h.2 reply hreply)⟩

theorem Obeys.catching {program : Program Op Reply Err α} {handler : Err → Program Op Reply Err α}
    {mode : Mode} (h : M.Obeys post err program mode)
    (hhandler : ∀ error mode, err error mode → M.Obeys post err' (handler error) mode) :
    M.Obeys post err' (program.catching handler) mode := by
  induction program generalizing mode with
  | done value => exact h
  | fail error => exact hhandler error mode h
  | call op next ih => exact ⟨h.1, fun reply hreply => ih reply (h.2 reply hreply)⟩

theorem Obeys.forM {items : List β} {f : β → Program Op Reply Err PUnit} {mode : Mode}
    (hf : ∀ item ∈ items, M.Obeys (fun _ mode' => mode' = mode) err (f item) mode) :
    M.Obeys (fun _ mode' => mode' = mode) err (items.forM f) mode := by
  induction items with
  | nil => rfl
  | cons item rest ih =>
      refine (hf item List.mem_cons_self).bind fun _ mode' hmode => ?_
      rw [hmode]
      exact ih fun other hother => hf other (List.mem_cons_of_mem _ hother)

end Monitor

/-! ### Programs that keep to a part of the interface -/

namespace Program

variable {Op : Type} {Reply : Op → Type} {Err Mode α β : Type} {P Q : Op → Prop}

/-- Every operation the program can come to is one of `P`. -/
def Only (P : Op → Prop) : Program Op Reply Err α → Prop
  | .done _ => True
  | .fail _ => True
  | .call op next => P op ∧ ∀ reply, (next reply).Only P

@[simp] theorem only_done (value : α) : (.done value : Program Op Reply Err α).Only P ↔ True := Iff.rfl

@[simp] theorem only_fail (error : Err) : (.fail error : Program Op Reply Err α).Only P ↔ True := Iff.rfl

@[simp] theorem only_call (op : Op) (next : Reply op → Program Op Reply Err α) :
    (Program.call op next).Only P ↔ P op ∧ ∀ reply, (next reply).Only P := Iff.rfl

theorem Only.perform {op : Op} {next : Reply op → Program Op Reply Err α} (hop : P op)
    (h : ∀ reply, (next reply).Only P) : (.perform op >>= next : Program Op Reply Err α).Only P := ⟨hop, h⟩

theorem Only.perform_last {op : Op} (hop : P op) : (.perform op : Program Op Reply Err (Reply op)).Only P :=
  ⟨hop, fun _ => trivial⟩

theorem Only.mono {program : Program Op Reply Err α} (h : program.Only P) (hPQ : ∀ op, P op → Q op) :
    program.Only Q := by
  induction program with
  | done value => trivial
  | fail error => trivial
  | call op next ih => exact ⟨hPQ op h.1, fun reply => ih reply (h.2 reply)⟩

theorem Only.bind {program : Program Op Reply Err α} {f : α → Program Op Reply Err β}
    (h : program.Only P) (hf : ∀ value, (f value).Only P) : (program >>= f).Only P := by
  induction program with
  | done value => exact hf value
  | fail error => trivial
  | call op next ih => exact ⟨h.1, fun reply => ih reply (h.2 reply)⟩

theorem Only.catching {program : Program Op Reply Err α} {handler : Err → Program Op Reply Err α}
    (h : program.Only P) (hhandler : ∀ error, (handler error).Only P) :
    (program.catching handler).Only P := by
  induction program with
  | done value => trivial
  | fail error => exact hhandler error
  | call op next ih => exact ⟨h.1, fun reply => ih reply (h.2 reply)⟩

theorem Only.forM {items : List β} {f : β → Program Op Reply Err PUnit} (hf : ∀ item, (f item).Only P) :
    (items.forM f).Only P := by
  induction items with
  | nil => trivial
  | cons item rest ih => exact (hf item).bind fun _ => ih

/-- Operations a monitor does not mind. -/
theorem Only.obeys {M : Monitor Op Reply Mode} {mode : Mode} {program : Program Op Reply Err α}
    (h : program.Only P)
    (hP : ∀ op, P op → M.allows mode op ∧ ∀ reply, M.answers op reply → M.next mode op reply = mode) :
    M.Obeys (fun _ mode' => mode' = mode) (fun _ mode' => mode' = mode) program mode := by
  induction program with
  | done value => rfl
  | fail error => rfl
  | call op next ih =>
      refine ⟨(hP op h.1).1, fun reply hreply => ?_⟩
      rw [(hP op h.1).2 reply hreply]
      exact ih reply (h.2 reply)

/-- Operations that keep a monitor among some modes. -/
theorem Only.among {M : Monitor Op Reply Mode} {C : Mode → Prop} {mode : Mode} {program : Program Op Reply Err α}
    (h : program.Only P) (hP : ∀ op, P op → ∀ mode, C mode →
      M.allows mode op ∧ ∀ reply, M.answers op reply → C (M.next mode op reply)) (hmode : C mode) :
    M.Obeys (fun _ => C) (fun _ => C) program mode := by
  induction program generalizing mode with
  | done value => exact hmode
  | fail error => exact hmode
  | call op next ih =>
      exact ⟨(hP op h.1 mode hmode).1, fun reply hreply => ih reply (h.2 reply) ((hP op h.1 mode hmode).2 reply hreply)⟩

end Program

/-! ### Monitors that learn -/

namespace Monitor

variable {Op : Type} {Reply : Op → Type} {Err Mode α β : Type} {M : Monitor Op Reply Mode}
  {le : Mode → Mode → Prop} {mode : Mode}

/-- The modes only grow, and what is allowed stays allowed. -/
structure Learns (M : Monitor Op Reply Mode) (le : Mode → Mode → Prop) : Prop where
  refl : ∀ mode, le mode mode
  trans : ∀ {a b c}, le a b → le b c → le a c
  grows : ∀ mode op reply, le mode (M.next mode op reply)
  mono : ∀ {mode mode' op}, le mode mode' → M.allows mode op → M.allows mode' op

/-- The program obeys from `mode` on, whatever else is known by then. -/
def From (M : Monitor Op Reply Mode) (le : Mode → Mode → Prop) (mode : Mode) (program : Program Op Reply Err α) : Prop :=
  ∀ mode', le mode mode' → M.Obeys (fun _ => le mode) (fun _ => le mode) program mode'

theorem From.done (value : α) : M.From le mode (.done value : Program Op Reply Err α) := fun _ h => h

theorem From.fail (error : Err) : M.From le mode (.fail error : Program Op Reply Err α) := fun _ h => h

theorem From.bind {program : Program Op Reply Err α} {f : α → Program Op Reply Err β} (h : M.From le mode program)
    (hf : ∀ value, M.From le mode (f value)) : M.From le mode (program >>= f) :=
  fun mode' hmode => (h mode' hmode).bind hf

theorem From.catching {program : Program Op Reply Err α} {handler : Err → Program Op Reply Err α}
    (h : M.From le mode program) (hhandler : ∀ error, M.From le mode (handler error)) :
    M.From le mode (program.catching handler) :=
  fun mode' hmode => (h mode' hmode).catching hhandler

/-- Operations that are allowed by then. -/
theorem Learns.of_only (hM : M.Learns le) {program : Program Op Reply Err α} (h : program.Only (M.allows mode)) :
    M.From le mode program := fun _ hmode =>
  h.among (fun op hop mode' hmode' => ⟨hM.mono hmode' hop, fun reply _ => hM.trans hmode' (hM.grows mode' op reply)⟩)
    hmode

end Monitor

namespace Program

variable {Op : Type} {Reply : Op → Type} {Err Mode α β : Type} {P Q : Op → Prop}

/-- No run of the program takes more than so many operations. -/
def Within : Program Op Reply Err α → Nat → Prop
  | .done _, _ => True
  | .fail _, _ => True
  | .call _ _, 0 => False
  | .call _ next, n + 1 => ∀ reply, (next reply).Within n

theorem Within.perform {op : Op} {next : Reply op → Program Op Reply Err α} {n : Nat}
    (h : ∀ reply, (next reply).Within n) : (.perform op >>= next : Program Op Reply Err α).Within (n + 1) := h

theorem Within.mono {program : Program Op Reply Err α} {m n : Nat} (h : program.Within m) (hmn : m ≤ n) :
    program.Within n := by
  induction program generalizing m n with
  | done value => trivial
  | fail error => trivial
  | call op next ih =>
      cases m with
      | zero => exact h.elim
      | succ m =>
          obtain ⟨n, rfl⟩ := Nat.exists_eq_add_of_lt hmn
          exact fun reply => ih reply (h reply) (by omega)

theorem Within.bind {program : Program Op Reply Err α} {f : α → Program Op Reply Err β} {m n : Nat}
    (h : program.Within m) (hf : ∀ value, (f value).Within n) : (program >>= f).Within (m + n) := by
  induction program generalizing m with
  | done value => exact (hf value).mono (Nat.le_add_left n m)
  | fail error => trivial
  | call op next ih =>
      cases m with
      | zero => exact h.elim
      | succ m =>
          rw [Nat.succ_add]
          exact fun reply => ih reply (h reply)

theorem Within.catching {program : Program Op Reply Err α} {handler : Err → Program Op Reply Err α}
    {m n : Nat} (h : program.Within m) (hhandler : ∀ error, (handler error).Within n) :
    (program.catching handler).Within (m + n) := by
  induction program generalizing m with
  | done value => trivial
  | fail error => exact (hhandler error).mono (Nat.le_add_left n m)
  | call op next ih =>
      cases m with
      | zero => exact h.elim
      | succ m =>
          rw [Nat.succ_add]
          exact fun reply => ih reply (h reply)

/-- Whatever the replies, the program comes to an operation of `P`, or ends in a value of `p`. -/
def Inevitably (P : Op → Prop) (p : α → Prop) : Program Op Reply Err α → Prop
  | .done value => p value
  | .fail _ => False
  | .call op next => P op ∨ ∀ reply, (next reply).Inevitably P p

theorem Inevitably.mono {p p' : α → Prop} {program : Program Op Reply Err α} (h : program.Inevitably P p)
    (hp : ∀ value, p value → p' value) : program.Inevitably P p' := by
  induction program with
  | done value => exact hp value h
  | fail error => exact h
  | call op next ih =>
      rcases h with hop | hnext
      · exact Or.inl hop
      · exact Or.inr fun reply => ih reply (hnext reply)

/-- A debt that only the operations of `P` can settle, and that the program may not end with unless in `p`. -/
theorem inevitably_of_obeys {M : Monitor Op Reply Mode} {mode : Mode} {program : Program Op Reply Err α}
    {post : α → Mode → Prop} {err : Err → Mode → Prop} {debt : Mode → Prop} {p : α → Prop}
    (h : M.Obeys post err program mode) (hdebt : debt mode) (hanswers : ∀ op reply, M.answers op reply)
    (hnext : ∀ mode op reply, debt mode → ¬ P op → debt (M.next mode op reply))
    (hpost : ∀ value mode, post value mode → debt mode → p value) (herr : ∀ error mode, err error mode → ¬ debt mode) :
    program.Inevitably P p := by
  induction program generalizing mode with
  | done value => exact hpost value mode h hdebt
  | fail error => exact herr error mode h hdebt
  | call op next ih =>
      by_cases hop : P op
      · exact Or.inl hop
      · exact Or.inr fun reply => ih reply (h.2 reply (hanswers op reply)) (hnext mode op reply hdebt hop)

end Program

end Concurrency

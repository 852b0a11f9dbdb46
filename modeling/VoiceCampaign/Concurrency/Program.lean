import Mathlib.Logic.Basic

/-!
# Coroutines as programs over an interface

A coroutine is what it still has to run: a value, an exception, or an operation on the outside world
together with what to do with the reply. Nothing here says what an operation does. The interleaving
semantics and the proof rules of `Interleaving.lean` are stated over these trees.
-/

namespace Concurrency

/-- What a coroutine has left to run: `Op` is the interface it calls, `Reply op` what a call of `op`
returns, `Err` its exceptions. -/
inductive Program (Op : Type) (Reply : Op → Type) (Err α : Type) where
  | done (value : α)
  | fail (error : Err)
  | call (op : Op) (next : Reply op → Program Op Reply Err α)

namespace Program

variable {Op : Type} {Reply : Op → Type} {Err α β γ : Type}

def bind : Program Op Reply Err α → (α → Program Op Reply Err β) → Program Op Reply Err β
  | .done value, f => f value
  | .fail error, _ => .fail error
  | .call op next, f => .call op fun reply => (next reply).bind f

/-- `try: body except Exception as error: handler error`. -/
def catching : Program Op Reply Err α → (Err → Program Op Reply Err α) → Program Op Reply Err α
  | .done value, _ => .done value
  | .fail error, handler => handler error
  | .call op next, handler => .call op fun reply => (next reply).catching handler

instance : Monad (Program Op Reply Err) where
  pure := .done
  bind := bind

/-- A single call of the interface. -/
def perform (op : Op) : Program Op Reply Err (Reply op) := .call op .done

@[simp] theorem pure_eq (value : α) : (pure value : Program Op Reply Err α) = .done value := rfl

@[simp] theorem done_bind (value : α) (f : α → Program Op Reply Err β) :
    (Program.done value >>= f) = f value := rfl

@[simp] theorem fail_bind (error : Err) (f : α → Program Op Reply Err β) :
    ((.fail error : Program Op Reply Err α) >>= f) = .fail error := rfl

@[simp] theorem call_bind (op : Op) (next : Reply op → Program Op Reply Err α)
    (f : α → Program Op Reply Err β) :
    (Program.call op next >>= f) = .call op fun reply => next reply >>= f := rfl

@[simp] theorem perform_bind (op : Op) (f : Reply op → Program Op Reply Err β) :
    (perform op >>= f) = .call op f := rfl

@[simp] theorem catching_done (value : α) (handler : Err → Program Op Reply Err α) :
    (Program.done value).catching handler = .done value := rfl

@[simp] theorem catching_fail (error : Err) (handler : Err → Program Op Reply Err α) :
    (Program.fail error).catching handler = handler error := rfl

@[simp] theorem catching_call (op : Op) (next : Reply op → Program Op Reply Err α)
    (handler : Err → Program Op Reply Err α) :
    (Program.call op next).catching handler =
      .call op fun reply => (next reply).catching handler := rfl

theorem bind_done (program : Program Op Reply Err α) : (program >>= .done) = program := by
  induction program with
  | done value => rfl
  | fail error => rfl
  | call op next ih =>
      rw [call_bind]
      exact congrArg _ (funext ih)

theorem bind_assoc (program : Program Op Reply Err α) (f : α → Program Op Reply Err β)
    (g : β → Program Op Reply Err γ) :
    (program >>= f >>= g) = (program >>= fun value => f value >>= g) := by
  induction program with
  | done value => rfl
  | fail error => rfl
  | call op next ih =>
      rw [call_bind, call_bind, call_bind]
      exact congrArg _ (funext ih)

/-- Cut a sequence in two. -/
theorem bind_cut {program : Program Op Reply Err α} {f : α → Program Op Reply Err γ}
    {g : α → Program Op Reply Err β} {k : β → Program Op Reply Err γ} (h : ∀ value, f value = (g value >>= k)) :
    (program >>= f) = (program >>= g >>= k) := by
  rw [bind_assoc]
  exact congrArg (program >>= ·) (funext h)

end Program

end Concurrency

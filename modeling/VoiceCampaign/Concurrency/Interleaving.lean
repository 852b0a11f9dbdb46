import VoiceCampaign.Concurrency.Program
import Mathlib.Data.List.Basic

/-!
# Rely-guarantee reasoning for interleaved programs

Threads run programs over one shared state, one operation at a time. A `Discipline` says what an
operation does, which states are good, what a thread in a given local state tolerates of the others
(`rely`) and what each of its own steps promises them (`guar`). `Safe` is the weakest precondition
under interference: before every operation, and after the last, the others may have moved the shared
state along the rely. A pool of safe threads stays secure under any interleaving (`Secure.run`), so a
program is verified alone, by following its text.
-/

namespace Concurrency

structure Discipline (Op : Type) (Reply : Op → Type) (Shared Local : Type) where
  /-- One operation of a thread, next to the local states of the other threads. -/
  exec : List Local → Shared → Local → (op : Op) → Reply op → Shared → Local → Prop
  /-- What a thread has established when it comes to an operation. -/
  pre : Shared → Local → Op → Prop
  inv : Shared → Prop
  rely : Local → Shared → Shared → Prop
  guar : Local → Shared → Shared → Prop
  compat : Local → Local → Prop
  rely_refl : ∀ l s, rely l s s
  rely_trans : ∀ {l s₁ s₂ s₃}, rely l s₁ s₂ → rely l s₂ s₃ → rely l s₁ s₃
  compat_symm : ∀ {a b}, compat a b → compat b a
  /-- A promised step keeps the shared state good. -/
  inv_guar : ∀ {l s s'}, inv s → guar l s s' → inv s'
  /-- A promised step is one every compatible thread tolerates. -/
  rely_guar : ∀ {l o s s'}, inv s → compat l o → guar l s s' → rely o s s'
  /-- A step leaves a thread compatible with the others. -/
  compat_exec : ∀ {others s l op reply s' l'}, (∀ o ∈ others, compat l o) →
    exec others s l op reply s' l' → ∀ o ∈ others, compat l' o

namespace Discipline

variable {Op : Type} {Reply : Op → Type} {Shared Local Err α β : Type}
variable (D : Discipline Op Reply Shared Local)

/-- Whatever the others do within the rely, the program keeps its promises and ends in `post` or,
with an exception, in `err`. -/
def Safe (post : α → Shared → Local → Prop) (err : Err → Shared → Local → Prop) :
    Program Op Reply Err α → Shared → Local → Prop
  | .done value, s, l => ∀ s₁, D.rely l s s₁ → D.inv s₁ → post value s₁ l
  | .fail error, s, l => ∀ s₁, D.rely l s s₁ → D.inv s₁ → err error s₁ l
  | .call op next, s, l => ∀ s₁, D.rely l s s₁ → D.inv s₁ → D.pre s₁ l op ∧
      ∀ others reply s₂ l₂, D.exec others s₁ l op reply s₂ l₂ →
        D.guar l s₁ s₂ ∧ Safe post err (next reply) s₂ l₂

variable {D} {post post' : α → Shared → Local → Prop} {err err' : Err → Shared → Local → Prop}

/-- Safety survives what the others do. -/
theorem Safe.rely {program : Program Op Reply Err α} {s s' : Shared} {l : Local}
    (h : D.Safe post err program s l) (hrely : D.rely l s s') : D.Safe post err program s' l := by
  cases program with
  | done value => exact fun s₁ hs₁ => h s₁ (D.rely_trans hrely hs₁)
  | fail error => exact fun s₁ hs₁ => h s₁ (D.rely_trans hrely hs₁)
  | call op next => exact fun s₁ hs₁ => h s₁ (D.rely_trans hrely hs₁)

theorem Safe.mono {program : Program Op Reply Err α} {s : Shared} {l : Local}
    (h : D.Safe post err program s l)
    (hpost : ∀ value s l, D.inv s → post value s l → post' value s l)
    (herr : ∀ error s l, D.inv s → err error s l → err' error s l) :
    D.Safe post' err' program s l := by
  induction program generalizing s l with
  | done value => exact fun s₁ hs₁ hinv => hpost value s₁ l hinv (h s₁ hs₁ hinv)
  | fail error => exact fun s₁ hs₁ hinv => herr error s₁ l hinv (h s₁ hs₁ hinv)
  | call op next ih =>
      intro s₁ hs₁ hinv
      refine ⟨(h s₁ hs₁ hinv).1, fun others reply s₂ l₂ hexec => ?_⟩
      obtain ⟨hguar, hnext⟩ := (h s₁ hs₁ hinv).2 others reply s₂ l₂ hexec
      exact ⟨hguar, ih reply hnext⟩

/-- It is enough to be safe wherever the others may have led. -/
theorem Safe.of_later {program : Program Op Reply Err α} {s : Shared} {l : Local}
    (h : ∀ s₁, D.rely l s s₁ → D.inv s₁ → D.Safe post err program s₁ l) :
    D.Safe post err program s l := by
  cases program with
  | done value => exact fun s₁ hs₁ hinv => h s₁ hs₁ hinv s₁ (D.rely_refl _ _) hinv
  | fail error => exact fun s₁ hs₁ hinv => h s₁ hs₁ hinv s₁ (D.rely_refl _ _) hinv
  | call op next => exact fun s₁ hs₁ hinv => h s₁ hs₁ hinv s₁ (D.rely_refl _ _) hinv

theorem Safe.bind {program : Program Op Reply Err α} {f : α → Program Op Reply Err β} {s : Shared}
    {l : Local} {M : α → Shared → Local → Prop} {last : β → Shared → Local → Prop}
    (h : D.Safe M err program s l)
    (hf : ∀ value s l, D.inv s → M value s l → D.Safe last err (f value) s l) :
    D.Safe last err (program >>= f) s l := by
  induction program generalizing s l with
  | done value =>
      rw [Program.done_bind]
      exact .of_later fun s₁ hs₁ hinv => hf value s₁ l hinv (h s₁ hs₁ hinv)
  | fail error =>
      rw [Program.fail_bind]
      exact h
  | call op next ih =>
      rw [Program.call_bind]
      intro s₁ hs₁ hinv
      refine ⟨(h s₁ hs₁ hinv).1, fun others reply s₂ l₂ hexec => ?_⟩
      obtain ⟨hguar, hnext⟩ := (h s₁ hs₁ hinv).2 others reply s₂ l₂ hexec
      exact ⟨hguar, ih reply hnext⟩

theorem Safe.catching {program : Program Op Reply Err α} {handler : Err → Program Op Reply Err α}
    {s : Shared} {l : Local} (h : D.Safe post err program s l)
    (hhandler : ∀ error s l, D.inv s → err error s l → D.Safe post err' (handler error) s l) :
    D.Safe post err' (program.catching handler) s l := by
  induction program generalizing s l with
  | done value => exact h
  | fail error =>
      rw [Program.catching_fail]
      exact .of_later fun s₁ hs₁ hinv => hhandler error s₁ l hinv (h s₁ hs₁ hinv)
  | call op next ih =>
      rw [Program.catching_call]
      intro s₁ hs₁ hinv
      refine ⟨(h s₁ hs₁ hinv).1, fun others reply s₂ l₂ hexec => ?_⟩
      obtain ⟨hguar, hnext⟩ := (h s₁ hs₁ hinv).2 others reply s₂ l₂ hexec
      exact ⟨hguar, ih reply hnext⟩

/-- A fact about the shared state that no step of anyone can break. -/
structure Persistent (D : Discipline Op Reply Shared Local) (P : Shared → Prop) : Prop where
  rely : ∀ {l s s'}, D.rely l s s' → P s → P s'
  guar : ∀ {l s s'}, D.inv s → D.guar l s s' → P s → P s'

/-- Persistent facts are carried across a program. -/
theorem Safe.frame {program : Program Op Reply Err α} {s : Shared} {l : Local} {P : Shared → Prop}
    (hP : Persistent D P) (h : D.Safe post err program s l) (hs : P s) :
    D.Safe (fun value s l => post value s l ∧ P s) (fun error s l => err error s l ∧ P s)
      program s l := by
  induction program generalizing s l with
  | done value => exact fun s₁ hs₁ hinv => ⟨h s₁ hs₁ hinv, hP.rely hs₁ hs⟩
  | fail error => exact fun s₁ hs₁ hinv => ⟨h s₁ hs₁ hinv, hP.rely hs₁ hs⟩
  | call op next ih =>
      intro s₁ hs₁ hinv
      refine ⟨(h s₁ hs₁ hinv).1, fun others reply s₂ l₂ hexec => ?_⟩
      obtain ⟨hguar, hnext⟩ := (h s₁ hs₁ hinv).2 others reply s₂ l₂ hexec
      exact ⟨hguar, ih reply hnext (hP.guar hinv hguar (hP.rely hs₁ hs))⟩

/-- `s'` comes after `s`: promised steps, and what threads put up with, lie between them. -/
inductive Later (D : Discipline Op Reply Shared Local) (s : Shared) : Shared → Prop
  | refl : Later D s s
  | rely {l : Local} {s₁ s₂ : Shared} (h : Later D s s₁) (hrely : D.rely l s₁ s₂) : Later D s s₂
  | guar {l : Local} {s₁ s₂ : Shared} (h : Later D s s₁) (hinv : D.inv s₁) (hguar : D.guar l s₁ s₂) :
      Later D s s₂

theorem Later.trans {s₁ s₂ s₃ : Shared} (h₁₂ : Later D s₁ s₂) (h₂₃ : Later D s₂ s₃) :
    Later D s₁ s₃ := by
  induction h₂₃ with
  | refl => exact h₁₂
  | rely _ hrely ih => exact ih.rely hrely
  | guar _ hinv hguar ih => exact ih.guar hinv hguar

theorem Later.persistent (s : Shared) : Persistent D (Later D s) where
  rely hrely h := h.rely hrely
  guar hinv hguar h := h.guar hinv hguar

theorem Persistent.later {P : Shared → Prop} (hP : Persistent D P) {s s' : Shared}
    (h : Later D s s') (hs : P s) : P s' := by
  induction h with
  | refl => exact hs
  | rely _ hrely ih => exact hP.rely hrely ih
  | guar _ hinv hguar ih => exact hP.guar hinv hguar ih

/-- The end of a program comes after its start. -/
theorem Safe.later {program : Program Op Reply Err α} {s : Shared} {l : Local}
    (h : D.Safe post err program s l) :
    D.Safe (fun value s' l' => post value s' l' ∧ Later D s s') err program s l :=
  (h.frame (Later.persistent s) .refl).mono (fun _ _ _ _ h => h) fun _ _ _ _ h => h.1

/-- Where every step of a kind of thread keeps its promises, all programs of that kind are safe. -/
theorem Safe.of_guar {kind : Local → Prop} (hpre : ∀ {s l op}, D.inv s → kind l → D.pre s l op)
    (hstep : ∀ {others s l op reply s' l'}, D.inv s → kind l → D.exec others s l op reply s' l' →
      D.guar l s s' ∧ kind l')
    (program : Program Op Reply Err α) {s : Shared} {l : Local} (hl : kind l) :
    D.Safe (fun _ _ _ => True) (fun _ _ _ => True) program s l := by
  induction program generalizing s l with
  | done value => exact fun _ _ _ => trivial
  | fail error => exact fun _ _ _ => trivial
  | call op next ih =>
      intro s₁ hs₁ hinv
      refine ⟨hpre hinv hl, fun others reply s₂ l₂ hexec => ?_⟩
      obtain ⟨hguar, hkind⟩ := hstep hinv hl hexec
      exact ⟨hguar, ih reply hkind⟩

/-! ### Pools of threads -/

/-- A thread: the rest of its program, and its local state. -/
structure Thread (Op : Type) (Reply : Op → Type) (Err Local : Type) where
  code : Program Op Reply Err Unit
  loc : Local

/-- A thread that will keep its promises. -/
def Thread.Safe (D : Discipline Op Reply Shared Local) (s : Shared)
    (thread : Thread Op Reply Err Local) : Prop :=
  D.Safe (fun _ _ _ => True) (fun _ _ _ => True) thread.code s thread.loc

/-- The shared state is good, every thread safe, and any two compatible. -/
structure Secure (D : Discipline Op Reply Shared Local) (s : Shared)
    (threads : List (Thread Op Reply Err Local)) : Prop where
  inv : D.inv s
  safe : ∀ thread ∈ threads, thread.Safe D s
  compat : ∀ (i j : Nat) (a b : Thread Op Reply Err Local), i ≠ j → threads[i]? = some a →
    threads[j]? = some b → D.compat a.loc b.loc

variable {threads : List (Thread Op Reply Err Local)}

theorem mem_eraseIdx_iff {i : Nat} {thread : Thread Op Reply Err Local} :
    thread ∈ threads.eraseIdx i ↔ ∃ j, j ≠ i ∧ threads[j]? = some thread :=
  List.mem_eraseIdx_iff_getElem?

theorem getElem?_set_cases {i j : Nat} {new thread : Thread Op Reply Err Local}
    (h : (threads.set i new)[j]? = some thread) :
    (j = i ∧ thread = new) ∨ (j ≠ i ∧ threads[j]? = some thread) := by
  by_cases hj : j = i
  · subst hj
    obtain ⟨hlt, _⟩ := List.getElem?_eq_some_iff.mp h
    rw [List.length_set] at hlt
    rw [List.getElem?_set_self hlt] at h
    exact Or.inl ⟨rfl, (Option.some.inj h).symm⟩
  · rw [List.getElem?_set_ne (Ne.symm hj)] at h
    exact Or.inr ⟨hj, h⟩

/-- One thread of the pool moves on, the others stand where they were. -/
theorem Secure.set {s s' : Shared} {i : Nat} {thread : Thread Op Reply Err Local}
    (h : Secure D s threads) (hinv : D.inv s') (hsafe : thread.Safe D s')
    (hothers : ∀ (j : Nat) (other : Thread Op Reply Err Local), j ≠ i → threads[j]? = some other →
      other.Safe D s' ∧ D.compat thread.loc other.loc) :
    Secure D s' (threads.set i thread) := by
  refine ⟨hinv, ?_, ?_⟩
  · intro other hother
    obtain ⟨j, hget⟩ := List.mem_iff_getElem?.mp hother
    rcases getElem?_set_cases hget with ⟨_, rfl⟩ | ⟨hj, hold⟩
    · exact hsafe
    · exact (hothers j other hj hold).1
  · intro j k a b hjk ha hb
    rcases getElem?_set_cases ha with ⟨rfl, rfl⟩ | ⟨hj, haold⟩
    · rcases getElem?_set_cases hb with ⟨rfl, _⟩ | ⟨hk, hbold⟩
      · exact absurd rfl hjk
      · exact (hothers k b hk hbold).2
    · rcases getElem?_set_cases hb with ⟨rfl, rfl⟩ | ⟨hk, hbold⟩
      · exact D.compat_symm (hothers j a hj haold).2
      · exact h.compat j k a b hjk haold hbold

/-- One step of one thread, under any interleaving. -/
theorem Secure.run {s s' : Shared} {l l' : Local} {i : Nat} {op : Op} {reply : Reply op}
    {next : Reply op → Program Op Reply Err Unit} (h : Secure D s threads)
    (hi : threads[i]? = some ⟨.call op next, l⟩)
    (hexec : D.exec ((threads.eraseIdx i).map Thread.loc) s l op reply s' l') :
    Secure D s' (threads.set i ⟨next reply, l'⟩) ∧ D.pre s l op ∧ D.guar l s s' := by
  obtain ⟨hpre, hrun⟩ := h.safe _ (List.mem_of_getElem? hi) s (D.rely_refl _ _) h.inv
  obtain ⟨hguar, hnext⟩ := hrun _ _ _ _ hexec
  have hothers : ∀ o ∈ (threads.eraseIdx i).map Thread.loc, D.compat l o := by
    intro o ho
    obtain ⟨thread, hthread, rfl⟩ := List.mem_map.mp ho
    obtain ⟨j, hj, hget⟩ := mem_eraseIdx_iff.mp hthread
    exact h.compat i j _ _ (Ne.symm hj) hi hget
  refine ⟨h.set (D.inv_guar h.inv hguar) hnext ?_, hpre, hguar⟩
  intro j other hj hget
  have hrely := D.rely_guar h.inv (h.compat i j _ _ (Ne.symm hj) hi hget) hguar
  exact ⟨(h.safe _ (List.mem_of_getElem? hget)).rely hrely, D.compat_exec hothers hexec _
    (List.mem_map_of_mem (mem_eraseIdx_iff.mpr ⟨j, hj, hget⟩))⟩

/-- The world moves in a way every thread tolerates. -/
theorem Secure.env {s s' : Shared} (h : Secure D s threads) (hinv : D.inv s')
    (hrely : ∀ thread ∈ threads, D.rely thread.loc s s') : Secure D s' threads :=
  ⟨hinv, fun thread hthread => (h.safe thread hthread).rely (hrely thread hthread), h.compat⟩

/-- A new thread starts. -/
theorem Secure.spawn {s : Shared} {thread : Thread Op Reply Err Local} (h : Secure D s threads)
    (hsafe : thread.Safe D s) (hcompat : ∀ other ∈ threads, D.compat thread.loc other.loc) :
    Secure D s (threads ++ [thread]) := by
  have hget : ∀ {j : Nat} {other : Thread Op Reply Err Local},
      (threads ++ [thread])[j]? = some other →
        (j < threads.length ∧ threads[j]? = some other) ∨ (j = threads.length ∧ other = thread) := by
    intro j other hj
    rcases Nat.lt_trichotomy j threads.length with hlt | rfl | hgt
    · rw [List.getElem?_append_left hlt] at hj
      exact Or.inl ⟨hlt, hj⟩
    · rw [List.getElem?_concat_length] at hj
      exact Or.inr ⟨rfl, (Option.some.inj hj).symm⟩
    · rw [List.getElem?_eq_none (by rw [List.length_append, List.length_singleton]; omega)] at hj
      cases hj
  refine ⟨h.inv, ?_, ?_⟩
  · intro other hother
    rcases List.mem_append.mp hother with hother | hother
    · exact h.safe other hother
    · rw [List.mem_singleton.mp hother]
      exact hsafe
  · intro i j a b hij ha hb
    rcases hget ha with ⟨_, haold⟩ | ⟨rfl, rfl⟩
    · rcases hget hb with ⟨_, hbold⟩ | ⟨rfl, rfl⟩
      · exact h.compat i j a b hij haold hbold
      · exact D.compat_symm (hcompat a (List.mem_of_getElem? haold))
    · rcases hget hb with ⟨_, hbold⟩ | ⟨rfl, _⟩
      · exact hcompat b (List.mem_of_getElem? hbold)
      · exact absurd rfl hij

/-- Threads that get along with each other and with the pool join it. -/
theorem Secure.append {s : Shared} {more : List (Thread Op Reply Err Local)} (h : Secure D s threads)
    (hsafe : ∀ thread ∈ more, thread.Safe D s)
    (hthreads : ∀ a ∈ more, ∀ b ∈ threads, D.compat a.loc b.loc)
    (hmore : more.Pairwise fun a b => D.compat a.loc b.loc) : Secure D s (threads ++ more) := by
  induction more generalizing threads with
  | nil => exact (List.append_nil threads).symm ▸ h
  | cons first rest ih =>
      obtain ⟨hfirst, hrest⟩ := List.pairwise_cons.mp hmore
      rw [List.append_cons]
      refine ih (h.spawn (hsafe first List.mem_cons_self) (hthreads first List.mem_cons_self))
        (fun a ha => hsafe a (List.mem_cons_of_mem _ ha)) ?_ hrest
      intro a ha b hb
      rcases List.mem_append.mp hb with hb | hb
      · exact hthreads a (List.mem_cons_of_mem _ ha) b hb
      · rw [List.mem_singleton.mp hb]
        exact D.compat_symm (hfirst a ha)

/-- A thread gives way to one that is safe and at least as compatible: a crash, or its end. -/
theorem Secure.replace {s : Shared} {old thread : Thread Op Reply Err Local} {i : Nat}
    (h : Secure D s threads) (hi : threads[i]? = some old) (hsafe : thread.Safe D s)
    (hcompat : ∀ l, D.compat old.loc l → D.compat thread.loc l) :
    Secure D s (threads.set i thread) :=
  h.set h.inv hsafe fun j _ hj hget =>
    ⟨h.safe _ (List.mem_of_getElem? hget), hcompat _ (h.compat i j _ _ (Ne.symm hj) hi hget)⟩

/-! ### Building on a verified discipline -/

/-- More to know about threads that already keep the promises of `D`: further invariants, promises
and rely, for the runs whose steps all meet `cond`. -/
structure Extension (D : Discipline Op Reply Shared Local) where
  cond : Shared → Local → Op → Prop
  inv : Shared → Prop
  rely : Local → Shared → Shared → Prop
  guar : Local → Shared → Shared → Prop
  compat : Local → Local → Prop
  rely_refl : ∀ l s, rely l s s
  rely_trans : ∀ {l s₁ s₂ s₃}, rely l s₁ s₂ → rely l s₂ s₃ → rely l s₁ s₃
  compat_symm : ∀ {a b}, compat a b → compat b a
  inv_guar : ∀ {l s s'}, D.inv s → inv s → D.guar l s s' → guar l s s' → inv s'
  rely_guar : ∀ {l o s s'}, D.inv s → inv s → compat l o → D.guar l s s' → guar l s s' → rely o s s'
  compat_exec : ∀ {others s l op reply s' l'}, (∀ o ∈ others, compat l o) →
    D.exec others s l op reply s' l' → ∀ o ∈ others, compat l' o

/-- The steps a thread can take are now known to keep the promises of `D`. -/
def Extension.discipline {D : Discipline Op Reply Shared Local} (E : Extension D) :
    Discipline Op Reply Shared Local where
  exec others s l op reply s' l' :=
    D.exec others s l op reply s' l' ∧ D.pre s l op ∧ D.guar l s s' ∧ E.cond s l op
  pre _ _ _ := True
  inv s := D.inv s ∧ E.inv s
  rely l s s' := D.rely l s s' ∧ E.rely l s s'
  guar l s s' := D.guar l s s' ∧ E.guar l s s'
  compat a b := D.compat a b ∧ E.compat a b
  rely_refl l s := ⟨D.rely_refl l s, E.rely_refl l s⟩
  rely_trans h₁ h₂ := ⟨D.rely_trans h₁.1 h₂.1, E.rely_trans h₁.2 h₂.2⟩
  compat_symm h := ⟨D.compat_symm h.1, E.compat_symm h.2⟩
  inv_guar hinv h := ⟨D.inv_guar hinv.1 h.1, E.inv_guar hinv.1 hinv.2 h.1 h.2⟩
  rely_guar hinv hcompat h :=
    ⟨D.rely_guar hinv.1 hcompat.1 h.1, E.rely_guar hinv.1 hinv.2 hcompat.2 h.1 h.2⟩
  compat_exec hothers hexec o ho :=
    ⟨D.compat_exec (fun o ho => (hothers o ho).1) hexec.1 o ho,
      E.compat_exec (fun o ho => (hothers o ho).2) hexec.1 o ho⟩

/-- The same threads, with the list of all states so far kept on the side. -/
def withHistory (D : Discipline Op Reply Shared Local) :
    Discipline Op Reply (Shared × List Shared) Local where
  exec others s l op reply s' l' :=
    D.exec others s.1 l op reply s'.1 l' ∧ s'.2 = s.2 ++ [s'.1]
  pre s l op := D.pre s.1 l op
  inv s := D.inv s.1
  rely l s s' := D.rely l s.1 s'.1 ∧ s.2 <+: s'.2
  guar l s s' := D.guar l s.1 s'.1 ∧ s'.2 = s.2 ++ [s'.1]
  compat := D.compat
  rely_refl l s := ⟨D.rely_refl l s.1, List.prefix_rfl⟩
  rely_trans h₁ h₂ := ⟨D.rely_trans h₁.1 h₂.1, h₁.2.trans h₂.2⟩
  compat_symm := D.compat_symm
  inv_guar hinv h := D.inv_guar hinv h.1
  rely_guar hinv hcompat h := ⟨D.rely_guar hinv hcompat h.1, h.2 ▸ List.prefix_append _ _⟩
  compat_exec hothers hexec := D.compat_exec hothers hexec.1

end Discipline

end Concurrency

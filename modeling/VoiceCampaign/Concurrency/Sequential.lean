import VoiceCampaign.Concurrency.Program

/-!
# One program on its own

Here nobody else runs between two operations. `Ends` is where a program may end, and `Wp` gives what
holds wherever it ends; with `total` it also says that no operation gets stuck, so that the program does
end.
-/

namespace Concurrency

/-- What an operation may do to the state, and reply. -/
abbrev Effect (Op : Type) (Reply : Op → Type) (State : Type) :=
  (op : Op) → State → Reply op → State → Prop

namespace Program

variable {Op : Type} {Reply : Op → Type} {Err State α β : Type} {effect : Effect Op Reply State}

/-- The program, run from one state, ends in another with a value or an exception. -/
inductive Ends (effect : Effect Op Reply State) :
    Program Op Reply Err α → State → Except Err α → State → Prop
  | done (value : α) (s : State) : Ends effect (.done value) s (.ok value) s
  | fail (error : Err) (s : State) : Ends effect (.fail error) s (.error error) s
  | call {op : Op} {next : Reply op → Program Op Reply Err α} {s mid s' : State} {reply : Reply op}
      {result : Except Err α} (hop : effect op s reply mid) (hrest : Ends effect (next reply) mid result s') :
      Ends effect (.call op next) s result s'

theorem Ends.bind {program : Program Op Reply Err α} {f : α → Program Op Reply Err β} {s mid s' : State}
    {value : α} {result : Except Err β} (h : Ends effect program s (.ok value) mid)
    (hf : Ends effect (f value) mid result s') : Ends effect (program >>= f) s result s' := by
  generalize hok : Except.ok value = first at h
  induction h with
  | done _ _ =>
      cases hok
      exact hf
  | fail _ _ => cases hok
  | call hop _ ih => exact .call hop (ih hf hok)

theorem Ends.raised {program : Program Op Reply Err α} {f : α → Program Op Reply Err β} {s s' : State}
    {error : Err} (h : Ends effect program s (.error error) s') : Ends effect (program >>= f) s (.error error) s' := by
  generalize hraised : Except.error error = result at h
  induction h with
  | done _ _ => cases hraised
  | fail _ _ =>
      cases hraised
      exact .fail _ _
  | call hop _ ih => exact .call hop (ih hraised)

theorem Ends.mono {effect' : Effect Op Reply State} {program : Program Op Reply Err α} {s s' : State}
    {result : Except Err α} (h : Ends effect program s result s')
    (hop : ∀ {op : Op} {s : State} {reply : Reply op} {s' : State}, effect op s reply s' → effect' op s reply s') :
    Ends effect' program s result s' := by
  induction h with
  | done value s => exact .done value s
  | fail error s => exact .fail error s
  | call hfirst _ ih => exact .call (hop hfirst) ih

/-- Where a sequence ends, its first part has ended before. -/
theorem Ends.of_bind {program : Program Op Reply Err α} {f : α → Program Op Reply Err β} {s s' : State}
    {result : Except Err β} (h : Ends effect (program >>= f) s result s') :
    (∃ value mid, Ends effect program s (.ok value) mid ∧ Ends effect (f value) mid result s') ∨
      ∃ error, result = .error error ∧ Ends effect program s (.error error) s' := by
  induction program generalizing s with
  | done value => exact Or.inl ⟨value, _, .done value _, h⟩
  | fail error =>
      cases h
      exact Or.inr ⟨error, rfl, .fail error _⟩
  | call op next ih =>
      cases h with
      | call hop hrest =>
          rcases ih _ hrest with ⟨value, mid, hfirst, hsecond⟩ | ⟨error, hresult, hfirst⟩
          · exact Or.inl ⟨value, mid, .call hop hfirst, hsecond⟩
          · exact Or.inr ⟨error, hresult, .call hop hfirst⟩

/-- Where operations are functions of the state, so is the program. -/
theorem Ends.unique (hop : ∀ {op : Op} {s mid mid' : State} {reply reply' : Reply op}, effect op s reply mid →
    effect op s reply' mid' → reply = reply' ∧ mid = mid') {program : Program Op Reply Err α} {s s' s'' : State}
    {result result' : Except Err α} (h : Ends effect program s result s')
    (h' : Ends effect program s result' s'') : result = result' ∧ s' = s'' := by
  induction h with
  | done value s =>
      cases h'
      exact ⟨rfl, rfl⟩
  | fail error s =>
      cases h'
      exact ⟨rfl, rfl⟩
  | call hfirst _ ih =>
      cases h' with
      | call hfirst' hrest' =>
          obtain ⟨rfl, rfl⟩ := hop hfirst hfirst'
          exact ih hrest'

/-- Wherever the program ends, `post` or `err` holds; if `total`, no operation gets stuck. -/
def Wp (effect : Effect Op Reply State) (total : Prop) (post : α → State → Prop) (err : Err → State → Prop) :
    Program Op Reply Err α → State → Prop
  | .done value, s => post value s
  | .fail error, s => err error s
  | .call op next, s => (total → ∃ reply mid, effect op s reply mid) ∧
      ∀ reply mid, effect op s reply mid → Wp effect total post err (next reply) mid

section

variable {total : Prop} {post post' : α → State → Prop} {err err' : Err → State → Prop}

theorem Wp.perform {op : Op} {next : Reply op → Program Op Reply Err α} {s : State}
    (htotal : total → ∃ reply mid, effect op s reply mid)
    (h : ∀ reply mid, effect op s reply mid → Wp effect total post err (next reply) mid) :
    Wp effect total post err (.perform op >>= next) s := ⟨htotal, h⟩

theorem Wp.mono {program : Program Op Reply Err α} {s : State} (h : Wp effect total post err program s)
    (hpost : ∀ value s', post value s' → post' value s') (herr : ∀ error s', err error s' → err' error s') :
    Wp effect total post' err' program s := by
  induction program generalizing s with
  | done value => exact hpost value s h
  | fail error => exact herr error s h
  | call op next ih => exact ⟨h.1, fun reply mid hop => ih reply (h.2 reply mid hop)⟩

theorem Wp.and {program : Program Op Reply Err α} {s : State} (h : Wp effect total post err program s)
    (h' : Wp effect total post' err' program s) :
    Wp effect total (fun value s => post value s ∧ post' value s) (fun error s => err error s ∧ err' error s)
      program s := by
  induction program generalizing s with
  | done value => exact ⟨h, h'⟩
  | fail error => exact ⟨h, h'⟩
  | call op next ih => exact ⟨h.1, fun reply mid hop => ih reply (h.2 reply mid hop) (h'.2 reply mid hop)⟩

theorem Wp.bind {program : Program Op Reply Err α} {f : α → Program Op Reply Err β} {s : State}
    {mid : α → State → Prop} {last : β → State → Prop} (h : Wp effect total mid err program s)
    (hf : ∀ value s', mid value s' → Wp effect total last err (f value) s') :
    Wp effect total last err (program >>= f) s := by
  induction program generalizing s with
  | done value => exact hf value s h
  | fail error => exact h
  | call op next ih => exact ⟨h.1, fun reply mid hop => ih reply (h.2 reply mid hop)⟩

theorem Wp.andThen {program : Program Op Reply Err α} {f : α → Program Op Reply Err β} {s : State}
    {mid : α → State → Prop} {last : β → State → Prop} (h : Wp effect total mid err program s)
    (herr : ∀ error s', err error s' → err' error s')
    (hf : ∀ value s', mid value s' → Wp effect total last err' (f value) s') :
    Wp effect total last err' (program >>= f) s := (h.mono (fun _ _ hmid => hmid) herr).bind hf

theorem Wp.catching {program : Program Op Reply Err α} {handler : Err → Program Op Reply Err α} {s : State}
    (h : Wp effect total post err program s)
    (hhandler : ∀ error s', err error s' → Wp effect total post err' (handler error) s') :
    Wp effect total post err' (program.catching handler) s := by
  induction program generalizing s with
  | done value => exact h
  | fail error => exact hhandler error s h
  | call op next ih => exact ⟨h.1, fun reply mid hop => ih reply (h.2 reply mid hop)⟩

/-- A loop that keeps an invariant. -/
theorem Wp.forM {items : List β} {f : β → Program Op Reply Err PUnit} (inv : State → Prop) {s : State}
    (h : inv s) (hf : ∀ item ∈ items, ∀ s, inv s → Wp effect total (fun _ s' => inv s') err (f item) s) :
    Wp effect total (fun _ s' => inv s') err (items.forM f) s := by
  induction items generalizing s with
  | nil => exact h
  | cons item rest ih =>
      apply (hf item List.mem_cons_self s h).bind
      exact fun _ s' hinv => ih hinv fun other hother => hf other (List.mem_cons_of_mem _ hother)

/-- `Wp` is about every end. -/
theorem Wp.of_ends {program : Program Op Reply Err α} {s s' : State} {result : Except Err α}
    (h : Wp effect total post err program s) (hends : Ends effect program s result s') :
    (∀ value, result = .ok value → post value s') ∧ ∀ error, result = .error error → err error s' := by
  induction hends with
  | done value s => exact ⟨fun _ he => Except.ok.inj he ▸ h, nofun⟩
  | fail error s => exact ⟨nofun, fun _ he => Except.error.inj he ▸ h⟩
  | call hop _ ih => exact ih (h.2 _ _ hop)

/-- A program that never gets stuck ends. -/
theorem Wp.exists_ends {program : Program Op Reply Err α} {s : State}
    (h : Wp effect total post err program s) (htotal : total) :
    ∃ result s', Ends effect program s result s' := by
  induction program generalizing s with
  | done value => exact ⟨_, s, .done value s⟩
  | fail error => exact ⟨_, s, .fail error s⟩
  | call op next ih =>
      obtain ⟨reply, mid, hop⟩ := h.1 htotal
      obtain ⟨result, s', hrest⟩ := ih reply (h.2 reply mid hop)
      exact ⟨result, s', .call hop hrest⟩

end

end Program

end Concurrency

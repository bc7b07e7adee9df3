import VersionedQueue.Storage.Basic

/-!
# How an operation ends

Three ways to speak of one run of an operation.  `Answers` says that it does not fail, and what then
holds; `Ends` says what holds if it is answered, and what if it fails; `StateBound.Keeps` relates the
state before to the state after, however it ends.  `Coupled` speaks of two runs, from states that are
related.  All go through a sequence of steps.
-/

set_option autoImplicit false
set_option relaxedAutoImplicit false

namespace VersionedQueue

variable {ε σ α β : Type}

/-- An operation answers from a state, and its answer and the state after it are as described. -/
def Answers (act : EStateM ε σ α) (s : σ) (post : α → σ → Prop) : Prop :=
  ∃ a s', act s = .ok a s' ∧ post a s'

theorem bind_eq_of_ok {act : EStateM ε σ α} {next : α → EStateM ε σ β} {s s' : σ} {a : α}
    (done : act s = .ok a s') : (act >>= next) s = next a s' := by
  change EStateM.bind act next s = _
  rw [EStateM.bind, done]

theorem bind_eq_of_error {act : EStateM ε σ α} {next : α → EStateM ε σ β} {s s' : σ} {e : ε}
    (failed : act s = .error e s') : (act >>= next) s = .error e s' := by
  change EStateM.bind act next s = _
  rw [EStateM.bind, failed]

theorem error_of_bind {act : EStateM ε σ α} {next : α → EStateM ε σ β} {s s' : σ} {e : ε}
    (h : (act >>= next) s = .error e s') :
    act s = .error e s' ∨ ∃ a t, act s = .ok a t ∧ next a t = .error e s' := by
  change EStateM.bind act next s = .error e s' at h
  unfold EStateM.bind at h
  split at h
  · rename_i a t done
    exact .inr ⟨a, t, done, h⟩
  · rename_i e t failed
    cases h
    exact .inl failed

namespace Answers

variable {act : EStateM ε σ α} {s : σ} {post : α → σ → Prop}

theorem imp {weaker : α → σ → Prop} (h : Answers act s post) (w : ∀ a s', post a s' → weaker a s') :
    Answers act s weaker := by
  obtain ⟨a, s', done, holds⟩ := h
  exact ⟨a, s', done, w a s' holds⟩

theorem of_eq {act' : EStateM ε σ α} {s' : σ} (same : act s = act' s') (h : Answers act' s' post) :
    Answers act s post := by
  obtain ⟨a, t, done, holds⟩ := h
  exact ⟨a, t, same.trans done, holds⟩

theorem bind {next : α → EStateM ε σ β} {last : β → σ → Prop} (first : Answers act s post)
    (second : ∀ a s', post a s' → Answers (next a) s' last) : Answers (act >>= next) s last := by
  obtain ⟨a, s', done, holds⟩ := first
  obtain ⟨b, s'', later, ends⟩ := second a s' holds
  exact ⟨b, s'', (bind_eq_of_ok done).trans later, ends⟩

theorem bind_of_ok {next : α → EStateM ε σ β} {last : β → σ → Prop} {a : α} {s' : σ}
    (done : act s = .ok a s') (h : Answers (next a) s' last) : Answers (act >>= next) s last :=
  h.of_eq (bind_eq_of_ok done)

theorem pure {a : α} (h : post a s) : Answers (Pure.pure a : EStateM ε σ α) s post :=
  ⟨a, s, rfl, h⟩

theorem ofExcept {r : Except ε α} {a : α} (ok : r = .ok a) (h : post a s) :
    Answers (MonadExcept.ofExcept r : EStateM ε σ α) s post := by
  subst ok
  exact ⟨a, s, rfl, h⟩

theorem ofExcept_bind {r : Except ε α} {a : α} {next : α → EStateM ε σ β} {last : β → σ → Prop}
    (ok : r = .ok a) (h : Answers (next a) s last) :
    Answers (MonadExcept.ofExcept r >>= next) s last := by
  subst ok
  exact h

theorem of_ok {a : α} {s' : σ} (h : Answers act s post) (done : act s = .ok a s') : post a s' := by
  obtain ⟨b, t, found, holds⟩ := h
  have same := found.symm.trans done
  cases same
  exact holds

end Answers

/-- However an operation ends from a state, an answer and the state after it are as described by
`post`, a failure and the state after it as described by `fail`. -/
def Ends (act : EStateM ε σ α) (s : σ) (post : α → σ → Prop) (fail : ε → σ → Prop) : Prop :=
  match act s with
  | .ok a s' => post a s'
  | .error e s' => fail e s'

namespace Ends

variable {act : EStateM ε σ α} {s s' : σ} {post : α → σ → Prop} {fail : ε → σ → Prop}

theorem intro (ok : ∀ a s', act s = .ok a s' → post a s')
    (error : ∀ e s', act s = .error e s' → fail e s') : Ends act s post fail := by
  unfold Ends
  cases done : act s with
  | ok a s' => exact ok a s' done
  | error e s' => exact error e s' done

theorem of_ok {a : α} (h : Ends act s post fail) (done : act s = .ok a s') : post a s' := by
  unfold Ends at h
  rwa [done] at h

theorem of_error {e : ε} (h : Ends act s post fail) (done : act s = .error e s') : fail e s' := by
  unfold Ends at h
  rwa [done] at h

theorem answered {a : α} (done : act s = .ok a s') (h : post a s') : Ends act s post fail := by
  unfold Ends
  rwa [done]

theorem failed {e : ε} (done : act s = .error e s') (h : fail e s') : Ends act s post fail := by
  unfold Ends
  rwa [done]

theorem imp {weaker : α → σ → Prop} {milder : ε → σ → Prop} (h : Ends act s post fail)
    (ok : ∀ a s', post a s' → weaker a s') (error : ∀ e s', fail e s' → milder e s') :
    Ends act s weaker milder :=
  .intro (fun a s' done => ok a s' (h.of_ok done)) fun e s' done => error e s' (h.of_error done)

theorem of_eq {act' : EStateM ε σ α} (same : act s = act' s') (h : Ends act' s' post fail) :
    Ends act s post fail := by
  unfold Ends at h ⊢
  rwa [same]

theorem bind {next : α → EStateM ε σ β} {last : β → σ → Prop} (first : Ends act s post fail)
    (second : ∀ a s', post a s' → Ends (next a) s' last fail) : Ends (act >>= next) s last fail := by
  unfold Ends at first
  change match EStateM.bind act next s with | .ok b t => last b t | .error e t => fail e t
  unfold EStateM.bind
  cases done : act s with
  | ok a t =>
      rw [done] at first
      exact second a t first
  | error e t =>
      rw [done] at first
      exact first

theorem answers (h : Ends act s post fail) (never : ∀ e s', ¬ fail e s') : Answers act s post := by
  cases done : act s with
  | ok a s' => exact ⟨a, s', done, h.of_ok done⟩
  | error e s' => exact absurd (h.of_error done) (never e s')

theorem pure {a : α} (h : post a s) : Ends (Pure.pure a : EStateM ε σ α) s post fail := h

theorem ofExcept {r : Except ε α} (ok : ∀ a, r = .ok a → post a s)
    (error : ∀ e, r = .error e → fail e s) :
    Ends (MonadExcept.ofExcept r : EStateM ε σ α) s post fail := by
  cases r with
  | ok a => exact ok a rfl
  | error e => exact error e rfl

theorem ofExcept_bind {r : Except ε α} {next : α → EStateM ε σ β} {last : β → σ → Prop}
    (error : ∀ e, r = .error e → fail e s) (ok : ∀ a, r = .ok a → Ends (next a) s last fail) :
    Ends (MonadExcept.ofExcept r >>= next) s last fail := by
  cases r with
  | ok a => exact ok a rfl
  | error e => exact error e rfl

end Ends

/-- The state that an operation leaves, whether it answers or fails. -/
def stateAfter : EStateM.Result ε σ α → σ
  | .ok _ s => s
  | .error _ s => s

/-- The answer of an operation, if it does not fail. -/
def answer? : EStateM.Result ε σ α → Option α
  | .ok a _ => some a
  | .error _ _ => none

theorem ok_of_answer? {r : EStateM.Result ε σ α} {a : α} (h : answer? r = some a) :
    r = .ok a (stateAfter r) := by
  cases r with
  | ok b s =>
      cases h
      rfl
  | error e s => cases h

theorem error_of_answer? {r : EStateM.Result ε σ α} (h : (answer? r).isNone = true) :
    ∃ e, r = .error e (stateAfter r) := by
  cases r with
  | ok b s => cases h
  | error e s => exact ⟨e, rfl⟩

/-- A relation between the states before and after an operation that carries over to sequences of
operations. -/
structure StateBound (σ : Type) where
  rel : σ → σ → Prop
  refl : ∀ s, rel s s
  trans : ∀ {s t u}, rel s t → rel t u → rel s u

namespace StateBound

variable {b : StateBound σ}

/-- However an operation ends, the states before and after it are related. -/
def Keeps (b : StateBound σ) (act : EStateM ε σ α) : Prop := ∀ s, b.rel s (stateAfter (act s))

theorem Keeps.ends {act : EStateM ε σ α} (h : b.Keeps act) (s : σ) :
    Ends act s (fun _ s' => b.rel s s') fun _ s' => b.rel s s' := by
  have kept := h s
  refine .intro (fun a s' done => ?_) fun e s' done => ?_
  · rwa [done] at kept
  · rwa [done] at kept

theorem keeps_pure (a : α) : b.Keeps (pure a : EStateM ε σ α) := fun s => b.refl s

theorem keeps_throw (e : ε) : b.Keeps (throw e : EStateM ε σ α) := fun s => b.refl s

theorem keeps_ofExcept (r : Except ε α) :
    b.Keeps (MonadExcept.ofExcept r : EStateM ε σ α) := by
  intro s
  cases r with
  | ok _ => exact b.refl s
  | error _ => exact b.refl s

theorem keeps_bind {act : EStateM ε σ α} {next : α → EStateM ε σ β} (first : b.Keeps act)
    (second : ∀ a, b.Keeps (next a)) : b.Keeps (act >>= next) := by
  intro s
  have begun := first s
  change b.rel s (stateAfter (EStateM.bind act next s))
  unfold EStateM.bind
  cases done : act s with
  | error e t =>
      rw [done] at begun
      exact begun
  | ok a t =>
      rw [done] at begun
      exact b.trans begun (second a t)

theorem keeps_ite {p : Prop} [Decidable p] {yes no : EStateM ε σ α} (hy : b.Keeps yes)
    (hn : b.Keeps no) : b.Keeps (if p then yes else no) := by
  split
  · exact hy
  · exact hn

end StateBound

/-- Two runs end in the same way, in related states. -/
inductive Paired (R : σ → σ → Prop) : EStateM.Result ε σ α → EStateM.Result ε σ α → Prop
  | ok {a : α} {s s' : σ} : R s s' → Paired R (.ok a s) (.ok a s')
  | error {e : ε} {s s' : σ} : R s s' → Paired R (.error e s) (.error e s')

/-- From related states an operation ends in the same way, in related states. -/
def Coupled (R : σ → σ → Prop) (act : EStateM ε σ α) : Prop :=
  ∀ ⦃s s' : σ⦄, R s s' → Paired R (act s) (act s')

namespace Paired

variable {R : σ → σ → Prop} {s : σ} {r : EStateM.Result ε σ α}

theorem of_ok {a : α} (h : Paired R (.ok a s) r) : ∃ s', r = .ok a s' ∧ R s s' := by
  cases h with
  | ok related => exact ⟨_, rfl, related⟩

theorem of_error {e : ε} (h : Paired R (.error e s) r) : ∃ s', r = .error e s' ∧ R s s' := by
  cases h with
  | error related => exact ⟨_, rfl, related⟩

end Paired

namespace Coupled

variable {R : σ → σ → Prop}

theorem pure (a : α) : Coupled R (Pure.pure a : EStateM ε σ α) := fun _ _ related => .ok related

theorem throw (e : ε) : Coupled R (MonadExcept.throw e : EStateM ε σ α) := fun _ _ related =>
  .error related

theorem ofExcept (r : Except ε α) : Coupled R (MonadExcept.ofExcept r : EStateM ε σ α) := by
  cases r with
  | ok a => exact .pure a
  | error e => exact .throw e

theorem bind {act : EStateM ε σ α} {next : α → EStateM ε σ β} (first : Coupled R act)
    (second : ∀ a, Coupled R (next a)) : Coupled R (act >>= next) := by
  intro s s' related
  have begun := first related
  cases done : act s with
  | ok a t =>
      rw [done] at begun
      obtain ⟨t', done', related'⟩ := begun.of_ok
      rw [bind_eq_of_ok done, bind_eq_of_ok done']
      exact second a related'
  | error e t =>
      rw [done] at begun
      obtain ⟨t', done', related'⟩ := begun.of_error
      rw [bind_eq_of_error done, bind_eq_of_error done']
      exact .error related'

theorem ite {p : Prop} [Decidable p] {yes no : EStateM ε σ α} (hy : Coupled R yes)
    (hn : Coupled R no) : Coupled R (if p then yes else no) := by
  split
  · exact hy
  · exact hn

end Coupled

end VersionedQueue

import Mathlib.Algebra.Order.Floor.Div
import Mathlib.Tactic.Common

/-!
# Stateful computations that return, fail or panic

A task reads and updates a state and ends in a value, in a returned error or in
a panic. The state survives all three endings: what a computation did before it
failed stays done. The rules below are the ones proofs about tasks use: how a
sequence ends, which predicates on the state a task keeps, and how a task may
end.
-/
namespace JustDrop

inductive Outcome (ε α : Type) where
  | ok (a : α)
  | err (e : ε)
  | panic
  deriving DecidableEq, Repr

def Task (σ ε α : Type) : Type := σ → Outcome ε α × σ

namespace Task
variable {σ τ ε ε' α β : Type}

instance : Monad (Task σ ε) where
  pure a := fun s => (.ok a, s)
  bind t f := fun s =>
    match t s with
    | (.ok a, s') => f a s'
    | (.err e, s') => (.err e, s')
    | (.panic, s') => (.panic, s')

def fail (e : ε) : Task σ ε α := fun s => (.err e, s)

def panic : Task σ ε α := fun s => (.panic, s)

def get : Task σ ε σ := fun s => (.ok s, s)

def modify (f : σ → σ) : Task σ ε Unit := fun s => (.ok (), f s)

/-- An arithmetic step that has no value panics. -/
def ofChecked : Option α → Task σ ε α
  | some a => pure a
  | none => panic

def when (b : Bool) (t : Task σ ε Unit) : Task σ ε Unit := if b then t else pure ()

def mapErr (f : ε → ε') (t : Task σ ε α) : Task σ ε' α := fun s =>
  match t s with
  | (.ok a, s') => (.ok a, s')
  | (.err e, s') => (.err (f e), s')
  | (.panic, s') => (.panic, s')

/-- Run a task on one component of a larger state. -/
def zoom (view : σ → τ) (put : τ → σ → σ) (t : Task τ ε α) : Task σ ε α := fun s =>
  ((t (view s)).1, put (t (view s)).2 s)

@[simp] theorem pure_run (a : α) (s : σ) : (pure a : Task σ ε α) s = (.ok a, s) := rfl
@[simp] theorem fail_run (e : ε) (s : σ) : (fail e : Task σ ε α) s = (.err e, s) := rfl
@[simp] theorem panic_run (s : σ) : (panic : Task σ ε α) s = (.panic, s) := rfl
@[simp] theorem get_run (s : σ) : (get : Task σ ε σ) s = (.ok s, s) := rfl
@[simp] theorem modify_run (f : σ → σ) (s : σ) :
    (modify f : Task σ ε Unit) s = (.ok (), f s) := rfl
@[simp] theorem ofChecked_some (a : α) : (ofChecked (some a) : Task σ ε α) = pure a := rfl
@[simp] theorem ofChecked_none : (ofChecked none : Task σ ε α) = panic := rfl

@[simp] theorem when_true (t : Task σ ε Unit) : when true t = t := rfl
@[simp] theorem when_false (t : Task σ ε Unit) : when false t = pure () := rfl

/-! ### How a sequence ends -/

theorem bind_of_ok {t : Task σ ε α} {s s' : σ} {a : α} (h : t s = (.ok a, s'))
    (f : α → Task σ ε β) : (t >>= f) s = f a s' := by
  simp only [bind, h]

theorem bind_of_err {t : Task σ ε α} {s s' : σ} {e : ε} (h : t s = (.err e, s'))
    (f : α → Task σ ε β) : (t >>= f) s = (.err e, s') := by
  simp only [bind, h]

theorem bind_of_panic {t : Task σ ε α} {s s' : σ} (h : t s = (.panic, s'))
    (f : α → Task σ ε β) : (t >>= f) s = (.panic, s') := by
  simp only [bind, h]

@[simp] theorem pure_bind_run (a : α) (f : α → Task σ ε β) (s : σ) :
    ((pure a : Task σ ε α) >>= f) s = f a s := rfl

@[simp] theorem fail_bind_run (e : ε) (f : α → Task σ ε β) (s : σ) :
    ((fail e : Task σ ε α) >>= f) s = (.err e, s) := rfl

@[simp] theorem panic_bind_run (f : α → Task σ ε β) (s : σ) :
    ((panic : Task σ ε α) >>= f) s = (.panic, s) := rfl

@[simp] theorem get_bind_run (f : σ → Task σ ε β) (s : σ) :
    ((get : Task σ ε σ) >>= f) s = f s s := rfl

@[simp] theorem modify_bind_run (g : σ → σ) (f : Unit → Task σ ε β) (s : σ) :
    ((modify g : Task σ ε Unit) >>= f) s = f () (g s) := rfl

/-- A sequence returns a value exactly when both of its parts do. -/
theorem bind_eq_ok {t : Task σ ε α} {f : α → Task σ ε β} {s s' : σ} {b : β} :
    (t >>= f) s = (.ok b, s') ↔ ∃ a s₁, t s = (.ok a, s₁) ∧ f a s₁ = (.ok b, s') := by
  constructor
  · intro h
    rcases ht : t s with ⟨a | e | _, s₁⟩
    · exact ⟨a, s₁, rfl, by rwa [bind_of_ok ht] at h⟩
    · rw [bind_of_err ht] at h
      simp at h
    · rw [bind_of_panic ht] at h
      simp at h
  · rintro ⟨a, s₁, ht, hf⟩
    rw [bind_of_ok ht, hf]

theorem bind_assoc {γ : Type} (t : Task σ ε α) (f : α → Task σ ε β) (g : β → Task σ ε γ) :
    t >>= f >>= g = t >>= fun a => f a >>= g := by
  funext s
  rcases h : t s with ⟨a | e | _, s₁⟩ <;> simp only [bind, h]

theorem bind_eq_panic {t : Task σ ε α} {f : α → Task σ ε β} {s : σ} :
    ((t >>= f) s).1 = .panic ↔
      (t s).1 = .panic ∨ ∃ a s₁, t s = (.ok a, s₁) ∧ (f a s₁).1 = .panic := by
  rcases h : t s with ⟨a | e | _, s₁⟩
  · simp [bind_of_ok h]
  · simp [bind_of_err h]
  · simp [bind_of_panic h]

@[simp] theorem ofChecked_eq_ok {o : Option α} {s s' : σ} {a : α} :
    (ofChecked o : Task σ ε α) s = (.ok a, s') ↔ o = some a ∧ s' = s := by
  cases o with
  | none => simp
  | some b => simp [eq_comm]

@[simp] theorem when_fail_eq_ok {b : Bool} {e : ε} {s s' : σ} {a : Unit} :
    (when b (fail e) : Task σ ε Unit) s = (.ok a, s') ↔ b = false ∧ s' = s := by
  cases b <;> simp [eq_comm]

theorem mapErr_of_ok {f : ε → ε'} {t : Task σ ε α} {s s' : σ} {a : α}
    (h : t s = (.ok a, s')) : mapErr f t s = (.ok a, s') := by
  simp only [mapErr, h]

theorem mapErr_of_err {f : ε → ε'} {t : Task σ ε α} {s s' : σ} {e : ε}
    (h : t s = (.err e, s')) : mapErr f t s = (.err (f e), s') := by
  simp only [mapErr, h]

@[simp] theorem mapErr_eq_ok {f : ε → ε'} {t : Task σ ε α} {s s' : σ} {a : α} :
    mapErr f t s = (.ok a, s') ↔ t s = (.ok a, s') := by
  rcases ht : t s with ⟨b | e | _, s₁⟩ <;> simp [mapErr, ht]

@[simp] theorem mapErr_snd {f : ε → ε'} {t : Task σ ε α} {s : σ} :
    (mapErr f t s).2 = (t s).2 := by
  rcases ht : t s with ⟨b | e | _, s₁⟩ <;> simp [mapErr, ht]

theorem zoom_of_ok {view : σ → τ} {put : τ → σ → σ} {t : Task τ ε α} {s : σ} {a : α} {u : τ}
    (h : t (view s) = (.ok a, u)) : zoom view put t s = (.ok a, put u s) := by
  simp only [zoom, h]

theorem zoom_eq_ok {view : σ → τ} {put : τ → σ → σ} {t : Task τ ε α} {s s' : σ} {a : α} :
    zoom view put t s = (.ok a, s') ↔ ∃ u, t (view s) = (.ok a, u) ∧ s' = put u s := by
  rcases ht : t (view s) with ⟨b | e | _, u⟩ <;> simp [zoom, ht, eq_comm]

/-- On a component that can be read back and overwritten, zooming goes through a sequence. -/
theorem zoom_bind {view : σ → τ} {put : τ → σ → σ} (hview : ∀ u s, view (put u s) = u)
    (hput : ∀ u v s, put v (put u s) = put v s) (t : Task τ ε α) (f : α → Task τ ε β) :
    zoom view put (t >>= f) = zoom view put t >>= fun a => zoom view put (f a) := by
  funext s
  rcases ht : t (view s) with ⟨a | e | _, u⟩ <;> simp [zoom, bind, ht, hview, hput]

theorem zoom_pure {view : σ → τ} {put : τ → σ → σ} (hput : ∀ s, put (view s) s = s) (a : α) :
    zoom view put (pure a : Task τ ε α) = pure a := by
  funext s
  simp [zoom, hput]

/-! ### Predicates a task keeps -/

/-- However the task ends, `I` still holds of the state it leaves. -/
def Keeps (I : σ → Prop) (t : Task σ ε α) : Prop := ∀ s, I s → I (t s).2

section Keeps
variable {I : σ → Prop}

theorem Keeps.pure (a : α) : Keeps I (Pure.pure a : Task σ ε α) := fun _ h => h

theorem Keeps.fail (e : ε) : Keeps I (Task.fail e : Task σ ε α) := fun _ h => h

theorem Keeps.panic : Keeps I (Task.panic : Task σ ε α) := fun _ h => h

theorem Keeps.get : Keeps I (Task.get : Task σ ε σ) := fun _ h => h

theorem Keeps.modify {f : σ → σ} (h : ∀ s, I s → I (f s)) :
    Keeps I (Task.modify f : Task σ ε Unit) := h

theorem Keeps.ofChecked (o : Option α) : Keeps I (Task.ofChecked o : Task σ ε α) := by
  cases o with
  | none => exact Keeps.panic
  | some a => exact Keeps.pure a

theorem Keeps.bind {t : Task σ ε α} {f : α → Task σ ε β} (ht : Keeps I t)
    (hf : ∀ a, Keeps I (f a)) : Keeps I (t >>= f) := by
  intro s hs
  have h₁ := ht s hs
  rcases h : t s with ⟨a | e | _, s₁⟩ <;> rw [h] at h₁
  · rw [bind_of_ok h]
    exact hf a s₁ h₁
  · rw [bind_of_err h]
    exact h₁
  · rw [bind_of_panic h]
    exact h₁

theorem Keeps.ofChecked_bind {o : Option α} {f : α → Task σ ε β}
    (hf : ∀ a, o = some a → Keeps I (f a)) : Keeps I (Task.ofChecked o >>= f) := by
  cases o with
  | none => exact Keeps.panic
  | some a => exact hf a rfl

theorem Keeps.when (b : Bool) {t : Task σ ε Unit} (ht : Keeps I t) :
    Keeps I (Task.when b t) := by
  cases b with
  | false => exact Keeps.pure _
  | true => exact ht

/-- A predicate that the first part has brought about holds after the whole. -/
theorem Keeps.after {t : Task σ ε α} {f : α → Task σ ε β} {s : σ} (h : I (t s).2)
    (hf : ∀ a, Keeps I (f a)) : I ((t >>= f) s).2 := by
  rcases ht : t s with ⟨a | e | _, s₁⟩ <;> rw [ht] at h
  · rw [bind_of_ok ht]
    exact hf a s₁ h
  · rw [bind_of_err ht]
    exact h
  · rw [bind_of_panic ht]
    exact h

/-- A predicate lost by a sequence was kept by its first part and lost by the rest. -/
theorem Keeps.lost_by_rest {t : Task σ ε α} {f : α → Task σ ε β} (ht : Keeps I t) {s : σ}
    (hs : I s) (hlost : ¬I ((t >>= f) s).2) :
    ∃ a s₁, t s = (.ok a, s₁) ∧ I s₁ ∧ ¬I (f a s₁).2 := by
  have h₁ := ht s hs
  rcases h : t s with ⟨a | e | _, s₁⟩ <;> rw [h] at h₁
  · exact ⟨a, s₁, rfl, h₁, by rwa [bind_of_ok h] at hlost⟩
  · exact absurd (by rw [bind_of_err h]; exact h₁) hlost
  · exact absurd (by rw [bind_of_panic h]; exact h₁) hlost

theorem Keeps.mapErr {t : Task σ ε α} (f : ε → ε') (ht : Keeps I t) :
    Keeps I (Task.mapErr f t) := by
  intro s hs
  rw [mapErr_snd]
  exact ht s hs

theorem Keeps.zoom {view : σ → τ} {put : τ → σ → σ} {J : τ → Prop} {t : Task τ ε α}
    (ht : Keeps J t) (hview : ∀ s, I s → J (view s)) (hput : ∀ s u, I s → J u → I (put u s)) :
    Keeps I (Task.zoom view put t) := fun s hs => hput s _ hs (ht _ (hview s hs))

end Keeps

/-! ### What a task leaves behind -/

/-- From a state in `P` a value leaves the task in `Q`, any other ending leaves it in `F`. -/
def Ensures (P : σ → Prop) (t : Task σ ε α) (Q : α → σ → Prop) (F : σ → Prop) : Prop :=
  ∀ s, P s → match t s with
    | (.ok a, s') => Q a s'
    | (.err _, s') => F s'
    | (.panic, s') => F s'

section Ensures
variable {P : σ → Prop} {Q Q' : α → σ → Prop} {F F' : σ → Prop}

theorem Ensures.pure {a : α} (h : ∀ s, P s → Q a s) :
    Ensures P (Pure.pure a : Task σ ε α) Q F := h

theorem Ensures.fail (e : ε) (h : ∀ s, P s → F s) :
    Ensures P (Task.fail e : Task σ ε α) Q F := h

theorem Ensures.modify {f : σ → σ} {Q : Unit → σ → Prop} (h : ∀ s, P s → Q () (f s)) :
    Ensures P (Task.modify f : Task σ ε Unit) Q F := h

theorem Ensures.ofChecked {o : Option α} (h : ∀ a, o = some a → ∀ s, P s → Q a s)
    (hF : ∀ s, P s → F s) : Ensures P (Task.ofChecked o : Task σ ε α) Q F := by
  intro s hs
  cases o with
  | none => exact hF s hs
  | some a => exact h a rfl s hs

theorem Ensures.bind {R : β → σ → Prop} {t : Task σ ε α} {f : α → Task σ ε β}
    (ht : Ensures P t Q F) (hf : ∀ a, Ensures (Q a) (f a) R F) : Ensures P (t >>= f) R F := by
  intro s hs
  have h₁ := ht s hs
  rcases h : t s with ⟨a | e | _, s₁⟩ <;> simp only [h] at h₁
  · rw [bind_of_ok h]
    exact hf a s₁ h₁
  · rw [bind_of_err h]
    exact h₁
  · rw [bind_of_panic h]
    exact h₁

theorem Ensures.ofChecked_bind {R : β → σ → Prop} {o : Option α} {f : α → Task σ ε β}
    (hF : ∀ s, P s → F s) (hf : ∀ a, o = some a → Ensures P (f a) R F) :
    Ensures P (Task.ofChecked o >>= f) R F := by
  cases o with
  | none => exact hF
  | some a => exact hf a rfl

/-- A task that leaves one predicate, however it ends. -/
theorem Ensures.of_snd {t : Task σ ε α} (ht : ∀ s, P s → F (t s).2) :
    Ensures P t (fun _ => F) F := by
  intro s hs
  have h₁ := ht s hs
  rcases h : t s with ⟨a | e | _, s₁⟩ <;> rw [h] at h₁ <;> exact h₁

/-- A task that keeps a predicate may stand in front of any other. -/
theorem Ensures.bind_keeps {R : β → σ → Prop} {t : Task σ ε α} {f : α → Task σ ε β}
    (ht : Keeps P t) (hF : ∀ s, P s → F s) (hf : ∀ a, Ensures P (f a) R F) :
    Ensures P (t >>= f) R F := by
  refine Ensures.bind (fun s hs => ?_) hf
  have h₁ := ht s hs
  rcases h : t s with ⟨a | e | _, s₁⟩ <;> rw [h] at h₁
  · exact h₁
  · exact hF s₁ h₁
  · exact hF s₁ h₁

theorem Ensures.conseq {t : Task σ ε α} (ht : Ensures P t Q F)
    (hQ : ∀ a s, Q a s → Q' a s) (hF : ∀ s, F s → F' s) : Ensures P t Q' F' := by
  intro s hs
  have h₁ := ht s hs
  rcases h : t s with ⟨a | e | _, s₁⟩ <;> simp only [h] at h₁ ⊢
  · exact hQ a s₁ h₁
  · exact hF s₁ h₁
  · exact hF s₁ h₁

/-- What is known of every returned value may be added. -/
theorem Ensures.of_ok {t : Task σ ε α} (ht : Ensures P t Q F)
    (hQ : ∀ s a s', t s = (.ok a, s') → Q a s' → Q' a s') : Ensures P t Q' F := by
  intro s hs
  have h₁ := ht s hs
  rcases h : t s with ⟨a | e | _, s₁⟩ <;> simp only [h] at h₁ ⊢
  · exact hQ s a s₁ h h₁
  · exact h₁
  · exact h₁

/-- What holds after a value and after every other ending holds at the end. -/
theorem Ensures.leaves {t : Task σ ε α} (ht : Ensures P t Q F) (hQ : ∀ a s, Q a s → F s) {s : σ}
    (hs : P s) : F (t s).2 := by
  have h₁ := ht s hs
  rcases h : t s with ⟨a | e | _, s₁⟩ <;> simp only [h] at h₁ ⊢
  · exact hQ a s₁ h₁
  · exact h₁
  · exact h₁

end Ensures

/-! ### How a task may end -/

/-- From a state in `P` the task does not panic; a value it returns is in `Q`, an
error in `E`. -/
def Ends (P : σ → Prop) (t : Task σ ε α) (Q : α → σ → Prop) (E : ε → Prop) : Prop :=
  ∀ s, P s → match t s with
    | (.ok a, s') => Q a s'
    | (.err e, _) => E e
    | (.panic, _) => False

section Ends
variable {P P' : σ → Prop} {Q Q' : α → σ → Prop} {E E' : ε → Prop}

theorem Ends.pure {a : α} (h : ∀ s, P s → Q a s) : Ends P (Pure.pure a : Task σ ε α) Q E := h

theorem Ends.fail {e : ε} (h : E e) : Ends P (Task.fail e : Task σ ε α) Q E := fun _ _ => h

theorem Ends.get {Q : σ → σ → Prop} (h : ∀ s, P s → Q s s) :
    Ends P (Task.get : Task σ ε σ) Q E := h

theorem Ends.modify {f : σ → σ} {Q : Unit → σ → Prop} (h : ∀ s, P s → Q () (f s)) :
    Ends P (Task.modify f : Task σ ε Unit) Q E := h

theorem Ends.ofChecked {o : Option α} (h : ∀ s, P s → ∃ a, o = some a ∧ Q a s) :
    Ends P (Task.ofChecked o : Task σ ε α) Q E := by
  intro s hs
  obtain ⟨a, rfl, ha⟩ := h s hs
  exact ha

theorem Ends.bind {R : β → σ → Prop} {t : Task σ ε α} {f : α → Task σ ε β} (ht : Ends P t Q E)
    (hf : ∀ a, Ends (Q a) (f a) R E) : Ends P (t >>= f) R E := by
  intro s hs
  have h₁ := ht s hs
  rcases h : t s with ⟨a | e | _, s₁⟩ <;> simp only [h] at h₁
  · rw [bind_of_ok h]
    exact hf a s₁ h₁
  · rw [bind_of_err h]
    exact h₁

theorem Ends.when {Q : Unit → σ → Prop} {b : Bool} {t : Task σ ε Unit}
    (htrue : b = true → Ends P t Q E) (hfalse : b = false → ∀ s, P s → Q () s) :
    Ends P (Task.when b t) Q E := by
  cases b with
  | false => exact Ends.pure (hfalse rfl)
  | true => exact htrue rfl

theorem Ends.mapErr {t : Task σ ε α} {f : ε → ε'} {E' : ε' → Prop} (ht : Ends P t Q E)
    (hE : ∀ e, E e → E' (f e)) : Ends P (Task.mapErr f t) Q E' := by
  intro s hs
  have h₁ := ht s hs
  rcases h : t s with ⟨a | e | _, s₁⟩ <;> simp only [h, Task.mapErr] at h₁ ⊢
  · exact h₁
  · exact hE e h₁

theorem Ends.zoom {view : σ → τ} {put : τ → σ → σ} {J : τ → Prop} {K : α → τ → Prop}
    {t : Task τ ε α} (ht : Ends J t K E) (hview : ∀ s, P s → J (view s))
    (hput : ∀ s a u, P s → K a u → Q a (put u s)) : Ends P (Task.zoom view put t) Q E := by
  intro s hs
  have h₁ := ht (view s) (hview s hs)
  rcases h : t (view s) with ⟨a | e | _, u⟩ <;> simp only [h, Task.zoom] at h₁ ⊢
  · exact hput s a u hs h₁
  · exact h₁

theorem Ends.conseq {t : Task σ ε α} (ht : Ends P t Q E) (hP : ∀ s, P' s → P s)
    (hQ : ∀ a s, Q a s → Q' a s) (hE : ∀ e, E e → E' e) : Ends P' t Q' E' := by
  intro s hs
  have h₁ := ht s (hP s hs)
  rcases h : t s with ⟨a | e | _, s₁⟩ <;> simp only [h] at h₁ ⊢
  · exact hQ a s₁ h₁
  · exact hE e h₁

/-- What is known of every returned value may be added. -/
theorem Ends.of_ok {t : Task σ ε α} (ht : Ends P t Q E)
    (hQ : ∀ s a s', P s → t s = (.ok a, s') → Q a s' → Q' a s') : Ends P t Q' E := by
  intro s hs
  have h₁ := ht s hs
  rcases h : t s with ⟨a | e | _, s₁⟩ <;> simp only [h] at h₁ ⊢
  · exact hQ s a s₁ hs h h₁
  · exact h₁

theorem Ends.ne_panic {t : Task σ ε α} (ht : Ends P t Q E) {s : σ} (hs : P s) :
    (t s).1 ≠ .panic := by
  have h₁ := ht s hs
  rcases h : t s with ⟨a | e | _, s₁⟩ <;> simp_all

/-- A task that ends in no error of `E` has returned. -/
theorem Ends.ok_of_not_err {t : Task σ ε α} (ht : Ends P t Q E) {s : σ} (hs : P s)
    (herr : ∀ e, (t s).1 = .err e → ¬E e) : ∃ a, (t s).1 = .ok a ∧ Q a (t s).2 := by
  have h₁ := ht s hs
  rcases h : t s with ⟨a | e | _, s₁⟩ <;> simp only [h] at h₁ herr ⊢
  · exact ⟨a, rfl, h₁⟩
  · exact absurd h₁ (herr e rfl)

/-- The task returns or fails, in every state. -/
def NoPanic (t : Task σ ε α) : Prop := Ends (fun _ => True) t (fun _ _ => True) fun _ => True

theorem NoPanic.bind {t : Task σ ε α} {f : α → Task σ ε β} (ht : NoPanic t)
    (hf : ∀ a, NoPanic (f a)) : NoPanic (t >>= f) :=
  Ends.bind ht fun a => (hf a).conseq (fun _ _ => trivial) (fun _ _ h => h) fun _ h => h

theorem NoPanic.pure (a : α) : NoPanic (Pure.pure a : Task σ ε α) := fun _ _ => trivial

theorem NoPanic.fail (e : ε) : NoPanic (Task.fail e : Task σ ε α) := fun _ _ => trivial

theorem NoPanic.modify (f : σ → σ) : NoPanic (Task.modify f : Task σ ε Unit) :=
  fun _ _ => trivial

theorem NoPanic.mapErr {t : Task σ ε α} (f : ε → ε') (ht : NoPanic t) :
    NoPanic (Task.mapErr f t) :=
  Ends.mapErr ht fun _ _ => trivial

theorem NoPanic.when (b : Bool) {t : Task σ ε Unit} (ht : NoPanic t) :
    NoPanic (Task.when b t) :=
  Ends.when (fun _ => ht) fun _ _ _ => trivial

end Ends
end Task

/-! ### Machine arithmetic with overflow checks -/

def checkedAdd (bits a b : ℕ) : Option ℕ := if a + b < 2 ^ bits then some (a + b) else none

def checkedSub (a b : ℕ) : Option ℕ := if b ≤ a then some (a - b) else none

def checkedMul (bits a b : ℕ) : Option ℕ := if a * b < 2 ^ bits then some (a * b) else none

/-- The length of a vector of bytes; half the address space is too much. -/
def checkedCapacity (bits n : ℕ) : Option ℕ := if n < 2 ^ (bits - 1) then some n else none

/-- Division rounding up; a zero divisor has no value. -/
def divCeil (a b : ℕ) : Option ℕ := if b = 0 then none else some (a ⌈/⌉ b)

@[simp] theorem checkedAdd_eq_some {bits a b c : ℕ} :
    checkedAdd bits a b = some c ↔ a + b < 2 ^ bits ∧ c = a + b := by
  unfold checkedAdd
  split_ifs with h <;> simp [h, eq_comm]

@[simp] theorem checkedSub_eq_some {a b c : ℕ} :
    checkedSub a b = some c ↔ b ≤ a ∧ c = a - b := by
  unfold checkedSub
  split_ifs with h <;> simp [h, eq_comm]

@[simp] theorem checkedCapacity_eq_some {bits n m : ℕ} :
    checkedCapacity bits n = some m ↔ n < 2 ^ (bits - 1) ∧ m = n := by
  unfold checkedCapacity
  split_ifs with h <;> simp [h, eq_comm]

@[simp] theorem checkedMul_eq_some {bits a b c : ℕ} :
    checkedMul bits a b = some c ↔ a * b < 2 ^ bits ∧ c = a * b := by
  unfold checkedMul
  split_ifs with h <;> simp [h, eq_comm]

@[simp] theorem divCeil_eq_some {a b c : ℕ} : divCeil a b = some c ↔ b ≠ 0 ∧ c = a ⌈/⌉ b := by
  unfold divCeil
  split_ifs with h <;> simp [h, eq_comm]

end JustDrop

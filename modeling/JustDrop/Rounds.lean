import Mathlib.Data.List.Basic
import Mathlib.Tactic.Common

/-!
# Loops that ask in every round

A loop goes on while its state says so, and asks its environment once in every round.
A round leads to the next one, leaves the loop or fails. An invariant may speak of the
answers so far; what holds when the loop has ended follows from the invariant and the
last round.
-/
namespace JustDrop.Rounds
variable {σ ε α : Type*}

/-- What a round leads to. -/
inductive Turn (σ ε : Type*) where
  | next (s : σ)
  | leave (s : σ)
  | fail (e : ε) (s : σ)

/-- How a loop has ended. -/
inductive Ending (σ ε : Type*) where
  | left (s : σ)
  | failed (e : ε) (s : σ)

/-- The loop with the answers it gets, none if it asks more or less often. -/
def loop (continues : σ → Bool) (body : σ → α → Turn σ ε) : List α → σ → Option (Ending σ ε)
  | [], s => if continues s then none else some (.left s)
  | a :: answers, s =>
    if continues s then
      match body s a with
      | .next s' => loop continues body answers s'
      | .leave s' => if answers.isEmpty then some (.left s') else none
      | .fail e s' => if answers.isEmpty then some (.failed e s') else none
    else none

/-- An ending with what is known of the last round. -/
inductive Reached (I : List α → σ → Prop) (continues : σ → Bool) (body : σ → α → Turn σ ε)
    (answers : List α) : Ending σ ε → Prop where
  | done {s} (inv : I answers s) (stop : continues s = false) :
      Reached I continues body answers (.left s)
  | left {seen s a s'} (inv : I seen s) (go : continues s = true)
      (last : body s a = .leave s') (all : answers = seen ++ [a]) :
      Reached I continues body answers (.left s')
  | failed {seen s a e s'} (inv : I seen s) (go : continues s = true)
      (last : body s a = .fail e s') (all : answers = seen ++ [a]) :
      Reached I continues body answers (.failed e s')

/-- What holds of the answers so far and of the next one. -/
theorem forall_mem_concat {P : α → Prop} {seen : List α} {a : α} (hseen : ∀ b ∈ seen, P b)
    (ha : P a) : ∀ b ∈ seen ++ [a], P b := by
  rw [List.forall_mem_append, List.forall_mem_singleton]
  exact ⟨hseen, ha⟩

variable {I : List α → σ → Prop} {continues : σ → Bool} {body : σ → α → Turn σ ε}

theorem reached_of_seen
    (hnext : ∀ seen s a s', I seen s → continues s = true → body s a = .next s' →
      I (seen ++ [a]) s')
    {answers seen : List α} {s : σ} {ending : Ending σ ε} (hinv : I seen s)
    (h : loop continues body answers s = some ending) :
    Reached I continues body (seen ++ answers) ending := by
  induction answers generalizing seen s with
  | nil =>
    rw [loop] at h
    split_ifs at h with hgo
    obtain rfl := Option.some.inj h
    rw [List.append_nil]
    exact .done hinv (by simpa using hgo)
  | cons a answers ih =>
    by_cases hgo : continues s = true
    · cases hturn : body s a with
      | next s' =>
        simp only [loop, hgo, if_true, hturn] at h
        have hrest := ih (hnext seen s a s' hinv hgo hturn) h
        rwa [List.append_assoc] at hrest
      | leave s' =>
        simp only [loop, hgo, if_true, hturn] at h
        split_ifs at h with hlast
        obtain rfl := Option.some.inj h
        rw [List.isEmpty_iff.mp hlast]
        exact .left hinv hgo hturn rfl
      | fail e s' =>
        simp only [loop, hgo, if_true, hturn] at h
        split_ifs at h with hlast
        obtain rfl := Option.some.inj h
        rw [List.isEmpty_iff.mp hlast]
        exact .failed hinv hgo hturn rfl
    · simp [loop, hgo] at h

/-- What every round keeps holds up to the last round of a loop that has ended. -/
theorem reached {answers : List α} {s : σ} {ending : Ending σ ε} (hstart : I [] s)
    (hnext : ∀ seen s a s', I seen s → continues s = true → body s a = .next s' →
      I (seen ++ [a]) s')
    (h : loop continues body answers s = some ending) :
    Reached I continues body answers ending :=
  reached_of_seen hnext hstart h

end JustDrop.Rounds

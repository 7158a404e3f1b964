import Mathlib.Data.List.Basic

/-!
# Logs that rebuild a state

A log records the changes made to a state. It is in lockstep with the state when
applying its entries in order to the first state gives the present one, and every
entry was allowed where it was applied.
-/
namespace JustDrop.Replay
variable {σ ε : Type*} {apply : σ → ε → σ} {allowed : σ → ε → Prop} {start state : σ}
  {log : List ε} {e : ε}

/-- Every entry is allowed in the state that the entries before it lead to. -/
def Allowed (apply : σ → ε → σ) (allowed : σ → ε → Prop) : σ → List ε → Prop
  | _, [] => True
  | state, e :: log => allowed state e ∧ Allowed apply allowed (apply state e) log

/-- The log leads from the first state to the present one by allowed entries. -/
structure Lockstep (apply : σ → ε → σ) (allowed : σ → ε → Prop) (start : σ) (log : List ε)
    (state : σ) : Prop where
  replayed : log.foldl apply start = state
  allowed : Allowed apply allowed start log

theorem allowed_concat : Allowed apply allowed start (log ++ [e]) ↔
    Allowed apply allowed start log ∧ allowed (log.foldl apply start) e := by
  induction log generalizing start with
  | nil => simp [Allowed]
  | cons first log ih => simp [Allowed, ih, and_assoc]

theorem Lockstep.nil (start : σ) : Lockstep apply allowed start [] start := ⟨rfl, trivial⟩

/-- A change that is logged when it is made keeps the lockstep. -/
theorem Lockstep.concat (h : Lockstep apply allowed start log state) (he : allowed state e) :
    Lockstep apply allowed start (log ++ [e]) (apply state e) := by
  obtain ⟨hreplayed, hallowed⟩ := h
  constructor
  · rw [List.foldl_append, hreplayed, List.foldl_cons, List.foldl_nil]
  · rw [allowed_concat, hreplayed]
    exact ⟨hallowed, he⟩

end JustDrop.Replay

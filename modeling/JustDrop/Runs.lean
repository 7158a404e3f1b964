import Mathlib.Data.List.Basic
import Mathlib.Tactic.Common

/-!
# Runs of a state machine

A run lists the steps taken, each with the state it was taken in. An invariant
that every step keeps holds in all states of a run. Where a step keeps a property
exactly under a condition, the property holds throughout a run exactly when all of
its steps meet the condition; the same goes for a property of the steps themselves.
-/
namespace JustDrop

variable {σ α : Type*} {step : σ → α → σ → Prop} {start final : σ} {taken : List (σ × α)}

/-- The steps taken from `start` up to a last state. -/
inductive Run (step : σ → α → σ → Prop) (start : σ) : List (σ × α) → σ → Prop where
  | refl : Run step start [] start
  | snoc {taken s a s'} (run : Run step start taken s) (last : step s a s') :
      Run step start (taken ++ [(s, a)]) s'

namespace Run

/-- A property holds in every state of the run. -/
def Always (I : σ → Prop) (taken : List (σ × α)) (final : σ) : Prop :=
  (∀ t ∈ taken, I t.1) ∧ I final

theorem always_snoc {I : σ → Prop} {s s' : σ} {a : α} :
    Always I (taken ++ [(s, a)]) s' ↔ Always I taken s ∧ I s' := by
  simp only [Always, List.forall_mem_append, List.forall_mem_singleton]

/-- What every step that meets a condition keeps holds throughout a run of such steps. -/
theorem always_of {I : σ → Prop} {C : σ → α → Prop} (run : Run step start taken final)
    (hstart : I start) (hstep : ∀ s a s', I s → C s a → step s a s' → I s')
    (hC : ∀ t ∈ taken, C t.1 t.2) : Always I taken final := by
  induction run with
  | refl => exact ⟨fun _ h => absurd h List.not_mem_nil, hstart⟩
  | snoc run last ih =>
    rw [List.forall_mem_append, List.forall_mem_singleton] at hC
    have hbefore := ih hC.1
    exact always_snoc.mpr ⟨hbefore, hstep _ _ _ hbefore.2 hC.2 last⟩

/-- What a step keeps exactly under a condition holds throughout a run exactly when
all of its steps meet the condition. -/
theorem always_iff {J I : σ → Prop} {P : α → Prop} {C : σ → α → Prop} (hJ : J start)
    (hJstep : ∀ s a s', J s → P a → step s a s' → J s') (hI : I start)
    (hIstep : ∀ s a s', J s → P a → I s → step s a s' → (I s' ↔ C s a))
    (run : Run step start taken final) (hP : ∀ t ∈ taken, P t.2) :
    Always I taken final ↔ ∀ t ∈ taken, C t.1 t.2 := by
  induction run with
  | refl => exact ⟨fun _ _ h => absurd h List.not_mem_nil, fun _ =>
      ⟨fun _ h => absurd h List.not_mem_nil, hI⟩⟩
  | snoc run last ih =>
    rw [List.forall_mem_append, List.forall_mem_singleton] at hP
    rw [always_snoc, List.forall_mem_append, List.forall_mem_singleton, ← ih hP.1]
    have hj := (run.always_of hJ hJstep hP.1).2
    exact and_congr_right fun hbefore => hIstep _ _ _ hj hP.2 hbefore.2 last

theorem append {middle : σ} {later : List (σ × α)} (run : Run step start taken middle)
    (rest : Run step middle later final) : Run step start (taken ++ later) final := by
  induction rest with
  | refl => simpa using run
  | snoc rest last ih =>
    rw [← List.append_assoc]
    exact .snoc ih last

/-- Where every step applies its call to a view of the state, a run replays its calls. -/
theorem replays {τ : Type*} {J : σ → Prop} (view : σ → τ) (apply : τ → α → τ)
    (run : Run step start taken final) (hJ : J start)
    (hstep : ∀ s a s', J s → step s a s' → J s' ∧ view s' = apply (view s) a) :
    J final ∧ view final = (taken.map Prod.snd).foldl apply (view start) := by
  induction run with
  | refl => exact ⟨hJ, rfl⟩
  | snoc run last ih =>
    obtain ⟨hj, hview⟩ := hstep _ _ _ ih.1 last
    refine ⟨hj, ?_⟩
    rw [hview, ih.2, List.map_append, List.foldl_append]
    rfl

/-- Where every step is matched by a run of another machine, from related states to related
states, so is a run; `shows` and `shown` are what is seen of the two. -/
theorem simulated {τ β ω : Type*} {step' : τ → β → τ → Prop} {start' : τ} (R : σ → τ → Prop)
    (shows : α → List ω) (shown : β → ω) (run : Run step start taken final) (hstart : R start start')
    (hstep : ∀ s a s' t, R s t → step s a s' → ∃ calls t', Run step' t calls t' ∧
      calls.map (fun c => shown c.2) = shows a ∧ R s' t') :
    ∃ calls final', Run step' start' calls final' ∧
      calls.map (fun c => shown c.2) = taken.flatMap (fun c => shows c.2) ∧ R final final' := by
  induction run with
  | refl => exact ⟨[], start', .refl, rfl, hstart⟩
  | snoc run last ih =>
    obtain ⟨calls, middle, hrun, hcalls, hmiddle⟩ := ih
    obtain ⟨more, final', hmore, hshows, hfinal⟩ := hstep _ _ _ _ hmiddle last
    refine ⟨calls ++ more, final', hrun.append hmore, ?_, hfinal⟩
    rw [List.map_append, hcalls, hshows, List.flatMap_append, List.flatMap_singleton]

/-! ### Properties of the steps -/

/-- The state that the listed steps begin in. -/
def first (final : σ) : List (σ × α) → σ
  | [] => final
  | t :: _ => t.1

/-- A relation holds of every step, between the states before and after it. -/
def Each (R : σ → α → σ → Prop) (final : σ) : List (σ × α) → Prop
  | [] => True
  | t :: taken => R t.1 t.2 (first final taken) ∧ Each R final taken

theorem first_snoc (s s' : σ) (a : α) : first s' (taken ++ [(s, a)]) = first s taken := by
  cases taken <;> rfl

theorem each_snoc {R : σ → α → σ → Prop} {s s' : σ} {a : α} :
    Each R s' (taken ++ [(s, a)]) ↔ Each R s taken ∧ R s a s' := by
  induction taken with
  | nil => simp only [List.nil_append, Each, first, and_true, true_and]
  | cons t taken ih => simp only [List.cons_append, Each, first_snoc, ih, and_assoc]

/-- What a step has exactly under a condition all steps of a run have exactly when
all of them meet the condition. -/
theorem each_iff {J : σ → Prop} {P : α → Prop} {R : σ → α → σ → Prop} {C : σ → α → Prop}
    (hJ : J start) (hJstep : ∀ s a s', J s → P a → step s a s' → J s')
    (hR : ∀ s a s', J s → P a → step s a s' → (R s a s' ↔ C s a))
    (run : Run step start taken final) (hP : ∀ t ∈ taken, P t.2) :
    Each R final taken ↔ ∀ t ∈ taken, C t.1 t.2 := by
  induction run with
  | refl => exact iff_of_true trivial fun _ h => absurd h List.not_mem_nil
  | snoc run last ih =>
    rw [List.forall_mem_append, List.forall_mem_singleton] at hP
    have hj := (run.always_of hJ hJstep hP.1).2
    rw [each_snoc, List.forall_mem_append, List.forall_mem_singleton, ih hP.1,
      hR _ _ _ hj hP.2 last]

end Run
end JustDrop

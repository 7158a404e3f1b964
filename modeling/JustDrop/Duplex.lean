import JustDrop.Runs
import Mathlib.Data.List.Infix

/-!
# Two parties that answer each other

A party is what it has written as a function of what has arrived. The function is
causal: what has been written stays when more arrives. Between two parties everything
written arrives in order, in parts of any size and with any delay. Parties that first
read a preamble and then go on are connected, behind the preambles, as if there had been
none.
-/
namespace JustDrop.Duplex

variable {α : Type*} {f g : List α → List α}

/-- What has been written stays when more arrives. -/
def Causal (f : List α → List α) : Prop := ∀ x y, x <+: y → f x <+: f y

/-- What has arrived at the two parties. -/
structure Arrived (α : Type*) where
  left : List α
  right : List α

def Arrived.none : Arrived α := ⟨[], []⟩

inductive Delivery (α : Type*) where
  | toLeft (part : List α)
  | toRight (part : List α)

/-- The next part of what the other party has written arrives. -/
def Step (f g : List α → List α) (s : Arrived α) : Delivery α → Arrived α → Prop
  | .toLeft part, s' => s.left ++ part <+: g s.right ∧ s' = { s with left := s.left ++ part }
  | .toRight part, s' => s.right ++ part <+: f s.left ∧ s' = { s with right := s.right ++ part }

/-- Everything that arrived had been written. -/
structure Passed (f g : List α → List α) (s : Arrived α) : Prop where
  left : s.left <+: g s.right
  right : s.right <+: f s.left

/-- Everything written has arrived. -/
structure Quiet (f g : List α → List α) (s : Arrived α) : Prop where
  left : s.left = g s.right
  right : s.right = f s.left

/-- A party that reads `full` and has written `own` by then; behind that it goes on
as `after`. -/
structure Opens (f : List α → List α) (full own : List α) (after : List α → List α) : Prop where
  before : ∀ x, x <+: full → x ≠ full → f x <+: own
  behind : ∀ rest, f (full ++ rest) = own ++ after rest

/-- Two preambles that each party begins and answers when they are answered. -/
def Live (f g : List α → List α) (full own : List α) : Prop :=
  ∀ x y, f x <+: y → g y <+: x → full <+: x ∧ own <+: y

variable {s s' : Arrived α} {full own : List α} {after after' : List α → List α}

theorem Passed.step (hf : Causal f) (hg : Causal g) (h : Passed f g s) {call : Delivery α}
    (hstep : Step f g s call s') : Passed f g s' := by
  cases call with
  | toLeft part =>
    obtain ⟨hpart, rfl⟩ := hstep
    exact ⟨hpart, h.right.trans (hf _ _ (List.prefix_append _ _))⟩
  | toRight part =>
    obtain ⟨hpart, rfl⟩ := hstep
    exact ⟨h.left.trans (hg _ _ (List.prefix_append _ _)), hpart⟩

/-- What arrives agrees with the preamble as far as both go. -/
structure Agrees (full own : List α) (s : Arrived α) : Prop where
  left : s.left <+: full ∨ full <+: s.left
  right : s.right <+: own ∨ own <+: s.right

/-- What a party writes agrees with its preamble. -/
theorem Opens.agrees (h : Opens f full own after) {x y : List α}
    (hx : x <+: full ∨ full <+: x) (hy : y <+: f x) : y <+: own ∨ own <+: y := by
  have hbehind : full <+: x → y <+: own ∨ own <+: y := by
    rintro ⟨rest, rfl⟩
    rw [h.behind] at hy
    exact List.prefix_or_prefix_of_prefix hy (List.prefix_append _ _)
  by_cases hfull : x = full
  · exact hbehind (hfull ▸ List.prefix_rfl)
  · exact hx.elim (fun hx => Or.inl (hy.trans (h.before x hx hfull))) hbehind

theorem Agrees.step (hf : Opens f full own after) (hg : Opens g own full after')
    (h : Agrees full own s) {call : Delivery α} (hstep : Step f g s call s') :
    Agrees full own s' := by
  cases call with
  | toLeft part =>
    obtain ⟨hpart, rfl⟩ := hstep
    exact ⟨hg.agrees h.right hpart, h.right⟩
  | toRight part =>
    obtain ⟨hpart, rfl⟩ := hstep
    exact ⟨h.left, hf.agrees h.left hpart⟩

/-- What arrives behind the preamble was written behind the other one. -/
theorem Opens.behind_of_prefix (hg : Opens g own full after') {x y rest : List α}
    (hy : y <+: own ∨ own <+: y) (hx : x <+: g y) (hrest : x = full ++ rest) :
    rest = [] ∨ ∃ rest', y = own ++ rest' ∧ rest <+: after' rest' := by
  have hbehind : own <+: y → ∃ rest', y = own ++ rest' ∧ rest <+: after' rest' := by
    rintro ⟨rest', rfl⟩
    rw [hrest, hg.behind, List.prefix_append_right_inj] at hx
    exact ⟨rest', rfl, hx⟩
  by_cases hown : y = own
  · exact Or.inr (hbehind (hown ▸ List.prefix_rfl))
  · refine hy.elim (fun hy => Or.inl ?_) fun hy => Or.inr (hbehind hy)
    have hshort := hx.trans (hg.before y hy hown)
    rw [hrest] at hshort
    have hlength := hshort.length_le
    rw [List.length_append] at hlength
    exact List.length_eq_zero_iff.mp (by omega)

theorem agrees_of_run (hcf : Causal f) (hcg : Causal g) (hf : Opens f full own after)
    (hg : Opens g own full after') {taken : List (Arrived α × Delivery α)}
    (run : Run (Step f g) .none taken s) : Passed f g s ∧ Agrees full own s := by
  have hkept := run.always_of (I := fun s => Passed f g s ∧ Agrees full own s)
    (C := fun _ _ => True)
    ⟨⟨List.nil_prefix, List.nil_prefix⟩, Or.inl List.nil_prefix, Or.inl List.nil_prefix⟩
    (fun _ _ _ h _ hstep => ⟨h.1.step hcf hcg hstep, h.2.step hf hg hstep⟩) fun _ _ => trivial
  exact hkept.2

/-- In every run what is left behind one preamble is the beginning of what was written behind
the other. -/
theorem behind_of_run (hcf : Causal f) (hcg : Causal g) (hf : Opens f full own after)
    (hg : Opens g own full after') {taken : List (Arrived α × Delivery α)}
    (run : Run (Step f g) .none taken s) :
    (∀ rest, s.left = full ++ rest →
      rest = [] ∨ ∃ rest', s.right = own ++ rest' ∧ rest <+: after' rest') ∧
    (∀ rest', s.right = own ++ rest' →
      rest' = [] ∨ ∃ rest, s.left = full ++ rest ∧ rest' <+: after rest) := by
  obtain ⟨hpassed, hagrees⟩ := agrees_of_run hcf hcg hf hg run
  exact ⟨fun rest hrest => hg.behind_of_prefix hagrees.right hpassed.left hrest,
    fun rest' hrest' => hf.behind_of_prefix hagrees.left hpassed.right hrest'⟩

/-- Once everything written has arrived, both preambles are over and all that was written
behind them has arrived. -/
theorem connected (hf : Opens f full own after) (hg : Opens g own full after')
    (hlive : Live f g full own) (hquiet : Quiet f g s) :
    ∃ rest rest', s.left = full ++ rest ∧ s.right = own ++ rest' ∧
      rest = after' rest' ∧ rest' = after rest := by
  obtain ⟨⟨rest, hrest⟩, ⟨rest', hrest'⟩⟩ := hlive s.left s.right
    (hquiet.right ▸ List.prefix_rfl) (hquiet.left ▸ List.prefix_rfl)
  refine ⟨rest, rest', hrest.symm, hrest'.symm, ?_, ?_⟩
  · have hleft := hquiet.left
    rw [← hrest', ← hrest, hg.behind] at hleft
    exact List.append_cancel_left hleft
  · have hright := hquiet.right
    rw [← hrest, ← hrest', hf.behind] at hright
    exact List.append_cancel_left hright

end JustDrop.Duplex

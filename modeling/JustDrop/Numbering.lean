import Mathlib.Algebra.BigOperators.Group.List.Basic
import Mathlib.Algebra.Order.Floor.Div
import Mathlib.Tactic.Common

/-!
# Numbering the cells of consecutive blocks

Blocks of given sizes lie one after the other. The number of a cell is the total
size of the blocks in front of its own plus its position inside. Numbers are
below the total, and no two cells share one.
-/
namespace JustDrop.ChunkNumbering

/-- The number of the `k`-th cell of the `i`-th block. -/
def number (sizes : List ℕ) (i k : ℕ) : ℕ := (sizes.take i).sum + k

/-- The `k`-th cell of the `i`-th block exists. -/
def IsCell (sizes : List ℕ) (i k : ℕ) : Prop := ∃ size, sizes[i]? = some size ∧ k < size

variable {sizes : List ℕ} {i j k l : ℕ}

theorem sum_take_mono (h : i ≤ j) : (sizes.take i).sum ≤ (sizes.take j).sum := by
  have htake : sizes.take i = (sizes.take j).take i := by
    rw [List.take_take, Nat.min_eq_left h]
  rw [htake]
  calc ((sizes.take j).take i).sum
      ≤ ((sizes.take j).take i).sum + ((sizes.take j).drop i).sum := Nat.le_add_right _ _
    _ = (sizes.take j).sum := by rw [← List.sum_append, List.take_append_drop]

theorem sum_take_succ {size : ℕ} (h : sizes[i]? = some size) :
    (sizes.take (i + 1)).sum = (sizes.take i).sum + size := by
  rw [List.take_add_one, h, List.sum_append]
  simp

/-- A cell comes before every cell of a later block. -/
theorem number_lt_of_lt (hk : IsCell sizes i k) (h : i < j) :
    number sizes i k < number sizes j l := by
  obtain ⟨size, hsize, hlt⟩ := hk
  have hmono : (sizes.take (i + 1)).sum ≤ (sizes.take j).sum := sum_take_mono h
  rw [sum_take_succ hsize] at hmono
  unfold number
  omega

theorem number_injective (hk : IsCell sizes i k) (hl : IsCell sizes j l)
    (h : number sizes i k = number sizes j l) : i = j ∧ k = l := by
  rcases Nat.lt_trichotomy i j with hij | rfl | hji
  · have := number_lt_of_lt (l := l) hk hij
    omega
  · exact ⟨rfl, by unfold number at h; omega⟩
  · have := number_lt_of_lt (l := k) hl hji
    omega

theorem number_lt_sum (hk : IsCell sizes i k) : number sizes i k < sizes.sum := by
  obtain ⟨size, hsize, hlt⟩ := hk
  have hmono : (sizes.take (i + 1)).sum ≤ (sizes.take sizes.length).sum :=
    sum_take_mono (List.getElem?_eq_some_iff.mp hsize).1
  rw [sum_take_succ hsize, List.take_length] at hmono
  unfold number
  omega

/-- A later cell has a greater number. -/
theorem number_lt (hk : IsCell sizes i k) (h : i < j ∨ i = j ∧ k < l) :
    number sizes i k < number sizes j l := by
  rcases h with hij | ⟨rfl, hkl⟩
  · exact number_lt_of_lt hk hij
  · unfold number
    omega

theorem number_cons_succ (size : ℕ) : number (size :: sizes) (i + 1) k = size + number sizes i k := by
  simp [number, Nat.add_assoc]

/-- Every number below the total size is the number of a cell. -/
theorem exists_number_eq {n : ℕ} (h : n < sizes.sum) :
    ∃ i k, IsCell sizes i k ∧ number sizes i k = n := by
  induction sizes generalizing n with
  | nil => simp at h
  | cons size sizes ih =>
    by_cases hfirst : n < size
    · exact ⟨0, n, ⟨size, rfl, hfirst⟩, by simp [number]⟩
    · rw [List.sum_cons] at h
      obtain ⟨i, k, ⟨own, hown, hlt⟩, hnumber⟩ := ih (n := n - size) (by omega)
      refine ⟨i + 1, k, ⟨own, hown, hlt⟩, ?_⟩
      rw [number_cons_succ, hnumber]
      omega

end JustDrop.ChunkNumbering

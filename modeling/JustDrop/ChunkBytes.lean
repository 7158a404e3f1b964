import JustDrop.Types
import Mathlib.Algebra.BigOperators.Group.List.Basic
import Mathlib.Algebra.Order.BigOperators.Group.List

/-!
# Bytes chunk by chunk

Sums over all chunks of several files. A chunk is as long as the chunk size of its
file, except that the last one has what remains and the one chunk of an empty file
has nothing. Whoever counts each chunk of a file as a whole one counts too much
exactly where such a chunk is among them.
-/
namespace JustDrop

/-- The length of chunk `k` of a file. -/
def chunkLength (size chunkSize k : ℕ) : ℕ := min chunkSize (size - k * chunkSize)

theorem chunkLength_le (size chunkSize k : ℕ) : chunkLength size chunkSize k ≤ chunkSize :=
  min_le_left _ _

/-- A chunk is whole when the file reaches to its end. -/
theorem chunkLength_eq_iff {size chunkSize k : ℕ} :
    chunkLength size chunkSize k = chunkSize ↔ chunkSize = 0 ∨ (k + 1) * chunkSize ≤ size := by
  rw [chunkLength, Nat.add_one_mul]
  omega

theorem sum_chunkLength {size chunkSize : ℕ} (h : Divisible size chunkSize) :
    ((List.range (chunksOf size chunkSize)).map (chunkLength size chunkSize)).sum = size := by
  have hslots := @sum_length_chunks (List.replicate size 0) chunkSize
    (by rwa [List.length_replicate])
  simp only [ByteImage.length_slot, List.length_replicate] at hslots
  exact hslots

namespace ChunkBytes

/-- The sum of `value i size k` over the chunks `k` of the files from position `i` on,
where a file of some size has the chunk size `c size`. -/
def sumFrom (c : ℕ → ℕ) (value : ℕ → ℕ → ℕ → ℕ) : ℕ → List ℕ → ℕ
  | _, [] => 0
  | i, size :: sizes =>
    ((List.range (chunksOf size (c size))).map (value i size)).sum + sumFrom c value (i + 1) sizes

variable {c : ℕ → ℕ} {value value' : ℕ → ℕ → ℕ → ℕ} {i : ℕ} {sizes : List ℕ}

theorem sum_map_eq_iff {f g : ℕ → ℕ} {ks : List ℕ} (h : ∀ k ∈ ks, f k ≤ g k) :
    (ks.map f).sum = (ks.map g).sum ↔ ∀ k ∈ ks, f k = g k := by
  induction ks with
  | nil => simp
  | cons k ks ih =>
    rw [List.forall_mem_cons] at h
    have hrest : (ks.map f).sum ≤ (ks.map g).sum := List.sum_le_sum h.2
    rw [List.forall_mem_cons, ← ih h.2, List.map_cons, List.map_cons, List.sum_cons,
      List.sum_cons]
    have hhead := h.1
    omega

theorem sumFrom_le (h : ∀ i size k, value i size k ≤ value' i size k) :
    sumFrom c value i sizes ≤ sumFrom c value' i sizes := by
  induction sizes generalizing i with
  | nil => exact le_rfl
  | cons size sizes ih =>
    exact Nat.add_le_add (List.sum_le_sum fun k _ => h i size k) ih

/-- Of two sums, one below the other, the terms are the same when the sums are. -/
theorem sumFrom_eq_iff (h : ∀ i size k, value i size k ≤ value' i size k) :
    sumFrom c value i sizes = sumFrom c value' i sizes ↔
      ∀ j size, sizes[j]? = some size → ∀ k < chunksOf size (c size),
        value (i + j) size k = value' (i + j) size k := by
  induction sizes generalizing i with
  | nil => simp [sumFrom]
  | cons size sizes ih =>
    have hhead : ((List.range (chunksOf size (c size))).map (value i size)).sum ≤
        ((List.range (chunksOf size (c size))).map (value' i size)).sum :=
      List.sum_le_sum fun k _ => h i size k
    have hrest : sumFrom c value (i + 1) sizes ≤ sumFrom c value' (i + 1) sizes := sumFrom_le h
    have hsplit : sumFrom c value i (size :: sizes) = sumFrom c value' i (size :: sizes) ↔
        ((List.range (chunksOf size (c size))).map (value i size)).sum =
            ((List.range (chunksOf size (c size))).map (value' i size)).sum ∧
          sumFrom c value (i + 1) sizes = sumFrom c value' (i + 1) sizes := by
      simp only [sumFrom]
      omega
    rw [hsplit, ih, sum_map_eq_iff fun k _ => h i size k]
    simp only [List.mem_range]
    constructor
    · intro h j other hj k hk
      obtain ⟨hfirst, hlater⟩ := h
      cases j with
      | zero =>
        obtain rfl : size = other := Option.some.inj hj
        exact hfirst k hk
      | succ j =>
        rw [show i + (j + 1) = i + 1 + j by omega]
        exact hlater j other hj k hk
    · intro hall
      constructor
      · exact hall 0 size rfl
      · intro j other hj k hk
        rw [show i + 1 + j = i + (j + 1) by omega]
        exact hall (j + 1) other hj k hk

theorem sumFrom_add : sumFrom c (fun i size k => value i size k + value' i size k) i sizes =
    sumFrom c value i sizes + sumFrom c value' i sizes := by
  induction sizes generalizing i with
  | nil => rfl
  | cons size sizes ih =>
    simp only [sumFrom, ih, List.sum_map_add]
    omega

/-! ### Marked chunks -/

variable (c) (marks : ℕ → ℕ → Bool)

/-- The bytes of all chunks. -/
def allFrom : ℕ → List ℕ → ℕ := sumFrom c fun _ size k => chunkLength size (c size) k

/-- The bytes of the marked chunks. -/
def markedFrom : ℕ → List ℕ → ℕ :=
  sumFrom c fun i size k => if marks i k then chunkLength size (c size) k else 0

/-- The length of a chunk that is not marked. -/
def unmarkedLength (i size k : ℕ) : ℕ := if marks i k then 0 else chunkLength size (c size) k

/-- The bytes of the other chunks. -/
def unmarkedFrom : ℕ → List ℕ → ℕ := sumFrom c (unmarkedLength c marks)

/-- The length of a chunk, where a marked one is taken for a whole one. -/
def countedLength (i size k : ℕ) : ℕ := if marks i k then c size else chunkLength size (c size) k

/-- The count that takes every marked chunk for a whole one. -/
def countedFrom : ℕ → List ℕ → ℕ := sumFrom c (countedLength c marks)

/-- Every marked chunk is a whole one. -/
def MarksWhole (i : ℕ) (sizes : List ℕ) : Prop :=
  ∀ j size, sizes[j]? = some size → ∀ k < chunksOf size (c size), marks (i + j) k = true →
    (k + 1) * c size ≤ size

theorem markedFrom_add_unmarkedFrom (i : ℕ) (sizes : List ℕ) :
    markedFrom c marks i sizes + unmarkedFrom c marks i sizes = allFrom c i sizes := by
  rw [markedFrom, unmarkedFrom, ← sumFrom_add, allFrom]
  congr
  funext i size k
  unfold unmarkedLength
  split_ifs <;> simp

variable {marks}

/-- Where nothing is marked, all chunks are unmarked. -/
theorem unmarkedFrom_of_none (h : ∀ i k, marks i k = false) :
    unmarkedFrom c marks i sizes = allFrom c i sizes := by
  rw [unmarkedFrom, allFrom]
  congr
  funext i size k
  rw [unmarkedLength, h, if_neg Bool.false_ne_true]

theorem allFrom_eq_sum (h : ∀ size ∈ sizes, Divisible size (c size)) :
    allFrom c i sizes = sizes.sum := by
  induction sizes generalizing i with
  | nil => rfl
  | cons size sizes ih =>
    rw [List.forall_mem_cons] at h
    have hrest : allFrom c (i + 1) sizes = sizes.sum := ih h.2
    rw [List.sum_cons, ← hrest, allFrom, sumFrom, sum_chunkLength h.1]

/-- A file that cannot be divided has no chunks. -/
theorem allFrom_le_sum (i : ℕ) (sizes : List ℕ) : allFrom c i sizes ≤ sizes.sum := by
  induction sizes generalizing i with
  | nil => exact le_rfl
  | cons size sizes ih =>
    have hhead : ((List.range (chunksOf size (c size))).map (chunkLength size (c size))).sum ≤
        size := by
      by_cases hdivisible : Divisible size (c size)
      · exact (sum_chunkLength hdivisible).le
      · obtain ⟨hsize, hzero⟩ := not_or.mp hdivisible
        simp [chunksOf, hsize, not_not.mp hzero]
    rw [List.sum_cons]
    exact Nat.add_le_add hhead (ih (i + 1))

/-- The count is exact exactly when every marked chunk is a whole one. -/
theorem countedFrom_eq_iff :
    countedFrom c marks i sizes = allFrom c i sizes ↔ MarksWhole c marks i sizes := by
  have hle : ∀ i size k, chunkLength size (c size) k ≤
      countedLength c marks i size k := by
    intro i size k
    unfold countedLength
    split_ifs
    · exact chunkLength_le size (c size) k
    · exact le_rfl
  rw [eq_comm, allFrom, countedFrom, sumFrom_eq_iff hle]
  refine forall₂_congr fun j size => forall_congr' fun hsize => forall₂_congr fun k hk => ?_
  unfold countedLength
  cases hmark : marks (i + j) k with
  | false => simp
  | true =>
    simp only [if_true, true_imp_iff, chunkLength_eq_iff]
    refine or_iff_right_of_imp fun hzero => ?_
    rw [hzero, Nat.mul_zero]
    exact Nat.zero_le size

end ChunkBytes
end JustDrop

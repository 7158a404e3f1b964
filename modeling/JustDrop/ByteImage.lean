import Mathlib.Algebra.Order.Floor.Div
import Mathlib.Tactic.Common

/-!
# Images under positional writes

An image is the list of cells of a random-access file. A write places a block at
an offset, filling a gap before it with the default cell; a resize truncates or
pads. A source cut into equal slots, the last one possibly short, is rebuilt by
writing every slot at its place, in any order and with any repetitions.
-/
namespace JustDrop

abbrev Bytes := List UInt8

namespace ByteImage

variable {α : Type*} [Inhabited α]

def resize (image : List α) (n : ℕ) : List α :=
  image.take n ++ List.replicate (n - image.length) default

/-- An empty block leaves the image alone, even beyond its end. -/
def writeAt (image : List α) (offset : ℕ) (block : List α) : List α :=
  if block.isEmpty then image
  else resize image offset ++ block ++ image.drop (offset + block.length)

def applyWrites (image : List α) (writes : List (ℕ × List α)) : List α :=
  writes.foldl (fun im w => writeAt im w.1 w.2) image

@[simp] theorem length_resize (image : List α) (n : ℕ) : (resize image n).length = n := by
  simp [resize]
  omega

theorem resize_getElem?_of_lt {image : List α} {n i : ℕ} (hi : i < n) (hl : i < image.length) :
    (resize image n)[i]? = image[i]? := by
  rw [resize, List.getElem?_append_left (by simp; omega), List.getElem?_take_of_lt hi]

theorem resize_getElem? (image : List α) {n i : ℕ} (hi : i < n) :
    (resize image n)[i]? = some (image.getD i default) := by
  by_cases hl : i < image.length
  · rw [resize_getElem?_of_lt hi hl, List.getD_eq_getElem?_getD, List.getElem?_eq_getElem hl]
    rfl
  · have hnone : image[i]? = none := List.getElem?_eq_none (by omega)
    rw [List.getD_eq_getElem?_getD, hnone, resize, List.getElem?_append_right (by simp; omega),
      List.getElem?_replicate_of_lt (by simp; omega)]
    rfl

@[simp] theorem resize_length (image : List α) : resize image image.length = image := by
  simp [resize]

@[simp] theorem writeAt_nil (image : List α) (offset : ℕ) : writeAt image offset [] = image := by
  simp [writeAt]

theorem length_writeAt (image : List α) (offset : ℕ) {block : List α} (hb : block ≠ []) :
    (writeAt image offset block).length = max image.length (offset + block.length) := by
  have he : block.isEmpty = false := by simpa using hb
  simp only [writeAt, he, Bool.false_eq_true, if_false, List.length_append, length_resize,
    List.length_drop]
  omega

/-- A block that ends inside the image does not change its length. -/
theorem length_writeAt_of_le {image : List α} {offset : ℕ} {block : List α}
    (h : offset + block.length ≤ image.length) :
    (writeAt image offset block).length = image.length := by
  by_cases hb : block = []
  · simp [hb]
  · rw [length_writeAt image offset hb]
    omega

/-- Inside the old image, a write changes exactly the cells of its block. -/
theorem writeAt_getElem? {image : List α} {offset : ℕ} {block : List α} {i : ℕ}
    (hi : i < image.length) :
    (writeAt image offset block)[i]? =
      if offset ≤ i ∧ i < offset + block.length then block[i - offset]? else image[i]? := by
  by_cases hb : block = []
  · subst hb
    have : ¬(offset ≤ i ∧ i < offset + ([] : List α).length) := by simp
    rw [if_neg this, writeAt_nil]
  · have he : block.isEmpty = false := by simpa using hb
    simp only [writeAt, he, Bool.false_eq_true, if_false]
    by_cases h1 : i < offset
    · rw [if_neg (by omega), List.append_assoc, List.getElem?_append_left (by simpa using h1),
        resize_getElem?_of_lt h1 hi]
    · by_cases h2 : i < offset + block.length
      · rw [if_pos ⟨by omega, h2⟩, List.getElem?_append_left (by simp; omega),
          List.getElem?_append_right (by simp; omega), length_resize]
      · rw [if_neg (by omega), List.getElem?_append_right (by simp; omega)]
        simp only [List.length_append, length_resize, List.getElem?_drop]
        congr 1
        omega

@[simp] theorem applyWrites_nil (image : List α) : applyWrites image [] = image := rfl

@[simp] theorem applyWrites_concat (image : List α) (writes : List (ℕ × List α))
    (w : ℕ × List α) :
    applyWrites image (writes ++ [w]) = writeAt (applyWrites image writes) w.1 w.2 := by
  simp [applyWrites]

@[simp] theorem applyWrites_cons (image : List α) (w : ℕ × List α) (writes : List (ℕ × List α)) :
    applyWrites image (w :: writes) = applyWrites (writeAt image w.1 w.2) writes := rfl

theorem length_le_writeAt (image : List α) (offset : ℕ) (block : List α) :
    image.length ≤ (writeAt image offset block).length := by
  by_cases hb : block = []
  · simp [hb]
  · rw [length_writeAt image offset hb]
    omega

/-- Writes that start behind a cell leave it alone. -/
theorem applyWrites_getElem?_of_lt {image : List α} {writes : List (ℕ × List α)} {i : ℕ}
    (hi : i < image.length) (h : ∀ w ∈ writes, i < w.1) :
    (applyWrites image writes)[i]? = image[i]? := by
  induction writes generalizing image with
  | nil => rfl
  | cons w writes ih =>
    have hw : i < w.1 := h w (by simp)
    have hlen := length_le_writeAt image w.1 w.2
    rw [applyWrites_cons, ih (by omega) (fun v hv => h v (by simp [hv])),
      writeAt_getElem? hi, if_neg (by omega)]

theorem length_writeAt_congr {image image' : List α} (hl : image.length = image'.length)
    (offset : ℕ) (block : List α) :
    (writeAt image offset block).length = (writeAt image' offset block).length := by
  by_cases hb : block = []
  · simp [hb, hl]
  · rw [length_writeAt image offset hb, length_writeAt image' offset hb, hl]

/-- Two images of one length agree after a write where it goes and where they agreed. -/
theorem writeAt_getElem?_congr {image image' : List α} (hl : image.length = image'.length)
    {offset i : ℕ} {block : List α}
    (h : image[i]? = image'[i]? ∨ offset ≤ i ∧ i < offset + block.length) :
    (writeAt image offset block)[i]? = (writeAt image' offset block)[i]? := by
  rcases h with heq | ⟨hlow, hhigh⟩
  · have hresize : (resize image offset)[i]? = (resize image' offset)[i]? := by
      simp only [resize, List.getElem?_append, List.getElem?_take, List.length_take, hl, heq]
    have hdrop : ∀ n, n ≤ i → (image.drop n)[i - n]? = (image'.drop n)[i - n]? := by
      intro n hn
      rw [List.getElem?_drop, List.getElem?_drop, Nat.add_sub_cancel' hn, heq]
    unfold writeAt
    split_ifs
    · exact heq
    · simp only [List.getElem?_append, List.length_append, length_resize]
      split_ifs with hin
      · exact hresize
      · rfl
      · exact hdrop _ (by omega)
  · have hne : block.isEmpty = false := by
      rw [List.isEmpty_eq_false_iff]
      rintro rfl
      simp only [List.length_nil] at hhigh
      omega
    simp only [writeAt, hne, Bool.false_eq_true, if_false, List.getElem?_append, length_resize,
      List.length_append]
    rw [if_pos hhigh, if_pos hhigh, if_neg (not_lt.mpr hlow), if_neg (not_lt.mpr hlow)]

/-- Where two images differ, the writes cover it: they lead to the same image. -/
theorem applyWrites_eq_of_covered {image image' : List α} (hl : image.length = image'.length)
    {writes : List (ℕ × List α)} (h : ∀ i, image[i]? = image'[i]? ∨
      ∃ w ∈ writes, w.1 ≤ i ∧ i < w.1 + w.2.length) :
    applyWrites image writes = applyWrites image' writes := by
  induction writes generalizing image image' with
  | nil => exact List.ext_getElem? fun i => (h i).resolve_right (by simp)
  | cons w writes ih =>
    refine ih (length_writeAt_congr hl w.1 w.2) fun i => ?_
    rcases h i with heq | ⟨v, hv, hcovers⟩
    · exact Or.inl (writeAt_getElem?_congr hl (Or.inl heq))
    · rcases List.mem_cons.mp hv with rfl | hlater
      · exact Or.inl (writeAt_getElem?_congr hl (Or.inr hcovers))
      · exact Or.inr ⟨v, hlater, hcovers⟩

/-! ### Slots of a source -/

section Slots
variable {src image : List α} {c : ℕ}

/-- The `k`-th slot of size `c`. -/
def slot (src : List α) (c k : ℕ) : List α := (src.drop (k * c)).take c

theorem lt_ceilDiv_iff {k n c : ℕ} (hc : 0 < c) : k < n ⌈/⌉ c ↔ k * c < n := by
  rw [← not_le, ceilDiv_le_iff_le_mul hc, not_le, Nat.mul_comm]

omit [Inhabited α] in
@[simp] theorem length_slot (src : List α) (c k : ℕ) :
    (slot src c k).length = min c (src.length - k * c) := by
  simp [slot]

omit [Inhabited α] in
theorem slot_getElem? {j k : ℕ} (hj : j < c) : (slot src c k)[j]? = src[k * c + j]? := by
  rw [slot, List.getElem?_take_of_lt hj, List.getElem?_drop]

/-- Slots `ks` of the source written at their places, in this order. -/
def writeSlots (src : List α) (c : ℕ) (image : List α) (ks : List ℕ) : List α :=
  applyWrites image (ks.map fun k => (k * c, slot src c k))

@[simp] theorem writeSlots_nil : writeSlots src c image [] = image := rfl

theorem writeSlots_cons (k : ℕ) (ks : List ℕ) :
    writeSlots src c image (k :: ks) =
      writeSlots src c (writeAt image (k * c) (slot src c k)) ks := rfl

/-- A slot that starts inside the source ends inside it. -/
theorem length_writeAt_slot (hl : image.length = src.length) {k : ℕ} (hk : k * c < src.length) :
    (writeAt image (k * c) (slot src c k)).length = src.length := by
  rw [length_writeAt_of_le (by rw [length_slot]; omega), hl]

theorem writeAt_slot_getElem? (hc : 0 < c) (hl : image.length = src.length) {k i : ℕ}
    (hi : i < src.length) :
    (writeAt image (k * c) (slot src c k))[i]? = if i / c = k then src[i]? else image[i]? := by
  rw [writeAt_getElem? (by omega)]
  have hdiv : i / c = k ↔ k * c ≤ i ∧ i < k * c + c := by
    rw [Nat.div_eq_iff hc]
    omega
  have hiff : (k * c ≤ i ∧ i < k * c + (slot src c k).length) ↔ i / c = k := by
    rw [length_slot, hdiv]
    omega
  simp only [hiff]
  split_ifs with h
  · obtain ⟨h1, h2⟩ := hdiv.mp h
    rw [slot_getElem? (by omega)]
    congr 1
    omega
  · rfl

/-- After any sequence of slots, a cell holds the source exactly when its slot
occurred, and is unchanged otherwise. -/
theorem writeSlots_spec (hc : 0 < c) (hl : image.length = src.length) (ks : List ℕ)
    (hks : ∀ k ∈ ks, k * c < src.length) :
    (writeSlots src c image ks).length = src.length ∧
      ∀ i < src.length,
        (writeSlots src c image ks)[i]? = if i / c ∈ ks then src[i]? else image[i]? := by
  induction ks generalizing image with
  | nil => simp [hl]
  | cons k ks ih =>
    have hk : k * c < src.length := hks k (by simp)
    obtain ⟨hlen, hget⟩ := ih (length_writeAt_slot hl hk) (fun j hj => hks j (by simp [hj]))
    rw [writeSlots_cons]
    refine ⟨hlen, fun i hi => ?_⟩
    rw [hget i hi, writeAt_slot_getElem? hc hl hi]
    by_cases h1 : i / c ∈ ks
    · simp [h1]
    · by_cases h2 : i / c = k <;> simp [h1, h2]

/-- Writing every slot rebuilds the source, whatever the image held before. -/
theorem writeSlots_complete (hc : 0 < c) (hl : image.length = src.length) (ks : List ℕ)
    (hks : ∀ k, k ∈ ks ↔ k * c < src.length) : writeSlots src c image ks = src := by
  obtain ⟨hlen, hget⟩ := writeSlots_spec hc hl ks (fun k hk => (hks k).mp hk)
  apply List.ext_getElem?
  intro i
  by_cases hi : i < src.length
  · have hmem : i / c ∈ ks := by
      rw [hks]
      exact lt_of_le_of_lt (Nat.div_mul_le_self i c) hi
    rw [hget i hi, if_pos hmem]
  · rw [List.getElem?_eq_none (by omega), List.getElem?_eq_none (by omega)]

end Slots
end ByteImage
end JustDrop

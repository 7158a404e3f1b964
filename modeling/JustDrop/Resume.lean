import JustDrop.Bincode
import JustDrop.Types
import Mathlib.Data.Finset.Sort
import Mathlib.Data.Finset.Option
import Mathlib.Data.Finset.Union
import Mathlib.Data.Nat.Bitwise
import Mathlib.Tactic.IntervalCases

/-!
# Resume states and the bitmap of received chunks

The state of an interrupted transfer lists, file by file, the chunks received so
far. In the negotiation the receiver numbers these chunks globally and sends
them as a bitmap, from which the sender reads back what to skip.
-/
namespace JustDrop

structure FileResumeState where
  fileIndex : UInt32
  destPath : String
  tempPath : String
  fileSize : ℕ
  chunkSize : ℕ
  completedChunks : Finset ℕ
  deriving DecidableEq

structure TransferResumeState where
  transferId : TransferId
  files : List FileResumeState
  bytesTransferred : UInt64
  totalBytes : UInt64
  deriving DecidableEq

/-- What loading finds under each transfer id. -/
abbrev ResumeStore := TransferId → Option TransferResumeState

namespace ResumeStore

def save (state : TransferResumeState) (store : ResumeStore) : ResumeStore :=
  Function.update store state.transferId (some state)

def remove (transferId : TransferId) (store : ResumeStore) : ResumeStore :=
  Function.update store transferId none

end ResumeStore

/-! ### The chunks of a stored state -/

/-- The chunks that a stored state lists for a file. -/
def TransferResumeState.completedOf (state : TransferResumeState) (fileIndex : UInt32) :
    Finset ℕ :=
  (state.files.filter (·.fileIndex = fileIndex)).foldr
    (fun file chunks => file.completedChunks ∪ chunks) ∅

/-- The chunks listed for a file, none where nothing is stored. -/
def persisted (stored : Option TransferResumeState) (fileIndex : UInt32) : Finset ℕ :=
  (stored.map (·.completedOf fileIndex)).getD ∅

theorem TransferResumeState.mem_completedOf {state : TransferResumeState} {fileIndex : UInt32}
    {k : ℕ} : k ∈ state.completedOf fileIndex ↔
      ∃ file ∈ state.files, file.fileIndex = fileIndex ∧ k ∈ file.completedChunks := by
  have hfold : ∀ files : List FileResumeState,
      k ∈ files.foldr (fun file chunks => file.completedChunks ∪ chunks) ∅ ↔
        ∃ file ∈ files, k ∈ file.completedChunks := by
    intro files
    induction files with
    | nil => simp
    | cons file files ih => simp [ih]
  simp [completedOf, hfold, and_assoc]

theorem mem_persisted {stored : Option TransferResumeState} {fileIndex : UInt32} {k : ℕ} :
    k ∈ persisted stored fileIndex ↔ ∃ state, stored = some state ∧
      ∃ file ∈ state.files, file.fileIndex = fileIndex ∧ k ∈ file.completedChunks := by
  cases stored with
  | none => simp [persisted]
  | some state => simp [persisted, TransferResumeState.mem_completedOf]

/-! ### The bitmap -/

def mask (chunk : ℕ) : UInt8 := 1 <<< UInt8.ofNat (chunk % 8)

def setBit (bitmap : Bytes) (chunk : ℕ) : Bytes :=
  if chunk / 8 < bitmap.length then bitmap.modify (chunk / 8) (· ||| mask chunk) else bitmap

def bitmapLength (totalChunks : ℕ) : ℕ := totalChunks ⌈/⌉ 8

/-- Chunks beyond the bitmap are ignored; the order of the insertions does not matter. -/
def encodeReceivedBitmap (completed : Finset ℕ) (totalChunks : ℕ) : Bytes :=
  (completed.sort (· ≤ ·)).foldl setBit (List.replicate (bitmapLength totalChunks) 0)

def bitIsSet (bitmap : Bytes) (chunk : ℕ) : Bool :=
  match bitmap[chunk / 8]? with
  | some byte => byte &&& mask chunk ≠ 0
  | none => false

def decodeReceivedBitmap (bitmap : Bytes) (totalChunks : ℕ) : Finset ℕ :=
  (Finset.range totalChunks).filter fun chunk => bitIsSet bitmap chunk

theorem toNat_mask (chunk : ℕ) : (mask chunk).toNat = 2 ^ (chunk % 8) := by
  have hlt : chunk % 8 < 8 := Nat.mod_lt _ (by omega)
  unfold mask
  generalize chunk % 8 = j at hlt
  interval_cases j <;> rfl

theorem and_mask_ne_zero (byte : UInt8) (chunk : ℕ) :
    byte &&& mask chunk ≠ 0 ↔ byte.toNat.testBit (chunk % 8) = true := by
  rw [ne_eq, ← UInt8.toNat_inj, UInt8.toNat_and, toNat_mask, Nat.and_two_pow]
  cases byte.toNat.testBit (chunk % 8) <;> simp

@[simp] theorem length_setBit (bitmap : Bytes) (chunk : ℕ) :
    (setBit bitmap chunk).length = bitmap.length := by
  unfold setBit
  split_ifs <;> simp

/-- Setting a bit sets that bit and keeps the others. -/
theorem bitIsSet_setBit (bitmap : Bytes) (chunk k : ℕ) :
    bitIsSet (setBit bitmap chunk) k =
      (bitIsSet bitmap k || decide (chunk = k ∧ k / 8 < bitmap.length)) := by
  unfold setBit
  split_ifs with hin
  · unfold bitIsSet
    rw [List.getElem?_modify]
    by_cases hk : k / 8 < bitmap.length
    · simp only [List.getElem?_eq_getElem hk, Option.map_eq_map, Option.map_some, hk, and_true]
      by_cases hbyte : chunk / 8 = k / 8
      · rw [if_pos hbyte, Bool.eq_iff_iff]
        simp only [decide_eq_true_eq, Bool.or_eq_true, and_mask_ne_zero, UInt8.toNat_or,
          Nat.testBit_or, toNat_mask, Nat.testBit_two_pow]
        have : chunk % 8 = k % 8 ↔ chunk = k := by omega
        simp [this]
      · have hne : chunk ≠ k := fun h => hbyte (by rw [h])
        simp [hbyte, hne]
    · simp [hk]
  · have : ¬(chunk = k ∧ k / 8 < bitmap.length) := fun h => hin (h.1 ▸ h.2)
    simp [this]

theorem bitIsSet_foldl_setBit (chunks : List ℕ) (bitmap : Bytes) (k : ℕ) :
    bitIsSet (chunks.foldl setBit bitmap) k =
      (bitIsSet bitmap k || decide (k ∈ chunks ∧ k / 8 < bitmap.length)) := by
  induction chunks generalizing bitmap with
  | nil => simp
  | cons chunk chunks ih =>
    rw [List.foldl_cons, ih, bitIsSet_setBit, length_setBit, Bool.or_assoc]
    congr 1
    rw [Bool.eq_iff_iff]
    simp only [Bool.or_eq_true, decide_eq_true_eq, List.mem_cons, eq_comm (a := chunk)]
    tauto

@[simp] theorem length_foldl_setBit (chunks : List ℕ) (bitmap : Bytes) :
    (chunks.foldl setBit bitmap).length = bitmap.length := by
  induction chunks generalizing bitmap with
  | nil => rfl
  | cons chunk chunks ih => rw [List.foldl_cons, ih, length_setBit]

@[simp] theorem length_encodeReceivedBitmap (completed : Finset ℕ) (totalChunks : ℕ) :
    (encodeReceivedBitmap completed totalChunks).length = bitmapLength totalChunks := by
  rw [encodeReceivedBitmap, length_foldl_setBit, List.length_replicate]

/-- The bitmap has the bits of the set as far as it reaches. -/
theorem bitIsSet_encodeReceivedBitmap {completed : Finset ℕ} {totalChunks n : ℕ} :
    bitIsSet (encodeReceivedBitmap completed totalChunks) n = true ↔
      n ∈ completed ∧ n < 8 * bitmapLength totalChunks := by
  have hempty : bitIsSet (List.replicate (bitmapLength totalChunks) 0) n = false := by
    unfold bitIsSet
    rw [List.getElem?_replicate]
    split_ifs <;> simp
  rw [encodeReceivedBitmap, bitIsSet_foldl_setBit, hempty, List.length_replicate]
  simp only [Bool.false_or, decide_eq_true_eq, Finset.mem_sort]
  have hbyte : n / 8 < bitmapLength totalChunks ↔ n < 8 * bitmapLength totalChunks := by
    omega
  rw [hbyte]

theorem bitmapLength_eq (totalChunks : ℕ) : bitmapLength totalChunks = (totalChunks + 7) / 8 :=
  Nat.ceilDiv_eq_add_pred_div totalChunks 8

theorem le_bitmapLength (totalChunks : ℕ) : totalChunks ≤ 8 * bitmapLength totalChunks := by
  rw [bitmapLength_eq]
  omega

/-- The sender reads back the received chunks below the total. -/
theorem mem_decodeReceivedBitmap_encode {completed : Finset ℕ} {totalChunks k : ℕ} :
    k ∈ decodeReceivedBitmap (encodeReceivedBitmap completed totalChunks) totalChunks ↔
      k < totalChunks ∧ k ∈ completed := by
  have hreach := le_bitmapLength totalChunks
  rw [decodeReceivedBitmap, Finset.mem_filter, Finset.mem_range, bitIsSet_encodeReceivedBitmap]
  exact and_congr_right fun hk => and_iff_left (by omega)

/-! ### The bitmap bit by bit -/

/-- The bit at a position, the lowest bit of a byte first. -/
def bitAt (bitmap : Bytes) (j : ℕ) : Bool := (bitmap.getD (j / 8) 0).toNat.testBit (j % 8)

theorem bitIsSet_eq_bitAt (bitmap : Bytes) (j : ℕ) : bitIsSet bitmap j = bitAt bitmap j := by
  unfold bitIsSet bitAt
  rw [List.getD_eq_getElem?_getD]
  cases bitmap[j / 8]? with
  | none => simp
  | some byte =>
    rw [Bool.eq_iff_iff, decide_eq_true_eq, and_mask_ne_zero]
    rfl

/-- The bits of so many bytes determine them. -/
theorem eq_of_bitAt {bitmap other : Bytes} (hlength : bitmap.length = other.length)
    (h : ∀ j, bitAt bitmap j = bitAt other j) : bitmap = other := by
  refine List.ext_getElem hlength fun i hi hi' => UInt8.toNat_inj.mp ?_
  refine Nat.eq_of_testBit_eq fun j => ?_
  by_cases hj : j < 8
  · have hbit := h (8 * i + j)
    have hdiv : (8 * i + j) / 8 = i := by omega
    have hmod : (8 * i + j) % 8 = j := by omega
    rwa [bitAt, bitAt, hdiv, hmod, List.getD_eq_getElem _ _ hi, List.getD_eq_getElem _ _ hi']
      at hbit
  · have hhigh : ∀ byte : UInt8, byte.toNat.testBit j = false := fun byte =>
      Nat.testBit_lt_two_pow (lt_of_lt_of_le byte.toNat_lt
        (Nat.pow_le_pow_right (by omega) (not_lt.mp hj)))
    rw [hhigh, hhigh]

/-- The set may be gone through in any order. -/
theorem foldl_setBit_eq_encode {chunks : List ℕ} {completed : Finset ℕ} {totalChunks : ℕ}
    (h : ∀ k, k ∈ chunks ↔ k ∈ completed) :
    chunks.foldl setBit (List.replicate (bitmapLength totalChunks) 0) =
      encodeReceivedBitmap completed totalChunks := by
  apply eq_of_bitAt
  · rw [length_foldl_setBit, length_encodeReceivedBitmap, List.length_replicate]
  · intro j
    rw [← bitIsSet_eq_bitAt, ← bitIsSet_eq_bitAt, encodeReceivedBitmap, bitIsSet_foldl_setBit,
      bitIsSet_foldl_setBit]
    simp only [h, Finset.mem_sort]

/-- The bits below the total survive the decoder and the encoder, the others are cleared. -/
theorem bitAt_encode_decode (bitmap : Bytes) (totalChunks j : ℕ) :
    bitAt (encodeReceivedBitmap (decodeReceivedBitmap bitmap totalChunks) totalChunks) j =
      (decide (j < totalChunks) && bitAt bitmap j) := by
  have hreach := le_bitmapLength totalChunks
  rw [← bitIsSet_eq_bitAt, ← bitIsSet_eq_bitAt, Bool.eq_iff_iff, bitIsSet_encodeReceivedBitmap,
    decodeReceivedBitmap, Finset.mem_filter, Finset.mem_range, Bool.and_eq_true,
    decide_eq_true_eq]
  exact and_iff_left_of_imp fun hbit => by omega

/-- A set comes back from its bitmap as far as the total reaches, and a bitmap from its set
with the bits below the total and no others. -/
theorem receivedBitmap_exact (completed : Finset ℕ) (bitmap : Bytes) (totalChunks : ℕ) :
    (encodeReceivedBitmap completed totalChunks).length = (totalChunks + 7) / 8 ∧
    (∀ k, k ∈ decodeReceivedBitmap (encodeReceivedBitmap completed totalChunks) totalChunks ↔
      k ∈ completed ∧ k < totalChunks) ∧
    ∀ other : Bytes,
      other = encodeReceivedBitmap (decodeReceivedBitmap bitmap totalChunks) totalChunks ↔
        other.length = (totalChunks + 7) / 8 ∧
          ∀ j, bitAt other j = (decide (j < totalChunks) && bitAt bitmap j) := by
  have hlength : ∀ set, (encodeReceivedBitmap set totalChunks).length = (totalChunks + 7) / 8 :=
    fun set => (length_encodeReceivedBitmap set totalChunks).trans (bitmapLength_eq totalChunks)
  refine ⟨hlength completed, fun k => ?_, fun other => ⟨?_, ?_⟩⟩
  · rw [mem_decodeReceivedBitmap_encode, and_comm]
  · rintro rfl
    exact ⟨hlength _, bitAt_encode_decode bitmap totalChunks⟩
  · rintro ⟨hsame, hbits⟩
    apply eq_of_bitAt
    · rw [hsame, hlength]
    · intro j
      rw [hbits, bitAt_encode_decode]

/-! ### Global numbers of stored chunks -/

/-- The global numbers of all stored chunks, where every number fits 64 bits. -/
def completedGlobals (manifest : TransferManifest) : List FileResumeState → Option (Finset ℕ)
  | [] => some ∅
  | file :: files =>
    if ∀ chunk ∈ file.completedChunks, (globalChunkOffset manifest file.fileIndex chunk).isSome then
      (completedGlobals manifest files).map fun all =>
        (file.completedChunks.biUnion fun chunk =>
          (globalChunkOffset manifest file.fileIndex chunk).toFinset) ∪ all
    else none

/-- The stored chunks all have numbers, and these are the result. -/
theorem completedGlobals_eq_some {manifest : TransferManifest} {files : List FileResumeState}
    {all : Finset ℕ} (h : completedGlobals manifest files = some all) (n : ℕ) :
    n ∈ all ↔ ∃ file ∈ files, ∃ chunk ∈ file.completedChunks,
      globalChunkOffset manifest file.fileIndex chunk = some n := by
  induction files generalizing all with
  | nil =>
    obtain rfl := Option.some.inj h
    simp
  | cons file files ih =>
    unfold completedGlobals at h
    split_ifs at h with hfile
    obtain ⟨rest, hrest, rfl⟩ := Option.map_eq_some_iff.mp h
    simp [ih hrest]

theorem completedGlobals_isSome {manifest : TransferManifest} {files : List FileResumeState} :
    (completedGlobals manifest files).isSome ↔ ∀ file ∈ files, ∀ chunk ∈ file.completedChunks,
      (globalChunkOffset manifest file.fileIndex chunk).isSome := by
  induction files with
  | nil => simp [completedGlobals]
  | cons file files ih =>
    unfold completedGlobals
    split_ifs with hfile
    · simp only [Option.isSome_map, ih, List.forall_mem_cons]
      exact ⟨fun h => ⟨hfile, h⟩, fun h => h.2⟩
    · simp only [Option.isSome_none, Bool.false_eq_true, false_iff, List.forall_mem_cons]
      exact fun h => hfile h.1

end JustDrop

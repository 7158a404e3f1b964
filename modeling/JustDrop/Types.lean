import JustDrop.ByteImage
import JustDrop.Task

/-!
# Manifests, chunks and their counts

The values both sides of a transfer share. Numbers read from the wire keep their
width; counts derived from them are natural numbers, with no value where the
checked arithmetic of the program panics.
-/
namespace JustDrop

def PROTOCOL_VERSION : UInt8 := 1

/-- Maximum message payload size (16 MiB). -/
def MAX_MESSAGE_SIZE : ℕ := 16 * 1024 * 1024

def DEFAULT_CHUNK_SIZE : UInt32 := 256 * 1024

/-- Above this size the chunk size is scaled (1 GiB). -/
def LARGE_FILE_THRESHOLD : ℕ := 1024 * 1024 * 1024

abbrev TransferId := Vector UInt8 16

abbrev Sha256Hash := Vector UInt8 32

abbrev PublicKey := Vector UInt8 32

abbrev Fingerprint := Vector UInt8 32

inductive Platform where
  | android
  | macOS
  | linux
  | windows
  | unknown
  deriving DecidableEq, Repr

structure FileEntry where
  index : UInt32
  relativePath : String
  size : UInt64
  sha256 : Sha256Hash
  mimeType : String
  deriving DecidableEq, Repr

structure TransferManifest where
  transferId : TransferId
  version : UInt8
  files : List FileEntry
  totalSize : UInt64
  chunkSize : UInt32
  senderName : String
  senderPlatform : Platform
  deriving DecidableEq, Repr

inductive TransferResponse where
  | accept
  | reject (reason : String)
  | resumeAt (receivedChunks : Bytes)
  deriving DecidableEq, Repr

structure ChunkId where
  fileIndex : UInt32
  chunkOffset : UInt64
  deriving DecidableEq, Repr

structure ChunkAck where
  id : ChunkId
  sha256 : Sha256Hash
  deriving DecidableEq, Repr

inductive TransferState where
  | handshaking
  | negotiating
  | transferring
  | verifying
  | completed
  | failed
  | cancelled
  | paused
  deriving DecidableEq, Repr

structure TransferProgress where
  transferId : TransferId
  state : TransferState
  bytesTransferred : ℕ
  totalBytes : ℕ
  currentFileIndex : ℕ
  totalFiles : ℕ
  deriving DecidableEq, Repr

inductive TransferDirection where
  | sending
  | receiving
  deriving DecidableEq, Repr

/-- Files above the threshold get twice the base, capped at 4 MiB. -/
def effectiveChunkSize (fileSize baseChunkSize : ℕ) : ℕ :=
  if LARGE_FILE_THRESHOLD < fileSize then
    min (min (baseChunkSize * 2) (2 ^ 32 - 1)) (4 * 1024 * 1024)
  else baseChunkSize

/-- Empty files still get one chunk; a zero chunk size divides by zero. -/
def FileEntry.chunkCount (entry : FileEntry) (chunkSize : ℕ) : Option ℕ :=
  if entry.size.toNat = 0 then some 1 else divCeil entry.size.toNat chunkSize

namespace TransferManifest

/-- Overflow of the 64-bit sum panics. -/
def totalChunksFrom (chunkSize : ℕ) : ℕ → List FileEntry → Option ℕ
  | total, [] => some total
  | total, entry :: entries => do
    let count ← entry.chunkCount chunkSize
    let total ← checkedAdd 64 total count
    totalChunksFrom chunkSize total entries

def totalChunks (manifest : TransferManifest) : Option ℕ :=
  totalChunksFrom manifest.chunkSize.toNat 0 manifest.files

/-- The sum of the sizes has no value beyond 64 bits. -/
def totalSizeFrom : ℕ → List FileEntry → Option ℕ
  | total, [] => some total
  | total, entry :: entries => do
    let total ← checkedAdd 64 total entry.size.toNat
    totalSizeFrom total entries

def new (transferId : TransferId) (files : List FileEntry) (senderName : String)
    (chunkSize : UInt32) (platform : Platform) : Option TransferManifest := do
  let totalSize ← totalSizeFrom 0 files
  pure {
    transferId, version := PROTOCOL_VERSION, files, totalSize := UInt64.ofNat totalSize,
    chunkSize, senderName, senderPlatform := platform }

end TransferManifest

/-- Position of a chunk among the chunks of all files, counted from `total` on. -/
def globalChunkOffsetFrom (chunkSize : ℕ) (fileIndex : UInt32) (chunkOffset : ℕ) :
    ℕ → List FileEntry → Option ℕ
  | total, [] => checkedAdd 64 total chunkOffset
  | total, entry :: entries =>
    if entry.index = fileIndex then checkedAdd 64 total chunkOffset
    else do
      let count ← entry.chunkCount chunkSize
      let total ← checkedAdd 64 total count
      globalChunkOffsetFrom chunkSize fileIndex chunkOffset total entries

def globalChunkOffset (manifest : TransferManifest) (fileIndex : UInt32) (chunkOffset : ℕ) :
    Option ℕ :=
  globalChunkOffsetFrom manifest.chunkSize.toNat fileIndex chunkOffset 0 manifest.files

/-! ### The counts as natural numbers -/

/-- Chunks of a file where the chunk size is not zero. -/
def chunksOf (size chunkSize : ℕ) : ℕ := if size = 0 then 1 else size ⌈/⌉ chunkSize

/-- The division of a file into chunks has a value. -/
def Divisible (size chunkSize : ℕ) : Prop := size = 0 ∨ chunkSize ≠ 0

instance (size chunkSize : ℕ) : Decidable (Divisible size chunkSize) :=
  inferInstanceAs (Decidable (_ ∨ _))

theorem count_eq_some {size chunkSize count : ℕ} :
    (if size = 0 then some 1 else divCeil size chunkSize) = some count ↔
      Divisible size chunkSize ∧ count = chunksOf size chunkSize := by
  unfold Divisible chunksOf
  split_ifs with h
  · simp [h, eq_comm]
  · simp [h]

theorem FileEntry.chunkCount_eq_some {entry : FileEntry} {chunkSize count : ℕ} :
    entry.chunkCount chunkSize = some count ↔
      Divisible entry.size.toNat chunkSize ∧ count = chunksOf entry.size.toNat chunkSize :=
  count_eq_some

/-- An offset below the count starts inside the file, or is the one chunk of an empty file. -/
theorem lt_chunksOf_iff {size chunkSize k : ℕ} (hs : size ≠ 0) (hc : chunkSize ≠ 0) :
    k < chunksOf size chunkSize ↔ k * chunkSize < size := by
  rw [chunksOf, if_neg hs, ByteImage.lt_ceilDiv_iff (Nat.pos_of_ne_zero hc)]

theorem chunksOf_le (size chunkSize : ℕ) : chunksOf size chunkSize ≤ max 1 size := by
  unfold chunksOf
  split_ifs with hs
  · omega
  · rcases Nat.eq_zero_or_pos chunkSize with hc | hc
    · simp [hc]
    · have : size ⌈/⌉ chunkSize ≤ size := by
        rw [ceilDiv_le_iff_le_mul hc]
        exact Nat.le_mul_of_pos_left size hc
      omega

theorem mul_lt_of_lt_chunksOf {size chunkSize k : ℕ} (hsize : size < 2 ^ 64)
    (hk : k < chunksOf size chunkSize) : k * chunkSize < 2 ^ 64 := by
  by_cases hc : chunkSize = 0
  · simp [hc]
  · by_cases hs : size = 0
    · have h0 : k = 0 := by simpa [chunksOf, hs] using hk
      simp [h0]
    · have := (lt_chunksOf_iff hs hc).mp hk
      omega

/-- All chunks of a file, written at their places, rebuild it over any image of its length. -/
theorem writeSlots_chunks {file image : Bytes} {chunkSize : ℕ}
    (hdivisible : Divisible file.length chunkSize) (hlength : image.length = file.length) :
    ByteImage.writeSlots file chunkSize image (List.range (chunksOf file.length chunkSize)) =
      file := by
  by_cases hs : file.length = 0
  · obtain rfl := List.eq_nil_of_length_eq_zero hs
    obtain rfl := List.eq_nil_of_length_eq_zero hlength
    simp [ByteImage.writeSlots, ByteImage.slot, chunksOf]
  · have hc : chunkSize ≠ 0 := hdivisible.resolve_left hs
    refine ByteImage.writeSlots_complete (Nat.pos_of_ne_zero hc) hlength _ fun k => ?_
    rw [List.mem_range, lt_chunksOf_iff hs hc]

/-- The chunks of a file have its bytes between them. -/
theorem sum_length_chunks {file : Bytes} {chunkSize : ℕ}
    (hdivisible : Divisible file.length chunkSize) :
    ((List.range (chunksOf file.length chunkSize)).map fun k =>
      (ByteImage.slot file chunkSize k).length).sum = file.length := by
  have hsum : ∀ n, ((List.range n).map fun k => (ByteImage.slot file chunkSize k).length).sum =
      min (n * chunkSize) file.length := by
    intro n
    induction n with
    | zero => simp
    | succ n ih =>
      rw [List.range_succ, List.map_append, List.sum_append, ih, Nat.add_one_mul]
      simp only [List.map_singleton, List.sum_singleton, ByteImage.length_slot]
      omega
  rw [hsum, Nat.min_eq_right]
  by_cases hs : file.length = 0
  · omega
  · have hc : chunkSize ≠ 0 := hdivisible.resolve_left hs
    have hlast := (lt_chunksOf_iff hs hc (k := chunksOf file.length chunkSize)).not.mp
      (Nat.lt_irrefl _)
    omega

/-- The chunks of several files together. -/
def sumChunks (chunkSize : ℕ) (entries : List FileEntry) : ℕ :=
  (entries.map fun entry => chunksOf entry.size.toNat chunkSize).sum

@[simp] theorem sumChunks_nil (chunkSize : ℕ) : sumChunks chunkSize [] = 0 := rfl

@[simp] theorem sumChunks_cons (chunkSize : ℕ) (entry : FileEntry) (entries : List FileEntry) :
    sumChunks chunkSize (entry :: entries) =
      chunksOf entry.size.toNat chunkSize + sumChunks chunkSize entries := rfl

theorem TransferManifest.totalChunksFrom_eq_some {chunkSize total count : ℕ}
    {entries : List FileEntry} (htotal : total < 2 ^ 64) :
    totalChunksFrom chunkSize total entries = some count ↔
      (∀ entry ∈ entries, Divisible entry.size.toNat chunkSize) ∧
        total + sumChunks chunkSize entries < 2 ^ 64 ∧
        count = total + sumChunks chunkSize entries := by
  induction entries generalizing total with
  | nil =>
    simp only [totalChunksFrom, Option.some.injEq, List.not_mem_nil, false_implies, implies_true,
      sumChunks_nil, Nat.add_zero, true_and, htotal]
    exact eq_comm
  | cons entry entries ih =>
    simp only [totalChunksFrom, Option.bind_eq_bind, Option.bind_eq_some_iff,
      FileEntry.chunkCount_eq_some, checkedAdd_eq_some, List.forall_mem_cons, sumChunks_cons]
    constructor
    · rintro ⟨_, ⟨hdiv, rfl⟩, _, ⟨hlt, rfl⟩, hrest⟩
      obtain ⟨hall, hsum, rfl⟩ := (ih hlt).mp hrest
      exact ⟨⟨hdiv, hall⟩, by omega, by omega⟩
    · rintro ⟨⟨hdiv, hall⟩, hsum, rfl⟩
      exact ⟨_, ⟨hdiv, rfl⟩, _, ⟨by omega, rfl⟩, (ih (by omega)).mpr ⟨hall, by omega, by omega⟩⟩

theorem TransferManifest.totalChunks_eq_some {manifest : TransferManifest} {count : ℕ} :
    manifest.totalChunks = some count ↔
      (∀ entry ∈ manifest.files, Divisible entry.size.toNat manifest.chunkSize.toNat) ∧
        sumChunks manifest.chunkSize.toNat manifest.files < 2 ^ 64 ∧
        count = sumChunks manifest.chunkSize.toNat manifest.files := by
  rw [totalChunks, totalChunksFrom_eq_some (by omega), Nat.zero_add]

/-- The files in front of the first one with this index. -/
def filesBefore (fileIndex : UInt32) (entries : List FileEntry) : List FileEntry :=
  entries.takeWhile (·.index ≠ fileIndex)

theorem globalChunkOffsetFrom_eq_some {chunkSize total chunkOffset global : ℕ}
    {fileIndex : UInt32} {entries : List FileEntry} :
    globalChunkOffsetFrom chunkSize fileIndex chunkOffset total entries = some global ↔
      (∀ entry ∈ filesBefore fileIndex entries, Divisible entry.size.toNat chunkSize) ∧
        total + sumChunks chunkSize (filesBefore fileIndex entries) + chunkOffset < 2 ^ 64 ∧
        global = total + sumChunks chunkSize (filesBefore fileIndex entries) + chunkOffset := by
  induction entries generalizing total with
  | nil => simp [globalChunkOffsetFrom, filesBefore]
  | cons entry entries ih =>
    by_cases hindex : entry.index = fileIndex
    · simp [globalChunkOffsetFrom, filesBefore, hindex]
    · have hbefore : filesBefore fileIndex (entry :: entries) =
          entry :: filesBefore fileIndex entries := by
        simp [filesBefore, hindex]
      simp only [globalChunkOffsetFrom, if_neg hindex, Option.bind_eq_bind,
        Option.bind_eq_some_iff, FileEntry.chunkCount_eq_some, checkedAdd_eq_some, hbefore,
        List.forall_mem_cons, sumChunks_cons]
      constructor
      · rintro ⟨_, ⟨hdiv, rfl⟩, _, ⟨hlt, rfl⟩, hrest⟩
        obtain ⟨hall, hsum, rfl⟩ := ih.mp hrest
        exact ⟨⟨hdiv, hall⟩, by omega, by omega⟩
      · rintro ⟨⟨hdiv, hall⟩, hsum, rfl⟩
        exact ⟨_, ⟨hdiv, rfl⟩, _, ⟨by omega, rfl⟩, ih.mpr ⟨hall, by omega, by omega⟩⟩

theorem globalChunkOffset_eq_some {manifest : TransferManifest} {fileIndex : UInt32}
    {chunkOffset global : ℕ} :
    globalChunkOffset manifest fileIndex chunkOffset = some global ↔
      (∀ entry ∈ filesBefore fileIndex manifest.files,
          Divisible entry.size.toNat manifest.chunkSize.toNat) ∧
        sumChunks manifest.chunkSize.toNat (filesBefore fileIndex manifest.files) + chunkOffset <
          2 ^ 64 ∧
        global = sumChunks manifest.chunkSize.toNat (filesBefore fileIndex manifest.files) +
          chunkOffset := by
  rw [globalChunkOffset, globalChunkOffsetFrom_eq_some, Nat.zero_add]

end JustDrop

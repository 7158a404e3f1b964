import JustDrop.Geometry

/-!
# Streaming the chunks of a file

A stream reads one chunk after the other and sends it to a channel. It ends with the
last chunk, behind an error of a read, or when the receiver of the channel is gone.
What remains of the file is cut to `usize` before it is compared with the chunk size:
where it does not fit, some chunk is read short.
-/
namespace JustDrop
open ByteImage

/-- Which reads fail and which sends find a receiver. -/
structure StreamScript where
  readFault : ℕ → Option StorageError
  received : ℕ → Bool

/-- Every read works and every send finds a receiver. -/
def StreamScript.quiet : StreamScript := ⟨fun _ => none, fun _ => true⟩

/-- What a channel has handed over. -/
abbrev Channel := List (Except StorageError ReadChunk)

namespace Channel

/-- Whether the item was sent. -/
def send (script : StreamScript) (item : Except StorageError ReadChunk) :
    Task Channel Empty Bool := do
  let sent ← Task.get
  if script.received sent.length then do
    Task.modify (· ++ [item])
    pure true
  else pure false

/-- The bytes of the chunks, one after the other. -/
def bytes (sent : Channel) : Bytes := sent.flatMap fun
  | .ok chunk => chunk.data
  | .error _ => []

end Channel

namespace FileChunker

/-- The loop over the offsets. -/
def streamOffsets (script : StreamScript) (host : ReadHost) (chunker : FileChunker)
    (file : Bytes) : List ℕ → Task Channel Empty Unit
  | [] => pure ()
  | k :: ks =>
    match script.readFault k with
    | some e => do
      let _ ← Channel.send script (.error e)
      pure ()
    | none => do
      let chunk ← Task.ofChecked (chunker.readChunk host file k)
      let sent ← Channel.send script (.ok chunk)
      if sent then streamOffsets script host chunker file ks else pure ()

def streamChunks (script : StreamScript) (host : ReadHost) (chunker : FileChunker)
    (file : Bytes) (startChunk : ℕ) : Task Channel Empty Unit := do
  let total ← Task.ofChecked chunker.chunkCount
  streamOffsets script host chunker file (List.range' startChunk (total - startChunk))

/-! ### One chunk after the other -/

variable {host : ReadHost} {chunker : FileChunker} {file : Bytes}

/-- A quiet stream appends the chunks it has read, up to one that cannot be read. -/
theorem streamOffsets_cons (k : ℕ) (ks : List ℕ) (sent : Channel) :
    streamOffsets .quiet host chunker file (k :: ks) sent =
      match chunker.readChunk host file k with
      | some chunk => streamOffsets .quiet host chunker file ks (sent ++ [.ok chunk])
      | none => (.panic, sent) := by
  cases hread : chunker.readChunk host file k with
  | none => simp [streamOffsets, StreamScript.quiet, hread]
  | some chunk =>
    have hsend : Channel.send .quiet (.ok chunk) sent = (.ok true, sent ++ [.ok chunk]) := rfl
    show (Task.ofChecked (chunker.readChunk host file k) >>= _) sent = _
    rw [hread, Task.ofChecked_some, Task.pure_bind_run, Task.bind_of_ok hsend, if_pos rfl]

/-- A quiet stream that ends by itself has read all of its chunks. -/
theorem streamOffsets_eq_ok_iff (ks : List ℕ) (sent sent' : Channel) :
    streamOffsets .quiet host chunker file ks sent = (.ok (), sent') ↔
      ∃ chunks, ks.mapM (chunker.readChunk host file) = some chunks ∧
        sent' = sent ++ chunks.map .ok := by
  induction ks generalizing sent with
  | nil => simp [streamOffsets, eq_comm]
  | cons k ks ih =>
    rw [streamOffsets_cons, List.mapM_cons]
    cases hread : chunker.readChunk host file k with
    | none => simp
    | some chunk =>
      simp only [ih, Option.bind_eq_bind, Option.bind_some, Option.bind_eq_some_iff]
      constructor
      · rintro ⟨chunks, hchunks, rfl⟩
        exact ⟨chunk :: chunks, ⟨chunks, hchunks, rfl⟩, by simp⟩
      · rintro ⟨_, ⟨chunks, hchunks, hcons⟩, rfl⟩
        obtain rfl := Option.some.inj hcons
        exact ⟨chunks, hchunks, by simp⟩

/-- A stream sends given chunks exactly when these are what is read. -/
theorem streamOffsets_eq_map_iff {f : ℕ → ReadChunk} {ks : List ℕ} :
    streamOffsets .quiet host chunker file ks [] = (.ok (), ks.map fun k => .ok (f k)) ↔
      ∀ k ∈ ks, chunker.readChunk host file k = some (f k) := by
  rw [streamOffsets_eq_ok_iff, ← mapM_eq_some_map_iff]
  constructor
  · rintro ⟨chunks, hchunks, hsent⟩
    rw [List.nil_append, ← Function.comp_def, ← List.map_map] at hsent
    have hinj : Function.Injective (Except.ok : ReadChunk → Except StorageError ReadChunk) :=
      fun _ _ h => Except.ok.inj h
    rw [hchunks, List.map_injective_iff.mpr hinj hsent]
  · intro hchunks
    exact ⟨ks.map f, hchunks, by simp⟩

/-! ### Which files are streamed whole -/

/-- The chunks from an offset on, each with its bytes, and all of the file from the first. -/
structure StreamsExactly (host : ReadHost) (chunker : FileChunker) (file : Bytes)
    (startChunk count : ℕ) : Prop where
  chunks : streamChunks .quiet host chunker file startChunk [] =
    (.ok (), (List.range' startChunk (count - startChunk)).map fun k =>
      .ok (slotChunk host chunker file k))
  whole : startChunk = 0 →
    Channel.bytes (streamChunks .quiet host chunker file startChunk []).2 = file

/-- What remains of the file from a chunk on fits `usize`, and so does a buffer for it. -/
def Addressable (host : ReadHost) (chunker : FileChunker) (startChunk : ℕ) : Prop :=
  chunker.fileSize - startChunk * chunker.chunkSize < 2 ^ host.usizeBits ∧
    min (chunker.fileSize - startChunk * chunker.chunkSize) chunker.chunkSize <
      2 ^ (host.usizeBits - 1)

/-- Less remains from a later chunk on. -/
theorem Addressable.of_le {k startChunk : ℕ} (h : Addressable host chunker startChunk)
    (hk : startChunk ≤ k) : Addressable host chunker k := by
  have hmul := Nat.mul_le_mul_right chunker.chunkSize hk
  obtain ⟨hfits, hroom⟩ := h
  exact ⟨by omega, by omega⟩

/-- Where too much remains, some later chunk has just too much. -/
theorem exists_just_above {size chunkSize startChunk limit : ℕ} (hchunk : 0 < chunkSize)
    (hlarge : limit ≤ size - startChunk * chunkSize) :
    ∃ k, startChunk ≤ k ∧ limit ≤ size - k * chunkSize ∧
      size - k * chunkSize < limit + chunkSize := by
  refine ⟨startChunk + (size - startChunk * chunkSize - limit) / chunkSize,
    Nat.le_add_right _ _, ?_⟩
  have hdiv := Nat.div_mul_le_self (size - startChunk * chunkSize - limit) chunkSize
  have hlt := Nat.lt_div_mul_add hchunk (a := size - startChunk * chunkSize - limit)
  rw [Nat.add_mul]
  omega

/-- A chunk that is its slot was asked for in full. -/
theorem readSize_of_readChunk {k : ℕ} (hfile : file.length = chunker.fileSize)
    (hread : chunker.readChunk host file k = some (slotChunk host chunker file k)) :
    min (chunker.fileSize - k * chunker.chunkSize) chunker.chunkSize = readSize host chunker k ∧
      readSize host chunker k < 2 ^ (host.usizeBits - 1) := by
  obtain ⟨-, hroom, hchunk⟩ := readChunk_eq_some.mp hread
  have hdata := congrArg (fun chunk => chunk.data.length) hchunk
  simp only [slotChunk, length_slot, List.length_take, List.length_drop, hfile] at hdata
  have hle : readSize host chunker k ≤ chunker.fileSize - k * chunker.chunkSize :=
    (min_le_left _ _).trans (Nat.mod_le _ _)
  omega

/-- A chunk with just too much behind it is asked for in part. -/
theorem readSize_lt_of_just_above {k : ℕ} (hwidth : chunker.chunkSize ≤ 2 ^ host.usizeBits)
    (hlow : 2 ^ host.usizeBits ≤ chunker.fileSize - k * chunker.chunkSize)
    (hhigh : chunker.fileSize - k * chunker.chunkSize <
      2 ^ host.usizeBits + chunker.chunkSize) :
    readSize host chunker k <
      min (chunker.fileSize - k * chunker.chunkSize) chunker.chunkSize := by
  have hmod : (chunker.fileSize - k * chunker.chunkSize) % 2 ^ host.usizeBits =
      chunker.fileSize - k * chunker.chunkSize - 2 ^ host.usizeBits := by
    rw [Nat.mod_eq_sub_mod hlow, Nat.mod_eq_of_lt]
    omega
  rw [readSize, hmod]
  omega

/-- The first slots of a file are its first bytes. -/
theorem flatMap_slot (file : Bytes) (chunkSize n : ℕ) :
    ((List.range n).flatMap fun k => slot file chunkSize k) = file.take (n * chunkSize) := by
  induction n with
  | zero => simp
  | succ n ih =>
    rw [List.range_succ, List.flatMap_append, ih, Nat.add_one_mul, List.take_add]
    simp [slot]

theorem bytes_map_ok (ks : List ℕ) :
    Channel.bytes (ks.map fun k => .ok (slotChunk host chunker file k)) =
      ks.flatMap fun k => slot file chunker.chunkSize k := by
  rw [Channel.bytes, List.flatMap_map]
  rfl

theorem streamChunks_eq {count : ℕ} (hcount : chunker.chunkCount = some count)
    (startChunk : ℕ) : streamChunks .quiet host chunker file startChunk [] =
      streamOffsets .quiet host chunker file
        (List.range' startChunk (count - startChunk)) [] := by
  rw [streamChunks, hcount, Task.ofChecked_some, Task.pure_bind_run]

section Opened
variable {path : Path} {fileIndex chunkSize : UInt32} {startChunk count : ℕ}

namespace Opened

theorem readChunk_of_streams (hopened : Opened chunker file chunkSize count)
    (hexact : StreamsExactly host chunker file startChunk count) {k : ℕ} (hle : startChunk ≤ k)
    (hk : 0 < chunker.fileSize - k * chunker.chunkSize) :
    chunker.readChunk host file k = some (slotChunk host chunker file k) := by
  have hchunks := hexact.chunks
  rw [streamChunks_eq hopened.chunkCount_eq, streamOffsets_eq_map_iff] at hchunks
  have hlt := hopened.lt_count hk
  exact hchunks k (List.mem_range'_1.mpr ⟨hle, by omega⟩)

theorem addressable_of_streams (hopened : Opened chunker file chunkSize count)
    (hbits : 32 ≤ host.usizeBits)
    (hexact : StreamsExactly host chunker file startChunk count) :
    Addressable host chunker startChunk := by
  have hfits : chunker.fileSize - startChunk * chunker.chunkSize < 2 ^ host.usizeBits := by
    by_contra hlarge
    obtain ⟨k, hle, hlow, hhigh⟩ :=
      exists_just_above hopened.chunkSize_pos (not_lt.mp hlarge)
    have hpos : 0 < 2 ^ host.usizeBits := Nat.two_pow_pos _
    have hwidth : 2 ^ 32 ≤ 2 ^ host.usizeBits := Nat.pow_le_pow_right two_pos hbits
    have hchunk := hopened.chunkSize_lt
    have hshort := readSize_lt_of_just_above (by omega) hlow hhigh
    have hread := hopened.readChunk_of_streams hexact hle (by omega)
    have hwhole := (readSize_of_readChunk hopened.fileSize_eq hread).1
    omega
  refine ⟨hfits, ?_⟩
  by_cases hrest : 0 < chunker.fileSize - startChunk * chunker.chunkSize
  · have hread := hopened.readChunk_of_streams hexact le_rfl hrest
    obtain ⟨hwhole, hroom⟩ := readSize_of_readChunk hopened.fileSize_eq hread
    rwa [hwhole]
  · have hpos : 0 < 2 ^ (host.usizeBits - 1) := Nat.two_pow_pos _
    omega

theorem streams_of_addressable (hopened : Opened chunker file chunkSize count)
    (haddressable : Addressable host chunker startChunk) :
    StreamsExactly host chunker file startChunk count := by
  have hchunks : streamChunks .quiet host chunker file startChunk [] =
      (.ok (), (List.range' startChunk (count - startChunk)).map fun k =>
        .ok (slotChunk host chunker file k)) := by
    rw [streamChunks_eq hopened.chunkCount_eq, streamOffsets_eq_map_iff]
    intro k hk
    obtain ⟨hle, hlt⟩ := List.mem_range'_1.mp hk
    obtain ⟨hfits, hroom⟩ := haddressable.of_le hle
    exact readChunk_of_fits hopened.fileSize_eq (hopened.mul_lt (by omega)) hfits hroom
  refine ⟨hchunks, fun hstart => ?_⟩
  rw [hchunks, bytes_map_ok, hstart, Nat.sub_zero, ← List.range_eq_range', flatMap_slot]
  apply List.take_of_length_le
  have hlast := hopened.lt_count.mt (lt_irrefl count)
  have hfile := hopened.fileSize_eq
  omega

end Opened

/-- A stream from an offset on is exact when what remains there fits `usize`. -/
theorem streamsExactly_iff (hsize : file.length < 2 ^ 64) (hchunk : 1 ≤ chunkSize.toNat)
    (hbits : host.usizeBits = 32 ∨ host.usizeBits = 64)
    (hopen : FileChunker.open path (some file) fileIndex chunkSize.toNat = .ok chunker)
    (hcount : chunker.chunkCount = some count) (startChunk : ℕ) :
    StreamsExactly host chunker file startChunk count ↔ Addressable host chunker startChunk := by
  have hopened := Opened.of_open hsize hchunk hopen hcount
  exact ⟨hopened.addressable_of_streams (by omega), hopened.streams_of_addressable⟩

end Opened

/-- A reader with 32 bits that gets one byte at a time. -/
def narrowReader : ReadHost := ⟨32, fun _ => 1, fun _ => default⟩

theorem streamsExactly_iff_small :
    StreamsExactly narrowReader ⟨⟨true, [.normal ['f']], false⟩, 0, 2, 3⟩ [1, 2, 3] 0 2 := by
  have hsize : ([1, 2, 3] : Bytes).length < 2 ^ 64 := by decide
  have hchunk : 1 ≤ (2 : UInt32).toNat := by decide
  have hopen : FileChunker.open ⟨true, [.normal ['f']], false⟩ (some [1, 2, 3]) 0
      (2 : UInt32).toNat = .ok ⟨⟨true, [.normal ['f']], false⟩, 0, 2, 3⟩ := rfl
  have hcount : FileChunker.chunkCount ⟨⟨true, [.normal ['f']], false⟩, 0, 2, 3⟩ = some 2 :=
    count_eq_some.mpr ⟨by decide, by decide⟩
  exact (streamsExactly_iff hsize hchunk (Or.inl rfl) hopen hcount 0).mpr ⟨by decide, by decide⟩

/-- A file of 4 GiB is streamed on 32 bits with an empty first chunk. -/
theorem not_streamsExactly : ¬∀ (host : ReadHost) (path : Path) (file : Bytes)
    (fileIndex chunkSize : UInt32) (chunker : FileChunker) (count startChunk : ℕ),
    file.length < 2 ^ 64 → 1 ≤ chunkSize.toNat →
    (host.usizeBits = 32 ∨ host.usizeBits = 64) →
    FileChunker.open path (some file) fileIndex chunkSize.toNat = .ok chunker →
    chunker.chunkCount = some count → StreamsExactly host chunker file startChunk count := by
  intro h
  have hlength : (List.replicate (2 ^ 32) 0 : Bytes).length = 2 ^ 32 := List.length_replicate
  have hsize : (List.replicate (2 ^ 32) 0 : Bytes).length < 2 ^ 64 := by
    rw [hlength]
    decide
  have hchunk : 1 ≤ (262144 : UInt32).toNat := by decide
  have hopen : FileChunker.open ⟨true, [.normal ['f']], false⟩ (some (List.replicate (2 ^ 32) 0)) 0
      (262144 : UInt32).toNat = .ok ⟨⟨true, [.normal ['f']], false⟩, 0, 262144, 2 ^ 32⟩ := by
    rw [FileChunker.open, hlength]
    rfl
  have hcount : FileChunker.chunkCount ⟨⟨true, [.normal ['f']], false⟩, 0, 262144, 2 ^ 32⟩ =
      some (chunksOf (2 ^ 32) 262144) := count_eq_some.mpr ⟨by decide, rfl⟩
  have hexact := h narrowReader _ _ _ _ _ _ 0 hsize hchunk (Or.inl rfl) hopen hcount
  have haddressable :=
    (Opened.of_open hsize hchunk hopen hcount).addressable_of_streams le_rfl hexact
  exact absurd haddressable.1 (by decide)

end FileChunker
end JustDrop

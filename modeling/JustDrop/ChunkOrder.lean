import JustDrop.Geometry

/-!
# Chunks in any order

A reader and a writer with one chunk size. Chunks are read and written one by one, in
any order and some of them more than once. What is missing is what has not come yet,
and when nothing is missing the temporary file is the source, whatever it held before.
-/
namespace JustDrop
open ByteImage

/-- Read the chunks at some offsets, and write each of them at its place. -/
def copyChunks (sender : ReadHost) (receiver : Host) (chunker : FileChunker) (file : Bytes) :
    ChunkWriter → List ℕ → Task Disk StorageError ChunkWriter
  | writer, [] => pure writer
  | writer, k :: ks => do
    let chunk ← Task.ofChecked (chunker.readChunk sender file k)
    let written ← writer.writeChunk receiver k chunk.data
    copyChunks sender receiver chunker file written.2 ks

/-- What the receiver has after some offsets out of `count`. -/
structure Assembled (receiver : Host) (file : Bytes) (count : ℕ) (ks : List ℕ)
    (writer : ChunkWriter) (disk : Disk) : Prop where
  ascending : writer.missingChunks.Pairwise (· < ·)
  missing : ∀ k, k ∈ writer.missingChunks ↔ k < count ∧ k ∉ ks
  complete : writer.isComplete = true ↔ ∀ k < count, k ∈ ks
  rebuilt : (∀ k < count, k ∈ ks) →
    disk.lookup (receiver.locate writer.tempPath) = some (.file file)

/-- The chunks of a file, in any order that leaves none out, rebuild it over any image
of its length. -/
theorem writeSlots_of_all {file image : Bytes} {chunkSize : ℕ} {ks : List ℕ}
    (hchunk : chunkSize ≠ 0) (hlength : image.length = file.length)
    (hall : ∀ k, k ∈ ks ↔ k < chunksOf file.length chunkSize) :
    writeSlots file chunkSize image ks = file := by
  by_cases hsize : file.length = 0
  · obtain rfl := List.eq_nil_of_length_eq_zero hsize
    obtain rfl := List.eq_nil_of_length_eq_zero hlength
    clear hall
    induction ks with
    | nil => rfl
    | cons k ks ih => simpa [writeSlots_cons, slot] using ih
  · apply writeSlots_complete (Nat.pos_of_ne_zero hchunk) hlength
    intro k
    rw [hall, lt_chunksOf_iff hsize hchunk]

/-- Without faults every chunk is read and written. -/
theorem copyChunks_of_calm {sender : ReadHost} (hbits : sender.usizeBits = 64)
    (receiver : Host) {chunker : FileChunker} {file : Bytes}
    (hfile : file.length = chunker.fileSize) (hsize : chunker.fileSize < 2 ^ 64)
    (hroom : chunker.chunkSize < 2 ^ 63) (ks : List ℕ) {writer : ChunkWriter} {bytes : Bytes}
    {d : Disk} (hcalm : d.Calm) (hchunk : writer.chunkSize = chunker.chunkSize)
    (hlt : ∀ k ∈ ks, k < writer.totalChunks)
    (hmul : ∀ k ∈ ks, k * chunker.chunkSize < 2 ^ 64)
    (htemp : d.lookup (receiver.locate writer.tempPath) = some (.file bytes)) :
    ∃ d', copyChunks sender receiver chunker file writer ks d = (.ok { writer with
        completedChunks := writer.completedChunks ∪ ks.toFinset }, d') ∧
      d'.lookup (receiver.locate writer.tempPath) =
        some (.file (writeSlots file chunker.chunkSize bytes ks)) := by
  induction ks generalizing writer bytes d with
  | nil => exact ⟨d, by simp [copyChunks], htemp⟩
  | cons k ks ih =>
    rw [List.forall_mem_cons] at hlt hmul
    have hread := FileChunker.readChunk_eq hbits hfile hsize hroom hmul.1
    obtain ⟨d₁, hwrite, hcalm₁, htemp₁⟩ := ChunkWriter.writeChunk_of_calm
      (slot file chunker.chunkSize k) hcalm hlt.1 (by rw [hchunk]; exact hmul.1) htemp
    rw [hchunk] at htemp₁
    obtain ⟨d', hrest, hlast⟩ := @ih { writer with
      completedChunks := insert k writer.completedChunks } _ _ hcalm₁ hchunk hlt.2 hmul.2 htemp₁
    refine ⟨d', ?_, hlast⟩
    rw [copyChunks, hread, Task.ofChecked_some, Task.pure_bind_run, Task.bind_of_ok hwrite, hrest]
    simp only [List.toFinset_cons, Finset.insert_union, Finset.union_insert]

/-- A writer that has written some offsets in range. -/
theorem assembled_of_completed {receiver : Host} {file : Bytes} {writer : ChunkWriter}
    {disk : Disk} {count : ℕ} {ks : List ℕ} (htotal : writer.totalChunks = count)
    (hks : ∀ k ∈ ks, k < count) (hcompleted : writer.completedChunks = ks.toFinset)
    (hrebuilt : (∀ k < count, k ∈ ks) →
      disk.lookup (receiver.locate writer.tempPath) = some (.file file)) :
    Assembled receiver file count ks writer disk where
  ascending := List.pairwise_lt_range.filter _
  missing k := by rw [ChunkWriter.mem_missingChunks, htotal, hcompleted, List.mem_toFinset]
  complete := by
    have hrange : writer.completedChunks ⊆ Finset.range writer.totalChunks := by
      intro k hk
      rw [hcompleted, List.mem_toFinset] at hk
      rw [htotal, Finset.mem_range]
      exact hks k hk
    rw [ChunkWriter.isComplete_iff_forall hrange, htotal, hcompleted]
    simp only [List.mem_toFinset]
  rebuilt := hrebuilt

/-- A reader of 64 bits and a writer with the same chunk size: chunks at any offsets
below the count are all read and written. -/
theorem exists_assembled {sender : ReadHost} (hbits : sender.usizeBits = 64) {receiver : Host}
    {path dest : Path} {file : Bytes} (hsize : file.length < 2 ^ 64) {fileIndex : UInt32}
    {chunkSize : UInt32} (hchunk : 1 ≤ chunkSize.toNat) {chunker : FileChunker}
    (hopen : FileChunker.open path (some file) fileIndex chunkSize.toNat = .ok chunker)
    {count : ℕ} (hcount : chunker.chunkCount = some count) {transferId : TransferId}
    {writer : ChunkWriter} {d d₀ : Disk} (hcalm : d.Calm)
    (hnew : ChunkWriter.new receiver transferId fileIndex dest chunkSize.toNat file.length d =
      (.ok writer, d₀)) {ks : List ℕ} (hks : ∀ k ∈ ks, k < count) :
    ∃ writer' disk, copyChunks sender receiver chunker file writer ks d₀ = (.ok writer', disk) ∧
      Assembled receiver file count ks writer' disk := by
  have hopened := FileChunker.Opened.of_open hsize hchunk hopen hcount
  have hfile := hopened.fileSize_eq
  have hbase := hopened.chunkSize_eq
  have hcalm₀ := ChunkWriter.calm_of_new hcalm hnew
  obtain ⟨hwriter, -, htemp, -⟩ := ChunkWriter.new_eq_ok hnew
  have htotal : writer.totalChunks = count := by
    rw [hwriter, hopened.count_eq, ← hfile, ← hbase]
    rfl
  have hwidth : writer.chunkSize = chunker.chunkSize := by
    rw [hwriter, ← hbase]
    rfl
  have hbytes : d₀.lookup (receiver.locate writer.tempPath) = some (.file (resize
      (d.contents (receiver.locate (ChunkWriter.tempOf dest))) file.length)) := by
    rw [hwriter]
    exact htemp
  obtain ⟨disk, hrun, hlast⟩ := copyChunks_of_calm hbits receiver hfile hopened.fileSize_lt
    (lt_trans hopened.chunkSize_lt (by decide)) ks hcalm₀ hwidth
    (fun k hk => htotal ▸ hks k hk) (fun k hk => hopened.mul_lt (hks k hk)) hbytes
  refine ⟨_, disk, hrun, assembled_of_completed htotal hks ?_ fun hall => ?_⟩
  · rw [hwriter]
    exact Finset.empty_union _
  · rw [hopened.count_eq, ← hfile] at hks hall
    rw [hlast, writeSlots_of_all hopened.chunkSize_pos.ne' (length_resize _ _) fun k =>
      ⟨hks k, hall k⟩]

/-- A reader that gets one byte at a time. -/
def slowReader : ReadHost := ⟨64, fun _ => 1, fun _ => default⟩

/-- The last chunk of three bytes comes first and comes twice, over a longer file. -/
theorem exists_assembled_swapped : ∃ receiver writer d₀ writer' disk,
    copyChunks slowReader receiver ⟨⟨true, [.normal ['f']], false⟩, 0, 2, 3⟩ [1, 2, 3] writer
      [1, 0, 1] d₀ = (.ok writer', disk) ∧
    Assembled receiver [1, 2, 3] 2 [1, 0, 1] writer' disk ∧ writer'.isComplete = true := by
  let receiver := Host.withLongIds [] fun _ => default
  let path : Path := ⟨true, [.normal ['f']], false⟩
  let d := Disk.set (receiver.locate (ChunkWriter.tempOf path)) (.file [9, 9, 9, 9, 9]) ⟨∅, [], []⟩
  have hdivisible : Divisible ([1, 2, 3] : Bytes).length (2 : UInt32).toNat := by decide
  have hcalm : d.Calm := rfl
  have hname : (ChunkWriter.tempOf path).dirOnly = false := by decide
  obtain ⟨d₀, hnew, -⟩ := ChunkWriter.new_of_calm receiver default 0 path hcalm
    (by simp [path, Path.parent, Path.above, Path.ancestors]) hname
    (by simp [d, Disk.lookup_set]) hdivisible
  have hbits : slowReader.usizeBits = 64 := rfl
  have hsize : ([1, 2, 3] : Bytes).length < 2 ^ 64 := by decide
  have hopen : FileChunker.open path (some [1, 2, 3]) 0 (2 : UInt32).toNat =
      .ok ⟨path, 0, 2, 3⟩ := rfl
  have hcount : FileChunker.chunkCount ⟨path, 0, 2, 3⟩ = some 2 :=
    count_eq_some.mpr ⟨by decide, by decide⟩
  have hks : ∀ k ∈ [1, 0, 1], k < 2 := by decide
  obtain ⟨writer', disk, hrun, hassembled⟩ :=
    exists_assembled hbits hsize (by decide) hopen hcount hcalm hnew hks
  exact ⟨receiver, _, d₀, writer', disk, hrun, hassembled, hassembled.complete.mpr (by decide)⟩
end JustDrop

import JustDrop.Chunker
import JustDrop.Config
import JustDrop.Writer

/-!
# The chunks of the sender at the writer of the receiver

The sender cuts a file with its effective chunk size, the receiver places the
chunks with the chunk size of the manifest. The two agree for every content
exactly when the two sizes are one.
-/
namespace JustDrop
open ByteImage

/-- The chunks of a file in the order in which they are sent. -/
def sentChunks (host : ReadHost) (chunker : FileChunker) (file : Bytes) :
    Option (List ReadChunk) := do
  let count ← chunker.chunkCount
  (List.range count).mapM (chunker.readChunk host file)

/-- Each chunk goes through `write_chunk` with the offset it was sent under. -/
def writeChunks (host : Host) : ChunkWriter → List ReadChunk → Task Disk StorageError ChunkWriter
  | writer, [] => pure writer
  | writer, chunk :: chunks => do
    let written ← writer.writeChunk host chunk.id.chunkOffset.toNat chunk.data
    writeChunks host written.2 chunks

/-- For every content of `size` bytes: all chunks are written, the writer is
complete, its temporary file is the source and the counts agree. -/
def GeometryAgrees (size : UInt64) (base : UInt32) : Prop :=
  ∀ (sender : ReadHost) (receiver : Host) (path dest : Path) (file : Bytes) (entry : FileEntry)
    (transferId : TransferId) (d d₀ : Disk) (writer : ChunkWriter),
    sender.usizeBits = 64 → file.length = size.toNat → entry.size = size → d.Calm →
    ChunkWriter.new receiver transferId entry.index dest base.toNat size.toNat d =
      (.ok writer, d₀) →
    ∃ chunker chunks writer' d',
      FileChunker.open path (some file) entry.index
        (effectiveChunkSize size.toNat base.toNat) = .ok chunker ∧
      sentChunks sender chunker file = some chunks ∧
      writeChunks receiver writer chunks d₀ = (.ok writer', d') ∧
      writer'.isComplete = true ∧
      d'.lookup (receiver.locate writer.tempPath) = some (.file file) ∧
      entry.chunkCount base.toNat = some chunks.length

/-! ### The sender's list -/

theorem mapM_eq_some_map {α β : Type} {f : α → Option β} {g : α → β} {xs : List α}
    (h : ∀ x ∈ xs, f x = some (g x)) : xs.mapM f = some (xs.map g) := by
  induction xs with
  | nil => rfl
  | cons x xs ih =>
    rw [List.mapM_cons, h x (by simp), ih fun y hy => h y (by simp [hy])]
    rfl

theorem mapM_eq_some_map_iff {α β : Type} {f : α → Option β} {g : α → β} {xs : List α} :
    xs.mapM f = some (xs.map g) ↔ ∀ x ∈ xs, f x = some (g x) := by
  constructor
  · intro h
    induction xs with
    | nil => exact fun x hx => absurd hx List.not_mem_nil
    | cons x xs ih =>
      simp only [List.mapM_cons, List.map_cons, Option.bind_eq_bind,
        Option.bind_eq_some_iff] at h
      obtain ⟨y, hy, ys, hys, hcons⟩ := h
      obtain ⟨rfl, rfl⟩ := List.cons.inj (Option.some.inj hcons)
      exact List.forall_mem_cons.mpr ⟨hy, ih hys⟩
  · exact mapM_eq_some_map

/-- The chunk that `read_chunk` returns on a 64-bit host. -/
def slotChunk (host : ReadHost) (chunker : FileChunker) (file : Bytes) (k : ℕ) : ReadChunk where
  id := { fileIndex := chunker.fileIndex, chunkOffset := UInt64.ofNat k }
  data := slot file chunker.chunkSize k
  sha256 := host.sha256 (slot file chunker.chunkSize k)

theorem sentChunks_eq {host : ReadHost} (hbits : host.usizeBits = 64) {chunker : FileChunker}
    {file : Bytes} (hfile : file.length = chunker.fileSize) (hsize : chunker.fileSize < 2 ^ 64)
    (hroom : chunker.chunkSize < 2 ^ 63) (hc : chunker.chunkSize ≠ 0) :
    sentChunks host chunker file =
      some ((List.range (chunksOf chunker.fileSize chunker.chunkSize)).map
        (slotChunk host chunker file)) := by
  have hcount : chunker.chunkCount = some (chunksOf chunker.fileSize chunker.chunkSize) :=
    count_eq_some.mpr ⟨Or.inr hc, rfl⟩
  rw [sentChunks, hcount]
  refine mapM_eq_some_map fun k hk => ?_
  exact FileChunker.readChunk_eq hbits hfile hsize hroom
    (mul_lt_of_lt_chunksOf hsize (List.mem_range.mp hk))

theorem toNat_slotChunk (host : ReadHost) (chunker : FileChunker) (file : Bytes) {k : ℕ}
    (hk : k < 2 ^ 64) : (slotChunk host chunker file k).id.chunkOffset.toNat = k := by
  simpa [slotChunk] using Nat.mod_eq_of_lt hk

/-- What is known of a chunker that was opened on a file. -/
structure FileChunker.Opened (chunker : FileChunker) (file : Bytes) (chunkSize : UInt32)
    (count : ℕ) : Prop where
  fileSize_eq : file.length = chunker.fileSize
  fileSize_lt : chunker.fileSize < 2 ^ 64
  chunkSize_eq : chunkSize.toNat = chunker.chunkSize
  chunkSize_pos : 0 < chunker.chunkSize
  chunkCount_eq : chunker.chunkCount = some count

namespace FileChunker.Opened
variable {chunker : FileChunker} {file : Bytes} {chunkSize : UInt32} {count : ℕ}

theorem of_open {path : Path} {fileIndex : UInt32} (hsize : file.length < 2 ^ 64)
    (hchunk : 1 ≤ chunkSize.toNat)
    (hopen : FileChunker.open path (some file) fileIndex chunkSize.toNat = .ok chunker)
    (hcount : chunker.chunkCount = some count) : Opened chunker file chunkSize count := by
  obtain rfl : ⟨path, fileIndex, chunkSize.toNat, file.length⟩ = chunker := Except.ok.inj hopen
  exact ⟨rfl, hsize, rfl, hchunk, hcount⟩

theorem chunkSize_lt (hopened : Opened chunker file chunkSize count) :
    chunker.chunkSize < 2 ^ 32 := by
  rw [← hopened.chunkSize_eq]
  exact chunkSize.toNat_lt

theorem count_eq (hopened : Opened chunker file chunkSize count) :
    count = chunksOf chunker.fileSize chunker.chunkSize :=
  (count_eq_some.mp hopened.chunkCount_eq).2

/-- An offset below the count starts below the 64 bits of a position. -/
theorem mul_lt (hopened : Opened chunker file chunkSize count) {k : ℕ} (hk : k < count) :
    k * chunker.chunkSize < 2 ^ 64 := by
  rw [hopened.count_eq] at hk
  exact mul_lt_of_lt_chunksOf hopened.fileSize_lt hk

/-- An offset with a byte of the file behind it is below the count. -/
theorem lt_count (hopened : Opened chunker file chunkSize count) {k : ℕ}
    (hk : 0 < chunker.fileSize - k * chunker.chunkSize) : k < count := by
  have hpos := hopened.chunkSize_pos
  rw [hopened.count_eq, lt_chunksOf_iff (by omega) (by omega)]
  omega

end FileChunker.Opened

/-! ### The receiver's run -/

theorem ChunkWriter.calm_of_new {host : Host} {transferId : TransferId} {fileIndex : UInt32}
    {destPath : Path} {chunkSize fileSize : ℕ} {writer : ChunkWriter} {d d' : Disk}
    (hcalm : d.Calm)
    (hnew : new host transferId fileIndex destPath chunkSize fileSize d = (.ok writer, d')) :
    d'.Calm := by
  have hkeeps : Task.Keeps Disk.Calm
      (new host transferId fileIndex destPath chunkSize fileSize) :=
    keeps_new (keeps_createParent fun _ _ _ _ => Or.inl (Disk.stableAt_calm _))
      (Disk.stableAt_calm _)
  have hafter := hkeeps d hcalm
  rwa [hnew] at hafter

theorem writeChunks_of_calm {host : Host} (chunks : List ReadChunk) {writer : ChunkWriter}
    {bytes : Bytes} {d : Disk} (hcalm : d.Calm)
    (hlt : ∀ c ∈ chunks, c.id.chunkOffset.toNat < writer.totalChunks)
    (hmul : ∀ c ∈ chunks, c.id.chunkOffset.toNat * writer.chunkSize < 2 ^ 64)
    (htemp : d.lookup (host.locate writer.tempPath) = some (.file bytes)) :
    ∃ d', writeChunks host writer chunks d = (.ok { writer with
        completedChunks := writer.completedChunks ∪
          (chunks.map fun c => c.id.chunkOffset.toNat).toFinset }, d') ∧
      d'.lookup (host.locate writer.tempPath) = some (.file (applyWrites bytes
        (chunks.map fun c => (c.id.chunkOffset.toNat * writer.chunkSize, c.data)))) := by
  induction chunks generalizing writer bytes d with
  | nil => exact ⟨d, by simp [writeChunks], by simpa using htemp⟩
  | cons c cs ih =>
    obtain ⟨d₁, h₁, hcalm₁, htemp₁⟩ := ChunkWriter.writeChunk_of_calm c.data hcalm
      (hlt c (by simp)) (hmul c (by simp)) htemp
    obtain ⟨d', h', htemp'⟩ := @ih { writer with
        completedChunks := insert c.id.chunkOffset.toNat writer.completedChunks } _ _ hcalm₁
      (fun x hx => hlt x (by simp [hx])) (fun x hx => hmul x (by simp [hx])) htemp₁
    refine ⟨d', ?_, htemp'⟩
    rw [writeChunks, Task.bind_of_ok h₁, h']
    simp [Finset.insert_union, Finset.union_insert]

/-- What the receiver holds after the chunks cut with `chunker.chunkSize`. -/
theorem writeChunks_slots (sender : ReadHost) (receiver : Host) (chunker : FileChunker)
    (file : Bytes) {bytes : Bytes} (writer : ChunkWriter) {d : Disk} (hcalm : d.Calm)
    (hsize : writer.fileSize < 2 ^ 64)
    (htotal : writer.totalChunks = chunksOf writer.fileSize writer.chunkSize)
    (hempty : writer.completedChunks = ∅) {count : ℕ} (hcount : count ≤ writer.totalChunks)
    (htemp : d.lookup (receiver.locate writer.tempPath) = some (.file bytes)) :
    ∃ d', writeChunks receiver writer ((List.range count).map (slotChunk sender chunker file)) d =
        (.ok { writer with completedChunks := Finset.range count }, d') ∧
      d'.lookup (receiver.locate writer.tempPath) = some (.file (applyWrites bytes
        ((List.range count).map fun k =>
          (k * writer.chunkSize, slot file chunker.chunkSize k)))) := by
  have hbound : ∀ k < count, k < 2 ^ 64 := by
    intro k hk
    have := chunksOf_le writer.fileSize writer.chunkSize
    omega
  have hid : ∀ k ∈ List.range count,
      (slotChunk sender chunker file k).id.chunkOffset.toNat = k := fun k hk =>
    toNat_slotChunk _ _ _ (hbound k (List.mem_range.mp hk))
  obtain ⟨d', hrun, htemp'⟩ := writeChunks_of_calm
    ((List.range count).map (slotChunk sender chunker file)) hcalm
    (by
      simp only [List.forall_mem_map]
      intro k hk
      rw [hid k hk]
      exact lt_of_lt_of_le (List.mem_range.mp hk) hcount)
    (by
      simp only [List.forall_mem_map]
      intro k hk
      rw [hid k hk]
      exact mul_lt_of_lt_chunksOf hsize
        (htotal ▸ lt_of_lt_of_le (List.mem_range.mp hk) hcount)) htemp
  refine ⟨d', ?_, ?_⟩
  · have hoffsets : ((List.range count).map (slotChunk sender chunker file)).map
        (fun c => c.id.chunkOffset.toNat) = List.range count := by
      rw [List.map_map]
      exact (List.map_congr_left hid).trans (List.map_id _)
    have hset : (List.range count).toFinset = Finset.range count := by
      ext k
      simp
    rw [hrun, hempty, Finset.empty_union, hoffsets, hset]
  · rw [htemp', List.map_map]
    congr 3
    refine List.map_congr_left fun k hk => ?_
    rw [Function.comp_apply, hid k hk]
    rfl

/-! ### Agreement -/

theorem effectiveChunkSize_ne_zero {size base : ℕ} (h : base ≠ 0) :
    effectiveChunkSize size base ≠ 0 := by
  unfold effectiveChunkSize
  split_ifs <;> omega

theorem effectiveChunkSize_lt {size base : ℕ} (hbase : base < 2 ^ 32) :
    effectiveChunkSize size base < 2 ^ 63 := by
  unfold effectiveChunkSize
  split_ifs <;> omega

/-- Up to the threshold, and at the cap, the sender uses the base size. -/
theorem effectiveChunkSize_eq_base_iff {size base : ℕ} (hbase : base < 2 ^ 32) (h0 : base ≠ 0) :
    effectiveChunkSize size base = base ↔
      size ≤ LARGE_FILE_THRESHOLD ∨ base = 4 * 1024 * 1024 := by
  unfold effectiveChunkSize
  split_ifs <;> omega

/-- Equal chunk sizes rebuild the file. -/
theorem geometryAgrees_of_eq {size : UInt64} {base : UInt32} (h0 : base.toNat ≠ 0)
    (heff : effectiveChunkSize size.toNat base.toNat = base.toNat) : GeometryAgrees size base := by
  intro sender receiver path dest file entry transferId d d₀ writer hbits hfile hentry hcalm hnew
  have hsize : size.toNat < 2 ^ 64 := size.toNat_lt
  have hroom : base.toNat < 2 ^ 63 := lt_trans base.toNat_lt (by decide)
  have hcalm₀ : d₀.Calm := ChunkWriter.calm_of_new hcalm hnew
  obtain ⟨rfl, -, htemp, -⟩ := ChunkWriter.new_eq_ok hnew
  have hopen : FileChunker.open path (some file) entry.index
      (effectiveChunkSize size.toNat base.toNat) =
        .ok { path, fileIndex := entry.index, chunkSize := base.toNat,
              fileSize := size.toNat } := by
    simp [FileChunker.open, heff, hfile]
  obtain ⟨d', hrun, htemp'⟩ := writeChunks_slots sender receiver
    ⟨path, entry.index, base.toNat, size.toNat⟩ file
    (ChunkWriter.fresh transferId entry.index dest base.toNat size.toNat)
    hcalm₀ hsize rfl rfl (le_refl _) htemp
  refine ⟨_, _, _, d', hopen, sentChunks_eq hbits hfile hsize hroom h0, hrun, ?_, ?_, ?_⟩
  · simp [ChunkWriter.isComplete, ChunkWriter.fresh]
  · refine htemp'.trans ?_
    have hlength : (resize (d.contents (receiver.locate (ChunkWriter.tempOf dest)))
        size.toNat).length = file.length := by rw [length_resize, hfile]
    have hrebuilt := writeSlots_chunks (Or.inr h0 : Divisible file.length base.toNat) hlength
    rw [hfile] at hrebuilt
    exact congrArg (fun bytes => some (Node.file bytes)) hrebuilt
  · rw [List.length_map, List.length_range]
    exact FileEntry.chunkCount_eq_some.mpr ⟨Or.inr h0, by rw [hentry]⟩

/-- Two chunk sizes with the same count put the second chunk in the wrong place. -/
theorem applyWrites_shifted_getElem? (file image : Bytes) (n : ℕ) {base eff : ℕ} (hbase : 0 < base)
    (hlen : base < image.length) (heff : 0 < eff) (hfile : eff < file.length) :
    (applyWrites image ((List.range (n + 2)).map fun k => (k * base, slot file eff k)))[base]? =
      file[eff]? := by
  have hsplit : (List.range (n + 2)).map (fun k => (k * base, slot file eff k)) =
      (0, slot file eff 0) :: (base, slot file eff 1) ::
        (List.range n).map fun k => ((k + 2) * base, slot file eff (k + 2)) := by
    rw [List.range_succ_eq_map, List.range_succ_eq_map]
    simp [Function.comp_def, Nat.succ_eq_add_one, add_assoc]
  have hlen₁ := length_le_writeAt image 0 (slot file eff 0)
  have hlen₂ := length_le_writeAt (writeAt image 0 (slot file eff 0)) base (slot file eff 1)
  have hbehind : ∀ w ∈ (List.range n).map (fun k => ((k + 2) * base, slot file eff (k + 2))),
      base < w.1 := by
    simp only [List.forall_mem_map]
    intro k _
    have : 2 * base ≤ (k + 2) * base := Nat.mul_le_mul_right _ (by omega)
    omega
  rw [hsplit]
  simp only [applyWrites_cons]
  rw [applyWrites_getElem?_of_lt (by omega) hbehind, writeAt_getElem? (by omega),
    if_pos (by rw [length_slot]; omega), Nat.sub_self, slot_getElem? heff]
  simp

/-- Different chunk sizes lose a file of more than one chunk. -/
theorem eq_of_geometryAgrees {size : UInt64} {base : UInt32} (h0 : base.toNat ≠ 0)
    (heffbig : effectiveChunkSize size.toNat base.toNat < size.toNat)
    (h : GeometryAgrees size base) : effectiveChunkSize size.toNat base.toNat = base.toNat := by
  by_contra hne
  set eff := effectiveChunkSize size.toNat base.toNat with heff
  have heff0 : eff ≠ 0 := effectiveChunkSize_ne_zero h0
  have hsize : size.toNat < 2 ^ 64 := size.toNat_lt
  -- the source is zero but for one byte at the start of the second chunk sent
  let file : Bytes := (List.replicate size.toNat 0).set eff 1
  have hfile : file.length = size.toNat := by simp [file]
  let receiver := Host.withLongIds [] fun _ => default
  let dest : Path := ⟨true, [.normal ['f']], false⟩
  let entry : FileEntry := ⟨0, "", size, default, ""⟩
  have hname : (ChunkWriter.tempOf dest).dirOnly = false := by decide
  obtain ⟨d₀, hnew, hcalm₀⟩ := ChunkWriter.new_of_calm receiver default 0 dest
    (d := ⟨∅, [], []⟩) rfl (by simp [dest, Path.parent, Path.above, Path.ancestors]) hname
    (by simp [Disk.lookup]) (show Divisible size.toNat base.toNat from Or.inr h0)
  obtain ⟨-, -, htemp, -⟩ := ChunkWriter.new_eq_ok hnew
  obtain ⟨chunker, chunks, writer', d', hopen, hchunks, hrun, -, hfinal, hcount⟩ :=
    h ⟨64, id, fun _ => default⟩ receiver dest dest file entry default ⟨∅, [], []⟩ d₀ _
      rfl hfile rfl rfl hnew
  obtain rfl : chunker = ⟨dest, 0, eff, size.toNat⟩ := by
    simpa [FileChunker.open, hfile, entry, eq_comm] using hopen
  rw [sentChunks_eq rfl hfile hsize (effectiveChunkSize_lt base.toNat_lt) heff0] at hchunks
  obtain rfl := Option.some.inj hchunks
  have hlen : chunksOf size.toNat eff = chunksOf size.toNat base.toNat := by
    simpa using (FileEntry.chunkCount_eq_some.mp hcount).2
  obtain ⟨d'', hrun', htemp'⟩ := writeChunks_slots ⟨64, id, fun _ => default⟩
    receiver ⟨dest, 0, eff, size.toNat⟩ file
    (ChunkWriter.fresh default 0 dest base.toNat size.toNat)
    hcalm₀ hsize rfl rfl (le_of_eq hlen) htemp
  rw [hrun'] at hrun
  obtain rfl := (Prod.mk.inj hrun).2
  rw [htemp'] at hfinal
  have htwo : 1 < chunksOf size.toNat eff := (lt_chunksOf_iff (by omega) heff0).mpr (by omega)
  obtain ⟨n, hn⟩ : ∃ n, chunksOf size.toNat eff = n + 2 :=
    ⟨chunksOf size.toNat eff - 2, by omega⟩
  have hbig : base.toNat < size.toNat := by
    have hstart := (lt_chunksOf_iff (by omega) h0).mp (hlen ▸ htwo)
    rwa [Nat.one_mul] at hstart
  have himage := applyWrites_shifted_getElem? file
    (resize (Disk.contents ⟨∅, [], []⟩ (receiver.locate (ChunkWriter.tempOf dest))) size.toNat) n
    (Nat.pos_of_ne_zero h0) (by simpa using hbig) (Nat.pos_of_ne_zero heff0) (by omega)
  have hsame : file[base.toNat]? = file[eff]? := by
    rw [← himage, ← hn]
    congr 1
    exact (Node.file.inj (Option.some.inj hfinal)).symm
  have hnew : file[eff]? = some 1 := by simp [file, heffbig]
  have hold : file[base.toNat]? = some 0 := by
    simp [file, hne, hbig]
  simp [hnew, hold] at hsame

/-- The geometry of a valid configuration agrees up to the threshold, and beyond
it for the one base size that doubling and capping leave alone. -/
theorem geometryAgrees_iff (config : Config) (hvalid : config.validate = .ok ()) (size : UInt64) :
    GeometryAgrees size config.transfer.chunkSize ↔
      size.toNat ≤ LARGE_FILE_THRESHOLD ∨
        config.transfer.chunkSize.toNat = 4 * 1024 * 1024 := by
  have hmin := Config.le_chunkSize_of_validate hvalid
  have hmax := config.transfer.chunkSize.toNat_lt
  have h0 : config.transfer.chunkSize.toNat ≠ 0 := by omega
  rw [← effectiveChunkSize_eq_base_iff hmax h0]
  refine ⟨fun h => ?_, geometryAgrees_of_eq h0⟩
  by_cases hsmall : size.toNat ≤ LARGE_FILE_THRESHOLD
  · exact (effectiveChunkSize_eq_base_iff hmax h0).mpr (Or.inl hsmall)
  · refine eq_of_geometryAgrees h0 ?_ h
    unfold effectiveChunkSize LARGE_FILE_THRESHOLD at *
    split_ifs <;> omega

/-- The default configuration agrees on a file of 1 GiB. -/
theorem geometryAgrees_default_gib :
    Config.default.validate = .ok () ∧
      (GeometryAgrees 1073741824 Config.default.transfer.chunkSize ↔
        (1073741824 : UInt64).toNat ≤ LARGE_FILE_THRESHOLD ∨
          Config.default.transfer.chunkSize.toNat = 4 * 1024 * 1024) :=
  ⟨by decide, geometryAgrees_iff Config.default (by decide) 1073741824⟩

/-- The default configuration disagrees on the first size above the threshold. -/
theorem not_geometryAgrees_default_above_gib :
    Config.default.validate = .ok () ∧
      ¬GeometryAgrees 1073741825 Config.default.transfer.chunkSize := by
  refine ⟨by decide, fun h => ?_⟩
  have heq := eq_of_geometryAgrees (by decide) (by decide) h
  exact absurd heq (by decide)

end JustDrop

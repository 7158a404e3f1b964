import JustDrop.ChunkBytes
import JustDrop.Runs
import JustDrop.Writer

/-!
# Histories of a writer

A writer is given chunks with any offset and any data, and sets of offsets from a
resume file. A chunk is checked for its offset only, a set for nothing: a set beyond
the count makes a file count as complete that is not, long data run over the chunks
behind their own, and short data leave a gap that is counted as written.
-/
namespace JustDrop
open ByteImage

structure ChunkWrite where
  chunkOffset : ℕ
  data : Bytes
  deriving DecidableEq, Repr

/-- The calls that change the set of completed chunks. -/
inductive WriterCall where
  | writeChunk (write : ChunkWrite)
  | restoreCompleted (chunks : Finset ℕ)

/-- A writer and the disk it writes to. -/
structure OpenWriter where
  writer : ChunkWriter
  disk : Disk

namespace Disk

/-- Opening changes no node, however it ends. -/
theorem lookup_openExisting (loc l : Loc) (d : Disk) :
    (openExisting loc d).2.lookup l = d.lookup l := by
  have hkeeps : Task.Keeps (fun d' : Disk => d'.lookup l = d.lookup l) (openExisting loc) := by
    refine Task.Keeps.bind (Task.Keeps.modify fun _ h => h) fun _ => ?_
    refine Task.Keeps.bind (keeps_attempt fun _ h => h) fun _ => ?_
    refine Task.Keeps.bind Task.Keeps.get fun d' => ?_
    split
    · exact Task.Keeps.fail _
    · exact Task.Keeps.pure _
    · exact Task.Keeps.fail _
  exact hkeeps d rfl

/-- However a write ends, the first bytes of its block are written. -/
theorem exists_lookup_writeAll (loc : Loc) (offset : ℕ) (block : Bytes) (d : Disk) :
    ∃ n, (writeAll loc offset block d).2.lookup loc =
      some (.file (writeAt (d.contents loc) offset (block.take n))) := by
  simp only [writeAll, Task.modify_bind_run, nextFault_bind_run]
  cases hfault : (d.touch loc).faults.head?.join with
  | none =>
    refine ⟨block.length, ?_⟩
    simp only [Task.modify_run, lookup_set, if_true, List.take_length]
    rfl
  | some n =>
    refine ⟨n, ?_⟩
    simp only [Task.modify_bind_run, Task.fail_run, lookup_set, if_true]
    rfl

end Disk

/-- However a call ends, the temporary file has the first bytes of the data at the place
of the chunk. -/
theorem ChunkWriter.exists_lookup_writeChunk {host : Host} {writer : ChunkWriter}
    {bytes : Bytes} {d : Disk} (chunkOffset : ℕ) (data : Bytes)
    (htemp : d.lookup (host.locate writer.tempPath) = some (.file bytes)) :
    ∃ n, (writer.writeChunk host chunkOffset data d).2.lookup (host.locate writer.tempPath) =
      some (.file (writeAt bytes (chunkOffset * writer.chunkSize) (data.take n))) := by
  let written (d : Disk) : Prop := ∃ n, d.lookup (host.locate writer.tempPath) =
    some (.file (writeAt bytes (chunkOffset * writer.chunkSize) (data.take n)))
  have hkept : ∀ d : Disk, d.lookup (host.locate writer.tempPath) = some (.file bytes) →
      written d := fun d h => ⟨0, by rw [h, List.take_zero, writeAt_nil]⟩
  have hensures : Task.Ensures
      (fun d : Disk => d.lookup (host.locate writer.tempPath) = some (.file bytes))
      (writer.writeChunk host chunkOffset data) (fun _ => written) written := by
    unfold ChunkWriter.writeChunk
    split_ifs
    · exact Task.Ensures.fail _ hkept
    refine Task.Ensures.ofChecked_bind hkept fun byteOffset hmul => ?_
    obtain ⟨-, rfl⟩ := checkedMul_eq_some.mp hmul
    have hopen : Task.Keeps
        (fun d : Disk => d.lookup (host.locate writer.tempPath) = some (.file bytes))
        (Disk.openExisting (host.locate writer.tempPath)) :=
      fun d h => (Disk.lookup_openExisting _ _ d).trans h
    refine Task.Ensures.bind_keeps (Task.Keeps.mapErr _ hopen) hkept fun _ => ?_
    refine Task.Ensures.bind (Task.Ensures.of_snd fun d h => ?_) fun _ =>
      Task.Ensures.pure fun _ h => h
    obtain ⟨n, hwritten⟩ := Disk.exists_lookup_writeAll (host.locate writer.tempPath)
      (chunkOffset * writer.chunkSize) data d
    rw [Disk.contents_eq_of_lookup h] at hwritten
    rw [Task.mapErr_snd]
    exact ⟨n, hwritten⟩
  exact hensures.leaves (fun _ _ h => h) htemp

namespace OpenWriter
variable {host : Host} {s s' : OpenWriter} {w : ChunkWrite}

/-- The temporary file. -/
def temp (host : Host) (s : OpenWriter) : Loc := host.locate s.writer.tempPath

/-- A call that does not return a hash leaves the writer as it was. -/
def write (host : Host) (s : OpenWriter) (w : ChunkWrite) : OpenWriter :=
  match s.writer.writeChunk host w.chunkOffset w.data s.disk with
  | (.ok written, disk) => { writer := written.2, disk }
  | (.err _, disk) => { s with disk }
  | (.panic, disk) => { s with disk }

def apply (host : Host) (s : OpenWriter) : WriterCall → OpenWriter
  | .writeChunk w => s.write host w
  | .restoreCompleted chunks => { s with writer := s.writer.restoreCompleted chunks }

/-- One call of either kind. -/
def Step (host : Host) (s : OpenWriter) (call : WriterCall) (s' : OpenWriter) : Prop :=
  s' = s.apply host call

/-- One chunk. -/
def Writes (host : Host) (s : OpenWriter) (w : ChunkWrite) (s' : OpenWriter) : Prop :=
  s' = s.write host w

/-- The call returns a hash. -/
def Accepts (host : Host) (s : OpenWriter) (w : ChunkWrite) : Prop :=
  ∃ written disk, s.writer.writeChunk host w.chunkOffset w.data s.disk = (.ok written, disk)

theorem Accepts.lt (h : Accepts host s w) : w.chunkOffset < s.writer.totalChunks := by
  obtain ⟨⟨hash, writer⟩, disk, hwritten⟩ := h
  exact (ChunkWriter.writeChunk_eq_ok hwritten).1

/-- An offset is recorded exactly when its chunk is accepted. -/
theorem writer_write_of_accepts (h : Accepts host s w) : (s.write host w).writer =
    { s.writer with completedChunks := insert w.chunkOffset s.writer.completedChunks } := by
  obtain ⟨⟨hash, writer⟩, disk, hwritten⟩ := h
  rw [write, hwritten]
  exact (ChunkWriter.writeChunk_eq_ok hwritten).2.2.1

theorem writer_write_of_not_accepts (h : ¬Accepts host s w) :
    (s.write host w).writer = s.writer := by
  unfold write
  rcases hresult : s.writer.writeChunk host w.chunkOffset w.data s.disk with ⟨written | e | _, disk⟩
  · exact absurd ⟨written, disk, hresult⟩ h
  · rfl
  · rfl

/-! ### Completion and missing chunks -/

/-- The completed offsets are below the count, and all chunks are completed exactly when
none is missing. -/
structure Sound (s : OpenWriter) : Prop where
  inRange : s.writer.completedChunks ⊆ Finset.range s.writer.totalChunks
  complete : s.writer.isComplete = true ↔ s.writer.missingChunks = []

/-- A set that is restored has no offset from the count on. -/
def Restores (s : OpenWriter) : WriterCall → Prop
  | .writeChunk _ => True
  | .restoreCompleted chunks => chunks ⊆ Finset.range s.writer.totalChunks

/-- Within the count, a full number of offsets misses none. -/
theorem isComplete_iff_missingChunks {writer : ChunkWriter}
    (hrange : writer.completedChunks ⊆ Finset.range writer.totalChunks) :
    writer.isComplete = true ↔ writer.missingChunks = [] := by
  rw [ChunkWriter.isComplete_iff_forall hrange, List.eq_nil_iff_forall_not_mem]
  simp only [ChunkWriter.mem_missingChunks, not_and, not_not]

theorem sound_iff : Sound s ↔
    s.writer.completedChunks ⊆ Finset.range s.writer.totalChunks :=
  ⟨Sound.inRange, fun h => ⟨h, isComplete_iff_missingChunks h⟩⟩

theorem Sound.step_iff (h : Sound s) {call : WriterCall} (hstep : Step host s call s') :
    Sound s' ↔ s.Restores call := by
  rw [sound_iff] at h ⊢
  obtain rfl : s' = s.apply host call := hstep
  cases call with
  | writeChunk w =>
    refine iff_of_true ?_ trivial
    rw [apply]
    by_cases haccepts : Accepts host s w
    · rw [writer_write_of_accepts haccepts]
      exact Finset.insert_subset (Finset.mem_range.mpr haccepts.lt) h
    · rw [writer_write_of_not_accepts haccepts]
      exact h
  | restoreCompleted chunks => exact Iff.rfl

/-- Completion and missing chunks agree in every state of a run exactly when every set
that is restored lies below the count. -/
theorem always_sound_iff {transferId : TransferId} {fileIndex : UInt32} {destPath : Path}
    {chunkSize fileSize : ℕ} {d disk : Disk} {writer : ChunkWriter}
    (hnew : ChunkWriter.new host transferId fileIndex destPath chunkSize fileSize d =
      (.ok writer, disk)) {taken : List (OpenWriter × WriterCall)} {final : OpenWriter}
    (run : Run (Step host) { writer, disk } taken final) :
    Run.Always Sound taken final ↔ ∀ t ∈ taken, t.1.Restores t.2 := by
  obtain ⟨rfl, -⟩ := ChunkWriter.new_eq_ok hnew
  exact Run.always_iff (J := fun _ => True) (P := fun _ => True) trivial
    (fun _ _ _ _ _ _ => trivial) (sound_iff.mpr (Finset.empty_subset _))
    (fun _ _ _ _ _ hsound hstep => hsound.step_iff hstep) run fun _ _ => trivial

/-- A host for a file beside the root. -/
def sampleHost : Host := Host.withLongIds [] fun _ => default

/-- A destination beside the root. -/
def sampleDest : Path := ⟨true, [.normal ['f']], false⟩

/-- A writer for a file on an empty disk. -/
theorem exists_new_sample {chunkSize : ℕ} (hchunk : chunkSize ≠ 0) (fileSize : ℕ) :
    ∃ disk, ChunkWriter.new sampleHost default 0 sampleDest chunkSize fileSize ⟨∅, [], []⟩ =
      (.ok (ChunkWriter.fresh default 0 sampleDest chunkSize fileSize), disk) ∧ disk.Calm :=
  ChunkWriter.new_of_calm sampleHost default 0 sampleDest (d := ⟨∅, [], []⟩) rfl
    (by simp [sampleDest, Path.parent, Path.above, Path.ancestors]) (by decide)
    (by simp [Disk.lookup]) (Or.inr hchunk)

/-- A new writer for one chunk to which the offset 5 is restored. -/
def restoring (disk : Disk) : List (OpenWriter × WriterCall) :=
  [({ writer := ChunkWriter.fresh default 0 sampleDest 1 1, disk }, .restoreCompleted {5})]

theorem run_restoring (host : Host) (disk : Disk) :
    Run (Step host) { writer := ChunkWriter.fresh default 0 sampleDest 1 1, disk } (restoring disk)
      { writer := (ChunkWriter.fresh default 0 sampleDest 1 1).restoreCompleted {5}, disk } :=
  .snoc .refl rfl

theorem always_sound_iff_restoring : ∃ disk, ¬Run.Always Sound (restoring disk)
    { writer := (ChunkWriter.fresh default 0 sampleDest 1 1).restoreCompleted {5}, disk } := by
  obtain ⟨disk, hnew, -⟩ := exists_new_sample one_ne_zero 1
  refine ⟨disk, (always_sound_iff hnew (run_restoring sampleHost disk)).not.mpr fun h => ?_⟩
  have hrange : ({5} : Finset ℕ) ⊆ Finset.range 1 := h _ List.mem_cons_self
  exact absurd hrange (by decide)

/-- A set with one offset beyond the count makes a writer complete that has no chunk. -/
theorem not_always_sound : ¬∀ (host : Host) (transferId : TransferId) (fileIndex : UInt32)
    (destPath : Path) (chunkSize fileSize : ℕ) (d disk : Disk) (writer : ChunkWriter),
    ChunkWriter.new host transferId fileIndex destPath chunkSize fileSize d =
      (.ok writer, disk) →
    ∀ (taken : List (OpenWriter × WriterCall)) (final : OpenWriter),
      Run (Step host) { writer, disk } taken final → Run.Always Sound taken final := by
  intro h
  obtain ⟨disk, hnew, -⟩ := exists_new_sample one_ne_zero 1
  have hsound := h _ _ _ _ _ _ _ _ _ hnew _ _ (run_restoring sampleHost disk)
  have hrange : ({5} : Finset ℕ) ⊆ Finset.range 1 := hsound.2.inRange
  exact absurd hrange (by decide)

/-! ### Chunks and their slots -/

/-- A returned call changes the bytes of its slot only, a call that is refused for its
offset changes nothing. -/
structure Framed (host : Host) (s : OpenWriter) (w : ChunkWrite) (s' : OpenWriter) : Prop where
  elsewhere : Accepts host s w → ∀ p,
    ¬(w.chunkOffset * s.writer.chunkSize ≤ p ∧
      p < min ((w.chunkOffset + 1) * s.writer.chunkSize) s.writer.fileSize) →
    (s'.disk.contents (s.temp host))[p]? = (s.disk.contents (s.temp host))[p]?
  refused : s.writer.totalChunks ≤ w.chunkOffset → s' = s

/-- The temporary file has the length that the writer expects. -/
def Sized (host : Host) (s : OpenWriter) : Prop :=
  ∃ image, s.disk.lookup (s.temp host) = some (.file image) ∧ image.length = s.writer.fileSize

/-- The data reaches a byte of the file. -/
def Covers (chunkSize : ℕ) (w : ChunkWrite) (p : ℕ) : Prop :=
  w.chunkOffset * chunkSize ≤ p ∧ p < w.chunkOffset * chunkSize + w.data.length

/-- A chunk of the file comes with as many bytes as its slot has. -/
def Fills (writer : ChunkWriter) (w : ChunkWrite) : Prop :=
  w.chunkOffset < writer.totalChunks →
    w.data.length = chunkLength writer.fileSize writer.chunkSize w.chunkOffset

/-- The writer differs from the first one in the completed chunks only. -/
def SameFile (writer : ChunkWriter) (s : OpenWriter) : Prop :=
  s.writer = { writer with completedChunks := s.writer.completedChunks }

theorem SameFile.write {writer : ChunkWriter} (h : SameFile writer s) :
    SameFile writer (s.write host w) := by
  by_cases haccepts : Accepts host s w
  · rw [SameFile, writer_write_of_accepts haccepts, h]
  · rw [SameFile, writer_write_of_not_accepts haccepts]
    exact h

theorem write_of_refused (h : s.writer.totalChunks ≤ w.chunkOffset) : s.write host w = s := by
  rw [write, ChunkWriter.writeChunk, if_pos h]
  rfl

/-- The calls stay in their slots, and together they cover a file that is complete. -/
structure InSlots (host : Host) (taken : List (OpenWriter × ChunkWrite)) (final : OpenWriter) :
    Prop where
  framed : Run.Each (Framed host) final taken
  sized : Run.Always (Sized host) taken final
  covered : final.writer.isComplete = true → ∀ p < final.writer.fileSize,
    ∃ t ∈ taken, Accepts host t.1 t.2 ∧ Covers final.writer.chunkSize t.2 p

/-- The disk after a call is the one that the call leaves, however it ends. -/
theorem disk_write (host : Host) (s : OpenWriter) (w : ChunkWrite) : (s.write host w).disk =
    (s.writer.writeChunk host w.chunkOffset w.data s.disk).2 := by
  unfold write
  rcases s.writer.writeChunk host w.chunkOffset w.data s.disk with ⟨written | e | _, disk⟩ <;> rfl

section Slots
variable {writer : ChunkWriter}

/-- What a chunk of the right length holds lies inside the file. -/
theorem Fills.add_le (hfills : Fills writer w) (hlt : w.chunkOffset < writer.totalChunks)
    (htotal : writer.totalChunks = chunksOf writer.fileSize writer.chunkSize)
    (hchunk : writer.chunkSize ≠ 0) :
    w.chunkOffset * writer.chunkSize + w.data.length ≤ writer.fileSize := by
  rw [hfills hlt, chunkLength]
  rw [htotal] at hlt
  by_cases hsize : writer.fileSize = 0
  · have hzero : w.chunkOffset = 0 := by simpa [chunksOf, hsize] using hlt
    simp [hsize, hzero]
  · have hstart := (lt_chunksOf_iff hsize hchunk).mp hlt
    omega

theorem SameFile.fills (hsame : SameFile writer s) (hfills : Fills writer w) :
    Fills s.writer w := by
  rw [hsame]
  exact hfills

theorem SameFile.add_le (hsame : SameFile writer s) (hfills : Fills writer w)
    (htotal : writer.totalChunks = chunksOf writer.fileSize writer.chunkSize)
    (hchunk : writer.chunkSize ≠ 0) (hlt : w.chunkOffset < s.writer.totalChunks) :
    w.chunkOffset * s.writer.chunkSize + w.data.length ≤ s.writer.fileSize := by
  rw [hsame] at hlt ⊢
  exact hfills.add_le hlt htotal hchunk

theorem Sized.write (hsized : Sized host s) (hsame : SameFile writer s)
    (hfills : Fills writer w)
    (htotal : writer.totalChunks = chunksOf writer.fileSize writer.chunkSize)
    (hchunk : writer.chunkSize ≠ 0) : Sized host (s.write host w) := by
  by_cases hlt : w.chunkOffset < s.writer.totalChunks
  · obtain ⟨image, himage, hlength⟩ := hsized
    obtain ⟨n, hwritten⟩ := ChunkWriter.exists_lookup_writeChunk w.chunkOffset
      w.data himage
    have hinside := hsame.add_le hfills htotal hchunk hlt
    have hsame' : SameFile s.writer (s.write host w) := SameFile.write (s := s) rfl
    rw [Sized, temp, hsame', disk_write]
    refine ⟨_, hwritten, ?_⟩
    rw [length_writeAt_of_le, hlength]
    rw [List.length_take]
    omega
  · rw [write_of_refused (not_lt.mp hlt)]
    exact hsized

theorem Framed.write (hsized : Sized host s) (hsame : SameFile writer s)
    (hfills : Fills writer w)
    (htotal : writer.totalChunks = chunksOf writer.fileSize writer.chunkSize)
    (hchunk : writer.chunkSize ≠ 0) : Framed host s w (s.write host w) where
  elsewhere haccepts p houtside := by
    obtain ⟨image, himage, hlength⟩ := hsized
    have hlt := haccepts.lt
    obtain ⟨⟨hash, written⟩, disk, hwritten⟩ := haccepts
    obtain ⟨-, -, -, hlookup⟩ := ChunkWriter.writeChunk_eq_ok hwritten
    have hdisk : (s.write host w).disk = disk := by rw [disk_write, hwritten]
    have hafter := hlookup (s.temp host)
    rw [if_pos (by rfl), Disk.contents_eq_of_lookup himage] at hafter
    rw [hdisk, Disk.contents_eq_of_lookup hafter, Disk.contents_eq_of_lookup himage]
    have hinside := hsame.add_le hfills htotal hchunk hlt
    have hdata := hsame.fills hfills hlt
    rw [chunkLength] at hdata
    rw [Nat.add_one_mul] at houtside
    by_cases hp : p < image.length
    · rw [writeAt_getElem? hp, if_neg]
      omega
    · have hkept := length_writeAt_of_le (hlength ▸ hinside)
      rw [List.getElem?_eq_none (by omega), List.getElem?_eq_none (by omega)]
  refused hrefused := write_of_refused hrefused

/-- The file is the one that was created, at its length. -/
def Prepared (host : Host) (writer : ChunkWriter) (s : OpenWriter) : Prop :=
  SameFile writer s ∧ Sized host s

theorem Prepared.step (h : Prepared host writer s) (hfills : Fills writer w)
    (htotal : writer.totalChunks = chunksOf writer.fileSize writer.chunkSize)
    (hchunk : writer.chunkSize ≠ 0) (hstep : Writes host s w s') : Prepared host writer s' := by
  obtain rfl : s' = s.write host w := hstep
  exact ⟨h.1.write, h.2.write h.1 hfills htotal hchunk⟩

theorem Prepared.framed (h : Prepared host writer s) (hfills : Fills writer w)
    (htotal : writer.totalChunks = chunksOf writer.fileSize writer.chunkSize)
    (hchunk : writer.chunkSize ≠ 0) (hstep : Writes host s w s') : Framed host s w s' := by
  obtain rfl : s' = s.write host w := hstep
  exact Framed.write h.2 h.1 hfills htotal hchunk

end Slots

section Histories
variable {start final : OpenWriter} {taken : List (OpenWriter × ChunkWrite)}

/-- Every completed offset was accepted on the way. -/
theorem exists_accepts (hnone : start.writer.completedChunks = ∅)
    (run : Run (Writes host) start taken final) {k : ℕ}
    (hk : k ∈ final.writer.completedChunks) :
    ∃ t ∈ taken, Accepts host t.1 t.2 ∧ t.2.chunkOffset = k := by
  induction run with
  | refl =>
    rw [hnone] at hk
    exact absurd hk (Finset.notMem_empty k)
  | snoc run last ih =>
    rename_i taken s w s'
    obtain rfl : s' = s.write host w := last
    have hbefore : k ∈ s.writer.completedChunks →
        ∃ t ∈ taken ++ [(s, w)], Accepts host t.1 t.2 ∧ t.2.chunkOffset = k := by
      intro hmem
      obtain ⟨t, ht, haccepts⟩ := ih hmem
      exact ⟨t, List.mem_append_left _ ht, haccepts⟩
    by_cases haccepts : Accepts host s w
    · rw [writer_write_of_accepts haccepts] at hk
      rcases Finset.mem_insert.mp hk with rfl | hmem
      · exact ⟨(s, w), List.mem_append_right _ (List.mem_singleton_self _), haccepts, rfl⟩
      · exact hbefore hmem
    · rw [writer_write_of_not_accepts haccepts] at hk
      exact hbefore hk

/-- The offset of a byte is below the count. -/
theorem div_lt_chunksOf {size chunkSize p : ℕ} (hchunk : chunkSize ≠ 0) (hp : p < size) :
    p / chunkSize < chunksOf size chunkSize := by
  rw [lt_chunksOf_iff (by omega) hchunk]
  exact lt_of_le_of_lt (Nat.div_mul_le_self p chunkSize) hp

/-- A chunk of the right length covers the bytes whose offset it has. -/
theorem Fills.covers {writer : ChunkWriter} (hfills : Fills writer w) {p : ℕ}
    (hlt : w.chunkOffset < writer.totalChunks) (hchunk : writer.chunkSize ≠ 0)
    (hp : p < writer.fileSize) (hoffset : w.chunkOffset = p / writer.chunkSize) :
    Covers writer.chunkSize w p := by
  have hdata := hfills hlt
  rw [chunkLength] at hdata
  have hslot := (Nat.div_eq_iff (Nat.pos_of_ne_zero hchunk)).mp hoffset.symm
  exact ⟨by omega, by omega⟩

variable {writer : ChunkWriter}

/-- A complete file has every byte from a call that was accepted. -/
theorem covered_of_fills (htotal : writer.totalChunks = chunksOf writer.fileSize writer.chunkSize)
    (hchunk : writer.chunkSize ≠ 0) (hnone : start.writer.completedChunks = ∅)
    (run : Run (Writes host) start taken final)
    (hsame : Run.Always (SameFile writer) taken final)
    (hfills : ∀ t ∈ taken, Fills writer t.2) (hcomplete : final.writer.isComplete = true)
    {p : ℕ} (hp : p < writer.fileSize) :
    ∃ t ∈ taken, Accepts host t.1 t.2 ∧ Covers writer.chunkSize t.2 p := by
  have hbelow : ∀ t ∈ taken, Accepts host t.1 t.2 → t.2.chunkOffset < writer.totalChunks := by
    intro t ht haccepts
    have hlt := haccepts.lt
    rwa [hsame.1 t ht] at hlt
  have hrange : final.writer.completedChunks ⊆ Finset.range writer.totalChunks := by
    intro k hk
    obtain ⟨t, ht, haccepts, rfl⟩ := exists_accepts hnone run hk
    exact Finset.mem_range.mpr (hbelow t ht haccepts)
  have hoffset : p / writer.chunkSize ∈ final.writer.completedChunks := by
    have htotal' : final.writer.totalChunks = writer.totalChunks := by rw [hsame.2]
    rw [← htotal'] at hrange
    apply (ChunkWriter.isComplete_iff_forall hrange).mp hcomplete
    rw [htotal', htotal]
    exact div_lt_chunksOf hchunk hp
  obtain ⟨t, ht, haccepts, heq⟩ := exists_accepts hnone run hoffset
  exact ⟨t, ht, haccepts, (hfills t ht).covers (hbelow t ht haccepts) hchunk hp heq⟩

/-- Calls that bring as many bytes as the slot of their chunk has stay in their slots,
keep the length of the file and cover it when it is complete. -/
theorem inSlots_of_fills {transferId : TransferId} {fileIndex : UInt32} {destPath : Path}
    {chunkSize fileSize : ℕ} (hchunk : 1 ≤ chunkSize) {d disk : Disk}
    (hnew : ChunkWriter.new host transferId fileIndex destPath chunkSize fileSize d =
      (.ok writer, disk))
    (run : Run (Writes host) { writer, disk } taken final)
    (hfills : ∀ t ∈ taken, Fills writer t.2) : InSlots host taken final := by
  obtain ⟨rfl, -, htemp, -⟩ := ChunkWriter.new_eq_ok hnew
  have hcs : chunkSize ≠ 0 := by omega
  have hstart : Prepared host (ChunkWriter.fresh transferId fileIndex destPath chunkSize fileSize)
      { writer := ChunkWriter.fresh transferId fileIndex destPath chunkSize fileSize, disk } :=
    ⟨rfl, _, htemp, length_resize _ _⟩
  have halways := run.always_of hstart (C := fun _ w => Fills _ w)
    (fun _ _ _ hs hw hstep => hs.step hw rfl hcs hstep) hfills
  have hframed := (Run.each_iff (R := Framed host) (C := fun _ _ => True) hstart
    (fun _ _ _ hs hw hstep => hs.step hw rfl hcs hstep)
    (fun _ _ _ hs hw hstep => iff_of_true (hs.framed hw rfl hcs hstep) trivial) run hfills).mpr
    fun _ _ => trivial
  have hsame : Run.Always (SameFile _) taken final :=
    ⟨fun t ht => (halways.1 t ht).1, halways.2.1⟩
  refine ⟨hframed, ⟨fun t ht => (halways.1 t ht).2, halways.2.2⟩, ?_⟩
  intro hcomplete p hp
  rw [hsame.2] at hp ⊢
  exact covered_of_fills rfl hcs rfl run hsame hfills hcomplete hp

/-- A new writer for a file of one byte. -/
def oneByte (disk : Disk) : OpenWriter :=
  { writer := ChunkWriter.fresh default 0 sampleDest 1 1, disk }

/-- On a quiet disk the one chunk is accepted with any data and completes the file. -/
theorem exists_oneByte : ∃ disk, ChunkWriter.new sampleHost default 0 sampleDest 1 1 ⟨∅, [], []⟩ =
      (.ok (oneByte disk).writer, disk) ∧ ∀ data,
        ((oneByte disk).write sampleHost ⟨0, data⟩).writer.isComplete = true := by
  obtain ⟨disk, hnew, hcalm⟩ := exists_new_sample one_ne_zero 1
  obtain ⟨-, -, htemp, -⟩ := ChunkWriter.new_eq_ok hnew
  refine ⟨disk, hnew, fun data => ?_⟩
  have haccepts : Accepts sampleHost (oneByte disk) ⟨0, data⟩ := by
    have hlt : 0 < (oneByte disk).writer.totalChunks := one_pos
    have hmul : 0 * (oneByte disk).writer.chunkSize < 2 ^ 64 := by omega
    obtain ⟨disk', hwritten, -⟩ := ChunkWriter.writeChunk_of_calm data hcalm hlt hmul htemp
    exact ⟨_, _, hwritten⟩
  rw [writer_write_of_accepts haccepts]
  rfl

/-- A new writer for three bytes in chunks of two, and what it is after some calls. -/
def threeBytes (writes : List ChunkWrite) : OpenWriter :=
  writes.foldl (fun s w => s.write sampleHost w) {
    writer := ChunkWriter.fresh default 0 sampleDest 2 3
    disk := (ChunkWriter.new sampleHost default 0 sampleDest 2 3 ⟨∅, [], []⟩).2 }

/-- The last chunk comes first, then one that is refused, and then the first one. -/
def threeWrites : List ChunkWrite := [⟨1, [9]⟩, ⟨2, [5]⟩, ⟨0, [7, 8]⟩]

def threeSteps : List (OpenWriter × ChunkWrite) :=
  [(threeBytes [], ⟨1, [9]⟩), (threeBytes (threeWrites.take 1), ⟨2, [5]⟩),
    (threeBytes (threeWrites.take 2), ⟨0, [7, 8]⟩)]

theorem inSlots_of_fills_threeBytes :
    InSlots sampleHost threeSteps (threeBytes threeWrites) ∧
      (threeBytes threeWrites).writer.isComplete = true ∧
      (threeBytes threeWrites).disk.contents ((threeBytes threeWrites).temp sampleHost) =
        [7, 8, 9] := by
  obtain ⟨disk, hnew, -⟩ := exists_new_sample two_ne_zero 3
  have hfills : ∀ t ∈ threeSteps, Fills (ChunkWriter.fresh default 0 sampleDest 2 3) t.2 := by
    have hlengths : ∀ w ∈ threeWrites, w.chunkOffset < chunksOf 3 2 →
        w.data.length = chunkLength 3 2 w.chunkOffset := by decide
    have hwrites : threeSteps.map Prod.snd = threeWrites := rfl
    exact fun t ht => hlengths t.2 (hwrites ▸ List.mem_map_of_mem ht)
  have hdisk : (ChunkWriter.new sampleHost default 0 sampleDest 2 3 ⟨∅, [], []⟩).2 = disk := by
    rw [hnew]
  have hrun : Run (Writes sampleHost) { writer := ChunkWriter.fresh default 0 sampleDest 2 3, disk }
      threeSteps (threeBytes threeWrites) := by
    rw [← hdisk]
    exact .snoc (.snoc (.snoc .refl rfl) rfl) rfl
  exact ⟨inSlots_of_fills (by decide) hnew hrun hfills, by decide +kernel, by decide +kernel⟩

/-- An empty chunk completes a file of one byte that no call has written. -/
theorem not_inSlots : ¬∀ (host : Host) (transferId : TransferId) (fileIndex : UInt32)
    (destPath : Path) (chunkSize fileSize : ℕ), 1 ≤ chunkSize →
    ∀ (d disk : Disk) (writer : ChunkWriter),
    ChunkWriter.new host transferId fileIndex destPath chunkSize fileSize d =
      (.ok writer, disk) →
    ∀ (taken : List (OpenWriter × ChunkWrite)) (final : OpenWriter),
      Run (Writes host) { writer, disk } taken final → InSlots host taken final := by
  intro h
  obtain ⟨disk, hnew, hcomplete⟩ := exists_oneByte
  have hslots := h sampleHost default 0 sampleDest 1 1 le_rfl _ disk _ hnew
    [(oneByte disk, ⟨0, []⟩)] ((oneByte disk).write sampleHost ⟨0, []⟩) (.snoc .refl rfl)
  have hsame : SameFile (oneByte disk).writer ((oneByte disk).write sampleHost ⟨0, []⟩) :=
    SameFile.write (s := oneByte disk) rfl
  obtain ⟨t, ht, -, hcovers⟩ := hslots.covered (hcomplete []) 0 (by rw [hsame]; exact one_pos)
  obtain rfl := List.mem_singleton.mp ht
  exact absurd hcovers.2 (by simp)

end Histories
end OpenWriter
end JustDrop

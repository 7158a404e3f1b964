import JustDrop.Runs
import JustDrop.Writer

/-!
# Many writers over one disk

The writers of all transfers share a disk, and their operations come in any order.
Beside each live writer stands what it found in its temporary file at the start and the
blocks written through it: these make the image that its file holds, and the blocks alone
make the file it means to publish. The name of the temporary file is made of the directory
and the stem of the destination alone.
-/
namespace JustDrop
open ByteImage

/-- Directory and stem of a destination that keeps a name without its extension. -/
def Host.slot (host : Host) (dest : Path) : Option (Loc × Name) :=
  dest.cutExtension.fileName.map fun name => (host.locate dest.above, stemOf name)

/-- Where the temporary file of a directory and a stem lies. -/
def partialAt (slot : Loc × Name) : Loc :=
  slot.1 ++ [slot.2 ++ '.' :: "justdrop_partial".toList]

theorem partialAt_injective : Function.Injective partialAt := by
  rintro ⟨dir, stem⟩ ⟨dir', stem'⟩ h
  obtain ⟨rfl, hname⟩ := List.append_inj' h rfl
  obtain rfl := List.append_cancel_right (List.singleton_injective hname)
  rfl

theorem Host.locate_tempOf {host : Host} {dest : Path} {slot : Loc × Name}
    (h : host.slot dest = some slot) :
    host.locate (ChunkWriter.tempOf dest) = partialAt slot := by
  obtain ⟨name, hname, rfl⟩ := Option.map_eq_some_iff.mp h
  exact Path.locate_withExtension hname host.cwd _

/-- Two destinations lead to one temporary file: they lie in one directory with one
stem, or where no name is left without the extension, their temporary paths say so. -/
def Host.SharesTemp (host : Host) (dest other : Path) : Prop :=
  match host.slot dest, host.slot other with
  | some slot, some slot' => slot = slot'
  | _, _ => host.locate (ChunkWriter.tempOf dest) = host.locate (ChunkWriter.tempOf other)

theorem Host.sharesTemp_iff {host : Host} {dest other : Path} : host.SharesTemp dest other ↔
    host.locate (ChunkWriter.tempOf dest) = host.locate (ChunkWriter.tempOf other) := by
  unfold Host.SharesTemp
  cases hdest : host.slot dest with
  | none => exact Iff.rfl
  | some slot =>
    cases hother : host.slot other with
    | none => exact Iff.rfl
    | some slot' =>
      rw [Host.locate_tempOf hdest, Host.locate_tempOf hother]
      exact partialAt_injective.eq_iff.symm

instance (host : Host) (dest other : Path) : Decidable (host.SharesTemp dest other) :=
  decidable_of_iff _ Host.sharesTemp_iff.symm

theorem Host.slot_child (host : Host) (dir : Path) {name : Name} (h : stemOf name ≠ ['.']) :
    host.slot (dir.child name) = some (host.locate dir, stemOf name) := by
  obtain ⟨cut, hcut, hstem⟩ := Path.exists_cutExtension (Path.fileName_child dir name) (Or.inl h)
  rw [Host.slot, hcut, Option.map_some, hstem, Path.above_child]
  rfl

/-- Names in one directory share a temporary file when their stems agree. -/
theorem Host.sharesTemp_child_iff (host : Host) (dir : Path) {name other : Name}
    (hname : stemOf name ≠ ['.']) (hother : stemOf other ≠ ['.']) :
    host.SharesTemp (dir.child name) (dir.child other) ↔ stemOf name = stemOf other := by
  simp [Host.SharesTemp, Host.slot_child host dir hname, Host.slot_child host dir hother]

/-- A writer, what it found in its temporary file, and the blocks it has written where. -/
structure LiveWriter where
  writer : ChunkWriter
  found : Bytes
  blocks : List (ℕ × Bytes)

namespace LiveWriter

/-- What the temporary file holds. -/
def image (w : LiveWriter) : Bytes := applyWrites (resize w.found w.writer.fileSize) w.blocks

/-- What the blocks make by themselves, over a file of the right size that holds nothing. -/
def own (w : LiveWriter) : Bytes := applyWrites (resize [] w.writer.fileSize) w.blocks

/-- What was found in the temporary file is cut off, zero, or overwritten by a block. -/
def Covered (w : LiveWriter) : Prop :=
  ∀ i < w.writer.fileSize, w.found.getD i 0 = 0 ∨ ∃ b ∈ w.blocks, b.1 ≤ i ∧ i < b.1 + b.2.length

instance (w : LiveWriter) : Decidable w.Covered := inferInstanceAs (Decidable (∀ _, _))

theorem image_eq_own {w : LiveWriter} (h : w.Covered) : w.image = w.own := by
  refine applyWrites_eq_of_covered (by simp) fun i => ?_
  by_cases hi : i < w.writer.fileSize
  · refine (h i hi).imp_left fun hzero => ?_
    have hfound : w.found.getD i default = 0 := hzero
    rw [resize_getElem? _ hi, resize_getElem? _ hi, hfound]
    rfl
  · refine Or.inl ?_
    rw [List.getElem?_eq_none (by simpa using hi), List.getElem?_eq_none (by simpa using hi)]

end LiveWriter

/-- The disk, the live writers by their handles, and where which writer has published. -/
structure WriterPool (κ : Type) where
  disk : Disk
  live : κ → Option LiveWriter
  published : List (Loc × LiveWriter)

/-- An operation of the writer with a handle; `faults` is the environment's choice. -/
inductive PoolCall (κ : Type) where
  | new (k : κ) (faults : List (Option ℕ)) (transferId : TransferId) (fileIndex : UInt32)
    (destPath : Path) (chunkSize fileSize : ℕ)
  | writeChunk (k : κ) (faults : List (Option ℕ)) (chunkOffset : ℕ) (data : Bytes)
  | finalize (k : κ) (faults : List (Option ℕ))

namespace WriterPool
variable {κ : Type}

def start (disk : Disk) : WriterPool κ := { disk, live := fun _ => none, published := [] }

/-- No two live writers share a temporary file, each of these files holds what its own
writer made of it, and each published file is there with nothing but the blocks of its own
writer. -/
structure Isolated (host : Host) (pool : WriterPool κ) : Prop where
  temps : ∀ j k v w, pool.live j = some v → pool.live k = some w → j ≠ k →
    host.locate v.writer.tempPath ≠ host.locate w.writer.tempPath
  images : ∀ k w, pool.live k = some w →
    pool.disk.lookup (host.locate w.writer.tempPath) = some (.file w.image)
  kept : ∀ p ∈ pool.published, pool.disk.lookup p.1 = some (.file p.2.own)

/-- No live writer's destination lies in the directory of a new one with the same
stem, and nothing was published under the name of its temporary file. What a writer
found there has gone when it finalizes. -/
def Orderly (host : Host) (pool : WriterPool κ) : PoolCall κ → Prop
  | .new _ _ _ _ destPath _ _ =>
    (∀ j w, pool.live j = some w → ¬host.SharesTemp w.writer.destPath destPath) ∧
      ∀ p ∈ pool.published, p.1 ≠ host.locate (ChunkWriter.tempOf destPath)
  | .writeChunk .. => True
  | .finalize k _ => ∀ w, pool.live k = some w → w.Covered

instance [Fintype κ] (host : Host) (pool : WriterPool κ) (call : PoolCall κ) :
    Decidable (Orderly host pool call) :=
  match call with
  | .new _ _ _ _ destPath _ _ => inferInstanceAs (Decidable
      ((∀ j, ∀ w ∈ pool.live j, ¬host.SharesTemp w.writer.destPath destPath) ∧
        ∀ p ∈ pool.published, p.1 ≠ host.locate (ChunkWriter.tempOf destPath)))
  | .writeChunk .. => inferInstanceAs (Decidable True)
  | .finalize k _ => inferInstanceAs (Decidable (∀ w ∈ pool.live k, w.Covered))

/-- What isolation rests on. -/
structure Inv (host : Host) (pool : WriterPool κ) : Prop extends Isolated host pool where
  named : ∀ k w, pool.live k = some w → w.writer.tempPath = ChunkWriter.tempOf w.writer.destPath
  apart : ∀ k w, pool.live k = some w → ∀ p ∈ pool.published,
    p.1 ≠ host.locate w.writer.tempPath

variable {host : Host} {pool pool' : WriterPool κ}

theorem inv_start (host : Host) (disk : Disk) : Inv host (start disk : WriterPool κ) where
  temps _ _ _ _ h := by simp [start] at h
  images _ _ h := by simp [start] at h
  kept _ h := absurd h List.not_mem_nil
  named _ _ h := by simp [start] at h
  apart _ _ h := by simp [start] at h

/-- Changing nothing but one place that no writer has and nothing was published at. -/
theorem Inv.keep (h : Inv host pool) {loc : Loc}
    (hlive : ∀ k w, pool.live k = some w → host.locate w.writer.tempPath ≠ loc)
    (hpublished : ∀ p ∈ pool.published, p.1 ≠ loc) {disk : Disk}
    (hkeep : ∀ l node, l ≠ loc → pool.disk.lookup l = some node → disk.lookup l = some node) :
    Inv host { pool with disk } :=
  ⟨⟨h.temps, fun k w hk => hkeep _ _ (hlive k w hk) (h.images k w hk),
    fun p hp => hkeep _ _ (hpublished p hp) (h.kept p hp)⟩, h.named, h.apart⟩

variable [DecidableEq κ]

/-- Create a writer; when that fails there is none. -/
def opened (host : Host) (pool : WriterPool κ) (k : κ) (faults : List (Option ℕ))
    (transferId : TransferId) (fileIndex : UInt32) (destPath : Path) (chunkSize fileSize : ℕ) :
    WriterPool κ :=
  let found := pool.disk.contents (host.locate (ChunkWriter.tempOf destPath))
  match ChunkWriter.new host transferId fileIndex destPath chunkSize fileSize
    { pool.disk with faults } with
  | (.ok writer, disk) => { pool with
      disk
      live := Function.update pool.live k (some { writer, found, blocks := [] }) }
  | (_, disk) => { pool with disk }

/-- Write a block; a writer that fails is dropped. -/
def written (host : Host) (pool : WriterPool κ) (k : κ) (entry : LiveWriter)
    (faults : List (Option ℕ)) (chunkOffset : ℕ) (data : Bytes) : WriterPool κ :=
  let byteOffset := chunkOffset * entry.writer.chunkSize
  match ChunkWriter.writeChunk host entry.writer chunkOffset data { pool.disk with faults } with
  | (.ok (_, writer), disk) => { pool with
      disk
      live := Function.update pool.live k
        (some { entry with writer, blocks := entry.blocks ++ [(byteOffset, data)] }) }
  | (_, disk) => { pool with disk, live := Function.update pool.live k none }

/-- Publish the file; the writer is done, or dropped when that fails. -/
def finalized (host : Host) (pool : WriterPool κ) (k : κ) (entry : LiveWriter)
    (faults : List (Option ℕ)) : WriterPool κ :=
  match ChunkWriter.finalize host entry.writer { pool.disk with faults } with
  | (.ok dest, disk) => {
      disk
      live := Function.update pool.live k none
      published := pool.published ++ [(host.locate dest, entry)] }
  | (_, disk) => { pool with disk, live := Function.update pool.live k none }

/-- A handle is used for one writer at a time. -/
def step (host : Host) (pool : WriterPool κ) : PoolCall κ → Option (WriterPool κ)
  | .new k faults transferId fileIndex destPath chunkSize fileSize =>
    if (pool.live k).isSome then none
    else some (pool.opened host k faults transferId fileIndex destPath chunkSize fileSize)
  | .writeChunk k faults chunkOffset data =>
    (pool.live k).map fun entry => pool.written host k entry faults chunkOffset data
  | .finalize k faults =>
    (pool.live k).map fun entry => pool.finalized host k entry faults

/-- Dropping a writer and changing nothing but its temporary file keeps the rest. -/
theorem Inv.drop (h : Inv host pool) {k : κ} {entry : LiveWriter}
    (hk : pool.live k = some entry) {disk : Disk}
    (hkeep : ∀ l node, l ≠ host.locate entry.writer.tempPath →
      pool.disk.lookup l = some node → disk.lookup l = some node) :
    Inv host { pool with disk, live := Function.update pool.live k none } := by
  have hlive : ∀ j w, Function.update pool.live k none j = some w →
      j ≠ k ∧ pool.live j = some w := by
    intro j w hj
    by_cases hjk : j = k
    · subst hjk
      simp at hj
    · exact ⟨hjk, by rwa [Function.update_of_ne hjk] at hj⟩
  constructor
  · constructor
    · intro i j v w hi hj
      exact h.temps i j v w (hlive i v hi).2 (hlive j w hj).2
    · intro j w hj
      obtain ⟨hjk, hw⟩ := hlive j w hj
      exact hkeep _ _ (h.temps j k w entry hw hk hjk) (h.images j w hw)
    · exact fun p hp => hkeep _ _ (h.apart k entry hk p hp) (h.kept p hp)
  · exact fun j w hj => h.named j w (hlive j w hj).2
  · exact fun j w hj => h.apart j w (hlive j w hj).2

/-- A writer over a file of its own joins the others. -/
theorem Inv.join (h : Inv host pool) {k : κ} {entry : LiveWriter}
    (htemp : entry.writer.tempPath = ChunkWriter.tempOf entry.writer.destPath)
    (hlive : ∀ j w, pool.live j = some w → j ≠ k →
      host.locate w.writer.tempPath ≠ host.locate entry.writer.tempPath)
    (hpublished : ∀ p ∈ pool.published, p.1 ≠ host.locate entry.writer.tempPath) {disk : Disk}
    (hkeep : ∀ l node, l ≠ host.locate entry.writer.tempPath →
      pool.disk.lookup l = some node → disk.lookup l = some node)
    (himage : disk.lookup (host.locate entry.writer.tempPath) = some (.file entry.image)) :
    Inv host { pool with disk, live := Function.update pool.live k (some entry) } := by
  have hcases : ∀ j w, Function.update pool.live k (some entry) j = some w →
      j = k ∧ w = entry ∨ j ≠ k ∧ pool.live j = some w := by
    intro j w hj
    by_cases hjk : j = k
    · subst hjk
      rw [Function.update_self] at hj
      exact Or.inl ⟨rfl, (Option.some.inj hj).symm⟩
    · exact Or.inr ⟨hjk, by rwa [Function.update_of_ne hjk] at hj⟩
  constructor
  · constructor
    · intro i j v w hi hj hij
      rcases hcases i v hi with ⟨rfl, rfl⟩ | ⟨hik, hv⟩ <;>
        rcases hcases j w hj with ⟨rfl, rfl⟩ | ⟨hjk, hw⟩
      · exact absurd rfl hij
      · exact (hlive j w hw hjk).symm
      · exact hlive i v hv hik
      · exact h.temps i j v w hv hw hij
    · intro j w hj
      rcases hcases j w hj with ⟨rfl, rfl⟩ | ⟨hjk, hw⟩
      · exact himage
      · exact hkeep _ _ (hlive j w hw hjk) (h.images j w hw)
    · exact fun p hp => hkeep _ _ (hpublished p hp) (h.kept p hp)
  · intro j w hj
    rcases hcases j w hj with ⟨rfl, rfl⟩ | ⟨-, hw⟩
    · exact htemp
    · exact h.named j w hw
  · intro j w hj p hp
    rcases hcases j w hj with ⟨rfl, rfl⟩ | ⟨-, hw⟩
    · exact hpublished p hp
    · exact h.apart j w hw p hp

/-- A writer changes its own file and goes on. -/
theorem Inv.write (h : Inv host pool) {k : κ} {entry : LiveWriter}
    (hk : pool.live k = some entry) (next : LiveWriter)
    (hdest : next.writer.destPath = entry.writer.destPath)
    (htemp : next.writer.tempPath = entry.writer.tempPath) {disk : Disk}
    (hkeep : ∀ l node, l ≠ host.locate entry.writer.tempPath →
      pool.disk.lookup l = some node → disk.lookup l = some node)
    (himage : disk.lookup (host.locate entry.writer.tempPath) = some (.file next.image)) :
    Inv host { pool with disk, live := Function.update pool.live k (some next) } := by
  refine h.join ?_ ?_ ?_ ?_ ?_
  · exact htemp.trans ((h.named k entry hk).trans (congrArg ChunkWriter.tempOf hdest.symm))
  · intro j w hj hjk
    rw [htemp]
    exact h.temps j k w entry hj hk hjk
  · intro p hp
    rw [htemp]
    exact h.apart k entry hk p hp
  · rwa [htemp]
  · rwa [htemp]

/-- What a writer leaves when it finalizes: its file under a free name. -/
theorem Inv.publish (h : Inv host pool) {k : κ} {entry : LiveWriter}
    (hk : pool.live k = some entry) {disk : Disk} {loc : Loc}
    (hfree : pool.disk.lookup loc = none)
    (hkeep : ∀ l node, l ≠ host.locate entry.writer.tempPath →
      pool.disk.lookup l = some node → disk.lookup l = some node)
    (hloc : disk.lookup loc = some (.file entry.own)) :
    Inv host {
      disk
      live := Function.update pool.live k none
      published := pool.published ++ [(loc, entry)] } := by
  have hdropped := h.drop hk hkeep
  refine ⟨⟨hdropped.temps, hdropped.images, ?_⟩, hdropped.named, ?_⟩
  · intro p hp
    rcases List.mem_append.mp hp with hold | hnew
    · exact hdropped.kept p hold
    · obtain rfl := List.mem_singleton.mp hnew
      exact hloc
  · intro j w hj p hp
    rcases List.mem_append.mp hp with hold | hnew
    · exact hdropped.apart j w hj p hold
    · obtain rfl := List.mem_singleton.mp hnew
      rintro rfl
      by_cases hjk : j = k
      · subst hjk
        simp at hj
      · have hw := h.images j w (by simpa [Function.update_of_ne hjk] using hj)
        rw [hfree] at hw
        simp at hw

theorem Inv.opened (h : Inv host pool) {k : κ} (faults : List (Option ℕ))
    (transferId : TransferId) (fileIndex : UInt32) {destPath : Path}
    (chunkSize fileSize : ℕ)
    (hlive : ∀ j w, pool.live j = some w → ¬host.SharesTemp w.writer.destPath destPath)
    (hpublished : ∀ p ∈ pool.published, p.1 ≠ host.locate (ChunkWriter.tempOf destPath)) :
    Inv host (pool.opened host k faults transferId fileIndex destPath chunkSize fileSize) := by
  have hother : ∀ j w, pool.live j = some w →
      host.locate w.writer.tempPath ≠ host.locate (ChunkWriter.tempOf destPath) := by
    intro j w hj heq
    rw [h.named j w hj] at heq
    exact hlive j w hj (Host.sharesTemp_iff.mpr heq)
  have hkeep : ∀ l node, l ≠ host.locate (ChunkWriter.tempOf destPath) →
      pool.disk.lookup l = some node →
      (ChunkWriter.new host transferId fileIndex destPath chunkSize fileSize
        { pool.disk with faults }).2.lookup l = some node := fun l node hl hnode =>
    ChunkWriter.keeps_new_lookup (fun _ => hl) { pool.disk with faults } hnode
  unfold WriterPool.opened
  rcases hnew : ChunkWriter.new host transferId fileIndex destPath chunkSize fileSize
    { pool.disk with faults } with ⟨writer | e | _, disk⟩
  · rw [hnew] at hkeep
    obtain ⟨rfl, -, hown, -⟩ := ChunkWriter.new_eq_ok hnew
    exact h.join rfl (fun j w hj _ => hother j w hj) hpublished hkeep hown
  · rw [hnew] at hkeep
    exact h.keep hother hpublished hkeep
  · rw [hnew] at hkeep
    exact h.keep hother hpublished hkeep

theorem Inv.written (h : Inv host pool) {k : κ} {entry : LiveWriter}
    (hk : pool.live k = some entry) (faults : List (Option ℕ)) (chunkOffset : ℕ) (data : Bytes) :
    Inv host (pool.written host k entry faults chunkOffset data) := by
  have hkeep : ∀ l node, l ≠ host.locate entry.writer.tempPath →
      pool.disk.lookup l = some node →
      (ChunkWriter.writeChunk host entry.writer chunkOffset data
        { pool.disk with faults }).2.lookup l = some node := fun l node hl hnode =>
    ChunkWriter.keeps_writeChunk_lookup hl { pool.disk with faults } hnode
  unfold WriterPool.written
  rcases hwrite : ChunkWriter.writeChunk host entry.writer chunkOffset data
    { pool.disk with faults } with ⟨⟨hash, writer⟩ | e | _, disk⟩
  · rw [hwrite] at hkeep
    obtain ⟨-, -, rfl, hlookup⟩ := ChunkWriter.writeChunk_eq_ok hwrite
    refine h.write hk
      ⟨{ entry.writer with completedChunks := insert chunkOffset entry.writer.completedChunks },
        entry.found, entry.blocks ++ [(chunkOffset * entry.writer.chunkSize, data)]⟩
      rfl rfl hkeep ?_
    have hown := h.images k entry hk
    rw [hlookup, if_pos rfl, Disk.contents_congr (Disk.lookup_faults _ _ _),
      Disk.contents_eq_of_lookup hown, LiveWriter.image, LiveWriter.image, applyWrites_concat]
  · rw [hwrite] at hkeep
    exact h.drop hk hkeep
  · rw [hwrite] at hkeep
    exact h.drop hk hkeep

theorem Inv.finalized (h : Inv host pool) {k : κ} {entry : LiveWriter}
    (hk : pool.live k = some entry) (hcovered : entry.Covered) (faults : List (Option ℕ)) :
    Inv host (pool.finalized host k entry faults) := by
  have hkeep : ∀ l node, l ≠ host.locate entry.writer.tempPath →
      pool.disk.lookup l = some node →
      (ChunkWriter.finalize host entry.writer { pool.disk with faults }).2.lookup l =
        some node := fun l node hl hnode =>
    ChunkWriter.keeps_finalize_lookup hl { pool.disk with faults } hnode
  unfold WriterPool.finalized
  rcases hfinalize : ChunkWriter.finalize host entry.writer { pool.disk with faults } with
    ⟨dest | e | _, disk⟩
  · rw [hfinalize] at hkeep
    obtain ⟨hfree, node, hnode, hlookup⟩ := ChunkWriter.finalize_eq_ok hfinalize
    obtain rfl : node = .file entry.image :=
      Option.some.inj (hnode.symm.trans (h.images k entry hk))
    refine h.publish hk hfree hkeep ?_
    rw [hlookup, if_pos rfl, LiveWriter.image_eq_own hcovered]
  · rw [hfinalize] at hkeep
    exact h.drop hk hkeep
  · rw [hfinalize] at hkeep
    exact h.drop hk hkeep

/-- Under the condition every operation keeps the invariant. -/
theorem Inv.step (h : Inv host pool) {call : PoolCall κ} (horderly : Orderly host pool call)
    (hstep : pool.step host call = some pool') : Inv host pool' := by
  cases call with
  | new k faults transferId fileIndex destPath chunkSize fileSize =>
    simp only [WriterPool.step] at hstep
    split_ifs at hstep
    obtain rfl := Option.some.inj hstep
    exact h.opened faults transferId fileIndex chunkSize fileSize horderly.1 horderly.2
  | writeChunk k faults chunkOffset data =>
    obtain ⟨entry, hk, rfl⟩ := Option.map_eq_some_iff.mp hstep
    exact h.written hk faults chunkOffset data
  | finalize k faults =>
    obtain ⟨entry, hk, rfl⟩ := Option.map_eq_some_iff.mp hstep
    exact h.finalized hk (horderly entry hk) faults

/-- In a run whose operations are orderly, all writers are isolated in every state. -/
theorem always_isolated (host : Host) (disk : Disk) {taken : List (WriterPool κ × PoolCall κ)}
    {final : WriterPool κ}
    (run : Run (fun pool call pool' => pool.step host call = some pool') (start disk) taken final)
    (horderly : ∀ t ∈ taken, Orderly host t.1 t.2) : Run.Always (Isolated host) taken final := by
  have hinv := run.always_of (inv_start host disk)
    (fun _ _ _ hinv hcall hstep => hinv.step hcall hstep) horderly
  exact ⟨fun t ht => (hinv.1 t ht).toIsolated, hinv.2.toIsolated⟩

/-! ### Two files of different stems -/

def sampleHost : Host := Host.withLongIds [] fun _ => Vector.replicate 32 0

/-- A disk whose download directory holds an old temporary file. -/
def sampleDisk : Disk :=
  { nodes := (Finmap.singleton ["dl".toList] .dir).insert
      ["dl".toList, "y.justdrop_partial".toList] (.file [9, 9])
    touched := []
    faults := [] }

/-- A writer of one byte for a name in the download directory. -/
def sampleNew (k : κ) (name : String) : PoolCall κ :=
  .new k [] (Vector.replicate 16 0) 0 ((Path.ofString "/dl").join (Path.ofString name)) 4 1

/-- The pool after the listed calls. -/
def played (calls : List (PoolCall Bool)) : WriterPool Bool :=
  calls.foldl (fun pool call => (pool.step sampleHost call).getD pool) (start sampleDisk)

/-- A run of orderly operations that makes these calls. -/
def Plays (calls : List (PoolCall Bool)) (taken : List (WriterPool Bool × PoolCall Bool)) : Prop :=
  Run (fun pool call pool' => pool.step sampleHost call = some pool') (start sampleDisk) taken
    (played calls) ∧ ∀ t ∈ taken, Orderly sampleHost t.1 t.2

theorem Plays.snoc {calls : List (PoolCall Bool)} {taken : List (WriterPool Bool × PoolCall Bool)}
    (h : Plays calls taken) {call : PoolCall Bool}
    (hstep : ((played calls).step sampleHost call).isSome = true)
    (horderly : Orderly sampleHost (played calls) call) :
    Plays (calls ++ [call]) (taken ++ [(played calls, call)]) := by
  obtain ⟨pool, hpool⟩ := Option.isSome_iff_exists.mp hstep
  have hplayed : played (calls ++ [call]) = pool := by
    rw [played, List.foldl_append, List.foldl_cons, List.foldl_nil, ← played, hpool]
    rfl
  constructor
  · rw [hplayed]
    exact .snoc h.1 hpool
  · rw [List.forall_mem_append, List.forall_mem_singleton]
    exact ⟨h.2, horderly⟩

/-- Two files are written in turns, one over the old temporary file, and published. -/
def twoFiles : List (PoolCall Bool) :=
  [sampleNew false "x.txt", sampleNew true "y.txt", .writeChunk false [] 0 [1],
    .writeChunk true [] 0 [2], .finalize false [], .finalize true []]

theorem steps_twoFiles : ∀ n : Fin 6,
    ((played (twoFiles.take n)).step sampleHost twoFiles[n]).isSome = true ∧
      Orderly sampleHost (played (twoFiles.take n)) twoFiles[n] := by
  decide +kernel

theorem exists_plays_twoFiles {n : ℕ} (hn : n ≤ 6) : ∃ taken,
    Plays (twoFiles.take n) taken ∧ taken.map Prod.snd = twoFiles.take n := by
  induction n with
  | zero => exact ⟨[], ⟨.refl, fun _ h => absurd h List.not_mem_nil⟩, rfl⟩
  | succ n ih =>
    obtain ⟨taken, hplays, hcalls⟩ := ih (by omega)
    obtain ⟨hstep, horderly⟩ := steps_twoFiles ⟨n, hn⟩
    have htake : twoFiles.take n ++ [twoFiles[n]] = twoFiles.take (n + 1) :=
      List.take_concat_get' twoFiles n hn
    refine ⟨_, htake ▸ hplays.snoc hstep horderly, ?_⟩
    rw [List.map_append, hcalls, ← htake]
    rfl

/-- Both files hold what was written through their own writers, in all of the run. -/
theorem always_isolated_twoFiles : ∃ taken,
    taken.map Prod.snd = twoFiles ∧ Run.Always (Isolated sampleHost) taken (played twoFiles) ∧
      (played twoFiles).published.map (fun p => (p.1, p.2.own)) =
        [(["dl".toList, "x.txt".toList], [1]), (["dl".toList, "y.txt".toList], [2])] := by
  obtain ⟨taken, hplays, hcalls⟩ := exists_plays_twoFiles le_rfl
  exact ⟨taken, hcalls, always_isolated sampleHost sampleDisk hplays.1 hplays.2, by decide +kernel⟩

/-! ### Two files with one stem -/

theorem isSome_text :
    ((start sampleDisk).step sampleHost (sampleNew 0 "x.txt")).isSome = true := by
  decide +kernel

def afterText : WriterPool ℕ := Option.get _ isSome_text

theorem isSome_pdf : (afterText.step sampleHost (sampleNew 1 "x.pdf")).isSome = true := by
  decide +kernel

def afterPdf : WriterPool ℕ := Option.get _ isSome_pdf

theorem run_afterPdf : Run (fun pool call pool' => pool.step sampleHost call = some pool')
    (start sampleDisk) [(start sampleDisk, sampleNew 0 "x.txt"), (afterText, sampleNew 1 "x.pdf")]
    afterPdf :=
  .snoc (.snoc .refl (Option.eq_some_of_isSome isSome_text)) (Option.eq_some_of_isSome isSome_pdf)

theorem temps_afterPdf : ∀ k ∈ [0, 1],
    (afterPdf.live k).map (fun w => sampleHost.locate w.writer.tempPath) =
      some ["dl".toList, "x.justdrop_partial".toList] := by
  decide +kernel

/-- Writers for `x.txt` and `x.pdf` share a temporary file. -/
theorem not_always_isolated : ¬∀ (host : Host) (disk : Disk)
    (taken : List (WriterPool ℕ × PoolCall ℕ)) (final : WriterPool ℕ),
    Run (fun pool call pool' => pool.step host call = some pool') (start disk) taken final →
    Run.Always (Isolated host) taken final := by
  intro h
  have hisolated := (h sampleHost sampleDisk _ _ run_afterPdf).2
  obtain ⟨v, hv, htext⟩ := Option.map_eq_some_iff.mp (temps_afterPdf 0 (by simp))
  obtain ⟨w, hw, hpdf⟩ := Option.map_eq_some_iff.mp (temps_afterPdf 1 (by simp))
  exact hisolated.temps 0 1 v w hv hw (by decide) (htext.trans hpdf.symm)

end WriterPool
end JustDrop

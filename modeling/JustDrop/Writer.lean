import JustDrop.Errors
import Mathlib.Data.Finset.Lattice.Fold
import Mathlib.Order.Lattice.Nat

/-!
# Writing received chunks

A writer fills a temporary file next to the destination, chunk by chunk and in
any order, counts the distinct offsets it has written, and renames the file to a
free name when it is finalized.
-/
namespace JustDrop

/-- What the receiving host provides: its working directory, SHA-256 and fresh
identifiers. No name on the disk contains a fresh identifier. -/
structure Host where
  cwd : Loc
  sha256 : Bytes → Sha256Hash
  newV4 : Disk → Name
  newV4_fresh : ∀ (d : Disk) (loc : Loc) (name : Name), newV4 d <:+: name →
    d.lookup (loc ++ [name]) = none

def Host.locate (host : Host) (p : Path) : Loc := Path.locate host.cwd p

/-- An error of the lookup counts as nothing found. -/
def Host.tryExists (host : Host) (d : Disk) (p : Path) : Bool :=
  d.exists? (host.locate p) p.dirOnly

theorem Host.tryExists_of_free {host : Host} {d : Disk} {p : Path}
    (h : d.lookup (host.locate p) = none) : host.tryExists d p = false := by
  simp [Host.tryExists, Disk.exists?, h]

/-- A host whose identifiers are longer than every name on the disk. -/
def Host.withLongIds (cwd : Loc) (sha256 : Bytes → Sha256Hash) : Host where
  cwd := cwd
  sha256 := sha256
  newV4 d := List.replicate ((d.nodes.keys.sup fun loc => (loc.getLast?.getD []).length) + 1) 'f'
  newV4_fresh d loc name hinfix := by
    by_contra hne
    have hmem : loc ++ [name] ∈ d.nodes.keys := by
      rw [Finmap.mem_keys, ← Finmap.lookup_isSome]
      exact Option.isSome_iff_ne_none.mpr hne
    have hle := Finset.le_sup (f := fun loc : Loc => (loc.getLast?.getD []).length) hmem
    have hlen := hinfix.length_le
    simp only [List.getLast?_append, List.getLast?_singleton, Option.some_or,
      Option.getD_some, List.length_replicate] at hle hlen
    omega

structure ChunkWriter where
  transferId : TransferId
  fileIndex : UInt32
  destPath : Path
  tempPath : Path
  chunkSize : ℕ
  fileSize : ℕ
  totalChunks : ℕ
  completedChunks : Finset ℕ
  deriving DecidableEq

/-! ### Free names -/

def joinExtension (stem ext : Name) : Name := if ext = [] then stem else stem ++ '.' :: ext

def numberedName (stem ext : Name) (i : ℕ) : Name := joinExtension (stem ++ s!" ({i})".toList) ext

/-- The path itself, or the first free of 999 numbered names beside it, or a
name with a fresh identifier. -/
def uniquePath (host : Host) (d : Disk) (path : Path) : Path :=
  if host.tryExists d path then
    let stem := path.fileStem.getD "file".toList
    let ext := path.extension.getD []
    let parent := path.parent.getD (Path.ofString ".")
    match (List.range' 1 999).find? fun i =>
        !host.tryExists d (parent.child (numberedName stem ext i)) with
    | some i => parent.child (numberedName stem ext i)
    | none => parent.child (joinExtension (stem ++ '_' :: host.newV4 d) ext)
  else path

theorem infix_joinExtension (stem ext id : Name) :
    id <:+: joinExtension (stem ++ '_' :: id) ext := by
  unfold joinExtension
  split_ifs
  · exact ⟨stem ++ ['_'], [], by simp⟩
  · exact ⟨stem ++ ['_'], '.' :: ext, by simp⟩

/-- The path that is chosen was looked for in vain. -/
theorem tryExists_uniquePath (host : Host) (d : Disk) (path : Path) :
    host.tryExists d (uniquePath host d path) = false := by
  unfold uniquePath
  split_ifs with h
  · dsimp only
    split
    · rename_i i hi
      simpa using List.find?_some hi
    · refine Host.tryExists_of_free ?_
      rw [Host.locate, Path.locate_child]
      exact host.newV4_fresh d _ _ (infix_joinExtension _ _ _)
  · simpa using h

namespace ChunkWriter

/-- The temporary file of a destination. -/
def tempOf (destPath : Path) : Path := destPath.withExtension "justdrop_partial".toList

def createParent (host : Host) (destPath : Path) : Task Disk StorageError Unit :=
  match destPath.parent with
  | some parent =>
    Task.mapErr (.io parent) (Disk.createDirAll (parent.ancestors.map host.locate))
  | none => pure ()

/-- Create the parent directories and the temporary file at its full size. -/
def new (host : Host) (transferId : TransferId) (fileIndex : UInt32) (destPath : Path)
    (chunkSize fileSize : ℕ) : Task Disk StorageError ChunkWriter := do
  let tempPath := tempOf destPath
  createParent host destPath
  Task.mapErr (.io tempPath) (Disk.openCreate (host.locate tempPath) tempPath.dirOnly)
  Task.mapErr (.io tempPath) (Disk.setLen (host.locate tempPath) fileSize)
  let totalChunks ← Task.ofChecked (if fileSize = 0 then some 1 else divCeil fileSize chunkSize)
  pure {
    transferId, fileIndex, destPath, tempPath, chunkSize, fileSize, totalChunks,
    completedChunks := ∅ }

/-- Write one chunk at its place, whatever its length, and record its offset. -/
def writeChunk (host : Host) (writer : ChunkWriter) (chunkOffset : ℕ) (data : Bytes) :
    Task Disk StorageError (Sha256Hash × ChunkWriter) :=
  if writer.totalChunks ≤ chunkOffset then
    Task.fail (.chunkIntegrityFailed writer.transferId chunkOffset)
  else do
    let byteOffset ← Task.ofChecked (checkedMul 64 chunkOffset writer.chunkSize)
    let temp := host.locate writer.tempPath
    Task.mapErr (.io writer.tempPath) (Disk.openExisting temp)
    Task.mapErr (.io writer.tempPath) (Disk.writeAll temp byteOffset data)
    pure (host.sha256 data,
      { writer with completedChunks := insert chunkOffset writer.completedChunks })

/-- The number of recorded offsets is compared, nothing else. -/
def isComplete (writer : ChunkWriter) : Bool :=
  writer.completedChunks.card = writer.totalChunks

def missingChunks (writer : ChunkWriter) : List ℕ :=
  (List.range writer.totalChunks).filter (· ∉ writer.completedChunks)

def restoreCompleted (writer : ChunkWriter) (chunks : Finset ℕ) : ChunkWriter :=
  { writer with completedChunks := chunks }

/-- Rename to a free name, returned for the log. -/
def finalize (host : Host) (writer : ChunkWriter) : Task Disk StorageError Path := do
  let d ← Task.get
  let dest := uniquePath host d writer.destPath
  Task.mapErr (.io writer.destPath)
    (Disk.rename (host.locate writer.tempPath) (host.locate dest) dest.dirOnly)
  pure dest

/-- As many offsets in range as there are chunks are all of them. -/
theorem isComplete_iff_forall {writer : ChunkWriter}
    (hrange : writer.completedChunks ⊆ Finset.range writer.totalChunks) :
    writer.isComplete = true ↔ ∀ k < writer.totalChunks, k ∈ writer.completedChunks := by
  rw [isComplete, decide_eq_true_eq]
  constructor
  · intro hcard k hk
    rw [Finset.eq_of_subset_of_card_le hrange (by rw [Finset.card_range, hcard])]
    exact Finset.mem_range.mpr hk
  · intro hall
    rw [hrange.antisymm fun k hk => hall k (Finset.mem_range.mp hk), Finset.card_range]

theorem mem_missingChunks {writer : ChunkWriter} {k : ℕ} :
    k ∈ writer.missingChunks ↔ k < writer.totalChunks ∧ k ∉ writer.completedChunks := by
  rw [missingChunks, List.mem_filter, List.mem_range, decide_eq_true_eq]

/-! ### What each operation has done when it returned -/

/-- The writer that `new` builds. -/
def fresh (transferId : TransferId) (fileIndex : UInt32) (destPath : Path)
    (chunkSize fileSize : ℕ) : ChunkWriter :=
  { transferId, fileIndex, destPath, tempPath := tempOf destPath, chunkSize, fileSize,
    totalChunks := chunksOf fileSize chunkSize, completedChunks := ∅ }

theorem createParent_eq_ok {host : Host} {destPath : Path} {d d' : Disk}
    (h : createParent host destPath d = (.ok (), d')) (l : Loc) :
    (d'.lookup l = d.lookup l ∨ d.lookup l = none ∧ d'.lookup l = some .dir) ∧
      d'.contents l = d.contents l := by
  unfold createParent at h
  cases hp : destPath.parent with
  | some parent =>
    rw [hp, Task.mapErr_eq_ok] at h
    exact ⟨Disk.createDirAll_lookup h l, Disk.createDirAll_contents h l⟩
  | none =>
    rw [hp] at h
    obtain rfl := (Prod.mk.inj h).2
    exact ⟨Or.inl rfl, rfl⟩

/-- Nothing but the temporary file is changed, apart from directories filling empty places. -/
theorem new_eq_ok {host : Host} {transferId : TransferId} {fileIndex : UInt32} {destPath : Path}
    {chunkSize fileSize : ℕ} {d d' : Disk} {writer : ChunkWriter}
    (h : new host transferId fileIndex destPath chunkSize fileSize d = (.ok writer, d')) :
    writer = fresh transferId fileIndex destPath chunkSize fileSize ∧
      Divisible fileSize chunkSize ∧
      d'.lookup (host.locate (tempOf destPath)) =
        some (.file (ByteImage.resize (d.contents (host.locate (tempOf destPath))) fileSize)) ∧
      ∀ l ≠ host.locate (tempOf destPath),
        d'.lookup l = d.lookup l ∨ d.lookup l = none ∧ d'.lookup l = some .dir := by
  simp only [new, Task.bind_eq_ok] at h
  obtain ⟨_, d₁, hdirs, _, d₂, hopen, _, d₃, hlen, total, d₄, htotal, hw⟩ := h
  have hdirs' := createParent_eq_ok hdirs
  have hopen' := Disk.openCreate_lookup (Task.mapErr_eq_ok.mp hopen)
  have hlen' := Disk.setLen_lookup (Task.mapErr_eq_ok.mp hlen)
  obtain ⟨hcount, rfl⟩ := Task.ofChecked_eq_ok.mp htotal
  obtain ⟨hdiv, rfl⟩ := count_eq_some.mp hcount
  obtain ⟨rfl, rfl⟩ : fresh transferId fileIndex destPath chunkSize fileSize = writer ∧
      d₄ = d' := by
    simpa [fresh] using hw
  refine ⟨rfl, hdiv, ?_, fun l hl => ?_⟩
  · rw [hlen', if_pos rfl, Disk.contents_eq_of_lookup (by rw [hopen', if_pos rfl]), (hdirs' _).2]
  · rw [hlen', if_neg hl, hopen', if_neg hl]
    exact (hdirs' l).1

/-- A writer is made only where the temporary path ends in a name. -/
theorem dirOnly_of_new {host : Host} {transferId : TransferId} {fileIndex : UInt32}
    {destPath : Path} {chunkSize fileSize : ℕ} {d d' : Disk} {writer : ChunkWriter}
    (h : new host transferId fileIndex destPath chunkSize fileSize d = (.ok writer, d')) :
    (tempOf destPath).dirOnly = false := by
  simp only [new, Task.bind_eq_ok] at h
  obtain ⟨_, d₁, -, _, d₂, hopen, -⟩ := h
  exact Disk.dirOnly_of_openCreate (Task.mapErr_eq_ok.mp hopen)

/-- Without faults a writer beside existing directories is created. -/
theorem new_of_calm (host : Host) (transferId : TransferId) (fileIndex : UInt32) (destPath : Path)
    {chunkSize fileSize : ℕ} {d : Disk} (hcalm : d.Calm)
    (hdirs : ∀ parent, destPath.parent = some parent → ∀ p ∈ parent.ancestors,
      d.lookup (host.locate p) = some .dir)
    (hname : (tempOf destPath).dirOnly = false)
    (htemp : d.lookup (host.locate (tempOf destPath)) ≠ some .dir)
    (hdiv : Divisible fileSize chunkSize) :
    ∃ d', new host transferId fileIndex destPath chunkSize fileSize d =
      (.ok (fresh transferId fileIndex destPath chunkSize fileSize), d') ∧ d'.Calm := by
  have hparent : createParent host destPath d = (.ok (), d) := by
    unfold createParent
    cases hp : destPath.parent with
    | none => rfl
    | some parent =>
      refine Task.mapErr_of_ok (Disk.createDirAll_of_dirs fun loc hloc => ?_)
      obtain ⟨p, hmem, rfl⟩ := List.mem_map.mp hloc
      exact hdirs parent hp p hmem
  obtain ⟨d₁, hopen, hcalm₁⟩ := Disk.openCreate_of_calm hcalm htemp
  obtain ⟨d₂, hlen, hcalm₂⟩ := Disk.setLen_of_calm hcalm₁ (host.locate (tempOf destPath)) fileSize
  have hcount : (if fileSize = 0 then some 1 else divCeil fileSize chunkSize) =
      some (chunksOf fileSize chunkSize) := count_eq_some.mpr ⟨hdiv, rfl⟩
  refine ⟨d₂, ?_, hcalm₂⟩
  rw [← hname] at hopen
  rw [new, Task.bind_of_ok hparent, Task.bind_of_ok (Task.mapErr_of_ok hopen),
    Task.bind_of_ok (Task.mapErr_of_ok hlen), hcount]
  rfl

theorem writeChunk_eq_ok {host : Host} {writer writer' : ChunkWriter} {chunkOffset : ℕ}
    {data : Bytes} {d d' : Disk} {hash : Sha256Hash}
    (h : writeChunk host writer chunkOffset data d = (.ok (hash, writer'), d')) :
    chunkOffset < writer.totalChunks ∧
      hash = host.sha256 data ∧
      writer' = { writer with completedChunks := insert chunkOffset writer.completedChunks } ∧
      ∀ l, d'.lookup l =
        if l = host.locate writer.tempPath then
          some (.file (ByteImage.writeAt (d.contents l) (chunkOffset * writer.chunkSize) data))
        else d.lookup l := by
  unfold writeChunk at h
  split_ifs at h with hlt
  · simp at h
  · simp only [Task.bind_eq_ok] at h
    obtain ⟨byteOffset, d₁, hmul, _, d₂, hopen, _, d₃, hwrite, hw⟩ := h
    obtain ⟨hmul', rfl⟩ := Task.ofChecked_eq_ok.mp hmul
    obtain ⟨-, rfl⟩ := checkedMul_eq_some.mp hmul'
    obtain ⟨-, hopen'⟩ := Disk.openExisting_lookup (Task.mapErr_eq_ok.mp hopen)
    have hwrite' := Disk.writeAll_lookup (Task.mapErr_eq_ok.mp hwrite)
    simp only [Task.pure_run, Prod.mk.injEq, Outcome.ok.injEq] at hw
    obtain ⟨⟨rfl, rfl⟩, rfl⟩ := hw
    refine ⟨not_le.mp hlt, rfl, rfl, fun l => ?_⟩
    rw [hwrite']
    split_ifs with hl
    · rw [hl, Disk.contents_congr (hopen' _)]
    · exact hopen' l

/-- Without faults a chunk in range is written. -/
theorem writeChunk_of_calm {host : Host} {writer : ChunkWriter} {chunkOffset : ℕ}
    (data : Bytes) {bytes : Bytes} {d : Disk} (hcalm : d.Calm)
    (hlt : chunkOffset < writer.totalChunks)
    (hmul : chunkOffset * writer.chunkSize < 2 ^ 64)
    (htemp : d.lookup (host.locate writer.tempPath) = some (.file bytes)) :
    ∃ d', writeChunk host writer chunkOffset data d = (.ok (host.sha256 data,
        { writer with completedChunks := insert chunkOffset writer.completedChunks }), d') ∧
      d'.Calm ∧ d'.lookup (host.locate writer.tempPath) =
        some (.file (ByteImage.writeAt bytes (chunkOffset * writer.chunkSize) data)) := by
  have hm : checkedMul 64 chunkOffset writer.chunkSize = some (chunkOffset * writer.chunkSize) :=
    checkedMul_eq_some.mpr ⟨hmul, rfl⟩
  have hopen := Disk.openExisting_of_calm hcalm htemp
  have hwrite := Disk.writeAll_of_calm (d := d.touch (host.locate writer.tempPath)) hcalm
    (host.locate writer.tempPath) (chunkOffset * writer.chunkSize) data
  refine ⟨((d.touch (host.locate writer.tempPath)).touch (host.locate writer.tempPath)).set
    (host.locate writer.tempPath) (.file (ByteImage.writeAt bytes
      (chunkOffset * writer.chunkSize) data)), ?_, hcalm, ?_⟩
  · simp only [writeChunk, if_neg (not_le.mpr hlt), hm, Task.ofChecked_some, Task.pure_bind_run]
    rw [Task.bind_of_ok (Task.mapErr_of_ok hopen), Task.bind_of_ok (Task.mapErr_of_ok hwrite),
      Disk.contents_congr (Disk.lookup_touch _ _ _), Disk.contents_eq_of_lookup htemp]
    rfl
  · rw [Disk.lookup_set, if_pos rfl]

/-- A chunk in range is written when neither the opening nor the write fails. -/
theorem writeChunk_of_spared (host : Host) (writer : ChunkWriter) {chunkOffset : ℕ}
    (data : Bytes) {bytes : Bytes} {d : Disk} (hspared : Disk.WriteSpared d.faults)
    (hlt : chunkOffset < writer.totalChunks)
    (hmul : chunkOffset * writer.chunkSize < 2 ^ 64)
    (htemp : d.lookup (host.locate writer.tempPath) = some (.file bytes)) :
    ∃ r d', writeChunk host writer chunkOffset data d = (.ok r, d') := by
  have hm : checkedMul 64 chunkOffset writer.chunkSize = some (chunkOffset * writer.chunkSize) :=
    checkedMul_eq_some.mpr ⟨hmul, rfl⟩
  have hopen := Disk.openExisting_of_spared hspared.1 htemp
  obtain ⟨d₁, hwrite⟩ := Disk.writeAll_of_spared
    (d := { d.touch (host.locate writer.tempPath) with faults := d.faults.tail }) hspared.2
    (host.locate writer.tempPath) (chunkOffset * writer.chunkSize) data
  simp only [writeChunk, if_neg (not_le.mpr hlt), hm, Task.ofChecked_some, Task.pure_bind_run]
  rw [Task.bind_of_ok (Task.mapErr_of_ok hopen), Task.bind_of_ok (Task.mapErr_of_ok hwrite)]
  exact ⟨_, _, rfl⟩

theorem spared_of_writeChunk {host : Host} {writer : ChunkWriter} {chunkOffset : ℕ} {data : Bytes}
    {d d' : Disk} {r : Sha256Hash × ChunkWriter}
    (h : writeChunk host writer chunkOffset data d = (.ok r, d')) :
    Disk.WriteSpared d.faults := by
  unfold writeChunk at h
  split_ifs at h with hlt
  · simp at h
  · simp only [Task.bind_eq_ok] at h
    obtain ⟨_, d₁, hmul, _, d₂, hopen, _, d₃, hwrite, -⟩ := h
    obtain ⟨-, rfl⟩ := Task.ofChecked_eq_ok.mp hmul
    obtain ⟨hspared, hfaults⟩ := Disk.openExisting_faults (Task.mapErr_eq_ok.mp hopen)
    have hspared₂ := Disk.writeAll_faults (Task.mapErr_eq_ok.mp hwrite)
    exact ⟨hspared, hfaults ▸ hspared₂⟩

/-! ### How an operation may end -/

theorem ends_mapErr_io {α : Type} {t : Task Disk IoError α} (ht : Task.NoPanic t) (path : Path)
    {P : Disk → Prop} :
    Task.Ends P (Task.mapErr (StorageError.io path) t) (fun _ _ => True) StorageError.IsIo :=
  (Task.Ends.mapErr ht fun e _ => ⟨path, e, rfl⟩).conseq (fun _ _ => trivial) (fun _ _ h => h)
    fun _ h => h

theorem ends_new {host : Host} {transferId : TransferId} {fileIndex : UInt32} {destPath : Path}
    {chunkSize fileSize : ℕ} (hdiv : Divisible fileSize chunkSize) :
    Task.Ends (fun _ => True) (new host transferId fileIndex destPath chunkSize fileSize)
      (fun _ _ => True) StorageError.IsIo := by
  refine Task.Ends.bind (Q := fun _ _ => True) ?_ fun _ => ?_
  · unfold createParent
    split
    · exact ends_mapErr_io (Disk.noPanic_createDirAll _) _
    · exact fun _ _ => trivial
  · refine Task.Ends.bind (ends_mapErr_io (Disk.noPanic_openCreate _ _) _) fun _ => ?_
    refine Task.Ends.bind (ends_mapErr_io (Disk.noPanic_setLen _ _) _) fun _ => ?_
    refine Task.Ends.bind (Q := fun _ _ => True) (Task.Ends.ofChecked fun _ _ => ?_) fun _ _ _ =>
      trivial
    exact ⟨_, count_eq_some.mpr ⟨hdiv, rfl⟩, trivial⟩

/-- A chunk fails on its own only when it is out of range. -/
theorem ends_writeChunk {host : Host} {writer : ChunkWriter} {chunkOffset : ℕ} {data : Bytes}
    (hmul : chunkOffset < writer.totalChunks → chunkOffset * writer.chunkSize < 2 ^ 64) :
    Task.Ends (fun _ => True) (writeChunk host writer chunkOffset data) (fun _ _ => True)
      fun e => writer.totalChunks ≤ chunkOffset ∨ e.IsIo := by
  unfold writeChunk
  split_ifs with hlt
  · exact Task.Ends.fail (Or.inl hlt)
  · refine Task.Ends.conseq ?_ (fun _ h => h) (fun _ _ h => h) fun _ => Or.inr
    have hm := hmul (not_le.mp hlt)
    refine Task.Ends.bind (Q := fun _ _ => True) (Task.Ends.ofChecked fun _ _ =>
      ⟨_, checkedMul_eq_some.mpr ⟨hm, rfl⟩, trivial⟩) fun _ => ?_
    refine Task.Ends.bind (ends_mapErr_io (Disk.noPanic_openExisting _) _) fun _ => ?_
    exact Task.Ends.bind (ends_mapErr_io (Disk.noPanic_writeAll _ _ _) _) fun _ _ _ => trivial

theorem ends_finalize {host : Host} {writer : ChunkWriter} :
    Task.Ends (fun _ => True) (finalize host writer) (fun _ _ => True) StorageError.IsIo := by
  refine Task.Ends.bind (Q := fun _ _ => True) (fun _ _ => trivial) fun d => ?_
  exact Task.Ends.bind (ends_mapErr_io (Disk.noPanic_rename _ _ _) _) fun _ _ _ => trivial

/-! ### The file-system calls of a new writer -/

/-- The file-system calls of `new`. -/
def prepare (host : Host) (destPath : Path) (fileSize : ℕ) : Task Disk StorageError Unit := do
  let tempPath := tempOf destPath
  createParent host destPath
  Task.mapErr (.io tempPath) (Disk.openCreate (host.locate tempPath) tempPath.dirOnly)
  Task.mapErr (.io tempPath) (Disk.setLen (host.locate tempPath) fileSize)

theorem noPanic_prepare (host : Host) (destPath : Path) (fileSize : ℕ) :
    Task.NoPanic (prepare host destPath fileSize) := by
  refine Task.NoPanic.bind ?_ fun _ => ?_
  · unfold createParent
    split
    · exact (Disk.noPanic_createDirAll _).mapErr _
    · exact Task.NoPanic.pure _
  · exact ((Disk.noPanic_openCreate _ _).mapErr _).bind fun _ =>
      (Disk.noPanic_setLen _ _).mapErr _

/-- A new writer is what its file-system calls and the division leave. -/
theorem new_eq_prepare (host : Host) (transferId : TransferId) (fileIndex : UInt32)
    (destPath : Path) (chunkSize fileSize : ℕ) (d : Disk) :
    new host transferId fileIndex destPath chunkSize fileSize d =
      match prepare host destPath fileSize d with
      | (.ok _, d') =>
        if Divisible fileSize chunkSize then
          (.ok (fresh transferId fileIndex destPath chunkSize fileSize), d')
        else (.panic, d')
      | (.err e, d') => (.err e, d')
      | (.panic, d') => (.panic, d') := by
  rw [new, prepare]
  rcases hdirs : createParent host destPath d with ⟨_ | e | _, d₁⟩
  · rw [Task.bind_of_ok hdirs, Task.bind_of_ok hdirs]
    rcases hopen : Task.mapErr (StorageError.io (tempOf destPath))
      (Disk.openCreate (host.locate (tempOf destPath)) (tempOf destPath).dirOnly) d₁ with
      ⟨_ | e | _, d₂⟩
    · rw [Task.bind_of_ok hopen, Task.bind_of_ok hopen]
      rcases hlen : Task.mapErr (StorageError.io (tempOf destPath))
        (Disk.setLen (host.locate (tempOf destPath)) fileSize) d₂ with ⟨_ | e | _, d₃⟩
      · rw [Task.bind_of_ok hlen]
        by_cases hdiv : Divisible fileSize chunkSize
        · rw [count_eq_some.mpr ⟨hdiv, rfl⟩]
          simp only [if_pos hdiv]
          rfl
        · have hnone : (if fileSize = 0 then some 1 else divCeil fileSize chunkSize) = none := by
            rw [Option.eq_none_iff_forall_ne_some]
            intro count hcount
            exact hdiv (count_eq_some.mp hcount).1
          rw [hnone]
          simp only [if_neg hdiv]
          rfl
      · rw [Task.bind_of_err hlen]
      · rw [Task.bind_of_panic hlen]
    · rw [Task.bind_of_err hopen, Task.bind_of_err hopen]
    · rw [Task.bind_of_panic hopen, Task.bind_of_panic hopen]
  · rw [Task.bind_of_err hdirs, Task.bind_of_err hdirs]
  · rw [Task.bind_of_panic hdirs, Task.bind_of_panic hdirs]

/-- The disk after `new` is the disk after its file-system calls. -/
theorem new_snd (host : Host) (transferId : TransferId) (fileIndex : UInt32) (destPath : Path)
    (chunkSize fileSize : ℕ) (d : Disk) :
    (new host transferId fileIndex destPath chunkSize fileSize d).2 =
      (prepare host destPath fileSize d).2 := by
  rw [new_eq_prepare]
  rcases prepare host destPath fileSize d with ⟨_ | e | _, d'⟩
  · dsimp only
    split_ifs <;> rfl
  · rfl
  · rfl

/-! ### What an operation keeps -/

section Keeps
variable {host : Host} {I : Disk → Prop}

theorem keeps_createParent {destPath : Path}
    (hdirs : ∀ parent, destPath.parent = some parent → ∀ p ∈ parent.ancestors,
      Disk.StableAt I (host.locate p) ∨ ∀ d, I d → d.lookup (host.locate p) = some .dir) :
    Task.Keeps I (createParent host destPath) := by
  unfold createParent
  split
  · rename_i parent hp
    refine Task.Keeps.mapErr _ (Disk.keeps_createDirAll fun loc hloc => ?_)
    obtain ⟨p, hmem, rfl⟩ := List.mem_map.mp hloc
    exact hdirs parent hp p hmem
  · exact Task.Keeps.pure _

theorem keeps_new {transferId : TransferId} {fileIndex : UInt32} {destPath : Path}
    {chunkSize fileSize : ℕ} (hparent : Task.Keeps I (createParent host destPath))
    (htemp : Disk.StableAt I (host.locate (tempOf destPath))) :
    Task.Keeps I (new host transferId fileIndex destPath chunkSize fileSize) := by
  refine Task.Keeps.bind hparent fun _ => ?_
  refine Task.Keeps.bind (Task.Keeps.mapErr _ (Disk.keeps_openCreate htemp _)) fun _ => ?_
  refine Task.Keeps.bind (Task.Keeps.mapErr _ (Disk.keeps_setLen htemp _)) fun _ => ?_
  exact Task.Keeps.bind (Task.Keeps.ofChecked _) fun _ => Task.Keeps.pure _

theorem keeps_writeChunk {writer : ChunkWriter} {chunkOffset : ℕ} {data : Bytes}
    (htemp : Disk.StableAt I (host.locate writer.tempPath)) :
    Task.Keeps I (writeChunk host writer chunkOffset data) := by
  unfold writeChunk
  split_ifs
  · exact Task.Keeps.fail _
  · refine Task.Keeps.bind (Task.Keeps.ofChecked _) fun _ => ?_
    refine Task.Keeps.bind (Task.Keeps.mapErr _ (Disk.keeps_openExisting htemp)) fun _ => ?_
    refine Task.Keeps.bind (Task.Keeps.mapErr _ (Disk.keeps_writeAll htemp _ _)) fun _ => ?_
    exact Task.Keeps.pure _

theorem keeps_finalize {writer : ChunkWriter}
    (htemp : Disk.StableAt I (host.locate writer.tempPath))
    (hdest : ∀ d, Disk.StableAt I (host.locate (uniquePath host d writer.destPath))) :
    Task.Keeps I (finalize host writer) := by
  refine Task.Keeps.bind Task.Keeps.get fun d => ?_
  refine Task.Keeps.bind (Task.Keeps.mapErr _ (Disk.keeps_rename htemp (hdest d) _)) fun _ => ?_
  exact Task.Keeps.pure _

end Keeps

/-! ### What lies elsewhere stays -/

section Elsewhere
variable {host : Host} {l : Loc} {node : Node}

/-- A temporary path that does not end in a name is not opened, whatever its place. -/
theorem keeps_new_lookup {transferId : TransferId} {fileIndex : UInt32} {destPath : Path}
    {chunkSize fileSize : ℕ}
    (h : (tempOf destPath).dirOnly = false → l ≠ host.locate (tempOf destPath)) :
    Task.Keeps (fun d => d.lookup l = some node)
      (new host transferId fileIndex destPath chunkSize fileSize) := by
  have hparent : Task.Keeps (fun d => d.lookup l = some node) (createParent host destPath) := by
    unfold createParent
    split
    · exact Task.Keeps.mapErr _ (Disk.keeps_createDirAll_lookup _ l node)
    · exact Task.Keeps.pure _
  cases hname : (tempOf destPath).dirOnly with
  | false => exact keeps_new hparent (Disk.stableAt_lookup (h hname) node)
  | true =>
    refine Task.Keeps.bind hparent fun _ d hd => ?_
    obtain ⟨e, d', herr, hsame⟩ := Disk.openCreate_of_dirOnly (host.locate (tempOf destPath)) d
    rw [hname, Task.bind_of_err (Task.mapErr_of_err herr), hsame]
    exact hd

theorem keeps_writeChunk_lookup {writer : ChunkWriter} {chunkOffset : ℕ} {data : Bytes}
    (h : l ≠ host.locate writer.tempPath) :
    Task.Keeps (fun d => d.lookup l = some node) (writeChunk host writer chunkOffset data) :=
  keeps_writeChunk (Disk.stableAt_lookup h node)

/-- The name a file is renamed to was free, so it is no other file's. -/
theorem keeps_finalize_lookup {writer : ChunkWriter} (h : l ≠ host.locate writer.tempPath) :
    Task.Keeps (fun d => d.lookup l = some node) (finalize host writer) := by
  intro d hd
  simp only [finalize, Task.get_bind_run]
  rcases Disk.rename_cases (host.locate writer.tempPath)
      (host.locate (uniquePath host d writer.destPath))
      (uniquePath host d writer.destPath).dirOnly d with ⟨d', hok⟩ | ⟨e, d', herr, hsame⟩
  · have hfree := Disk.free_of_rename hok (tryExists_uniquePath host d writer.destPath)
    have hdest : l ≠ host.locate (uniquePath host d writer.destPath) := by
      rintro rfl
      simp [hfree] at hd
    obtain ⟨_, -, hlookup⟩ := Disk.rename_lookup hok
    rw [Task.bind_of_ok (Task.mapErr_of_ok hok), Task.pure_run, hlookup, if_neg hdest, if_neg h]
    exact hd
  · rw [Task.bind_of_err (Task.mapErr_of_err herr), hsame]
    exact hd

end Elsewhere

/-- The temporary file moves to a place that was free. -/
theorem finalize_eq_ok {host : Host} {writer : ChunkWriter} {d d' : Disk} {dest : Path}
    (h : finalize host writer d = (.ok dest, d')) :
    d.lookup (host.locate dest) = none ∧
      ∃ node, d.lookup (host.locate writer.tempPath) = some node ∧
        ∀ l, d'.lookup l =
          if l = host.locate dest then some node
          else if l = host.locate writer.tempPath then none
          else d.lookup l := by
  simp only [finalize, Task.get_bind_run, Task.bind_eq_ok, Task.mapErr_eq_ok] at h
  obtain ⟨_, d₁, hren, hp⟩ := h
  simp only [Task.pure_run, Prod.mk.injEq, Outcome.ok.injEq] at hp
  obtain ⟨rfl, rfl⟩ := hp
  exact ⟨Disk.free_of_rename hren (tryExists_uniquePath host d writer.destPath),
    Disk.rename_lookup hren⟩

end ChunkWriter
end JustDrop

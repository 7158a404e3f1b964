import JustDrop.Confinement
import JustDrop.Interruption

/-!
# Where a receiver touches the disk

The destination of a file is its path joined to the download directory, and neither
is looked at before directories and the temporary file are created there. What a
manifest leads to depends on its paths and on what stands in their way.
-/
namespace JustDrop
namespace RecvTransfer
open World

variable {receiver : RecvTransfer} {manifest : TransferManifest}

/-- The resolved download directory. -/
def root (receiver : RecvTransfer) : Loc := receiver.host.locate receiver.downloadDir

/-- File by file, as long as the files before could be made ready: what is missing on
the way to the temporary file, and that file, lie inside the download directory. -/
def Contained (receiver : RecvTransfer) (chunkSize : ℕ) : List FileEntry → Tree → Prop
  | [], _ => True
  | entry :: entries, tree =>
    ChunkWriter.Within receiver.host receiver.root (receiver.destOf entry) tree ∧
      (ChunkWriter.Ready receiver.host (receiver.destOf entry) tree →
        Divisible entry.size.toNat chunkSize →
        Contained receiver chunkSize entries
          (ChunkWriter.prepared receiver.host (receiver.destOf entry) entry.size.toNat tree))

theorem confined_openWriters {before : List Loc} {entries : List FileEntry} (world : World)
    (h : Disk.Confined receiver.root before world.disk)
    (hcontained : Contained receiver manifest.chunkSize.toNat entries world.disk.lookup) :
    Disk.Confined receiver.root before (openWriters receiver manifest entries world).2.disk ∧
      ∀ writers world', openWriters receiver manifest entries world = (.ok writers, world') →
        ∀ entry ∈ entries, Loc.Inside receiver.root (receiver.tempLoc entry) := by
  induction entries generalizing world with
  | nil => exact ⟨h, fun _ _ _ => by simp⟩
  | cons entry entries ih =>
    have hnew := ChunkWriter.new_eq_prepare receiver.host manifest.transferId entry.index
      (receiver.destOf entry) manifest.chunkSize.toNat entry.size.toNat world.disk
    have hprepared := ChunkWriter.confined_prepare entry.size.toNat h hcontained.1
    rw [openWriters]
    rcases hprepare : ChunkWriter.prepare receiver.host (receiver.destOf entry)
      entry.size.toNat world.disk with ⟨_ | e | _, disk⟩ <;>
      simp only [hprepare] at hnew hprepared
    · split_ifs at hnew with hdivisible
      · obtain ⟨hready, hlookup⟩ := ChunkWriter.prepare_eq_ok hprepare
        have hrest := hcontained.2 hready hdivisible
        rw [← hlookup] at hrest
        obtain ⟨hconfined, hinside⟩ := ih { world with disk } hprepared hrest
        rw [Task.bind_of_ok (onDisk_of_ok hnew)]
        constructor
        · exact Task.Keeps.after (I := fun world : World => Disk.Confined receiver.root before
            world.disk) hconfined fun _ => Task.Keeps.pure _
        · intro writers world' hopen
          obtain ⟨writers₁, world₁, hopen₁, -⟩ := Task.bind_eq_ok.mp hopen
          exact List.forall_mem_cons.mpr
            ⟨hcontained.1.temp hready.clear, hinside writers₁ world₁ hopen₁⟩
      · rw [Task.bind_of_panic (onDisk_of_panic hnew)]
        exact ⟨hprepared, fun _ _ hopen => by simp at hopen⟩
    · rw [Task.bind_of_err (onDisk_of_err hnew)]
      exact ⟨hprepared, fun _ _ hopen => by simp at hopen⟩
    · exact absurd (congrArg Prod.fst hprepare)
        ((ChunkWriter.noPanic_prepare _ _ _).ne_panic trivial)

theorem keeps_openWriters_escaped (receiver : RecvTransfer) (manifest : TransferManifest)
    (before : List Loc) (entries : List FileEntry) :
    Task.Keeps (fun world => Disk.Escaped receiver.root before world.disk)
      (openWriters receiver manifest entries) := by
  induction entries with
  | nil => exact Task.Keeps.pure _
  | cons entry entries ih =>
    refine Task.Keeps.bind (fun world h => ?_) fun _ => Task.Keeps.bind ih fun _ =>
      Task.Keeps.pure _
    show Disk.Escaped _ _ (Task.mapErr _ (ChunkWriter.new _ _ _ _ _ _) world.disk).2
    rw [Task.mapErr_snd, ChunkWriter.new_snd]
    exact ChunkWriter.keeps_prepare_escaped _ _ _ _ h

theorem escaped_openWriters {before : List Loc} {entries : List FileEntry} (world : World)
    (hcalm : world.disk.Calm) (h : Disk.Confined receiver.root before world.disk)
    (hnot : ¬Contained receiver manifest.chunkSize.toNat entries world.disk.lookup) :
    Disk.Escaped receiver.root before
      (openWriters receiver manifest entries world).2.disk := by
  induction entries generalizing world with
  | nil => exact absurd trivial hnot
  | cons entry entries ih =>
    have hkeep := keeps_openWriters_escaped receiver manifest before entries
    by_cases hwithin : ChunkWriter.Within receiver.host receiver.root (receiver.destOf entry)
        world.disk.lookup
    · have hrest : ∃ (_ : ChunkWriter.Ready receiver.host (receiver.destOf entry)
          world.disk.lookup) (_ : Divisible entry.size.toNat manifest.chunkSize.toNat),
          ¬Contained receiver manifest.chunkSize.toNat entries (ChunkWriter.prepared
            receiver.host (receiver.destOf entry) entry.size.toNat world.disk.lookup) := by
        by_contra hall
        simp only [not_exists, not_not] at hall
        exact hnot ⟨hwithin, hall⟩
      obtain ⟨hready, hdivisible, hout⟩ := hrest
      obtain ⟨disk, hprepare, hcalm₁⟩ :=
        ChunkWriter.prepare_of_calm entry.size.toNat hcalm hready
      have hnew := ChunkWriter.new_eq_prepare receiver.host manifest.transferId entry.index
        (receiver.destOf entry) manifest.chunkSize.toNat entry.size.toNat world.disk
      have hprepared := ChunkWriter.confined_prepare entry.size.toNat h hwithin
      simp only [hprepare, if_pos hdivisible] at hnew hprepared
      rw [← (ChunkWriter.prepare_eq_ok hprepare).2] at hout
      have hescaped := ih { world with disk } hcalm₁ hprepared hout
      rw [openWriters, Task.bind_of_ok (onDisk_of_ok hnew)]
      exact Task.Keeps.after (I := fun world : World => Disk.Escaped receiver.root before
        world.disk) hescaped fun _ => Task.Keeps.pure _
    · have hescaped := ChunkWriter.escaped_prepare entry.size.toNat hcalm h hwithin
      rw [openWriters]
      refine Task.Keeps.after (I := fun world : World => Disk.Escaped receiver.root before
        world.disk) ?_ fun _ => Task.Keeps.bind hkeep fun _ => Task.Keeps.pure _
      show Disk.Escaped _ _ (Task.mapErr _ (ChunkWriter.new _ _ _ _ _ _) world.disk).2
      rwa [Task.mapErr_snd, ChunkWriter.new_snd]

/-! ### The turns -/

section Keeps
variable {I : Disk → Prop}

/-- Calls at the temporary file and at the destination of a writer cannot break `I`. -/
def SparedBy (receiver : RecvTransfer) (I : Disk → Prop) (writers : List (Option ChunkWriter)) :
    Prop :=
  ∀ writer : ChunkWriter, some writer ∈ writers →
    Disk.StableAt I (receiver.host.locate writer.tempPath) ∧
      ∀ d, Disk.StableAt I (receiver.host.locate (uniquePath receiver.host d writer.destPath))

theorem SparedBy.step {state state' : RecvState} {id : ChunkId} {data : Bytes}
    {world world' : World} (h : SparedBy receiver I state.writers)
    (hchunk : handleChunk receiver manifest state id data world = (.ok state', world')) :
    SparedBy receiver I state'.writers := by
  obtain ⟨writer, hwriter, -, hset, -⟩ := handleChunk_eq_ok hchunk
  intro w hw
  rw [hset] at hw
  rcases List.mem_or_eq_of_mem_set hw with hold | hnew
  · exact h w hold
  · obtain rfl := Option.some.inj hnew
    exact h writer (List.mem_of_getElem? hwriter)

theorem keeps_disk {α : Type} {f : StorageError → ProtocolError} {t : Task Disk StorageError α}
    (h : Task.Keeps I t) : Task.Keeps (fun world => I world.disk) (onDisk (Task.mapErr f t)) :=
  Task.Keeps.zoom (Task.Keeps.mapErr f h) (fun _ hI => hI) fun _ _ _ hI => hI

/-- The turns keep what calls at the files of the writers cannot break. -/
theorem keeps_receiveLoop_disk (hfaults : ∀ d faults, I d → I { d with faults })
    {turns : List Turn} {state : RecvState} (h : SparedBy receiver I state.writers) :
    Task.Keeps (fun world => I world.disk) (receiveLoop receiver manifest turns state) := by
  refine keeps_receiveLoop_of (S := fun state => SparedBy receiver I state.writers)
    ?_ ?_ ?_ ?_ ?_ ?_
  · exact fun _ _ _ _ hI => hI
  · intro state id data hspared
    apply keeps_handleChunk_of
    · exact fun writer hwriter _ _ =>
        keeps_disk (ChunkWriter.keeps_writeChunk (hspared writer hwriter).1)
    · exact fun _ _ hI => hI
    · exact fun _ _ hI => hI
  · exact fun _ _ _ _ _ _ hspared hchunk => hspared.step hchunk
  · intro state manifestHash shutdownFault hspared
    apply keeps_complete_of
    · exact fun _ _ _ _ hI => hI
    · intro entries i
      apply keeps_finishFiles_of
      · intro writer hwriter
        obtain ⟨htemp, hdest⟩ := hspared writer hwriter
        exact keeps_disk (ChunkWriter.keeps_finalize htemp hdest)
      · exact fun _ _ _ hI => hI
    · exact fun _ _ hI => hI
  · exact fun _ _ _ hI => hfaults _ _ hI
  · exact h

end Keeps

/-! ### The run -/

/-- New writers touch their temporary files and free names beside them. -/
theorem sparedBy_of_inside {before : List Loc} {world world' : World}
    {writers : List (Option ChunkWriter)}
    (hopen : openWriters receiver manifest manifest.files world = (.ok writers, world'))
    (hinside : ∀ entry ∈ manifest.files, Loc.Inside receiver.root (receiver.tempLoc entry)) :
    SparedBy receiver (Disk.Confined receiver.root before) writers := by
  obtain ⟨rfl, -⟩ := openWriters_eq_ok hopen
  intro writer hwriter
  obtain ⟨entry, hentry, hw⟩ := List.mem_map.mp hwriter
  obtain rfl := Option.some.inj hw
  have htemp := hinside entry hentry
  exact ⟨Disk.stableAt_confined htemp,
    fun d => Disk.stableAt_confined (ChunkWriter.inside_uniquePath htemp d)⟩

theorem confined_receiveFiles {script : Script} {remoteStatic : PublicKey} {world : World}
    (hcontained : ∀ response,
      acceptResponse receiver manifest (world.resume manifest.transferId) = some response →
      (Message.transferResponse response).Fits →
      Contained receiver manifest.chunkSize.toNat manifest.files world.disk.lookup) :
    Disk.Confined receiver.root world.disk.touched
      (receiveFiles receiver manifest (world.resume manifest.transferId) script.turns
        (started script.request remoteStatic manifest world)).2.disk := by
  have hstart : Disk.Confined receiver.root world.disk.touched
      (started script.request remoteStatic manifest world).disk :=
    Disk.confined_start receiver.root world.disk
  rcases receiveFiles_started receiver manifest (world.resume manifest.transferId) script.turns
    script.request remoteStatic world with ⟨-, hrun⟩ | ⟨response, hresponse, hrest⟩
  · rw [hrun]
    exact hstart
  · rcases hrest with ⟨-, e, codec, hrun⟩ | ⟨hfit, -, codec, -, hrun⟩ <;> rw [hrun]
    · exact hstart
    · obtain ⟨hconfined, hinside⟩ := confined_openWriters
        { started script.request remoteStatic manifest world with codec } hstart
        (hcontained response hresponse hfit)
      rcases hopen : openWriters receiver manifest manifest.files
        { started script.request remoteStatic manifest world with codec } with
        ⟨writers | e | _, world₂⟩ <;> rw [hopen] at hconfined
      · rw [Task.bind_of_ok hopen]
        have hspared : SparedBy receiver (Disk.Confined receiver.root world.disk.touched)
            writers := sparedBy_of_inside hopen (hinside writers world₂ hopen)
        exact keeps_receiveLoop_disk (fun _ _ h => h) hspared world₂ hconfined
      · rw [Task.bind_of_err hopen]
        exact hconfined
      · rw [Task.bind_of_panic hopen]
        exact hconfined

/-- An accepted offer that nothing fails touches what the manifest leads to. -/
theorem escaped_of_not_contained {world : World} {response : TransferResponse}
    (hresponse : acceptResponse receiver manifest (world.resume manifest.transferId) =
      some response) (hfit : (Message.transferResponse response).Fits)
    (hnot : ¬Contained receiver manifest.chunkSize.toNat manifest.files world.disk.lookup)
    (remoteStatic : PublicKey) (chunks : List Delivery) (manifestHash : Sha256Hash) :
    Disk.Escaped receiver.root world.disk.touched (handleIncoming receiver
      (peerScript remoteStatic manifest (some .accept) chunks manifestHash) world).2.disk := by
  have hdecision : receiver.decisionOf (some .accept) = .accept := by
    unfold decisionOf
    split_ifs <;> rfl
  rw [handleIncoming_of_accept rfl rfl hdecision]
  rcases receiveFiles_started receiver manifest (world.resume manifest.transferId)
    (peerScript remoteStatic manifest (some .accept) chunks manifestHash).turns
    (Turn.calm (.transferRequest manifest)) remoteStatic world with
    ⟨hnone, -⟩ | ⟨response', hsome, ⟨hunsent, -⟩ | ⟨-, -, codec, -, hrun⟩⟩
  · simp [hresponse] at hnone
  · obtain rfl := Option.some.inj (hresponse.symm.trans hsome)
    exact absurd ⟨hfit, rfl⟩ hunsent
  · have hescaped := escaped_openWriters
      { started (Turn.calm (.transferRequest manifest)) remoteStatic manifest world with codec }
      rfl (Disk.confined_start receiver.root world.disk) hnot
    show Disk.Escaped receiver.root world.disk.touched
      (receiveFiles receiver manifest (world.resume manifest.transferId) _
        (started (Turn.calm (.transferRequest manifest)) remoteStatic manifest world)).2.disk
    rw [hrun]
    refine Task.Keeps.after (I := fun world' : World => Disk.Escaped receiver.root
      world.disk.touched world'.disk) hescaped fun writers => ?_
    exact keeps_receiveLoop_disk (fun _ _ h => h) fun _ _ =>
      ⟨Disk.stableAt_escaped _, fun _ => Disk.stableAt_escaped _⟩

/-- A host on which the download directory exists. -/
def homeWorld : World :=
  { emptyWorld with
    disk := {
      nodes := ((∅ : Finmap fun _ : Loc => Node).insert ["home".toList] .dir).insert
        ["home".toList, "JustDrop".toList] .dir
      touched := []
      faults := [] } }

/-- The disk after one file of one byte has been received under this path. -/
def diskAfter (relativePath : String) : Disk :=
  (handleIncoming (plainReceiver 100) (peerScript (Vector.replicate 32 1)
    (plainManifest 1 [plainEntry 0 relativePath [1]]) (some .accept) [(⟨0, 0⟩, [1])]
    (sumHash [])) homeWorld).2.disk

/-- A relative path of ordinary names, the last of them not of the form `..x`, of which
only `..` is left without its extension. -/
structure Plain (entry : FileEntry) : Prop where
  relative : (Path.ofString entry.relativePath).absolute = false
  names : ∃ names : List Name, names ≠ [] ∧
    (Path.ofString entry.relativePath).comps = names.map Component.normal
  stem : (Path.ofString entry.relativePath).fileStem ≠ some ['.']

theorem locate_append_names (cwd : Loc) (p : Path) (names : List Name) :
    Path.locate cwd ⟨p.absolute, p.comps ++ names.map Component.normal, false⟩ =
      Path.locate cwd p ++ names := by
  induction names using List.reverseRecOn with
  | nil => simp [Path.locate]
  | append_singleton names name ih =>
    have hchild : (⟨p.absolute, p.comps ++ (names ++ [name]).map Component.normal, false⟩ : Path) =
        Path.child ⟨p.absolute, p.comps ++ names.map Component.normal, false⟩ name := by
      simp [Path.child]
    rw [hchild, Path.locate_child, ih, List.append_assoc]

variable (receiver) in
/-- An ordinary path is appended to the download directory. -/
theorem destOf_of_plain {entry : FileEntry} (h : Plain entry) :
    ∃ (names : List Name) (name : Name), stemOf name ≠ ['.'] ∧
      (receiver.destOf entry).fileName = some name ∧
      (receiver.destOf entry).parent = some ⟨receiver.downloadDir.absolute,
        receiver.downloadDir.comps ++ names.map Component.normal, false⟩ := by
  obtain ⟨names, hne, hcomps⟩ := h.names
  obtain ⟨above, name, rfl⟩ := (List.eq_nil_or_concat names).resolve_left hne
  have hfilter : ((above.concat name).map Component.normal).filter (· ≠ .curDir) =
      (above.concat name).map Component.normal := by
    rw [List.filter_eq_self]
    intro c hc
    obtain ⟨n, -, rfl⟩ := List.mem_map.mp hc
    simp
  have hrelative := h.relative
  have hstem := h.stem
  generalize hpath : Path.ofString entry.relativePath = path at hcomps hrelative hstem
  obtain ⟨absolute, comps, trailing⟩ := path
  obtain rfl : comps = (above.concat name).map Component.normal := hcomps
  obtain rfl : absolute = false := hrelative
  have hname : Path.fileName ⟨false, (above.concat name).map Component.normal, trailing⟩ =
      some name := by
    simp [Path.fileName]
  have hdest : receiver.destOf entry = ⟨receiver.downloadDir.absolute,
      receiver.downloadDir.comps ++ (above.concat name).map Component.normal, trailing⟩ := by
    rw [destOf, Path.join, hpath, hfilter]
    by_cases hempty : receiver.downloadDir.absolute = false ∧ receiver.downloadDir.comps = []
    · simp [hempty]
    · simp [hempty]
  refine ⟨above, name, ?_, ?_, ?_⟩
  · intro hdot
    exact hstem (by rw [Path.fileStem, hname, Option.map_some, hdot])
  · rw [hdest]
    simp [Path.fileName]
  · rw [hdest]
    simp [Path.parent, Path.above, ← List.append_assoc]

/-- Directories that are there stay there. -/
theorem dir_prepared {host : Host} {destPath : Path} {fileSize : ℕ} {tree : Tree} {loc : Loc}
    (hready : ChunkWriter.Ready host destPath tree) (h : tree loc = some .dir) :
    ChunkWriter.prepared host destPath fileSize tree loc = some .dir := by
  have hne : loc ≠ host.locate (ChunkWriter.tempOf destPath) := by
    rintro rfl
    exact hready.temp.2 h
  rw [ChunkWriter.prepared, if_neg hne]
  split_ifs
  · rfl
  · exact h

theorem within_of_plain {entry : FileEntry} {tree : Tree} (h : Plain entry)
    (hdirs : ∀ p ∈ receiver.downloadDir.ancestors, tree (receiver.host.locate p) = some .dir) :
    ChunkWriter.Within receiver.host receiver.root (receiver.destOf entry) tree := by
  obtain ⟨names, name, hstem, hname, hparent⟩ := destOf_of_plain receiver h
  have hlocate := locate_append_names receiver.host.cwd receiver.downloadDir
  constructor
  · intro loc hwalked hmissing
    have hloc := List.takeWhile_subset _ hwalked
    simp only [ChunkWriter.dirsOf, hparent, List.mem_map] at hloc
    obtain ⟨⟨absolute, comps, trailing⟩, hancestor, rfl⟩ := hloc
    obtain ⟨habsolute, ⟨hne, hprefix⟩, htrailing⟩ := Path.mem_ancestors.mp hancestor
    obtain rfl : absolute = receiver.downloadDir.absolute := habsolute
    obtain rfl : trailing = false := htrailing
    have hnotAbove : ¬comps <+: receiver.downloadDir.comps := by
      intro habove
      have hdir := hdirs ⟨receiver.downloadDir.absolute, comps, false⟩
        (Path.mem_ancestors.mpr ⟨rfl, ⟨hne, habove⟩, rfl⟩)
      simp [hmissing] at hdir
    obtain ⟨below, rfl⟩ := (List.prefix_or_prefix_of_prefix hprefix
      (List.prefix_append _ _)).resolve_left hnotAbove
    have hbelow := List.prefix_iff_eq_take.mp ((List.prefix_append_right_inj _).mp hprefix)
    rw [← List.map_take] at hbelow
    rw [hbelow, Host.locate, hlocate]
    refine Loc.inside_append fun hnil => ?_
    rw [hnil, List.map_nil] at hbelow
    rw [hbelow, List.append_nil] at hnotAbove
    exact hnotAbove (List.prefix_refl _)
  · intro _
    obtain ⟨cut, hcut, -⟩ := Path.exists_cutExtension hname (Or.inl hstem)
    have habove : (receiver.destOf entry).above = ⟨receiver.downloadDir.absolute,
        receiver.downloadDir.comps ++ names.map Component.normal, false⟩ := by
      unfold Path.parent at hparent
      split_ifs at hparent
      exact Option.some.inj hparent
    rw [Host.locate, ChunkWriter.tempOf, Path.locate_withExtension hcut, Loc.inside_concat,
      habove, hlocate]
    exact List.prefix_append _ _

/-- Once the download directory is there, files under ordinary names stay in it. -/
theorem contained_of_plain {chunkSize : ℕ} {entries : List FileEntry} {tree : Tree}
    (hplain : ∀ entry ∈ entries, Plain entry)
    (hdirs : ∀ p ∈ receiver.downloadDir.ancestors, tree (receiver.host.locate p) = some .dir) :
    Contained receiver chunkSize entries tree := by
  induction entries generalizing tree with
  | nil => trivial
  | cons entry entries ih =>
    rw [List.forall_mem_cons] at hplain
    refine ⟨within_of_plain hplain.1 hdirs, fun hready _ => ih hplain.2 fun p hp => ?_⟩
    exact dir_prepared hready (hdirs p hp)

end RecvTransfer
end JustDrop

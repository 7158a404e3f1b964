import JustDrop.ReceiveRun

/-!
# Delivered chunks

A peer that sends chunk messages and then the completion determines, file by
file, the bytes the receiver assembles and the offsets it records. The run is
answered positively exactly when the deliveries cover every file.
-/
namespace JustDrop
open ByteImage

/-- A turn on which nothing fails. -/
def Turn.calm (message : Message) : Turn :=
  { recv := .ok (some message), diskFaults := [], sendFault := false, shutdownFault := false }

namespace RecvTransfer
open World
open ProtocolCodec (SentAll keeps_sentAll)

/-- A chunk message: its id and its data. -/
abbrev Delivery := ChunkId × Bytes

def chunkTurns (chunks : List Delivery) : List Turn :=
  chunks.map fun chunk => Turn.calm (.chunkData chunk.1 chunk.2)

/-- A peer that offers the manifest, sends the chunks and completes the transfer. -/
def peerScript (remoteStatic : PublicKey) (manifest : TransferManifest)
    (decision : Option IncomingTransferDecision) (chunks : List Delivery)
    (manifestHash : Sha256Hash) : Script where
  handshake := .ok remoteStatic
  request := Turn.calm (.transferRequest manifest)
  decision := decision
  turns := chunkTurns chunks ++ [Turn.calm (.transferComplete manifestHash)]

def deliveredTo (chunks : List Delivery) (i : ℕ) : List Delivery :=
  chunks.filter fun chunk => chunk.1.fileIndex.toNat = i

def offsetsOf (chunks : List Delivery) (i : ℕ) : Finset ℕ :=
  ((deliveredTo chunks i).map fun chunk => chunk.1.chunkOffset.toNat).toFinset

theorem deliveredTo_concat (chunks : List Delivery) (chunk : Delivery) (i : ℕ) :
    deliveredTo (chunks ++ [chunk]) i =
      if chunk.1.fileIndex.toNat = i then deliveredTo chunks i ++ [chunk]
      else deliveredTo chunks i := by
  unfold deliveredTo
  split_ifs with h <;> simp [h]

theorem mem_offsetsOf {chunks : List Delivery} {i k : ℕ} :
    k ∈ offsetsOf chunks i ↔
      ∃ chunk ∈ chunks, chunk.1.fileIndex.toNat = i ∧ chunk.1.chunkOffset.toNat = k := by
  simp [offsetsOf, deliveredTo, and_assoc]

theorem offsetsOf_concat (chunks : List Delivery) (chunk : Delivery) (i : ℕ) :
    offsetsOf (chunks ++ [chunk]) i =
      if chunk.1.fileIndex.toNat = i then insert chunk.1.chunkOffset.toNat (offsetsOf chunks i)
      else offsetsOf chunks i := by
  ext k
  split_ifs with h <;> simp only [Finset.mem_insert, mem_offsetsOf, List.mem_append,
    List.mem_singleton, or_and_right, exists_or, exists_eq_left, h, true_and, false_and, or_false]
  rw [or_comm, eq_comm]

variable {receiver : RecvTransfer} {manifest : TransferManifest}

/-- The bytes of a temporary file after the deliveries, on a disk that was `d` before. -/
def assembled (receiver : RecvTransfer) (manifest : TransferManifest) (d : Disk)
    (chunks : List Delivery) (i : ℕ) (entry : FileEntry) : Bytes :=
  applyWrites (receiver.preallocated d entry) ((deliveredTo chunks i).map fun chunk =>
    (chunk.1.chunkOffset.toNat * manifest.chunkSize.toNat, chunk.2))

theorem assembled_concat (d : Disk) (chunks : List Delivery) (chunk : Delivery) (i : ℕ)
    (entry : FileEntry) :
    assembled receiver manifest d (chunks ++ [chunk]) i entry =
      if chunk.1.fileIndex.toNat = i then
        writeAt (assembled receiver manifest d chunks i entry)
          (chunk.1.chunkOffset.toNat * manifest.chunkSize.toNat) chunk.2
      else assembled receiver manifest d chunks i entry := by
  unfold assembled
  rw [deliveredTo_concat]
  split_ifs with h
  · rw [List.map_append, List.map_singleton, applyWrites_concat]
  · rfl

/-- The writer of the `i`-th entry after the deliveries. -/
def writerAfter (receiver : RecvTransfer) (manifest : TransferManifest) (chunks : List Delivery)
    (i : ℕ) (entry : FileEntry) : ChunkWriter :=
  { writerOf receiver manifest entry with completedChunks := offsetsOf chunks i }

@[simp] theorem locate_writerAfter (chunks : List Delivery) (i : ℕ) (entry : FileEntry) :
    receiver.host.locate (writerAfter receiver manifest chunks i entry).tempPath =
      receiver.tempLoc entry := rfl
@[simp] theorem chunkSize_writerAfter (chunks : List Delivery) (i : ℕ) (entry : FileEntry) :
    (writerAfter receiver manifest chunks i entry).chunkSize = manifest.chunkSize.toNat := rfl
@[simp] theorem totalChunks_writerAfter (chunks : List Delivery) (i : ℕ) (entry : FileEntry) :
    (writerAfter receiver manifest chunks i entry).totalChunks =
      chunksOf entry.size.toNat manifest.chunkSize.toNat := rfl
@[simp] theorem completedChunks_writerAfter (chunks : List Delivery) (i : ℕ)
    (entry : FileEntry) :
    (writerAfter receiver manifest chunks i entry).completedChunks = offsetsOf chunks i := rfl

theorem writerAfter_concat (chunks : List Delivery) (chunk : Delivery) (i : ℕ)
    (entry : FileEntry) :
    writerAfter receiver manifest (chunks ++ [chunk]) i entry =
      if chunk.1.fileIndex.toNat = i then
        { writerAfter receiver manifest chunks i entry with
          completedChunks := insert chunk.1.chunkOffset.toNat (offsetsOf chunks i) }
      else writerAfter receiver manifest chunks i entry := by
  unfold writerAfter
  rw [offsetsOf_concat]
  split_ifs <;> rfl

/-- After the deliveries every writer has recorded its offsets. -/
def WritersAfter (receiver : RecvTransfer) (manifest : TransferManifest) (chunks : List Delivery)
    (state : RecvState) : Prop :=
  ∀ i, state.writers[i]? =
    (manifest.files[i]?).map fun entry => some (writerAfter receiver manifest chunks i entry)

theorem WritersAfter.getElem? {chunks : List Delivery} {state : RecvState} {i : ℕ}
    {entry : FileEntry} (h : WritersAfter receiver manifest chunks state)
    (hi : manifest.files[i]? = some entry) :
    state.writers[i]? = some (some (writerAfter receiver manifest chunks i entry)) := by
  rw [h, hi]
  rfl

theorem WritersAfter.eq_of_getElem? {chunks : List Delivery} {state : RecvState} {i : ℕ}
    {writer : ChunkWriter} (h : WritersAfter receiver manifest chunks state)
    (hi : state.writers[i]? = some (some writer)) :
    ∃ entry, manifest.files[i]? = some entry ∧
      writer = writerAfter receiver manifest chunks i entry := by
  obtain ⟨entry, he, hw⟩ := Option.map_eq_some_iff.mp ((h i).symm.trans hi)
  exact ⟨entry, he, (Option.some.inj hw).symm⟩

/-- Recording one more offset. -/
theorem WritersAfter.step {chunks : List Delivery} {chunk : Delivery} {state state' : RecvState}
    {writer : ChunkWriter} (h : WritersAfter receiver manifest chunks state)
    (hwriter : state.writers[chunk.1.fileIndex.toNat]? = some (some writer))
    (hset : state'.writers = state.writers.set chunk.1.fileIndex.toNat (some { writer with
      completedChunks := insert chunk.1.chunkOffset.toNat writer.completedChunks })) :
    WritersAfter receiver manifest (chunks ++ [chunk]) state' := by
  intro i
  obtain ⟨entry, hentry, rfl⟩ := h.eq_of_getElem? hwriter
  rw [hset, List.getElem?_set]
  split_ifs with hi hlen
  · subst hi
    rw [hentry, Option.map_some, writerAfter_concat, if_pos rfl, completedChunks_writerAfter]
  · subst hi
    rw [List.getElem?_eq_none (not_lt.mp hlen)] at hwriter
    simp at hwriter
  · rw [h]
    refine congrArg (fun f => Option.map f manifest.files[i]?) (funext fun e => ?_)
    rw [writerAfter_concat, if_neg hi]

/-- Every writer has recorded its offsets and every temporary file holds its
assembled bytes; nothing is published yet. -/
structure Assembling (receiver : RecvTransfer) (manifest : TransferManifest) (d : Disk)
    (before : ℕ) (chunks : List Delivery) (state : RecvState) (world : World) : Prop where
  writers : WritersAfter receiver manifest chunks state
  temps : ∀ i entry, manifest.files[i]? = some entry →
    world.disk.lookup (receiver.tempLoc entry) =
      some (.file (assembled receiver manifest d chunks i entry))
  bytes : state.bytesReceived = before + (chunks.map fun chunk => chunk.2.length).sum
  published : world.published = []

/-- A delivery that the receiver can take: an entry of its index and an offset in range. -/
def Deliverable (manifest : TransferManifest) (chunk : Delivery) : Prop :=
  ∃ entry, manifest.files[chunk.1.fileIndex.toNat]? = some entry ∧
    chunk.1.chunkOffset.toNat < chunksOf entry.size.toNat manifest.chunkSize.toNat

instance (manifest : TransferManifest) (chunk : Delivery) :
    Decidable (Deliverable manifest chunk) :=
  decidable_of_iff (∃ entry ∈ manifest.files[chunk.1.fileIndex.toNat]?,
    chunk.1.chunkOffset.toNat < chunksOf entry.size.toNat manifest.chunkSize.toNat) Iff.rfl

theorem tempLoc_injective (hdistinct : TempsDistinct receiver manifest) {i j : ℕ}
    {entry entry' : FileEntry} (hi : manifest.files[i]? = some entry)
    (hj : manifest.files[j]? = some entry')
    (h : receiver.tempLoc entry = receiver.tempLoc entry') : i = j := by
  have hlt : i < (manifest.files.map receiver.tempLoc).length := by
    rw [List.length_map]
    exact (List.getElem?_eq_some_iff.mp hi).1
  refine (List.getElem?_inj hlt hdistinct).mp ?_
  rw [List.getElem?_map, List.getElem?_map, hi, hj, Option.map_some, Option.map_some, h]

/-- Taking one more chunk. -/
theorem Assembling.step (hdistinct : TempsDistinct receiver manifest) {d : Disk} {before : ℕ}
    {chunks : List Delivery} {chunk : Delivery} {state state' : RecvState} {world world' : World}
    (h : Assembling receiver manifest d before chunks state world)
    (hchunk : handleChunk receiver manifest state chunk.1 chunk.2 world = (.ok state', world')) :
    Assembling receiver manifest d before (chunks ++ [chunk]) state' world' ∧
      Deliverable manifest chunk ∧ state'.bytesReceived < 2 ^ 64 := by
  obtain ⟨writer, hwriter, hlt, hwriters, hbytes, hbound, hpub, -, -, hdisk⟩ :=
    handleChunk_eq_ok hchunk
  have hstep := h.writers.step hwriter hwriters
  obtain ⟨entry, hentry, rfl⟩ := h.writers.eq_of_getElem? hwriter
  refine ⟨⟨hstep, fun i e he => ?_, ?_, hpub.trans h.published⟩, ⟨entry, hentry, hlt⟩, hbound⟩
  · rw [hdisk, assembled_concat, locate_writerAfter]
    by_cases hi : chunk.1.fileIndex.toNat = i
    · subst hi
      obtain rfl := Option.some.inj (hentry.symm.trans he)
      rw [if_pos rfl, if_pos rfl, Disk.contents_eq_of_lookup (h.temps _ _ hentry),
        chunkSize_writerAfter]
    · have hne : receiver.tempLoc e ≠ receiver.tempLoc entry := fun heq =>
        hi (tempLoc_injective hdistinct hentry he heq.symm)
      rw [if_neg hi, if_neg hne]
      exact h.temps i e he
  · rw [hbytes, h.bytes]
    simp [Nat.add_assoc]

theorem writersAfter_open {world world' : World} {writers : List (Option ChunkWriter)}
    (h : openWriters receiver manifest manifest.files world = (.ok writers, world')) (before : ℕ) :
    WritersAfter receiver manifest [] { writers, bytesReceived := before } := by
  obtain ⟨rfl, -⟩ := openWriters_eq_ok h
  intro i
  rw [List.getElem?_map]
  rfl

theorem Assembling.start (before : ℕ) (hdistinct : TempsDistinct receiver manifest)
    {world world' : World} {writers : List (Option ChunkWriter)} (hpub : world.published = [])
    (h : openWriters receiver manifest manifest.files world = (.ok writers, world')) :
    Assembling receiver manifest world.disk before []
      { writers, bytesReceived := before } world' := by
  obtain ⟨-, -, hworld, -, htemps⟩ := openWriters_eq_ok h
  refine ⟨writersAfter_open h before, fun i entry hi => ?_, rfl, ?_⟩
  · exact htemps hdistinct entry (List.mem_of_getElem? hi)
  · rw [hworld]
    exact hpub

/-! ### Runs that answer positively -/

def Unanswered (codec : ProtocolCodec) : Prop := SentAll (· ≠ .transferVerified true none) codec

/-- The receiver has answered that all files are verified. -/
def Answered (world : World) : Prop := .transferVerified true none ∈ world.codec.sent

instance (world : World) : Decidable (Answered world) :=
  inferInstanceAs (Decidable (_ ∈ _))

theorem answered_iff {world : World} : Answered world ↔ ¬Unanswered world.codec := by
  simp [Answered, Unanswered, SentAll]

theorem keeps_send_unanswered {noise : Noise} {message : Message}
    (h : message ≠ .transferVerified true none) :
    Task.Keeps (fun world => Unanswered world.codec) (send noise message) :=
  keeps_send (keeps_sentAll h)

/-- The bytes of the `i`-th file after the deliveries. -/
def assembledAt (receiver : RecvTransfer) (manifest : TransferManifest) (d : Disk)
    (chunks : List Delivery) (i : ℕ) : Bytes :=
  ((manifest.files[i]?).map (assembled receiver manifest d chunks i)).getD []

/-- Every file is published, and what is published under a position are the
bytes assembled for it. -/
structure PublishedAll (receiver : RecvTransfer) (manifest : TransferManifest) (d : Disk)
    (chunks : List Delivery) (world : World) : Prop where
  bytes : ∀ file ∈ world.published, world.disk.lookup (receiver.host.locate file.2) =
    some (.file (assembledAt receiver manifest d chunks file.1))
  all : ∀ i entry, manifest.files[i]? = some entry → ∃ dest, (i, dest) ∈ world.published

theorem Assembling.finishing {d : Disk} {before : ℕ} {chunks : List Delivery} {state : RecvState}
    {world : World} (h : Assembling receiver manifest d before chunks state world) :
    Finishing receiver (assembledAt receiver manifest d chunks) 0 manifest.files world where
  pending j entry hj := by
    rw [h.temps j entry hj, Nat.zero_add, assembledAt, hj]
    rfl
  published := by simp [h.published]

theorem Assembling.finish (hdistinct : TempsDistinct receiver manifest) {d : Disk} {before : ℕ}
    {chunks : List Delivery} {state : RecvState} {world world' : World}
    (h : Assembling receiver manifest d before chunks state world)
    (hfinish : finishFiles receiver state.writers 0 manifest.files world = (.ok true, world')) :
    PublishedAll receiver manifest d chunks world' ∧ ∀ i entry, manifest.files[i]? = some entry →
      (writerAfter receiver manifest chunks i entry).isComplete = true := by
  have hwriter : ∀ j entry, manifest.files[j]? = some entry →
      state.writers[j]? = some (some (writerAfter receiver manifest chunks j entry)) :=
    fun j entry hj => h.writers.getElem? hj
  obtain ⟨hdone, -, hall⟩ := finishFiles_eq_ok
    (fun j entry hj => ⟨_, by rw [Nat.zero_add]; exact hwriter j entry hj, rfl⟩)
    hdistinct h.finishing hfinish
  refine ⟨⟨fun file hfile => (hdone.published file hfile).1, fun i entry hi => ?_⟩,
    fun i entry hi => ?_⟩
  · simpa using (hall i entry hi).2
  · obtain ⟨writer, hw, hcomplete⟩ := (hall i entry hi).1
    rw [Nat.zero_add, hwriter i entry hi] at hw
    obtain rfl := Option.some.inj (Option.some.inj hw)
    exact hcomplete

/-- A positive answer is the work of a completion that finished every file. -/
theorem complete_answered {state : RecvState} {manifestHash : Sha256Hash} {shutdownFault : Bool}
    {world : World} (hun : Unanswered world.codec)
    (hans : ¬Unanswered
      (complete receiver manifest state manifestHash shutdownFault world).2.codec) :
    ∃ world₁ world₂, world₁.disk = world.disk ∧ world₁.published = world.published ∧
      finishFiles receiver state.writers 0 manifest.files world₁ = (.ok true, world₂) ∧
      (complete receiver manifest state manifestHash shutdownFault world).2.disk =
        world₂.disk ∧
      (complete receiver manifest state manifestHash shutdownFault world).2.published =
        world₂.published := by
  unfold complete at hans ⊢
  obtain ⟨_, world₁, hwarn, hun₁, hans₁⟩ := Task.Keeps.lost_by_rest
    (I := fun world : World => Unanswered world.codec) (Task.Keeps.when _ (keeps_warn _)) hun hans
  obtain ⟨allOk, world₂, hfinish, hun₂, hans₂⟩ := Task.Keeps.lost_by_rest
    (I := fun world : World => Unanswered world.codec)
    (keeps_finishFiles (fun _ _ _ _ h => h) _ _ _) hun₁ hans₁
  have hkeeps : Task.Keeps (fun w : World => w.disk = world.disk ∧ w.published = world.published)
      (Task.when (manifestHash ≠ computeManifestHash receiver.host.sha256 manifest)
        (warn "manifest hash mismatch")) := Task.Keeps.when _ fun _ hw => hw
  have h₁ := hkeeps world ⟨rfl, rfl⟩
  rw [hwarn] at h₁
  rw [Task.bind_of_ok hwarn, Task.bind_of_ok hfinish]
  cases allOk with
  | false =>
    refine absurd ?_ hans₂
    refine (Task.Keeps.bind (keeps_send_unanswered (by simp)) fun _ => ?_) world₂ hun₂
    exact Task.Keeps.bind (Task.Keeps.when _ (Task.Keeps.modify fun _ hw => hw)) fun _ =>
      Task.Keeps.when _ (Task.Keeps.fail _)
  | true =>
    have hrest : Task.Keeps (fun w => w.disk = world₂.disk ∧ w.published = world₂.published)
        (do
          send receiver.noise (.transferVerified true none)
          Task.when true (Task.modify fun world => { world with
            resume := world.resume.remove manifest.transferId
            events := world.events ++ [.completed manifest.transferId .receiving] })
          Task.when shutdownFault
            (Task.fail (.serialization "shutdown failed" (.network .io))) :
          Task World ProtocolError Unit) := by
      refine Task.Keeps.bind (fun _ hw => hw) fun _ => ?_
      exact Task.Keeps.bind (Task.Keeps.when _ (Task.Keeps.modify fun _ hw => hw)) fun _ =>
        Task.Keeps.when _ (Task.Keeps.fail _)
    obtain ⟨hdisk, hpub⟩ := hrest world₂ ⟨rfl, rfl⟩
    exact ⟨world₁, world₂, h₁.1, h₁.2, hfinish, hdisk, hpub⟩

theorem Assembling.beginTurn {d : Disk} {before : ℕ} {chunks : List Delivery} {state : RecvState}
    {world world' : World} {turn : Turn}
    (h : Assembling receiver manifest d before chunks state world)
    (hturn : World.beginTurn turn world = (.ok (), world')) :
    Assembling receiver manifest d before chunks state world' := by
  obtain rfl := (Prod.mk.inj hturn).2
  exact ⟨h.writers, h.temps, h.bytes, h.published⟩

/-- A loop that ends in a positive answer has taken all its chunks. -/
theorem receiveLoop_answered (hdistinct : TempsDistinct receiver manifest) {d : Disk}
    {before : ℕ} {chunks pre : List Delivery} {rest : List Turn} {state : RecvState}
    {world : World} (hstate : Assembling receiver manifest d before pre state world)
    (hbytes : state.bytesReceived < 2 ^ 64) (hun : Unanswered world.codec)
    (hans : ¬Unanswered
      (receiveLoop receiver manifest (chunkTurns chunks ++ rest) state world).2.codec) :
    ∃ state' world', Assembling receiver manifest d before (pre ++ chunks) state' world' ∧
      (∀ chunk ∈ chunks, Deliverable manifest chunk) ∧ state'.bytesReceived < 2 ^ 64 ∧
      Unanswered world'.codec ∧
      receiveLoop receiver manifest (chunkTurns chunks ++ rest) state world =
        receiveLoop receiver manifest rest state' world' := by
  induction chunks generalizing pre state world with
  | nil => exact ⟨state, world, by simpa using hstate, by simp, hbytes, hun, rfl⟩
  | cons chunk chunks ih =>
    have hunfold : receiveLoop receiver manifest (chunkTurns (chunk :: chunks) ++ rest) state =
        (do
          World.beginTurn (Turn.calm (.chunkData chunk.1 chunk.2))
          let state ← handleChunk receiver manifest state chunk.1 chunk.2
          receiveLoop receiver manifest (chunkTurns chunks ++ rest) state) := rfl
    rw [hunfold] at hans ⊢
    obtain ⟨_, world₁, hturn, hun₁, hans₁⟩ := Task.Keeps.lost_by_rest
      (I := fun world : World => Unanswered world.codec)
      (keeps_beginTurn fun _ h => h) hun hans
    obtain ⟨state₂, world₂, hchunk, hun₂, hans₂⟩ := Task.Keeps.lost_by_rest
      (I := fun world : World => Unanswered world.codec)
      (keeps_handleChunk (fun _ => keeps_sentAll (by simp)) _ _ _) hun₁ hans₁
    obtain ⟨hstate₂, hdeliverable, hbytes₂⟩ := (hstate.beginTurn hturn).step hdistinct hchunk
    obtain ⟨state', world', hstate', hall, hbytes', hun', hrun⟩ := ih hstate₂ hbytes₂ hun₂ hans₂
    refine ⟨state', world', by simpa using hstate', List.forall_mem_cons.mpr ⟨hdeliverable, hall⟩,
      hbytes', hun', ?_⟩
    rw [Task.bind_of_ok hturn, Task.bind_of_ok hchunk, hrun]

/-- What an answer needs of the request and the deliveries. -/
structure Acceptable (receiver : RecvTransfer) (manifest : TransferManifest)
    (resumeState : Option TransferResumeState) (chunks : List Delivery) : Prop where
  response : ∃ response, acceptResponse receiver manifest resumeState = some response ∧
    (Message.transferResponse response).Fits
  divisible : ∀ entry ∈ manifest.files, Divisible entry.size.toNat manifest.chunkSize.toNat
  deliverable : ∀ chunk ∈ chunks, Deliverable manifest chunk
  counted : bytesBefore resumeState + (chunks.map fun chunk => chunk.2.length).sum < 2 ^ 64
  covered : ∀ i entry, manifest.files[i]? = some entry →
    ∀ k < chunksOf entry.size.toNat manifest.chunkSize.toNat, k ∈ offsetsOf chunks i

/-- A file is complete when all of its chunks were delivered. -/
theorem isComplete_writerAfter_iff {chunks : List Delivery}
    (hdeliverable : ∀ chunk ∈ chunks, Deliverable manifest chunk) {i : ℕ} {entry : FileEntry}
    (hi : manifest.files[i]? = some entry) :
    (writerAfter receiver manifest chunks i entry).isComplete = true ↔
      ∀ k < chunksOf entry.size.toNat manifest.chunkSize.toNat, k ∈ offsetsOf chunks i := by
  have hsub : offsetsOf chunks i ⊆
      Finset.range (chunksOf entry.size.toNat manifest.chunkSize.toNat) := by
    intro k hk
    obtain ⟨chunk, hmem, hindex, rfl⟩ := mem_offsetsOf.mp hk
    obtain ⟨e, he, hlt⟩ := hdeliverable chunk hmem
    rw [hindex, hi] at he
    obtain rfl := Option.some.inj he
    exact Finset.mem_range.mpr hlt
  rw [← completedChunks_writerAfter, ← totalChunks_writerAfter] at hsub
  rw [ChunkWriter.isComplete_iff_forall hsub, completedChunks_writerAfter,
    totalChunks_writerAfter]

/-- A loop over the deliveries and the completion that ends in a positive answer. -/
theorem receiveLoop_complete_answered (hdistinct : TempsDistinct receiver manifest) {d : Disk}
    {before : ℕ} (chunks : List Delivery) (manifestHash : Sha256Hash) {state : RecvState}
    {world world' : World} (hstate : Assembling receiver manifest d before [] state world)
    (hbytes : state.bytesReceived < 2 ^ 64) (hun : Unanswered world.codec)
    (hworld : (receiveLoop receiver manifest (chunkTurns chunks ++
      [Turn.calm (.transferComplete manifestHash)]) state world).2 = world')
    (hans : ¬Unanswered world'.codec) :
    (∀ chunk ∈ chunks, Deliverable manifest chunk) ∧
      before + (chunks.map fun chunk => chunk.2.length).sum < 2 ^ 64 ∧
      (∀ i entry, manifest.files[i]? = some entry →
        ∀ k < chunksOf entry.size.toNat manifest.chunkSize.toNat, k ∈ offsetsOf chunks i) ∧
      PublishedAll receiver manifest d chunks world' := by
  subst hworld
  obtain ⟨state₁, world₁, hstate₁, hdeliverable, hbytes₁, hun₁, hrun⟩ :=
    receiveLoop_answered hdistinct hstate hbytes hun hans
  rw [List.nil_append] at hstate₁
  have hloop : receiveLoop receiver manifest [Turn.calm (.transferComplete manifestHash)] state₁ =
      (do
        World.beginTurn (Turn.calm (.transferComplete manifestHash))
        complete receiver manifest state₁ manifestHash false) := rfl
  rw [hrun, hloop] at hans ⊢
  obtain ⟨_, world₂, hturn, hun₂, hans₂⟩ := Task.Keeps.lost_by_rest
    (I := fun world : World => Unanswered world.codec)
    (keeps_beginTurn fun _ h => h) hun₁ hans
  rw [Task.bind_of_ok hturn]
  have hstate₂ := hstate₁.beginTurn hturn
  obtain ⟨world₃, world₄, hdisk₃, hpub₃, hfinish, hdisk₄, hpub₄⟩ := complete_answered hun₂ hans₂
  have hstate₃ : Assembling receiver manifest d before chunks state₁ world₃ :=
    ⟨hstate₂.writers, hdisk₃ ▸ hstate₂.temps, hstate₂.bytes, hpub₃.trans hstate₂.published⟩
  obtain ⟨hpublished, hcomplete⟩ := hstate₃.finish hdistinct hfinish
  refine ⟨hdeliverable, hstate₁.bytes ▸ hbytes₁, fun i entry hi => ?_, ?_, ?_⟩
  · exact (isComplete_writerAfter_iff hdeliverable hi).mp (hcomplete i entry hi)
  · rw [hdisk₄, hpub₄]
    exact hpublished.bytes
  · rw [hpub₄]
    exact hpublished.all

/-- A positive answer: the request and the deliveries were acceptable and every
file is published with the bytes assembled for it. -/
theorem handleIncoming_answered (hdistinct : TempsDistinct receiver manifest)
    {remoteStatic : PublicKey} {decision : Option IncomingTransferDecision}
    {chunks : List Delivery} {manifestHash : Sha256Hash} {world : World}
    (hans : Answered (handleIncoming receiver
      (peerScript remoteStatic manifest decision chunks manifestHash) world).2) :
    receiver.decisionOf decision = .accept ∧
      Acceptable receiver manifest (world.resume manifest.transferId) chunks ∧
      PublishedAll receiver manifest world.disk chunks (handleIncoming receiver
        (peerScript remoteStatic manifest decision chunks manifestHash) world).2 := by
  rw [answered_iff] at hans
  have hstart : Unanswered (started (peerScript remoteStatic manifest decision chunks
      manifestHash).request remoteStatic manifest world).codec := by
    simp [Unanswered, SentAll, started, ProtocolCodec.new]
  cases hdecision : receiver.decisionOf decision with
  | reject reason =>
    refine absurd ?_ hans
    rw [handleIncoming_of_reject rfl rfl hdecision]
    exact (Task.Keeps.bind (keeps_send_unanswered (by simp)) fun _ => Task.Keeps.fail _) _ hstart
  | accept =>
    rw [handleIncoming_of_accept rfl rfl hdecision] at hans ⊢
    unfold receiveFiles at hans ⊢
    obtain ⟨response, world₁, hresponse, hun₁, hans₁⟩ := Task.Keeps.lost_by_rest
      (I := fun world : World => Unanswered world.codec) (Task.Keeps.ofChecked _) hstart hans
    obtain ⟨_, world₂, hsend, hun₂, hans₂⟩ := Task.Keeps.lost_by_rest
      (I := fun world : World => Unanswered world.codec)
      (keeps_send_unanswered (by simp)) hun₁ hans₁
    obtain ⟨writers, world₃, hopen, hun₃, hans₃⟩ := Task.Keeps.lost_by_rest
      (I := fun world : World => Unanswered world.codec)
      (keeps_openWriters (fun _ _ h => h) _) hun₂ hans₂
    obtain ⟨hresponse', rfl⟩ := Task.ofChecked_eq_ok.mp hresponse
    obtain ⟨hfit, -, hworld₂⟩ := send_eq_ok hsend
    have hstate : Assembling receiver manifest world.disk
        (bytesBefore (world.resume manifest.transferId)) []
        ⟨writers, bytesBefore (world.resume manifest.transferId)⟩ world₃ := by
      have hdisk₂ : world₂.disk = { world.disk with faults := [] } := congrArg World.disk hworld₂
      have hpub₂ : world₂.published = [] := congrArg World.published hworld₂
      have h := Assembling.start (bytesBefore (world.resume manifest.transferId)) hdistinct hpub₂
        hopen
      rw [hdisk₂] at h
      exact ⟨h.writers, h.temps, h.bytes, h.published⟩
    obtain ⟨hdeliverable, hcounted, hcovered, hpublished⟩ := receiveLoop_complete_answered
      hdistinct chunks manifestHash hstate (UInt64.toNat_lt _) hun₃ rfl hans₃
    obtain ⟨-, hdivisible, -⟩ := openWriters_eq_ok hopen
    refine ⟨rfl, ⟨⟨response, hresponse', hfit⟩, hdivisible, hdeliverable, hcounted, hcovered⟩, ?_⟩
    rw [Task.bind_of_ok hresponse, Task.bind_of_ok hsend, Task.bind_of_ok hopen]
    exact hpublished

end RecvTransfer
end JustDrop

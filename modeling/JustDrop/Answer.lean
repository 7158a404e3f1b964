import JustDrop.Delivery

/-!
# What a receive owes an acceptable peer

On a connection whose writes succeed, an acceptable request with acceptable
deliveries is answered positively unless a file-system call fails.
-/
namespace JustDrop
open ByteImage

/-- The next write on the connection succeeds. -/
def World.Quiet (world : World) : Prop := world.codec.transport.writeFault = false

namespace RecvTransfer
open World

variable {receiver : RecvTransfer} {manifest : TransferManifest}

/-! ### How a step ends on a quiet connection -/

theorem ends_onDisk {α : Type} {text : String} {t : Task Disk StorageError α}
    (ht : Task.Ends (fun _ => True) t (fun _ _ => True) StorageError.IsIo) :
    Task.Ends Quiet (onDisk (Task.mapErr (fun e => .serialization text (.storage e)) t))
      (fun _ world => Quiet world) ProtocolError.IsIo :=
  Task.Ends.zoom (J := fun _ => True) (K := fun _ _ => True)
    (Task.Ends.mapErr ht fun e he => ⟨text, e, he, rfl⟩) (fun _ _ => trivial)
    fun _ _ _ hquiet _ => hquiet

theorem ends_send {message : Message} (hfit : message.Fits) :
    Task.Ends Quiet (send receiver.noise message)
      (fun _ world => Quiet world ∧ message ∈ world.codec.sent) ProtocolError.IsIo := by
  intro world hquiet
  obtain ⟨codec, h, hwrite, hsent⟩ := send_of_fits receiver.noise world hfit hquiet
  rw [h]
  exact ⟨hwrite, by simp [hsent]⟩

theorem ends_openWriters {entries : List FileEntry}
    (hdiv : ∀ entry ∈ entries, Divisible entry.size.toNat manifest.chunkSize.toNat) :
    Task.Ends Quiet (openWriters receiver manifest entries) (fun _ world => Quiet world)
      ProtocolError.IsIo := by
  induction entries with
  | nil => exact fun _ hquiet => hquiet
  | cons entry entries ih =>
    rw [List.forall_mem_cons] at hdiv
    refine Task.Ends.bind (ends_onDisk (ChunkWriter.ends_new hdiv.1)) fun writer => ?_
    exact Task.Ends.bind (ih hdiv.2) fun _ => fun _ hquiet => hquiet

theorem fits_chunkAck (ack : ChunkAck) : (Message.chunkAck ack).Fits := by
  simp [Message.Fits, TAG_LEN, NOISE_MAX_MESSAGE]

theorem fits_transferVerified_none (ok : Bool) : (Message.transferVerified ok none).Fits := by
  simp [Message.Fits, TAG_LEN, NOISE_MAX_MESSAGE]

theorem ends_handleChunk {state : RecvState} {id : ChunkId} {data : Bytes} {writer : ChunkWriter}
    (hwriter : state.writers[id.fileIndex.toNat]? = some (some writer))
    (hlt : id.chunkOffset.toNat < writer.totalChunks)
    (hmul : id.chunkOffset.toNat * writer.chunkSize < 2 ^ 64)
    (hbytes : state.bytesReceived + data.length < 2 ^ 64) :
    Task.Ends Quiet (handleChunk receiver manifest state id data) (fun _ world => Quiet world)
      ProtocolError.IsIo := by
  unfold handleChunk
  simp only [hwriter, Option.join_some]
  refine Task.Ends.bind (ends_onDisk ?_) fun written => ?_
  · refine (ChunkWriter.ends_writeChunk fun _ => hmul).conseq (fun _ h => h) (fun _ _ h => h) ?_
    exact fun e he => he.resolve_left (not_le.mpr hlt)
  · refine Task.Ends.bind (ends_send (fits_chunkAck _)) fun _ => ?_
    refine Task.Ends.bind (Q := fun _ world => Quiet world)
      (Task.Ends.ofChecked fun world hworld => ⟨_, checkedAdd_eq_some.mpr ⟨hbytes, rfl⟩, hworld.1⟩)
      fun bytesReceived => ?_
    exact Task.Ends.bind (Q := fun _ world => Quiet world) (fun _ hquiet => hquiet) fun _ =>
      fun _ hquiet => hquiet

theorem ends_finishFiles {writers : List (Option ChunkWriter)} {entries : List FileEntry} {i : ℕ}
    (hwriters : ∀ j entry, entries[j]? = some entry → ∃ writer : ChunkWriter,
      writers[i + j]? = some (some writer) ∧ writer.isComplete = true) :
    Task.Ends Quiet (finishFiles receiver writers i entries)
      (fun allOk world => allOk = true ∧ Quiet world) ProtocolError.IsIo := by
  induction entries generalizing i with
  | nil => exact fun _ hquiet => ⟨rfl, hquiet⟩
  | cons entry entries ih =>
    obtain ⟨writer, hwriter, hcomplete⟩ := hwriters 0 entry rfl
    rw [Nat.add_zero] at hwriter
    simp only [finishFiles, hwriter, if_pos hcomplete]
    refine Task.Ends.bind (ends_onDisk ChunkWriter.ends_finalize) fun dest => ?_
    refine Task.Ends.bind (Q := fun _ world => Quiet world) (fun _ hquiet => hquiet) fun _ => ?_
    refine ih fun j e hj => ?_
    have := hwriters (j + 1) e (by simpa using hj)
    rwa [show i + (j + 1) = i + 1 + j by omega] at this

theorem ends_complete {state : RecvState} {manifestHash : Sha256Hash}
    (hwriters : ∀ (i : ℕ) (entry : FileEntry), manifest.files[i]? = some entry →
      ∃ writer : ChunkWriter, state.writers[i]? = some (some writer) ∧ writer.isComplete = true) :
    Task.Ends Quiet (complete receiver manifest state manifestHash false)
      (fun _ world => Answered world) ProtocolError.IsIo := by
  refine Task.Ends.bind (Q := fun _ world => Quiet world)
    (Task.Ends.when (fun _ _ hquiet => hquiet) fun _ _ hquiet => hquiet) fun _ => ?_
  refine Task.Ends.bind (ends_finishFiles fun i entry hi => by simpa using hwriters i entry hi)
    fun allOk => ?_
  intro world hworld
  obtain ⟨rfl, hquiet⟩ := hworld
  refine Task.Ends.bind (P := Quiet) (Q := fun _ world => Answered world) ?_ (fun _ => ?_) world
    hquiet
  · exact (ends_send (fits_transferVerified_none true)).conseq (fun _ h => h)
      (fun _ _ h => h.2) fun _ h => h
  · exact fun _ hanswered => hanswered

/-! ### The run -/

theorem ends_receiveLoop (hdistinct : TempsDistinct receiver manifest) {d : Disk}
    {before : ℕ} (pre chunks : List Delivery) {manifestHash : Sha256Hash} {state : RecvState}
    (hdeliverable : ∀ chunk ∈ pre ++ chunks, Deliverable manifest chunk)
    (hcounted : before + ((pre ++ chunks).map fun chunk => chunk.2.length).sum < 2 ^ 64)
    (hcovered : ∀ i entry, manifest.files[i]? = some entry →
      ∀ k < chunksOf entry.size.toNat manifest.chunkSize.toNat, k ∈ offsetsOf (pre ++ chunks) i) :
    Task.Ends
      (fun world => Assembling receiver manifest d before pre state world ∧ Quiet world)
      (receiveLoop receiver manifest
        (chunkTurns chunks ++ [Turn.calm (.transferComplete manifestHash)]) state)
      (fun _ world => Answered world) ProtocolError.IsIo := by
  induction chunks generalizing pre state with
  | nil =>
    rintro world ⟨hstate, hquiet⟩
    rw [List.append_nil] at hdeliverable hcovered
    refine ends_complete (fun i entry hi => ?_) (World.beginTurn _ world).2 rfl
    refine ⟨_, hstate.writers.getElem? hi, ?_⟩
    exact (isComplete_writerAfter_iff hdeliverable hi).mpr (hcovered i entry hi)
  | cons chunk chunks ih =>
    have happend : pre ++ chunk :: chunks = pre ++ [chunk] ++ chunks := by simp
    obtain ⟨entry, hentry, hlt⟩ := hdeliverable chunk (by simp)
    rw [happend] at hdeliverable hcounted hcovered
    rintro world ⟨hstate, hquiet⟩
    refine Task.Ends.bind
      (P := fun world => Assembling receiver manifest d before pre state world ∧ Quiet world)
      (Q := fun state world =>
        Assembling receiver manifest d before (pre ++ [chunk]) state world ∧ Quiet world)
      ?_ (fun state => ih (pre ++ [chunk]) hdeliverable hcounted hcovered)
      (World.beginTurn (Turn.calm (.chunkData chunk.1 chunk.2)) world).2
      ⟨hstate.beginTurn rfl, rfl⟩
    have hbytes : state.bytesReceived + chunk.2.length < 2 ^ 64 := by
      rw [hstate.bytes]
      simp only [List.map_append, List.map_cons, List.map_nil, List.sum_append,
        List.sum_cons, List.sum_nil] at hcounted
      omega
    have hwriter : state.writers[chunk.1.fileIndex.toNat]? =
        some (some (writerAfter receiver manifest pre chunk.1.fileIndex.toNat entry)) :=
      hstate.writers.getElem? hentry
    have hends : Task.Ends
        (fun world => Assembling receiver manifest d before pre state world ∧ Quiet world)
        (handleChunk receiver manifest state chunk.1 chunk.2) (fun _ world => Quiet world)
        ProtocolError.IsIo :=
      (ends_handleChunk hwriter hlt (mul_lt_of_lt_chunksOf (UInt64.toNat_lt _) hlt)
        hbytes).conseq (fun _ h => h.2) (fun _ _ h => h) fun _ h => h
    refine hends.of_ok ?_
    rintro world state' world' ⟨hassembling, -⟩ hchunk hquiet'
    exact ⟨(hassembling.step hdistinct hchunk).1, hquiet'⟩

/-- The converse of `handleIncoming_answered`. -/
theorem answered_of_acceptable (hdistinct : TempsDistinct receiver manifest)
    {remoteStatic : PublicKey} {decision : Option IncomingTransferDecision}
    {chunks : List Delivery} {manifestHash : Sha256Hash} {world : World}
    (hdecision : receiver.decisionOf decision = .accept)
    (hacceptable : Acceptable receiver manifest (world.resume manifest.transferId) chunks)
    (hio : ∀ e, (handleIncoming receiver
      (peerScript remoteStatic manifest decision chunks manifestHash) world).1 = .err e →
        ¬e.IsIo) :
    Answered (handleIncoming receiver
      (peerScript remoteStatic manifest decision chunks manifestHash) world).2 := by
  rw [handleIncoming_of_accept rfl rfl hdecision] at hio ⊢
  obtain ⟨response, hresponse, hfit⟩ := hacceptable.response
  set script := peerScript remoteStatic manifest decision chunks manifestHash with hscript
  set world₁ := started script.request remoteStatic manifest world with hworld₁
  obtain ⟨codec, hsend, hwrite, -⟩ :=
    send_of_fits receiver.noise world₁ hfit rfl
  have hrun : receiveFiles receiver manifest (world.resume manifest.transferId) script.turns
      world₁ = (do
        let writers ← openWriters receiver manifest manifest.files
        receiveLoop receiver manifest script.turns
          { writers, bytesReceived := bytesBefore (world.resume manifest.transferId) })
        { world₁ with codec } := by
    rw [receiveFiles, hresponse, Task.ofChecked_some, Task.pure_bind_run, Task.bind_of_ok hsend]
  rw [hrun] at hio ⊢
  have hends : Task.Ends (fun w => w = { world₁ with codec })
      (do
        let writers ← openWriters receiver manifest manifest.files
        receiveLoop receiver manifest script.turns
          { writers, bytesReceived := bytesBefore (world.resume manifest.transferId) })
      (fun _ world => Answered world) ProtocolError.IsIo := by
    refine Task.Ends.bind (Q := fun writers w => Assembling receiver manifest world.disk
      (bytesBefore (world.resume manifest.transferId)) []
      ⟨writers, bytesBefore (world.resume manifest.transferId)⟩ w ∧ Quiet w) ?_ fun writers =>
      ends_receiveLoop hdistinct [] chunks hacceptable.deliverable hacceptable.counted
        hacceptable.covered
    refine ((ends_openWriters hacceptable.divisible).conseq (fun w hw => ?_) (fun _ _ h => h)
      fun _ h => h).of_ok ?_
    · exact hw ▸ hwrite
    · rintro w writers w' rfl hopen hquiet
      have h := Assembling.start (bytesBefore (world.resume manifest.transferId)) hdistinct rfl
        hopen
      exact ⟨⟨h.writers, h.temps, h.bytes, h.published⟩, hquiet⟩
  obtain ⟨_, -, hanswered⟩ := hends.ok_of_not_err rfl hio
  exact hanswered

end RecvTransfer
end JustDrop

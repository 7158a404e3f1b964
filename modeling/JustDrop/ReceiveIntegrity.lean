import JustDrop.Answer

/-!
# What a positive answer promises

The receiver compares counts of offsets, not contents: it answers positively for
any data and for any manifest hash. The answer means what it says exactly when
the peer itself delivers every file as the manifest describes it.
-/
namespace JustDrop
open ByteImage

/-- The bytes have the size and the hash of the entry. -/
def FileEntry.Intact (sha256 : Bytes → Sha256Hash) (entry : FileEntry) (bytes : Bytes) : Prop :=
  bytes.length = entry.size.toNat ∧ sha256 bytes = entry.sha256

instance (sha256 : Bytes → Sha256Hash) (entry : FileEntry) (bytes : Bytes) :
    Decidable (entry.Intact sha256 bytes) := inferInstanceAs (Decidable (_ ∧ _))

namespace RecvTransfer

/-- The hash is the manifest's and every entry is published as an intact file. -/
structure Verified (receiver : RecvTransfer) (manifest : TransferManifest)
    (manifestHash : Sha256Hash) (world : World) : Prop where
  manifestHash : manifestHash = computeManifestHash receiver.host.sha256 manifest
  intact : ∀ i entry, manifest.files[i]? = some entry → ∃ dest bytes,
    (i, dest) ∈ world.published ∧
      world.disk.lookup (receiver.host.locate dest) = some (.file bytes) ∧
      entry.Intact receiver.host.sha256 bytes

/-- The hash is the manifest's and the deliveries assemble intact files. -/
def DeliversManifest (receiver : RecvTransfer) (manifest : TransferManifest) (d : Disk)
    (chunks : List Delivery) (manifestHash : Sha256Hash) : Prop :=
  manifestHash = computeManifestHash receiver.host.sha256 manifest ∧
    ∀ (i : ℕ) (entry : FileEntry), manifest.files[i]? = some entry →
      entry.Intact receiver.host.sha256 (assembled receiver manifest d chunks i entry)

variable {receiver : RecvTransfer} {manifest : TransferManifest}

theorem PublishedAll.verified {d : Disk} {chunks : List Delivery} {manifestHash : Sha256Hash}
    {world : World} (h : PublishedAll receiver manifest d chunks world)
    (hdelivers : DeliversManifest receiver manifest d chunks manifestHash) :
    Verified receiver manifest manifestHash world := by
  refine ⟨hdelivers.1, fun i entry hi => ?_⟩
  obtain ⟨dest, hdest⟩ := h.all i entry hi
  have hbytes := h.bytes _ hdest
  simp only [assembledAt, hi, Option.map_some, Option.getD_some] at hbytes
  exact ⟨dest, _, hdest, hbytes, hdelivers.2 i entry hi⟩

theorem PublishedAll.delivers {d : Disk} {chunks : List Delivery} {manifestHash : Sha256Hash}
    {world : World} (h : PublishedAll receiver manifest d chunks world)
    (hverified : Verified receiver manifest manifestHash world) :
    DeliversManifest receiver manifest d chunks manifestHash := by
  refine ⟨hverified.manifestHash, fun i entry hi => ?_⟩
  obtain ⟨dest, bytes, hdest, hlookup, hintact⟩ := hverified.intact i entry hi
  have hbytes := h.bytes _ hdest
  simp only [assembledAt, hi, Option.map_some, Option.getD_some] at hbytes
  rw [hlookup] at hbytes
  obtain rfl := Node.file.inj (Option.some.inj hbytes)
  exact hintact

/-! ### Small receivers -/

/-- A receiver with the default configuration under `/home`, on a host without a
working directory. -/
def plainReceiver (memory : ℕ) : RecvTransfer where
  config := Config.default
  homeDir := some (Path.ofString "/home")
  host := Host.withLongIds [] sumHash
  noise := Noise.plain
  memory := memory

/-- Nothing stored and nothing connected. -/
def emptyWorld : World where
  disk := { nodes := ∅, touched := [], faults := [] }
  resume := fun _ => none
  codec := ProtocolCodec.new (SecureTransport.new ⟨0, 0, Vector.replicate 32 0⟩ [])
  events := []
  published := []
  warnings := []

def plainEntry (index : UInt32) (name : String) (bytes : Bytes) : FileEntry where
  index := index
  relativePath := name
  size := UInt64.ofNat bytes.length
  sha256 := sumHash bytes
  mimeType := ""

def plainManifest (chunkSize : UInt32) (files : List FileEntry) : TransferManifest where
  transferId := Vector.replicate 16 7
  version := PROTOCOL_VERSION
  files := files
  totalSize := (files.map FileEntry.size).foldr (· + ·) 0
  chunkSize := chunkSize
  senderName := "sender"
  senderPlatform := .linux

/-- A three-byte file in chunks of two bytes. -/
def abcManifest : TransferManifest := plainManifest 2 [plainEntry 0 "a.txt" [1, 2, 3]]

/-- One accepted offer of the file, with these deliveries. -/
def receiveAbc (chunks : List Delivery) (manifestHash : Sha256Hash) :
    Outcome ProtocolError Unit × World :=
  handleIncoming (plainReceiver 100) (peerScript (Vector.replicate 32 1) abcManifest
    (some .accept) chunks manifestHash) emptyWorld

/-! ### The answer and the files -/

/-- A positive answer is true of every honest delivery, and where no file-system
call fails of no other acceptable one. -/
theorem verified_iff_delivers (receiver : RecvTransfer) (remoteStatic : PublicKey)
    (manifest : TransferManifest) (decision : Option IncomingTransferDecision)
    (chunks : List Delivery) (manifestHash : Sha256Hash) (world : World) :
    let run := handleIncoming receiver
      (peerScript remoteStatic manifest decision chunks manifestHash) world
    let accepts := receiver.decisionOf decision = .accept ∧
      Acceptable receiver manifest (world.resume manifest.transferId) chunks
    let delivers := DeliversManifest receiver manifest world.disk chunks manifestHash
    TempsDistinct receiver manifest →
      ((accepts → delivers) → Answered run.2 → Verified receiver manifest manifestHash run.2) ∧
      ((∀ e, run.1 = .err e → ¬e.IsIo) →
        (Answered run.2 → Verified receiver manifest manifestHash run.2) →
        (accepts → delivers)) := by
  intro run accepts delivers hdistinct
  refine ⟨fun hcond hans => ?_, fun hio hverified haccepts => ?_⟩
  · obtain ⟨hdecision, hacceptable, hpublished⟩ := handleIncoming_answered hdistinct hans
    exact hpublished.verified (hcond ⟨hdecision, hacceptable⟩)
  · have hans : Answered run.2 :=
      answered_of_acceptable hdistinct haccepts.1 haccepts.2 hio
    obtain ⟨-, -, hpublished⟩ := handleIncoming_answered hdistinct hans
    exact hpublished.delivers (hverified hans)

/-- Out of order and with a repetition, but honest. -/
theorem verified_plain_delivery :
    let run := receiveAbc [(⟨0, 1⟩, [3]), (⟨0, 0⟩, [1, 2]), (⟨0, 1⟩, [3])]
      (computeManifestHash sumHash abcManifest)
    Answered run.2 ∧ Verified (plainReceiver 100) abcManifest
      (computeManifestHash sumHash abcManifest) run.2 := by
  intro run
  have hans : Answered run.2 := by decide +kernel
  refine ⟨hans, (verified_iff_delivers _ _ _ _ _ _ _ (by decide +kernel)).1 (fun _ => ?_) hans⟩
  refine ⟨rfl, fun i entry hi => ?_⟩
  obtain ⟨rfl, rfl⟩ : i = 0 ∧ entry = plainEntry 0 "a.txt" [1, 2, 3] := by
    simpa [abcManifest, plainManifest, List.getElem?_singleton, eq_comm] using hi
  decide +kernel

/-- Two wrong bytes, or a wrong manifest hash, are answered positively all the same. -/
theorem answered_wrong_bytes :
    (let manifestHash := computeManifestHash sumHash abcManifest
      let run := receiveAbc [(⟨0, 1⟩, [3]), (⟨0, 0⟩, [9, 9])] manifestHash
      run.1 = .ok () ∧ Answered run.2 ∧
        ¬Verified (plainReceiver 100) abcManifest manifestHash run.2) ∧
    (let manifestHash := Vector.replicate 32 0
      let run := receiveAbc [(⟨0, 1⟩, [3]), (⟨0, 0⟩, [1, 2])] manifestHash
      run.1 = .ok () ∧ Answered run.2 ∧
        ¬Verified (plainReceiver 100) abcManifest manifestHash run.2) := by
  refine ⟨⟨by decide +kernel, by decide +kernel, fun hverified => ?_⟩,
    by decide +kernel, by decide +kernel, fun hverified => ?_⟩
  · obtain ⟨dest, bytes, hdest, hlookup, hintact⟩ := hverified.intact 0 _ rfl
    have hpublished : (receiveAbc [(⟨0, 1⟩, [3]), (⟨0, 0⟩, [9, 9])]
        (computeManifestHash sumHash abcManifest)).2.published =
          [(0, Path.ofString "/home/JustDrop/a.txt")] := by decide +kernel
    rw [hpublished, List.mem_singleton, Prod.mk.injEq] at hdest
    obtain ⟨-, rfl⟩ := hdest
    have hcontents : (receiveAbc [(⟨0, 1⟩, [3]), (⟨0, 0⟩, [9, 9])]
        (computeManifestHash sumHash abcManifest)).2.disk.lookup
          ((plainReceiver 100).host.locate (Path.ofString "/home/JustDrop/a.txt")) =
        some (.file [9, 9, 3]) := by decide +kernel
    rw [hcontents] at hlookup
    obtain rfl := Node.file.inj (Option.some.inj hlookup)
    exact absurd hintact (by decide +kernel)
  · exact absurd hverified.manifestHash (by decide +kernel)

end RecvTransfer
end JustDrop

import JustDrop.Framing
import JustDrop.ReceiveIntegrity
import JustDrop.SendPeer

/-!
# What fits the channel

In a run between an honest sender and an honest receiver every message received
was sent by the other side. All of them pass the channel when the request, the
chunks, the bitmap and the reason of a rejection are short enough; the default
chunk size is not.
-/
namespace JustDrop
open ProtocolCodec (SentAll AttemptedAll keeps_sentAll keeps_attemptedAll)

/-- Every session seals the message, and whoever finds its frame next in the
stream, however the stream is cut, takes it out again. -/
def Message.Accepted (message : Message) : Prop :=
  ∀ noise : Noise,
    (∀ session : NoiseSession, ∃ sealed, session.encrypt noise message.serialize = .ok sealed) ∧
      ∀ (transport : SecureTransport) (rest : Bytes), (∀ part ∈ transport.reads, part ≠ []) →
        transport.readBuf ++ transport.reads.flatten =
            frame (noise.sealWith transport.session.recvNonce message.serialize) ++ rest →
          (SecureTransport.recv noise transport).1 = .ok (some message.serialize)

theorem Message.accepted_of_fits {message : Message} (h : message.Fits) : message.Accepted :=
  fun noise => ⟨fun session => ⟨_, NoiseSession.encrypt_of_le noise session h⟩,
    fun _ _ hparts hstream => SecureTransport.recv_frame noise hparts h hstream⟩

theorem Message.not_accepted_of_not_fits {message : Message} (h : ¬message.Fits) :
    ¬message.Accepted := by
  intro haccepted
  obtain ⟨sealed, hsealed⟩ := (haccepted Noise.plain).1 ⟨0, 0, Vector.replicate 32 0⟩
  rw [NoiseSession.encrypt_of_lt Noise.plain _ (not_le.mp h)] at hsealed
  simp at hsealed

/-- The messages a script hands to the receiver. -/
def Script.received (script : Script) : List Message :=
  (script.request :: script.turns).filterMap fun turn => turn.recv.toOption.join

/-- The messages a script hands to the sender. -/
def SendScript.received (script : SendScript) : List Message :=
  script.turns.filterMap fun turn => turn.recv.toOption.join

/-- A run of both ends over one connection: each receives what the other sent, in order. -/
structure HonestRun (sender : SendTransfer) (peer : DeviceInfo) (paths : List Path)
    (sendScript : SendScript) (receiver : RecvTransfer) (script : Script)
    (world : World) : Prop where
  toReceiver : script.received <+:
    (sender.sendFiles peer paths sendScript .idle).2.codec.sent
  toSender : sendScript.received <+: (receiver.handleIncoming script world).2.codec.sent
  unattempted : world.codec.attempted = []
  unsent : world.codec.sent = []

/-- The longest data of a chunk message, the longest bitmap and the longest
reason that fit one Noise message. -/
def maxChunkData : ℕ := 65495
def maxResponse : ℕ := 65503

theorem fits_chunkData {id : ChunkId} {data : Bytes} :
    (Message.chunkData id data).Fits ↔ data.length ≤ maxChunkData := by
  simp only [Message.Fits, Message.length_serialize_chunkData, TAG_LEN, NOISE_MAX_MESSAGE,
    maxChunkData]
  omega

theorem fits_resumeAt {receivedChunks : Bytes} :
    (Message.transferResponse (.resumeAt receivedChunks)).Fits ↔
      receivedChunks.length ≤ maxResponse := by
  simp only [Message.Fits, Message.length_serialize_resumeAt, TAG_LEN, NOISE_MAX_MESSAGE,
    maxResponse]
  omega

theorem fits_reject {reason : String} :
    (Message.transferResponse (.reject reason)).Fits ↔
      (Bincode.utf8 reason).length ≤ maxResponse := by
  simp only [Message.Fits, Message.length_serialize_reject, TAG_LEN, NOISE_MAX_MESSAGE,
    maxResponse]
  omega

theorem fits_transferVerified (allOk : Bool) :
    (Message.transferVerified allOk
      (if allOk then none else some "some files incomplete")).Fits := by
  cases allOk <;> decide

theorem fits_transferComplete (manifestHash : Sha256Hash) :
    (Message.transferComplete manifestHash).Fits := by
  simp [Message.Fits, TAG_LEN, NOISE_MAX_MESSAGE]

/-! ### The sender -/

namespace SendTransfer
open SendWorld

variable {sender : SendTransfer} {peer : DeviceInfo} {paths : List Path} {script : SendScript}

/-- Only the manifest that was built is offered. -/
theorem buildManifest_of_sent {manifest : TransferManifest}
    (h : .transferRequest manifest ∈ (sendFiles sender peer paths script idle).2.codec.sent) :
    sender.buildManifest script paths = .ok manifest := by
  have hall : SentAll (fun m => ∀ manifest, m = .transferRequest manifest →
      sender.buildManifest script paths = .ok manifest)
      (sendFiles sender peer paths script idle).2.codec := by
    refine codec_sendFiles (fun _ _ h => h) (fun _ _ hm => absurd hm List.not_mem_nil)
      (fun manifest hmanifest => ⟨keeps_sentAll ?_, fun _ _ _ _ _ => keeps_sentAll (by simp)⟩)
      fun _ => keeps_sentAll (by simp)
    rintro _ ⟨⟩
    exact hmanifest
  exact hall _ h manifest rfl

end SendTransfer

/-! ### The run -/

variable {sender : SendTransfer} {peer : DeviceInfo} {paths : List Path} {sendScript : SendScript}
  {receiver : RecvTransfer} {script : Script} {world : World}

/-- An honest receiver is only ever asked for the sender's manifest. -/
theorem HonestRun.buildManifest
    (hrun : HonestRun sender peer paths sendScript receiver script world)
    {manifest : TransferManifest}
    (hrequest : script.request.recv = .ok (some (.transferRequest manifest))) :
    sender.buildManifest sendScript paths = .ok manifest := by
  refine SendTransfer.buildManifest_of_sent (hrun.toReceiver.subset ?_)
  simp [Script.received, hrequest, Except.toOption]

/-- A receiver that rejects sends its reason and nothing else. -/
theorem sent_of_reject {reason : String} (hworld : world.codec.sent = [])
    (hdecision : receiver.decisionOf script.decision = .reject reason) :
    ∀ m ∈ (receiver.handleIncoming script world).2.codec.sent,
      m = .transferResponse (.reject reason) := by
  refine RecvTransfer.codec_handleIncoming (J := SentAll (· = .transferResponse (.reject reason)))
    (fun _ _ h => h) (fun _ _ hm => absurd hm List.not_mem_nil) (by simp [SentAll, hworld])
    (fun _ hm => keeps_sentAll hm) (fun _ other _ hother => ?_) fun _ _ haccept => ?_
  · rw [hdecision] at hother
    simpa [eq_comm] using hother
  · simp [hdecision] at haccept

theorem fits_acceptResponse {manifest : TransferManifest}
    {resumeState : Option TransferResumeState} {response : TransferResponse}
    (hbitmap : resumeState ≠ none →
      bitmapLength (sumChunks manifest.chunkSize.toNat manifest.files) ≤ maxResponse)
    (hresponse : receiver.acceptResponse manifest resumeState = some response) :
    (Message.transferResponse response).Fits := by
  cases resumeState with
  | none =>
    obtain rfl := Option.some.inj hresponse
    decide
  | some state =>
    simp only [RecvTransfer.acceptResponse, Option.bind_eq_bind, Option.bind_eq_some_iff]
      at hresponse
    obtain ⟨total, htotal, completed, -, hif⟩ := hresponse
    obtain ⟨-, -, rfl⟩ := TransferManifest.totalChunks_eq_some.mp htotal
    split_ifs at hif
    obtain rfl := Option.some.inj hif
    rw [fits_resumeAt, length_encodeReceivedBitmap]
    exact hbitmap (by simp)

/-- What the messages of a run have to stay below. -/
structure ShortMessages (sender : SendTransfer) (paths : List Path) (sendScript : SendScript)
    (receiver : RecvTransfer) (script : Script) (world : World)
    (manifest : TransferManifest) : Prop where
  request : (Message.transferRequest manifest).Fits
  chunks : receiver.decisionOf script.decision = .accept → ∀ file ∈ manifest.files.zip paths,
    min (effectiveChunkSize file.1.size.toNat sender.config.transfer.chunkSize.toNat)
      ((sendScript.streamed file.2).getD []).length ≤ maxChunkData
  bitmap : receiver.decisionOf script.decision = .accept →
    world.resume manifest.transferId ≠ none →
      bitmapLength (sumChunks manifest.chunkSize.toNat manifest.files) ≤ maxResponse
  reason : ∀ reason, receiver.decisionOf script.decision = .reject reason →
    (Bincode.utf8 reason).length ≤ maxResponse

theorem attempted_sendFiles_of_accept
    (hshort : ∀ manifest, sender.buildManifest sendScript paths = .ok manifest →
      ShortMessages sender paths sendScript receiver script world manifest)
    (hdecision : receiver.decisionOf script.decision = .accept) :
    AttemptedAll Message.Accepted (sender.sendFiles peer paths sendScript .idle).2.codec := by
  refine SendTransfer.codec_sendFiles (fun _ _ h => h) (fun _ _ hm => absurd hm List.not_mem_nil)
    (fun manifest hmanifest => ⟨keeps_attemptedAll ?_, fun file hfile id data hlen =>
      keeps_attemptedAll ?_⟩) fun manifestHash => keeps_attemptedAll ?_
  · exact Message.accepted_of_fits (hshort manifest hmanifest).request
  · refine Message.accepted_of_fits (fits_chunkData.mpr (hlen.trans ?_))
    exact (hshort manifest hmanifest).chunks hdecision file hfile
  · exact Message.accepted_of_fits (fits_transferComplete manifestHash)

/-- A sender that is refused has attempted to send its request and nothing else. -/
theorem attempted_sendFiles_of_reject
    (hrun : HonestRun sender peer paths sendScript receiver script world)
    (hshort : ∀ manifest, sender.buildManifest sendScript paths = .ok manifest →
      ShortMessages sender paths sendScript receiver script world manifest)
    {reason : String} (hdecision : receiver.decisionOf script.decision = .reject reason) :
    AttemptedAll Message.Accepted (sender.sendFiles peer paths sendScript .idle).2.codec := by
  have hnew : ∀ transport, AttemptedAll Message.Accepted (ProtocolCodec.new transport) :=
    fun _ _ hm => absurd hm List.not_mem_nil
  have hrefused : ∀ reply, (SendTransfer.firstTurn sendScript).recv = .ok reply →
      reply = none ∨ reply = some (.transferResponse (.reject reason)) := by
    intro reply hreply
    cases reply with
    | none => exact Or.inl rfl
    | some message =>
      refine Or.inr (congrArg some ?_)
      refine sent_of_reject hrun.unsent hdecision message (hrun.toSender.subset ?_)
      unfold SendTransfer.firstTurn at hreply
      cases hturns : sendScript.turns with
      | nil => simp [hturns, SendTurn.closed] at hreply
      | cons turn turns =>
        rw [hturns, List.headD_cons] at hreply
        simp [SendScript.received, hturns, hreply, Except.toOption]
  unfold SendTransfer.sendFiles
  cases hmanifest : sender.buildManifest sendScript paths with
  | err e => exact hnew _
  | panic => exact hnew _
  | ok manifest =>
    cases hsession : sender.openSession peer sendScript with
    | err e => exact hnew _
    | panic => exact hnew _
    | ok session =>
      have hkeeps : Task.Keeps
          (fun world : SendWorld => AttemptedAll Message.Accepted world.codec)
          (sender.negotiate manifest) :=
        SendTransfer.keeps_negotiate (fun _ _ h => h) (keeps_attemptedAll
          (Message.accepted_of_fits (hshort manifest hmanifest).request))
      have hattempted := hkeeps { SendWorld.idle with
        codec := ProtocolCodec.new (SecureTransport.new session [])
        turns := sendScript.turns } (hnew _)
      obtain ⟨e, world', hnegotiate⟩ :=
        SendTransfer.negotiate_refused sender manifest session .idle hrefused
      rw [hnegotiate] at hattempted
      simp only [SendTransfer.transfer]
      rw [Task.bind_of_err hnegotiate]
      exact hattempted

/-- In an honest run with short messages every message passes the channel. -/
theorem honestRun_accepted
    (hrun : HonestRun sender peer paths sendScript receiver script world)
    (hshort : ∀ manifest, sender.buildManifest sendScript paths = .ok manifest →
      ShortMessages sender paths sendScript receiver script world manifest) :
    (∀ m ∈ (sender.sendFiles peer paths sendScript .idle).2.codec.attempted, m.Accepted) ∧
      ∀ m ∈ (receiver.handleIncoming script world).2.codec.attempted, m.Accepted := by
  constructor
  · cases hdecision : receiver.decisionOf script.decision with
    | accept => exact attempted_sendFiles_of_accept hshort hdecision
    | reject reason => exact attempted_sendFiles_of_reject hrun hshort hdecision
  · refine RecvTransfer.codec_handleIncoming (J := AttemptedAll Message.Accepted)
      (P := Message.Accepted) (fun _ _ h => h) (fun _ _ hm => absurd hm List.not_mem_nil)
      (by simp [AttemptedAll, hrun.unattempted]) (fun _ hm => keeps_attemptedAll hm)
      (fun manifest reason hrequest hreason => ?_)
      fun manifest hrequest hdecision => ⟨fun response hresponse => ?_, fun ack => ?_,
        fun allOk => ?_⟩
    · have h := hshort manifest (hrun.buildManifest hrequest)
      exact Message.accepted_of_fits (fits_reject.mpr (h.reason reason hreason))
    · have h := hshort manifest (hrun.buildManifest hrequest)
      exact Message.accepted_of_fits (fits_acceptResponse (h.bitmap hdecision) hresponse)
    · exact Message.accepted_of_fits (RecvTransfer.fits_chunkAck ack)
    · exact Message.accepted_of_fits (fits_transferVerified allOk)

/-! ### A run that passes -/

def smallManifest : TransferManifest where
  transferId := Vector.replicate 16 7
  version := PROTOCOL_VERSION
  files := [{
    index := 0, relativePath := "a.txt", size := 3, sha256 := sumHash [1, 2, 3],
    mimeType := "text/plain" }]
  totalSize := 3
  chunkSize := DEFAULT_CHUNK_SIZE
  senderName := "sender"
  senderPlatform := .linux

/-- The answers of an honest receiver to the one chunk of the file. -/
def smallSendScript : SendScript :=
  SendTransfer.plainScript [1, 2, 3] SendTransfer.peerKey
    ([.transferResponse .accept, .chunkAck ⟨⟨0, 0⟩, sumHash [1, 2, 3]⟩,
      .transferVerified true none].map fun message =>
        { readFault := false, sendFault := false, recv := .ok (some message) })

/-- The messages of an honest sender of the file. -/
def smallScript : Script :=
  RecvTransfer.peerScript (Vector.replicate 32 1) smallManifest (some .accept)
    [(⟨0, 0⟩, [1, 2, 3])] (computeManifestHash sumHash smallManifest)

/-- A whole transfer of a small file, in both its ends. -/
theorem honestRun_accepted_small :
    (∀ m ∈ (SendTransfer.plainSender.sendFiles (SendTransfer.plainPeer (sumHash []))
        [Path.ofString "/tmp/a.txt"] smallSendScript .idle).2.codec.attempted, m.Accepted) ∧
      ∀ m ∈ ((RecvTransfer.plainReceiver 100).handleIncoming smallScript
        RecvTransfer.emptyWorld).2.codec.attempted, m.Accepted := by
  refine honestRun_accepted ⟨by decide +kernel, by decide +kernel, rfl, rfl⟩
    fun manifest hmanifest => ?_
  have hbuilt : SendTransfer.plainSender.buildManifest smallSendScript
      [Path.ofString "/tmp/a.txt"] = .ok smallManifest := by rfl
  obtain rfl := Outcome.ok.inj (hbuilt.symm.trans hmanifest)
  exact ⟨by decide +kernel, by decide +kernel, fun _ hne => absurd rfl hne,
    fun _ hreject => absurd hreject (by simp [RecvTransfer.decisionOf, smallScript,
      RecvTransfer.peerScript, RecvTransfer.plainReceiver, Config.default])⟩

/-! ### A chunk that does not pass -/

namespace SendTransfer
open SendWorld

/-- A message that has been passed to `send`. -/
def Attempted (message : Message) (codec : ProtocolCodec) : Prop := message ∈ codec.attempted

theorem keeps_attempted (noise : Noise) (message other : Message) :
    Task.Keeps (Attempted message) (ProtocolCodec.send noise other) := by
  intro codec hmem
  change message ∈ (ProtocolCodec.send noise other codec).2.attempted
  rw [ProtocolCodec.attempted_send]
  exact List.mem_append_left _ hmem

theorem exchange_attempted (noise : Noise) (turn : SendTurn) (message : Message)
    (world : SendWorld) :
    Attempted message (exchange noise turn message world).2.codec := by
  rw [exchange_snd]
  change message ∈ (ProtocolCodec.send noise message _).2.attempted
  rw [ProtocolCodec.attempted_send]
  exact List.mem_append_right _ (List.mem_singleton_self _)

variable {sender : SendTransfer} {peer : DeviceInfo} {paths : List Path} {script : SendScript}
  {manifest : TransferManifest}

/-- A chunk that is read and not skipped is passed to `send`. -/
theorem sendChunk_attempted (sender : SendTransfer) {skip : Finset ℕ} {chunker : FileChunker}
    {file : Bytes} {chunkOffset globalOffset : ℕ} {chunk : ReadChunk} (world : SendWorld)
    (bytesSent : ℕ)
    (hglobal : globalChunkOffset manifest chunker.fileIndex chunkOffset = some globalOffset)
    (hskip : globalOffset ∉ skip) (hread : (world.turns.headD .closed).readFault = false)
    (hchunk : chunker.readChunk sender.host file chunkOffset = some chunk) :
    Attempted (.chunkData ⟨chunker.fileIndex, UInt64.ofNat chunkOffset⟩ chunk.data)
      (sendChunk sender manifest skip chunker file bytesSent chunkOffset world).2.codec := by
  set message := Message.chunkData ⟨chunker.fileIndex, UInt64.ofNat chunkOffset⟩ chunk.data
  have hturn : nextTurn world = (.ok (world.turns.headD .closed),
    { world with turns := world.turns.tail }) := rfl
  rw [sendChunk, hglobal, Task.ofChecked_some, Task.pure_bind_run, if_neg hskip,
    Task.bind_of_ok hturn, hread, Task.when_false, Task.pure_bind_run, hchunk,
    Task.ofChecked_some, Task.pure_bind_run]
  refine Task.Keeps.after (I := fun world : SendWorld => Attempted message world.codec)
    (exchange_attempted _ _ _ _) fun reply => ?_
  refine Task.Keeps.bind (keeps_awaitAck _ _) fun _ => ?_
  refine Task.Keeps.bind (Task.Keeps.ofChecked _) fun _ => ?_
  exact Task.Keeps.bind (keeps_emit _) fun _ => Task.Keeps.pure _

theorem negotiate_accepted (sender : SendTransfer) (session : NoiseSession) (world : SendWorld)
    (hfit : (Message.transferRequest manifest).Fits)
    (hfault : (firstTurn script).sendFault = false)
    (haccept : (firstTurn script).recv = .ok (some (.transferResponse .accept))) :
    ∃ codec, negotiate sender manifest { world with
        codec := ProtocolCodec.new (SecureTransport.new session []), turns := script.turns } =
      (.ok ∅, { connected session script world with codec }) := by
  set start := connected session script world with hstart
  obtain ⟨codec, hsend, -⟩ := ProtocolCodec.send_of_fits sender.noise
    (start.codec.withWriteFault (firstTurn script).sendFault) hfit hfault
  have hexchange : exchange sender.noise (firstTurn script) (.transferRequest manifest) start =
      (.ok (some (.transferResponse .accept)), { start with codec }) := by
    refine Prod.ext ?_ ?_
    · rw [exchange_of_ok (congrArg Prod.fst hsend), haccept]
    · rw [exchange_snd, hsend]
  refine ⟨codec, ?_⟩
  rw [negotiate_run, Task.bind_of_ok hexchange]
  rfl

/-- The first chunk of an accepted transfer is passed to `send`. -/
theorem first_chunk_attempted {session : NoiseSession} {entry : FileEntry} {path : Path}
    {files : List (FileEntry × Path)} {bytes : Bytes} {chunker : FileChunker} {n globalOffset : ℕ}
    {chunk : ReadChunk} (hmanifest : sender.buildManifest script paths = .ok manifest)
    (hsession : sender.openSession peer script = .ok session)
    (hfit : (Message.transferRequest manifest).Fits)
    (hfault : (firstTurn script).sendFault = false)
    (haccept : (firstTurn script).recv = .ok (some (.transferResponse .accept)))
    (hread : (script.turns.tail.headD .closed).readFault = false)
    (hfiles : manifest.files.zip paths = (entry, path) :: files)
    (hstreamed : script.streamed path = some bytes)
    (hopen : FileChunker.open path (some bytes) (UInt32.ofNat 0) (effectiveChunkSize
      entry.size.toNat sender.config.transfer.chunkSize.toNat) = .ok chunker)
    (hcount : chunker.chunkCount = some (n + 1))
    (hglobal : globalChunkOffset manifest chunker.fileIndex 0 = some globalOffset)
    (hchunk : chunker.readChunk sender.host bytes 0 = some chunk) (world : SendWorld) :
    Attempted (.chunkData ⟨chunker.fileIndex, UInt64.ofNat 0⟩ chunk.data)
      (sendFiles sender peer paths script world).2.codec := by
  set message := Message.chunkData ⟨chunker.fileIndex, UInt64.ofNat 0⟩ chunk.data with hmessage
  obtain ⟨codec, hnegotiate⟩ := negotiate_accepted sender session world hfit hfault haccept
  have hfirst := sendChunk_attempted sender { connected session script world with codec } 0
    hglobal (Finset.notMem_empty _) hread hchunk
  rw [sendFiles_eq hmanifest hsession, transfer, Task.bind_of_ok hnegotiate, hfiles]
  refine Task.Keeps.after (I := fun world : SendWorld => Attempted message world.codec) ?_
    fun _ => keeps_finish (fun _ _ h => h) fun _ => keeps_attempted _ _ _
  rw [streamFiles, hstreamed, hopen]
  simp only [hcount, Task.ofChecked_some, Task.pure_bind_run, List.range_succ_eq_map, sendChunks,
    Option.getD_some]
  refine Task.Keeps.after (I := fun world : SendWorld => Attempted message world.codec) ?_
    fun _ => keeps_streamFiles (fun _ _ h => h) (fun _ _ _ _ _ => keeps_attempted _ _ _) _ _
  exact Task.Keeps.after (I := fun world : SendWorld => Attempted message world.codec) hfirst
    fun _ => keeps_sendChunks (fun _ _ h => h) (fun _ _ _ => keeps_attempted _ _ _) _ _

end SendTransfer

/-- A file of one byte more than a chunk message can carry. -/
def oversizedFile : Bytes := List.replicate (maxChunkData + 1) 0

/-- The file is offered, and accepted. -/
def oversizedScript : SendScript :=
  { SendTransfer.plainScript oversizedFile SendTransfer.peerKey
      [{ readFault := false, sendFault := false, recv := .ok (some (.transferResponse .accept)) }]
    with metadata := fun _ => some 65496 }

def oversizedPaths : List Path := [Path.ofString "/tmp/a.txt"]

def oversizedManifest : TransferManifest where
  transferId := Vector.replicate 16 7
  version := PROTOCOL_VERSION
  files := [{
    index := 0, relativePath := "a.txt", size := 65496, sha256 := sumHash oversizedFile,
    mimeType := "text/plain" }]
  totalSize := 65496
  chunkSize := DEFAULT_CHUNK_SIZE
  senderName := "sender"
  senderPlatform := .linux

def acceptingScript : Script where
  handshake := .ok (Vector.replicate 32 1)
  request := Turn.calm (.transferRequest oversizedManifest)
  decision := some .accept
  turns := []

/-- Under the default configuration an honest run passes a chunk to `send` that no
session seals. -/
theorem honestRun_chunk_not_accepted :
    Config.default.validate = .ok () ∧
      HonestRun SendTransfer.plainSender (SendTransfer.plainPeer (sumHash [])) oversizedPaths
        oversizedScript (RecvTransfer.plainReceiver 100) acceptingScript
        RecvTransfer.emptyWorld ∧
      ∃ m ∈ (SendTransfer.plainSender.sendFiles (SendTransfer.plainPeer (sumHash []))
        oversizedPaths oversizedScript .idle).2.codec.attempted, ¬m.Accepted := by
  have hmanifest : SendTransfer.plainSender.buildManifest oversizedScript oversizedPaths =
      .ok oversizedManifest := by rfl
  have hsession : SendTransfer.plainSender.openSession (SendTransfer.plainPeer (sumHash []))
      oversizedScript = .ok ⟨0, 0, SendTransfer.peerKey⟩ := by decide +kernel
  have hfit : (Message.transferRequest oversizedManifest).Fits := by decide +kernel
  have hlength : oversizedFile.length = 65496 := List.length_replicate
  refine ⟨Config.validate_default, ⟨?_, by decide +kernel, rfl, rfl⟩, ?_⟩
  · exact SendTransfer.offered_of_fits hmanifest hsession hfit rfl .idle
  · have hchunk : FileChunker.readChunk SendTransfer.plainSender.host
        ⟨Path.ofString "/tmp/a.txt", 0, 262144, 65496⟩ oversizedFile 0 = some _ :=
      FileChunker.readChunk_eq rfl hlength (by decide) (by decide) (by decide)
    have hglobal : globalChunkOffset oversizedManifest 0 0 = some 0 := by decide
    refine ⟨_, SendTransfer.first_chunk_attempted (n := 0) hmanifest hsession hfit rfl rfl rfl rfl
      rfl (by rw [FileChunker.open, hlength]; rfl) (by decide) hglobal hchunk .idle, ?_⟩
    refine Message.not_accepted_of_not_fits fun hfits => ?_
    rw [fits_chunkData] at hfits
    simp [ByteImage.slot, hlength, maxChunkData] at hfits

end JustDrop

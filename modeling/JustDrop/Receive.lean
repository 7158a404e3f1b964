import JustDrop.Config
import JustDrop.Resume
import JustDrop.Transport
import JustDrop.Writer

/-!
# Receiving a transfer

The receiver answers one request, opens a writer for every file of the manifest
and then takes messages until the transfer is complete, cancelled or broken. The
peer and the environment choose, turn by turn, what the next receive returns and
which calls fail. Nothing the receiver did before an error is undone.
-/
namespace JustDrop

inductive IncomingTransferDecision where
  | accept
  | reject (reason : String)
  deriving DecidableEq, Repr

inductive TransferEvent where
  | incomingRequest (transferId : TransferId) (manifest : TransferManifest) (peerName : String)
  | progress (progress : TransferProgress)
  | completed (transferId : TransferId) (direction : TransferDirection)
  | failed (transferId : TransferId) (error : String)
  | cancelled (transferId : TransferId)
  deriving DecidableEq, Repr

/-- A receiving end: its configuration, what its host provides and how many bytes
an allocation may have. -/
structure RecvTransfer where
  config : Config
  homeDir : Option Path
  host : Host
  noise : Noise
  memory : ℕ

/-- One receive of the codec, and the calls that fail before the next one. -/
structure Turn where
  recv : Except ProtocolError (Option Message)
  diskFaults : List (Option ℕ)
  sendFault : Bool
  shutdownFault : Bool

/-- Everything the receiver does not decide: the outcome of the handshake, the
request, the user's decision (`none` when there is none) and the turns after it. -/
structure Script where
  handshake : Except ProtocolError PublicKey
  request : Turn
  decision : Option IncomingTransferDecision
  turns : List Turn

/-- `published` logs the destinations of finalized files by file position,
`warnings` what is logged as a warning. -/
structure World where
  disk : Disk
  resume : ResumeStore
  codec : ProtocolCodec
  events : List TransferEvent
  published : List (ℕ × Path)
  warnings : List String

namespace World

def onDisk {ε α : Type} (t : Task Disk ε α) : Task World ε α :=
  Task.zoom World.disk (fun disk world => { world with disk }) t

def emit (event : TransferEvent) : Task World ProtocolError Unit :=
  Task.modify fun world => { world with events := world.events ++ [event] }

def warn (text : String) : Task World ProtocolError Unit :=
  Task.modify fun world => { world with warnings := world.warnings ++ [text] }

def send (noise : Noise) (message : Message) : Task World ProtocolError Unit :=
  Task.zoom World.codec (fun codec world => { world with codec })
    (ProtocolCodec.send noise message)

/-- A new connection starts with a fresh codec and an empty log. -/
def connect (remoteStatic : PublicKey) : Task World ProtocolError Unit :=
  Task.modify fun world => { world with
    codec := ProtocolCodec.new (SecureTransport.new ⟨0, 0, remoteStatic⟩ [])
    published := [] }

def beginTurn (turn : Turn) : Task World ProtocolError Unit :=
  Task.modify fun world => { world with
    disk := { world.disk with faults := turn.diskFaults }
    codec := world.codec.withWriteFault turn.sendFault }

end World

namespace RecvTransfer
open World

def downloadDir (receiver : RecvTransfer) : Path := receiver.config.downloadDir receiver.homeDir

/-- Where the file of an entry goes. -/
def destOf (receiver : RecvTransfer) (entry : FileEntry) : Path :=
  receiver.downloadDir.join (Path.ofString entry.relativePath)

/-- The answer to an accepted request; no value when a count overflows or the
bitmap cannot be allocated. -/
def acceptResponse (receiver : RecvTransfer) (manifest : TransferManifest) :
    Option TransferResumeState → Option TransferResponse
  | none => some .accept
  | some state => do
    let totalChunks ← manifest.totalChunks
    let allCompleted ← completedGlobals manifest state.files
    if receiver.memory < bitmapLength totalChunks then none
    else some (.resumeAt (encodeReceivedBitmap allCompleted totalChunks))

def openWriters (receiver : RecvTransfer) (manifest : TransferManifest) :
    List FileEntry → Task World ProtocolError (List (Option ChunkWriter))
  | [] => pure []
  | entry :: entries => do
    let writer ← onDisk (Task.mapErr (fun e => .serialization "writer init" (.storage e))
      (ChunkWriter.new receiver.host manifest.transferId entry.index (receiver.destOf entry)
        manifest.chunkSize.toNat entry.size.toNat))
    let writers ← openWriters receiver manifest entries
    pure (some writer :: writers)

structure RecvState where
  writers : List (Option ChunkWriter)
  bytesReceived : ℕ

def handleChunk (receiver : RecvTransfer) (manifest : TransferManifest) (state : RecvState)
    (id : ChunkId) (data : Bytes) : Task World ProtocolError RecvState :=
  match state.writers[id.fileIndex.toNat]?.join with
  | none => Task.fail (.serialization "invalid file index" .none)
  | some writer => do
    let written ← onDisk (Task.mapErr (fun e => .serialization "write" (.storage e))
      (writer.writeChunk receiver.host id.chunkOffset.toNat data))
    send receiver.noise (.chunkAck { id, sha256 := written.1 })
    let bytesReceived ← Task.ofChecked (checkedAdd 64 state.bytesReceived data.length)
    emit (.progress {
      transferId := manifest.transferId, state := .transferring, bytesTransferred := bytesReceived,
      totalBytes := manifest.totalSize.toNat, currentFileIndex := id.fileIndex.toNat,
      totalFiles := manifest.files.length })
    pure { writers := state.writers.set id.fileIndex.toNat (some written.2), bytesReceived }

/-- Finalize the complete files from position `i` on; the result is whether all were complete. -/
def finishFiles (receiver : RecvTransfer) (writers : List (Option ChunkWriter)) :
    ℕ → List FileEntry → Task World ProtocolError Bool
  | _, [] => pure true
  | i, _ :: entries =>
    match writers[i]? with
    | none => Task.panic
    | some none => finishFiles receiver writers (i + 1) entries
    | some (some writer) =>
      if writer.isComplete then do
        let dest ← onDisk (Task.mapErr (fun e => .serialization "finalize" (.storage e))
          (writer.finalize receiver.host))
        Task.modify fun world => { world with published := world.published ++ [(i, dest)] }
        finishFiles receiver writers (i + 1) entries
      else do
        warn "file incomplete"
        let _ ← finishFiles receiver writers (i + 1) entries
        pure false

/-- A mismatch of the manifest hash is logged and nothing else. -/
def complete (receiver : RecvTransfer) (manifest : TransferManifest) (state : RecvState)
    (manifestHash : Sha256Hash) (shutdownFault : Bool) : Task World ProtocolError Unit := do
  let expectedHash := computeManifestHash receiver.host.sha256 manifest
  Task.when (manifestHash ≠ expectedHash) (warn "manifest hash mismatch")
  let allOk ← finishFiles receiver state.writers 0 manifest.files
  send receiver.noise (.transferVerified allOk
    (if allOk then none else some "some files incomplete"))
  Task.when allOk (Task.modify fun world => { world with
    resume := world.resume.remove manifest.transferId
    events := world.events ++ [.completed manifest.transferId .receiving] })
  Task.when shutdownFault (Task.fail (.serialization "shutdown failed" (.network .io)))

/-- The states of the files that still have a writer; a writer without an entry panics. -/
def savedFiles (manifest : TransferManifest) :
    ℕ → List (Option ChunkWriter) → Option (List FileResumeState)
  | _, [] => some []
  | i, none :: writers => savedFiles manifest (i + 1) writers
  | i, some writer :: writers => do
    let entry ← manifest.files[i]?
    let rest ← savedFiles manifest (i + 1) writers
    pure ({
      fileIndex := UInt32.ofNat i, destPath := entry.relativePath, tempPath := "",
      fileSize := entry.size.toNat, chunkSize := manifest.chunkSize.toNat,
      completedChunks := writer.completedChunks } :: rest)

def saveResumeState (manifest : TransferManifest) (state : RecvState) :
    Task World ProtocolError Unit := do
  let files ← Task.ofChecked (savedFiles manifest 0 state.writers)
  Task.modify fun world => { world with
    resume := world.resume.save {
      transferId := manifest.transferId, files,
      bytesTransferred := UInt64.ofNat state.bytesReceived, totalBytes := manifest.totalSize } }

def receiveLoop (receiver : RecvTransfer) (manifest : TransferManifest) :
    List Turn → RecvState → Task World ProtocolError Unit
  | [], state => do
    warn "connection closed"
    saveResumeState manifest state
    Task.fail (.cancelled "connection closed")
  | turn :: turns, state => do
    beginTurn turn
    match turn.recv with
    | .error e => Task.fail e
    | .ok (some (.chunkData id data)) => do
      let state ← handleChunk receiver manifest state id data
      receiveLoop receiver manifest turns state
    | .ok (some (.transferComplete manifestHash)) =>
      complete receiver manifest state manifestHash turn.shutdownFault
    | .ok (some (.cancel reason)) => do
      warn "cancelled by sender"
      saveResumeState manifest state
      emit (.cancelled manifest.transferId)
      Task.fail (.cancelled reason)
    | .ok none => do
      warn "connection closed"
      saveResumeState manifest state
      Task.fail (.cancelled "connection closed")
    | .ok (some other) => Task.fail (.unexpectedMessage "Transferring" (some other))

/-- Auto-accept overrides the user; no answer is a rejection. -/
def decisionOf (receiver : RecvTransfer) (decision : Option IncomingTransferDecision) :
    IncomingTransferDecision :=
  if receiver.config.security.autoAcceptAll then .accept
  else decision.getD (.reject "no response")

/-- The byte count that a stored state carries over. -/
def bytesBefore (resumeState : Option TransferResumeState) : ℕ :=
  ((resumeState.map TransferResumeState.bytesTransferred).getD 0).toNat

def receiveFiles (receiver : RecvTransfer) (manifest : TransferManifest)
    (resumeState : Option TransferResumeState) (turns : List Turn) :
    Task World ProtocolError Unit := do
  let response ← Task.ofChecked (acceptResponse receiver manifest resumeState)
  send receiver.noise (.transferResponse response)
  let writers ← openWriters receiver manifest manifest.files
  receiveLoop receiver manifest turns { writers, bytesReceived := bytesBefore resumeState }

def handleIncoming (receiver : RecvTransfer) (script : Script) :
    Task World ProtocolError Unit := do
  match script.handshake with
  | .error e => Task.fail e
  | .ok remoteStatic => do
    connect remoteStatic
    beginTurn script.request
    match script.request.recv with
    | .error e => Task.fail e
    | .ok (some (.transferRequest manifest)) => do
      emit (.incomingRequest manifest.transferId manifest manifest.senderName)
      let world ← Task.get
      match receiver.decisionOf script.decision with
      | .reject reason => do
        send receiver.noise (.transferResponse (.reject reason))
        Task.fail (.rejected reason)
      | .accept =>
        receiveFiles receiver manifest (world.resume manifest.transferId) script.turns
    | .ok other => Task.fail (.unexpectedMessage "Negotiating" other)

end RecvTransfer
end JustDrop

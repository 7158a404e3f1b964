import JustDrop.Chunker
import JustDrop.Config
import JustDrop.Handshake
import JustDrop.Receive

/-!
# Sending a transfer

The sender builds the manifest, connects, offers the manifest and streams the
chunks the receiver does not have yet, waiting for an acknowledgement after each.
The environment chooses, exchange by exchange, what fails and what the peer
answers.
-/
namespace JustDrop

structure DeviceInfo where
  id : String
  name : String
  addr : String
  fingerprint : Fingerprint
  platform : Platform
  deriving DecidableEq, Repr

/-- The key fingerprint under a given BLAKE2s. -/
def computeFingerprint (blake2s : Bytes → Fingerprint) (publicKey : PublicKey) : Fingerprint :=
  blake2s publicKey.toList

/-- The lower case of a character as far as it lies in ASCII: that of a letter, and `k`
for the Kelvin sign. The lower case of any other character holds one outside ASCII, for
which the character itself stands. -/
def toLowercase (c : Char) : Char := if c.toNat = 0x212A then 'k' else c.toLower

/-- The type of a file by its lower-cased extension. -/
def mimeFromPath (path : Path) : String :=
  match String.ofList ((path.extension.getD []).map toLowercase) with
  | "txt" => "text/plain"
  | "html" | "htm" => "text/html"
  | "pdf" => "application/pdf"
  | "zip" => "application/zip"
  | "png" => "image/png"
  | "jpg" | "jpeg" => "image/jpeg"
  | "gif" => "image/gif"
  | "mp4" => "video/mp4"
  | "mov" => "video/quicktime"
  | "mp3" => "audio/mpeg"
  | "json" => "application/json"
  | "apk" => "application/vnd.android.package-archive"
  | "dmg" => "application/x-apple-diskimage"
  | _ => "application/octet-stream"

/-- A sending end: its configuration, its key, what its host provides and the Noise library. -/
structure SendTransfer where
  config : Config
  privateKey : Bytes
  hostname : String
  platform : Platform
  host : ReadHost
  snow : Snow
  noise : Noise

/-- One send of the codec and the receive after it; before a chunk is sent its
read may fail. -/
structure SendTurn where
  readFault : Bool
  sendFault : Bool
  recv : Except ProtocolError (Option Message)

/-- Everything the sender does not decide: the files while the manifest is built
and while they are streamed, the identifier, the connection and the exchanges. -/
structure SendScript where
  metadata : Path → Option UInt64
  hashed : Path → Option Bytes
  streamed : Path → Option Bytes
  transferId : TransferId
  connect : String → Option TcpStream
  turns : List SendTurn
  shutdownFault : Bool

/-- The peer closes the connection after the listed exchanges. -/
def SendTurn.closed : SendTurn := { readFault := false, sendFault := false, recv := .ok none }

structure SendWorld where
  codec : ProtocolCodec
  turns : List SendTurn
  events : List TransferEvent
  warnings : List String

namespace SendWorld

/-- Before any connection. -/
def idle : SendWorld where
  codec := ProtocolCodec.new (SecureTransport.new ⟨0, 0, Vector.replicate 32 0⟩ [])
  turns := []
  events := []
  warnings := []

def emit (event : TransferEvent) : Task SendWorld ProtocolError Unit :=
  Task.modify fun world => { world with events := world.events ++ [event] }

def warn (text : String) : Task SendWorld ProtocolError Unit :=
  Task.modify fun world => { world with warnings := world.warnings ++ [text] }

def nextTurn : Task SendWorld ProtocolError SendTurn := fun world =>
  (.ok (world.turns.headD .closed), { world with turns := world.turns.tail })

/-- Send a message and wait for the next one. -/
def exchange (noise : Noise) (turn : SendTurn) (message : Message) :
    Task SendWorld ProtocolError (Option Message) := do
  Task.modify fun world => { world with codec := world.codec.withWriteFault turn.sendFault }
  Task.zoom SendWorld.codec (fun codec world => { world with codec })
    (ProtocolCodec.send noise message)
  match turn.recv with
  | .error e => Task.fail e
  | .ok reply => pure reply

end SendWorld

namespace SendTransfer
open SendWorld

/-- The name of a file without its directories. -/
def relativePath (path : Path) : String := ((path.fileName).map String.ofList).getD "file"

def fileEntries (sender : SendTransfer) (script : SendScript) :
    ℕ → List Path → Except ProtocolError (List FileEntry)
  | _, [] => .ok []
  | i, path :: paths =>
    match script.metadata path, script.hashed path with
    | none, _ => .error (.serialization "file metadata" .io)
    | _, none => .error (.serialization "file hash" .io)
    | some size, some bytes =>
      match fileEntries sender script (i + 1) paths with
      | .error e => .error e
      | .ok entries => .ok ({
          index := UInt32.ofNat i, relativePath := relativePath path, size
          sha256 := sender.host.sha256 bytes, mimeType := mimeFromPath path } :: entries)

/-- Building the manifest: an unreadable file fails, a sum of sizes beyond 64 bits panics. -/
def buildManifest (sender : SendTransfer) (script : SendScript) (paths : List Path) :
    Outcome ProtocolError TransferManifest :=
  match fileEntries sender script 0 paths with
  | .error e => .err e
  | .ok entries =>
    match TransferManifest.new script.transferId entries (sender.config.deviceName sender.hostname)
        sender.config.transfer.chunkSize sender.platform with
    | none => .panic
    | some manifest => .ok manifest

/-- The chunks the receiver has, by its response. -/
def skipChunks (manifest : TransferManifest) :
    Option Message → Task SendWorld ProtocolError (Finset ℕ)
  | some (.transferResponse .accept) => pure ∅
  | some (.transferResponse (.resumeAt receivedChunks)) => do
    let totalChunks ← Task.ofChecked manifest.totalChunks
    pure (decodeReceivedBitmap receivedChunks totalChunks)
  | some (.transferResponse (.reject reason)) => Task.fail (.rejected reason)
  | other => Task.fail (.unexpectedMessage "Negotiating" other)

/-- A mismatch of the chunk hash is logged and nothing else. -/
def awaitAck (sha256 : Sha256Hash) : Option Message → Task SendWorld ProtocolError Unit
  | some (.chunkAck ack) => Task.when (ack.sha256 ≠ sha256) (warn "chunk SHA mismatch")
  | some (.cancel reason) => Task.fail (.cancelled reason)
  | other => Task.fail (.unexpectedMessage "Transferring" other)

/-- One chunk, skipped when the receiver has it; the result is the byte count. -/
def sendChunk (sender : SendTransfer) (manifest : TransferManifest) (skip : Finset ℕ)
    (chunker : FileChunker) (file : Bytes) (bytesSent chunkOffset : ℕ) :
    Task SendWorld ProtocolError ℕ := do
  let globalOffset ← Task.ofChecked (globalChunkOffset manifest chunker.fileIndex chunkOffset)
  if globalOffset ∈ skip then Task.ofChecked (checkedAdd 64 bytesSent chunker.chunkSize)
  else do
    let turn ← nextTurn
    Task.when turn.readFault (Task.fail (.serialization "read chunk" .io))
    let chunk ← Task.ofChecked (chunker.readChunk sender.host file chunkOffset)
    let reply ← exchange sender.noise turn (.chunkData
      { fileIndex := chunker.fileIndex, chunkOffset := UInt64.ofNat chunkOffset } chunk.data)
    awaitAck chunk.sha256 reply
    let bytesSent ← Task.ofChecked (checkedAdd 64 bytesSent chunk.data.length)
    emit (.progress {
      transferId := manifest.transferId, state := .transferring, bytesTransferred := bytesSent,
      totalBytes := manifest.totalSize.toNat, currentFileIndex := chunker.fileIndex.toNat,
      totalFiles := manifest.files.length })
    pure bytesSent

def sendChunks (sender : SendTransfer) (manifest : TransferManifest) (skip : Finset ℕ)
    (chunker : FileChunker) (file : Bytes) : List ℕ → ℕ → Task SendWorld ProtocolError ℕ
  | [], bytesSent => pure bytesSent
  | chunkOffset :: offsets, bytesSent => do
    let bytesSent ← sendChunk sender manifest skip chunker file bytesSent chunkOffset
    sendChunks sender manifest skip chunker file offsets bytesSent

/-- The files from position `i` on, each with its entry. -/
def streamFiles (sender : SendTransfer) (script : SendScript) (manifest : TransferManifest)
    (skip : Finset ℕ) : ℕ → List (FileEntry × Path) → ℕ → Task SendWorld ProtocolError Unit
  | _, [], _ => pure ()
  | i, (entry, path) :: files, bytesSent =>
    match FileChunker.open path (script.streamed path) (UInt32.ofNat i)
        (effectiveChunkSize entry.size.toNat sender.config.transfer.chunkSize.toNat) with
    | .error e => Task.fail (.serialization "chunker" (.storage e))
    | .ok chunker => do
      let count ← Task.ofChecked chunker.chunkCount
      let bytesSent ← sendChunks sender manifest skip chunker ((script.streamed path).getD [])
        (List.range count) bytesSent
      streamFiles sender script manifest skip (i + 1) files bytesSent

def awaitVerified (transferId : TransferId) :
    Option Message → Task SendWorld ProtocolError Unit
  | some (.transferVerified true _) => emit (.completed transferId .sending)
  | some (.transferVerified false error) =>
    Task.fail (.cancelled (error.getD "verification failed"))
  | other => Task.fail (.unexpectedMessage "Verifying" other)

/-- Send the request and wait for the response. -/
def negotiate (sender : SendTransfer) (manifest : TransferManifest) :
    Task SendWorld ProtocolError (Finset ℕ) := do
  let turn ← nextTurn
  let response ← exchange sender.noise turn (.transferRequest manifest)
  skipChunks manifest response

/-- Send the completion and wait for the verification. -/
def finish (sender : SendTransfer) (script : SendScript) (manifest : TransferManifest) :
    Task SendWorld ProtocolError TransferId := do
  let turn ← nextTurn
  let reply ← exchange sender.noise turn
    (.transferComplete (computeManifestHash sender.host.sha256 manifest))
  awaitVerified manifest.transferId reply
  Task.when script.shutdownFault (Task.fail (.serialization "shutdown failed" (.network .io)))
  pure manifest.transferId

/-- Everything after the handshake. -/
def transfer (sender : SendTransfer) (script : SendScript) (manifest : TransferManifest)
    (paths : List Path) : Task SendWorld ProtocolError TransferId := do
  let skip ← negotiate sender manifest
  streamFiles sender script manifest skip 0 (manifest.files.zip paths) 0
  finish sender script manifest

/-- The connection to a peer and the handshake on it. -/
def openSession (sender : SendTransfer) (peer : DeviceInfo) (script : SendScript) :
    Outcome ProtocolError NoiseSession :=
  match script.connect peer.addr with
  | none => .err (.serialization "connect" .io)
  | some stream => (handshakeInitiator sender.snow sender.privateKey stream).1

def sendFiles (sender : SendTransfer) (peer : DeviceInfo) (paths : List Path)
    (script : SendScript) : Task SendWorld ProtocolError TransferId := fun world =>
  match sender.buildManifest script paths with
  | .err e => (.err e, world)
  | .panic => (.panic, world)
  | .ok manifest =>
    match sender.openSession peer script with
    | .err e => (.err e, world)
    | .panic => (.panic, world)
    | .ok session =>
      transfer sender script manifest paths { world with
        codec := ProtocolCodec.new (SecureTransport.new session []), turns := script.turns }

end SendTransfer
end JustDrop

import JustDrop.Bincode
import JustDrop.Types

/-!
# Protocol messages and their serialization

The wire form of a message is its bincode encoding. The hash of a manifest is the
hash of its encoding, for whatever function stands for SHA-256.
-/
namespace JustDrop
open Bincode

inductive Message where
  | transferRequest (manifest : TransferManifest)
  | transferResponse (response : TransferResponse)
  | chunkData (id : ChunkId) (data : Bytes)
  | chunkAck (ack : ChunkAck)
  | transferComplete (manifestHash : Sha256Hash)
  | transferVerified (ok : Bool) (error : Option String)
  | progress (bytesTransferred totalBytes : UInt64)
  | cancel (reason : String)
  | ping
  | pong
  deriving DecidableEq, Repr

def Platform.encode : Platform → Bytes
  | .android => variant 0
  | .macOS => variant 1
  | .linux => variant 2
  | .windows => variant 3
  | .unknown => variant 4

def FileEntry.encode (entry : FileEntry) : Bytes :=
  u32 entry.index ++ string entry.relativePath ++ u64 entry.size ++ array entry.sha256 ++
    string entry.mimeType

/-- A transfer id is written as a byte string, with its length. -/
def TransferManifest.encode (manifest : TransferManifest) : Bytes :=
  bytes manifest.transferId.toList ++ u8 manifest.version ++
    seq FileEntry.encode manifest.files ++ u64 manifest.totalSize ++ u32 manifest.chunkSize ++
    string manifest.senderName ++ manifest.senderPlatform.encode

def TransferResponse.encode : TransferResponse → Bytes
  | .accept => variant 0
  | .reject reason => variant 1 ++ string reason
  | .resumeAt receivedChunks => variant 2 ++ bytes receivedChunks

def ChunkId.encode (id : ChunkId) : Bytes := u32 id.fileIndex ++ u64 id.chunkOffset

/-- `bincode::serialize` of a message. -/
def Message.serialize : Message → Bytes
  | .transferRequest manifest => variant 0 ++ manifest.encode
  | .transferResponse response => variant 1 ++ response.encode
  | .chunkData id data => variant 2 ++ id.encode ++ bytes data
  | .chunkAck ack => variant 3 ++ ack.id.encode ++ array ack.sha256
  | .transferComplete manifestHash => variant 4 ++ array manifestHash
  | .transferVerified ok error => variant 5 ++ bool ok ++ option string error
  | .progress bytesTransferred totalBytes => variant 6 ++ u64 bytesTransferred ++ u64 totalBytes
  | .cancel reason => variant 7 ++ string reason
  | .ping => variant 8
  | .pong => variant 9

def computeManifestHash (sha256 : Bytes → Sha256Hash) (manifest : TransferManifest) :
    Sha256Hash := sha256 manifest.encode

/-- A hash for small instances: the bytes added up. -/
def sumHash (bytes : Bytes) : Sha256Hash := Vector.replicate 32 (bytes.foldr (· + ·) 0)

namespace Message

@[simp] theorem length_serialize_chunkData (id : ChunkId) (data : Bytes) :
    (chunkData id data).serialize.length = 24 + data.length := by
  simp [serialize, ChunkId.encode]
  omega

@[simp] theorem length_serialize_chunkAck (ack : ChunkAck) :
    (chunkAck ack).serialize.length = 48 := by
  simp [serialize, ChunkId.encode]

@[simp] theorem length_serialize_transferComplete (manifestHash : Sha256Hash) :
    (transferComplete manifestHash).serialize.length = 36 := by
  simp [serialize]

@[simp] theorem length_serialize_accept :
    (transferResponse .accept).serialize.length = 8 := by
  simp [serialize, TransferResponse.encode]

@[simp] theorem length_serialize_reject (reason : String) :
    (transferResponse (.reject reason)).serialize.length = 16 + (utf8 reason).length := by
  simp [serialize, TransferResponse.encode]
  omega

@[simp] theorem length_serialize_resumeAt (receivedChunks : Bytes) :
    (transferResponse (.resumeAt receivedChunks)).serialize.length =
      16 + receivedChunks.length := by
  simp [serialize, TransferResponse.encode]
  omega

@[simp] theorem length_serialize_transferVerified_none (ok : Bool) :
    (transferVerified ok none).serialize.length = 6 := by
  simp [serialize, option]

@[simp] theorem length_serialize_transferVerified_some (ok : Bool) (error : String) :
    (transferVerified ok (some error)).serialize.length = 14 + (utf8 error).length := by
  simp [serialize, option]
  omega

end Message
end JustDrop

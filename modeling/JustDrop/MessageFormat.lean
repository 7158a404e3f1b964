import JustDrop.Messages
import JustDrop.Serializer

/-!
# The formats of messages

Fields are written in the order of their declaration, and an enumeration by the
index of its variant with the fields of the variant behind it. This is so for every
serializer; with bincode the writer is the one that messages are sent with.
-/
namespace JustDrop

def FileEntry.fields : FileEntry ≃ UInt32 × String × UInt64 × Sha256Hash × String where
  toFun entry := (entry.index, entry.relativePath, entry.size, entry.sha256, entry.mimeType)
  invFun v := ⟨v.1, v.2.1, v.2.2.1, v.2.2.2.1, v.2.2.2.2⟩
  left_inv _ := rfl
  right_inv _ := rfl

def TransferManifest.fields : TransferManifest ≃
    TransferId × UInt8 × List FileEntry × UInt64 × UInt32 × String × Platform where
  toFun m := (m.transferId, m.version, m.files, m.totalSize, m.chunkSize, m.senderName,
    m.senderPlatform)
  invFun v := ⟨v.1, v.2.1, v.2.2.1, v.2.2.2.1, v.2.2.2.2.1, v.2.2.2.2.2.1, v.2.2.2.2.2.2⟩
  left_inv _ := rfl
  right_inv _ := rfl

def ChunkId.fields : ChunkId ≃ UInt32 × UInt64 where
  toFun id := (id.fileIndex, id.chunkOffset)
  invFun v := ⟨v.1, v.2⟩
  left_inv _ := rfl
  right_inv _ := rfl

def ChunkAck.fields : ChunkAck ≃ ChunkId × Sha256Hash where
  toFun ack := (ack.id, ack.sha256)
  invFun v := ⟨v.1, v.2⟩
  left_inv _ := rfl
  right_inv _ := rfl

namespace Serializer
open Format

variable (s : Serializer)

def platform : Format Platform :=
  s.enumeration [.android, .macOS, .linux, .windows, .unknown] (by decide)

/-- The sixteen bytes of an identifier are written with their length. -/
def transferId : Format TransferId := s.bytes.via (vectorOf UInt8 16)

def fileEntry : Format FileEntry :=
  (s.u32.pair (s.string.pair (s.u64.pair ((array 32).pair s.string)))).record FileEntry.fields

def transferManifest : Format TransferManifest :=
  (s.transferId.pair (byte.pair ((Format.list s.length s.fileEntry).pair
    (s.u64.pair (s.u32.pair (s.string.pair s.platform)))))).record TransferManifest.fields

def chunkId : Format ChunkId := (s.u32.pair s.u64).record ChunkId.fields

def chunkAck : Format ChunkAck := (s.chunkId.pair (array 32)).record ChunkAck.fields

end Serializer

def TransferResponse.variantIndex : TransferResponse → ℕ
  | .accept => 0
  | .reject _ => 1
  | .resumeAt _ => 2

def TransferResponse.variants (s : Serializer) : ℕ → Format TransferResponse
  | 0 => Format.unit.built (fun _ => .accept)
      (fun | .accept => some () | _ => none) (by intro a b; cases a <;> simp)
  | 1 => s.string.built .reject
      (fun | .reject reason => some reason | _ => none) (by intro a b; cases a <;> simp [eq_comm])
  | 2 => s.bytes.built .resumeAt
      (fun | .resumeAt receivedChunks => some receivedChunks | _ => none)
      (by intro a b; cases a <;> simp [eq_comm])
  | _ => Format.nothing

theorem TransferResponse.variantIndex_eq (s : Serializer) (i : ℕ) (response : TransferResponse)
    (spelling : Bytes) (h : (variants s i).Spells response spelling) :
    response.variantIndex = i := by
  unfold variants at h
  split at h
  case h_4 => exact absurd h id
  all_goals
    obtain ⟨fields, rfl, -⟩ := Format.built_spells.mp h
    rfl

def TransferResponse.format (s : Serializer) : Format TransferResponse :=
  Format.choice s.variant variantIndex (variants s) (variantIndex_eq s)

def Message.variantIndex : Message → ℕ
  | .transferRequest _ => 0
  | .transferResponse _ => 1
  | .chunkData _ _ => 2
  | .chunkAck _ => 3
  | .transferComplete _ => 4
  | .transferVerified _ _ => 5
  | .progress _ _ => 6
  | .cancel _ => 7
  | .ping => 8
  | .pong => 9

def Message.variants (s : Serializer) : ℕ → Format Message
  | 0 => s.transferManifest.built .transferRequest
      (fun | .transferRequest manifest => some manifest | _ => none)
      (by intro a b; cases a <;> simp [eq_comm])
  | 1 => (TransferResponse.format s).built .transferResponse
      (fun | .transferResponse response => some response | _ => none)
      (by intro a b; cases a <;> simp [eq_comm])
  | 2 => (s.chunkId.pair s.bytes).built (fun v => .chunkData v.1 v.2)
      (fun | .chunkData id data => some (id, data) | _ => none)
      (by intro a b; cases a <;> simp [Prod.ext_iff, eq_comm])
  | 3 => s.chunkAck.built .chunkAck
      (fun | .chunkAck ack => some ack | _ => none)
      (by intro a b; cases a <;> simp [eq_comm])
  | 4 => (Serializer.array 32).built .transferComplete
      (fun | .transferComplete manifestHash => some manifestHash | _ => none)
      (by intro a b; cases a <;> simp [eq_comm])
  | 5 => (Format.bool.pair (Format.option s.string)).built (fun v => .transferVerified v.1 v.2)
      (fun | .transferVerified ok error => some (ok, error) | _ => none)
      (by intro a b; cases a <;> simp [Prod.ext_iff, eq_comm])
  | 6 => (s.u64.pair s.u64).built (fun v => .progress v.1 v.2)
      (fun
        | .progress bytesTransferred totalBytes => some (bytesTransferred, totalBytes)
        | _ => none)
      (by intro a b; cases a <;> simp [Prod.ext_iff, eq_comm])
  | 7 => s.string.built .cancel
      (fun | .cancel reason => some reason | _ => none)
      (by intro a b; cases a <;> simp [eq_comm])
  | 8 => Format.unit.built (fun _ => .ping)
      (fun | .ping => some () | _ => none) (by intro a b; cases a <;> simp)
  | 9 => Format.unit.built (fun _ => .pong)
      (fun | .pong => some () | _ => none) (by intro a b; cases a <;> simp)
  | _ => Format.nothing

theorem Message.variantIndex_eq (s : Serializer) (i : ℕ) (message : Message) (spelling : Bytes)
    (h : (variants s i).Spells message spelling) : message.variantIndex = i := by
  unfold variants at h
  split at h
  case h_11 => exact absurd h id
  all_goals
    obtain ⟨fields, rfl, -⟩ := Format.built_spells.mp h
    rfl

def Message.format (s : Serializer) : Format Message :=
  Format.choice s.variant variantIndex (variants s) (variantIndex_eq s)

/-! ### Room -/

section Room

/-- The lengths take at most eight bytes, as of everything that is held in memory. -/
def FileEntry.Sized (entry : FileEntry) : Prop :=
  (Bincode.utf8 entry.relativePath).length < 2 ^ 64 ∧ (Bincode.utf8 entry.mimeType).length < 2 ^ 64

def TransferManifest.Sized (manifest : TransferManifest) : Prop :=
  manifest.files.length < 2 ^ 64 ∧ (∀ entry ∈ manifest.files, entry.Sized) ∧
    (Bincode.utf8 manifest.senderName).length < 2 ^ 64

variable (s : Serializer)

@[simp] theorem Serializer.fits_platform (platform : Platform) : s.platform.Fits platform := by
  apply s.fits_enumeration (by decide)
  cases platform <;> decide

@[simp] theorem Serializer.fits_transferId (id : TransferId) : s.transferId.Fits id :=
  ⟨id.toList, rfl, by simp⟩

theorem Serializer.fits_fileEntry {entry : FileEntry} (h : entry.Sized) :
    s.fileEntry.Fits entry := by
  rw [fileEntry, Format.record_fits]
  exact ⟨s.fits_u32 _, (s.fits_string _).mpr h.1, s.fits_u64 _, fits_array _,
    (s.fits_string _).mpr h.2⟩

theorem Serializer.fits_transferManifest {manifest : TransferManifest} (h : manifest.Sized) :
    s.transferManifest.Fits manifest := by
  obtain ⟨hlength, hfiles, hname⟩ := h
  rw [transferManifest, Format.record_fits]
  exact ⟨s.fits_transferId _, trivial,
    (s.fits_seq _ _).mpr ⟨hlength, fun entry hentry => s.fits_fileEntry (hfiles entry hentry)⟩,
    s.fits_u64 _, s.fits_u32 _, (s.fits_string _).mpr hname, s.fits_platform _⟩

@[simp] theorem Serializer.fits_chunkId (id : ChunkId) : s.chunkId.Fits id := by
  rw [chunkId, Format.record_fits]
  exact ⟨s.fits_u32 _, s.fits_u64 _⟩

@[simp] theorem Serializer.fits_chunkAck (ack : ChunkAck) : s.chunkAck.Fits ack := by
  rw [chunkAck, Format.record_fits]
  exact ⟨s.fits_chunkId _, fits_array _⟩

def TransferResponse.Sized : TransferResponse → Prop
  | .accept => True
  | .reject reason => (Bincode.utf8 reason).length < 2 ^ 64
  | .resumeAt receivedChunks => receivedChunks.length < 2 ^ 64

theorem TransferResponse.fits {response : TransferResponse} (h : response.Sized) :
    (format s).Fits response := by
  have hindex : response.variantIndex < 2 ^ 32 := by cases response <;> simp [variantIndex]
  refine ⟨(s.fits_variant _).mpr hindex, ?_⟩
  cases response with
  | accept => exact ⟨(), rfl, trivial⟩
  | reject reason => exact ⟨reason, rfl, (s.fits_string _).mpr h⟩
  | resumeAt receivedChunks => exact ⟨receivedChunks, rfl, (s.fits_bytes _).mpr h⟩

def Message.Sized : Message → Prop
  | .transferRequest manifest => manifest.Sized
  | .transferResponse response => response.Sized
  | .chunkData _ data => data.length < 2 ^ 64
  | .transferVerified _ error => ∀ text ∈ error, (Bincode.utf8 text).length < 2 ^ 64
  | .cancel reason => (Bincode.utf8 reason).length < 2 ^ 64
  | _ => True

theorem Message.fits {message : Message} (h : message.Sized) : (format s).Fits message := by
  have hindex : message.variantIndex < 2 ^ 32 := by cases message <;> simp [variantIndex]
  refine ⟨(s.fits_variant _).mpr hindex, ?_⟩
  cases message with
  | transferRequest manifest => exact ⟨manifest, rfl, s.fits_transferManifest h⟩
  | transferResponse response => exact ⟨response, rfl, TransferResponse.fits s h⟩
  | chunkData id data => exact ⟨(id, data), rfl, s.fits_chunkId id, (s.fits_bytes _).mpr h⟩
  | chunkAck ack => exact ⟨ack, rfl, s.fits_chunkAck ack⟩
  | transferComplete manifestHash => exact ⟨manifestHash, rfl, Serializer.fits_array _⟩
  | transferVerified ok error =>
    refine ⟨(ok, error), rfl, Serializer.fits_bool ok, (Serializer.fits_option _ _).mpr ?_⟩
    exact fun text htext => (s.fits_string text).mpr (h text htext)
  | progress bytesTransferred totalBytes =>
    exact ⟨(bytesTransferred, totalBytes), rfl, s.fits_u64 _, s.fits_u64 _⟩
  | cancel reason => exact ⟨reason, rfl, (s.fits_string _).mpr h⟩
  | ping => exact ⟨(), rfl, trivial⟩
  | pong => exact ⟨(), rfl, trivial⟩

end Room

/-! ### The writer of bincode -/

section Bincode
open Serializer

theorem Platform.encode_eq (platform : Platform) :
    bincode.platform.encode platform = platform.encode := by
  cases platform <;> rfl

theorem FileEntry.encode_eq : bincode.fileEntry.encode = FileEntry.encode := by
  funext entry
  simp only [Serializer.fileEntry, Format.record_encode, Format.pair, FileEntry.fields,
    Equiv.coe_fn_mk, bincode_string, encode_array, FileEntry.encode, List.append_assoc]
  rfl

theorem TransferManifest.encode_eq (manifest : TransferManifest) :
    bincode.transferManifest.encode manifest = manifest.encode := by
  have hid : bincode.transferId.encode manifest.transferId =
      Bincode.bytes manifest.transferId.toList := bincode_bytes _
  simp only [Serializer.transferManifest, Format.record_encode, Format.pair,
    TransferManifest.fields, Equiv.coe_fn_mk, bincode_string, hid, Platform.encode_eq,
    TransferManifest.encode, List.append_assoc, Format.list, FileEntry.encode_eq]
  rfl

theorem TransferResponse.encode_eq (response : TransferResponse) :
    (TransferResponse.format bincode).encode response = response.encode := by
  cases response with
  | accept => rfl
  | reject reason =>
    have hpayload : (variants bincode 1).encode (.reject reason) = Bincode.string reason := by
      simp only [variants, Format.built_encode, bincode_string]
    exact congrArg (Bincode.variant 1 ++ ·) hpayload
  | resumeAt receivedChunks =>
    have hpayload : (variants bincode 2).encode (.resumeAt receivedChunks) =
        Bincode.bytes receivedChunks := by
      simp only [variants, Format.built_encode, bincode_bytes]
    exact congrArg (Bincode.variant 2 ++ ·) hpayload

theorem Message.encode_eq (message : Message) :
    (Message.format bincode).encode message = message.serialize := by
  have hsplit : (Message.format bincode).encode message =
      Bincode.variant message.variantIndex ++
        (variants bincode message.variantIndex).encode message := rfl
  rw [hsplit]
  cases message with
  | transferRequest manifest =>
    simp only [variantIndex, variants, Format.built_encode, TransferManifest.encode_eq, serialize]
  | transferResponse response =>
    simp only [variantIndex, variants, Format.built_encode, TransferResponse.encode_eq, serialize]
  | chunkData id data =>
    have hpayload : (variants bincode 2).encode (.chunkData id data) =
        (bincode.chunkId.pair bincode.bytes).encode (id, data) := rfl
    simp only [variantIndex, hpayload, Format.pair, bincode_bytes, serialize, List.append_assoc]
    rfl
  | chunkAck ack =>
    simp only [variantIndex, variants, Format.built_encode, serialize, List.append_assoc]
    exact congrArg (_ ++ ·) (congrArg (ack.id.encode ++ ·) (encode_array ack.sha256))
  | transferComplete manifestHash =>
    simp only [variantIndex, variants, Format.built_encode, encode_array, serialize]
  | transferVerified ok error =>
    have hpayload : (variants bincode 5).encode (.transferVerified ok error) =
        (Format.bool.pair (Format.option bincode.string)).encode (ok, error) := rfl
    have hstring : bincode.string.encode = Bincode.string := funext bincode_string
    simp only [variantIndex, hpayload, Format.pair, encode_bool, bincode_option, hstring,
      serialize, List.append_assoc]
  | progress bytesTransferred totalBytes =>
    have hpayload : (variants bincode 6).encode (.progress bytesTransferred totalBytes) =
        (bincode.u64.pair bincode.u64).encode (bytesTransferred, totalBytes) := rfl
    simp only [variantIndex, hpayload, serialize, List.append_assoc]
    rfl
  | cancel reason =>
    simp only [variantIndex, variants, Format.built_encode, bincode_string, serialize]
  | ping => rfl
  | pong => rfl

end Bincode
end JustDrop

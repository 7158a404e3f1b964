import JustDrop.MessageFormat

/-!
# The second message format

A tag in front of the Postcard form of a message. The decoder skips the tag, leaves
what follows the message and reads padded numbers, so a message has many encodings.
The encoder's is the shortest of those with the tag of the message.
-/
namespace JustDrop

inductive Presence where
  | idle
  | available
  | receiving
  | busy
  | invisible
  deriving DecidableEq, Repr

inductive MessageV2 where
  | handshake (version : UInt8) (deviceId : Vector UInt8 8) (deviceName : String)
  | manifest (manifest : TransferManifest)
  | accept
  | reject (reason : String)
  | chunk (id : ChunkId) (compressed : Bool) (data : Bytes)
  | ack (ack : ChunkAck)
  | resume (transferId : String) (receivedChunks : Bytes)
  | cancel (reason : String)
  | presenceUpdate (presence : Presence)
  | complete (manifestHash : Vector UInt8 32)
  | verified (ok : Bool) (error : Option String)
  | ping
  | pong
  deriving DecidableEq, Repr

structure ProtocolEncodeError where
  text : String
  deriving DecidableEq, Repr

structure ProtocolDecodeError where
  text : String
  deriving DecidableEq, Repr

namespace MessageV2
open Format

namespace tags

def HANDSHAKE : UInt8 := 0x01
def MANIFEST : UInt8 := 0x02
def ACCEPT : UInt8 := 0x03
def REJECT : UInt8 := 0x04
def CHUNK : UInt8 := 0x05
def ACK : UInt8 := 0x06
def RESUME : UInt8 := 0x07
def CANCEL : UInt8 := 0x08
def PRESENCE : UInt8 := 0x09
def COMPLETE : UInt8 := 0x0A
def VERIFIED : UInt8 := 0x0B
def PING : UInt8 := 0x0C
def PONG : UInt8 := 0x0D

end tags

def tag : MessageV2 → UInt8
  | .handshake _ _ _ => tags.HANDSHAKE
  | .manifest _ => tags.MANIFEST
  | .accept => tags.ACCEPT
  | .reject _ => tags.REJECT
  | .chunk _ _ _ => tags.CHUNK
  | .ack _ => tags.ACK
  | .resume _ _ => tags.RESUME
  | .cancel _ => tags.CANCEL
  | .presenceUpdate _ => tags.PRESENCE
  | .complete _ => tags.COMPLETE
  | .verified _ _ => tags.VERIFIED
  | .ping => tags.PING
  | .pong => tags.PONG

def variantIndex : MessageV2 → ℕ
  | .handshake _ _ _ => 0
  | .manifest _ => 1
  | .accept => 2
  | .reject _ => 3
  | .chunk _ _ _ => 4
  | .ack _ => 5
  | .resume _ _ => 6
  | .cancel _ => 7
  | .presenceUpdate _ => 8
  | .complete _ => 9
  | .verified _ _ => 10
  | .ping => 11
  | .pong => 12

def presence (s : Serializer) : Format Presence :=
  s.enumeration [.idle, .available, .receiving, .busy, .invisible] (by decide)

def variants (s : Serializer) : ℕ → Format MessageV2
  | 0 => (byte.pair ((Serializer.array 8).pair s.string)).built
      (fun v => .handshake v.1 v.2.1 v.2.2)
      (fun | .handshake version deviceId deviceName => some (version, deviceId, deviceName)
           | _ => none)
      (by intro a b; cases a <;> simp [Prod.ext_iff, eq_comm])
  | 1 => s.transferManifest.built .manifest
      (fun | .manifest content => some content | _ => none)
      (by intro a b; cases a <;> simp [eq_comm])
  | 2 => unit.built (fun _ => .accept)
      (fun | .accept => some () | _ => none) (by intro a b; cases a <;> simp)
  | 3 => s.string.built .reject
      (fun | .reject reason => some reason | _ => none)
      (by intro a b; cases a <;> simp [eq_comm])
  | 4 => (s.chunkId.pair (Format.bool.pair s.bytes)).built (fun v => .chunk v.1 v.2.1 v.2.2)
      (fun | .chunk id compressed data => some (id, compressed, data) | _ => none)
      (by intro a b; cases a <;> simp [Prod.ext_iff, eq_comm])
  | 5 => s.chunkAck.built .ack
      (fun | .ack content => some content | _ => none) (by intro a b; cases a <;> simp [eq_comm])
  | 6 => (s.string.pair s.bytes).built (fun v => .resume v.1 v.2)
      (fun | .resume transferId receivedChunks => some (transferId, receivedChunks)
           | _ => none)
      (by intro a b; cases a <;> simp [Prod.ext_iff, eq_comm])
  | 7 => s.string.built .cancel
      (fun | .cancel reason => some reason | _ => none)
      (by intro a b; cases a <;> simp [eq_comm])
  | 8 => (presence s).built .presenceUpdate
      (fun | .presenceUpdate state => some state | _ => none)
      (by intro a b; cases a <;> simp [eq_comm])
  | 9 => (Serializer.array 32).built .complete
      (fun | .complete manifestHash => some manifestHash | _ => none)
      (by intro a b; cases a <;> simp [eq_comm])
  | 10 => (Format.bool.pair (Format.option s.string)).built (fun v => .verified v.1 v.2)
      (fun | .verified ok error => some (ok, error) | _ => none)
      (by intro a b; cases a <;> simp [Prod.ext_iff, eq_comm])
  | 11 => unit.built (fun _ => .ping)
      (fun | .ping => some () | _ => none) (by intro a b; cases a <;> simp)
  | 12 => unit.built (fun _ => .pong)
      (fun | .pong => some () | _ => none) (by intro a b; cases a <;> simp)
  | _ => Format.nothing

theorem variantIndex_eq (s : Serializer) (i : ℕ) (message : MessageV2) (spelling : Bytes)
    (h : (variants s i).Spells message spelling) : message.variantIndex = i := by
  unfold variants at h
  split at h
  case h_14 => exact absurd h id
  all_goals
    obtain ⟨fields, rfl, -⟩ := built_spells.mp h
    rfl

/-- The form of a message without its tag. -/
def format : Format MessageV2 :=
  choice Serializer.postcard.variant variantIndex (variants Serializer.postcard)
    (variantIndex_eq Serializer.postcard)

/-- Serialization into memory does not fail. -/
def encode (message : MessageV2) : Except ProtocolEncodeError Bytes :=
  .ok (message.tag :: format.encode message)

/-- The serializer's own error follows the text of the second error. -/
def decode (data : Bytes) : Except ProtocolDecodeError MessageV2 :=
  if data.isEmpty then .error ⟨"empty message"⟩
  else match format.decode (data.drop 1) with
    | some (message, _) => .ok message
    | none => .error ⟨"postcard decode: "⟩

/-- The lengths take at most eight bytes, as of everything that is held in memory. -/
def Sized : MessageV2 → Prop
  | .handshake _ _ deviceName => (Bincode.utf8 deviceName).length < 2 ^ 64
  | .manifest content => content.Sized
  | .reject reason => (Bincode.utf8 reason).length < 2 ^ 64
  | .chunk _ _ data => data.length < 2 ^ 64
  | .resume transferId receivedChunks =>
    (Bincode.utf8 transferId).length < 2 ^ 64 ∧ receivedChunks.length < 2 ^ 64
  | .cancel reason => (Bincode.utf8 reason).length < 2 ^ 64
  | .verified _ error => ∀ text ∈ error, (Bincode.utf8 text).length < 2 ^ 64
  | _ => True

theorem fits {message : MessageV2} (h : message.Sized) : format.Fits message := by
  have hindex : message.variantIndex < 2 ^ 32 := by cases message <;> simp [variantIndex]
  refine ⟨(Serializer.postcard.fits_variant _).mpr hindex, ?_⟩
  cases message with
  | handshake version deviceId deviceName =>
    exact ⟨(version, deviceId, deviceName), rfl, trivial, Serializer.fits_array _,
      (Serializer.fits_string _ _).mpr h⟩
  | manifest content => exact ⟨content, rfl, Serializer.fits_transferManifest _ h⟩
  | accept => exact ⟨(), rfl, trivial⟩
  | reject reason => exact ⟨reason, rfl, (Serializer.fits_string _ _).mpr h⟩
  | chunk id compressed data =>
    exact ⟨(id, compressed, data), rfl, Serializer.fits_chunkId _ id,
      Serializer.fits_bool compressed, (Serializer.fits_bytes _ _).mpr h⟩
  | ack content => exact ⟨content, rfl, Serializer.fits_chunkAck _ content⟩
  | resume transferId receivedChunks =>
    exact ⟨(transferId, receivedChunks), rfl, (Serializer.fits_string _ _).mpr h.1,
      (Serializer.fits_bytes _ _).mpr h.2⟩
  | cancel reason => exact ⟨reason, rfl, (Serializer.fits_string _ _).mpr h⟩
  | presenceUpdate state =>
    refine ⟨state, rfl, Serializer.fits_enumeration _ (by decide) ?_⟩
    cases state <;> decide
  | complete manifestHash => exact ⟨manifestHash, rfl, Serializer.fits_array _⟩
  | verified ok error =>
    refine ⟨(ok, error), rfl, Serializer.fits_bool ok, (Serializer.fits_option _ _).mpr ?_⟩
    exact fun text htext => (Serializer.fits_string _ text).mpr (h text htext)
  | ping => exact ⟨(), rfl, trivial⟩
  | pong => exact ⟨(), rfl, trivial⟩

/-- Accepted is any first byte with a spelling of the message behind it, and anything behind
the spelling. -/
theorem decode_eq_ok_iff (data : Bytes) (message : MessageV2) :
    decode data = .ok message ↔
      ∃ first spelling rest, data = first :: (spelling ++ rest) ∧
        format.Spells message spelling := by
  cases data with
  | nil => simp [decode]
  | cons first bytes =>
    have hdecode : decode (first :: bytes) = .ok message ↔
        ∃ rest, format.decode bytes = some (message, rest) := by
      simp only [decode, List.isEmpty_cons, Bool.false_eq_true, if_false, List.drop_one,
        List.tail_cons]
      cases format.decode bytes with
      | none => simp
      | some read => simp [Prod.ext_iff]
    simp only [hdecode, format.decode_eq_some_iff, List.cons.injEq]
    constructor
    · rintro ⟨rest, spelling, hspells, rfl⟩
      exact ⟨first, spelling, rest, ⟨rfl, rfl⟩, hspells⟩
    · rintro ⟨_, spelling, rest, ⟨rfl, rfl⟩, hspells⟩
      exact ⟨rest, spelling, hspells, rfl⟩

/-- No accepted encoding is shorter than the encoder's. -/
theorem length_encode_le {data : Bytes} {message : MessageV2} (h : decode data = .ok message) :
    (format.encode message).length + 1 ≤ data.length := by
  obtain ⟨first, spelling, rest, rfl, hspells⟩ := (decode_eq_ok_iff data message).mp h
  have hle := format.length_encode_le hspells
  simp only [List.length_cons, List.length_append]
  omega

theorem decode_encode (first : UInt8) {message : MessageV2} (h : message.Sized) :
    decode (first :: format.encode message) = .ok message :=
  (decode_eq_ok_iff _ message).mpr
    ⟨first, _, [], by simp, format.spells_encode message (fits h)⟩

/-- The encoder's output is, among the accepted encodings of a message, the shortest that
starts with the tag of the message. -/
theorem encode_eq_ok_iff {message : MessageV2} (h : message.Sized) (data : Bytes) :
    message.encode = .ok data ↔ decode data = .ok message ∧ data.head? = some message.tag ∧
      ∀ other, decode other = .ok message → data.length ≤ other.length := by
  rw [encode, Except.ok.injEq]
  constructor
  · intro heq
    subst heq
    refine ⟨decode_encode message.tag h, rfl, fun other hother => ?_⟩
    rw [List.length_cons]
    exact length_encode_le hother
  · rintro ⟨hdecode, htag, hshortest⟩
    obtain ⟨first, spelling, rest, rfl, hspells⟩ := (decode_eq_ok_iff data message).mp hdecode
    have hfirst : first = message.tag := by simpa using htag
    have hle := hshortest _ (decode_encode message.tag h)
    have hspelling := format.length_encode_le hspells
    simp only [List.length_cons, List.length_append] at hle
    have hrest : rest = [] := List.eq_nil_of_length_eq_zero (by omega)
    rw [hfirst, hrest, List.append_nil, format.eq_encode_of_length_le hspells (by omega)]

/-- What the decoder accepts, and which of it the encoder produces. -/
theorem codec_exact (message : MessageV2) (data : Bytes) :
    (decode data = .ok message ↔
      ∃ first spelling rest, data = first :: (spelling ++ rest) ∧
        format.Spells message spelling) ∧
    (message.Sized →
      (message.encode = .ok data ↔ decode data = .ok message ∧
        data.head? = some message.tag ∧
        ∀ other, decode other = .ok message → data.length ≤ other.length)) :=
  ⟨decode_eq_ok_iff data message, fun h => encode_eq_ok_iff h data⟩

/-- A message with a text and bytes, and its encoding. -/
def aResume : MessageV2 := .resume "7f" [0xFF, 0x01]
def aResumeBytes : Bytes := [tags.RESUME, 6, 2, 0x37, 0x66, 2, 0xFF, 0x01]

theorem codec_exact_resume : encode aResume = .ok aResumeBytes ∧
    (encode aResume = .ok aResumeBytes ↔ decode aResumeBytes = .ok aResume ∧
      aResumeBytes.head? = some aResume.tag ∧
      ∀ other, decode other = .ok aResume → aResumeBytes.length ≤ other.length) := by
  have hsized : aResume.Sized := ⟨by decide +kernel, by decide +kernel⟩
  exact ⟨by decide +kernel, (codec_exact aResume aResumeBytes).2 hsized⟩

/-- A ping is accepted with the tag of a handshake, with a byte behind it and with a padded
number. -/
theorem not_codec_bijective :
    ¬∀ (data : Bytes) (message : MessageV2), decode data = .ok message ↔
      message.encode = .ok data := by
  intro h
  have hencode := (h [tags.HANDSHAKE, 11] .ping).mp rfl
  exact absurd (Except.ok.inj hencode) (by decide)

example : decode [tags.PING, 11, 0] = .ok .ping := rfl

example : decode [tags.PING, 0x8B, 0] = .ok .ping := rfl

end MessageV2
end JustDrop

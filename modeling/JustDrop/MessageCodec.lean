import JustDrop.MessageFormat

/-!
# Messages with a tag in front

The encoder puts a tag in front of the serialized message, the decoder reads the
tag as the first byte of the variant index. No message survives both; what stands
behind the tag does.
-/
namespace JustDrop
namespace Message

namespace tags

def TRANSFER_REQUEST : UInt8 := 0x01
def TRANSFER_RESPONSE : UInt8 := 0x02
def CHUNK_DATA : UInt8 := 0x03
def CHUNK_ACK : UInt8 := 0x04
def TRANSFER_COMPLETE : UInt8 := 0x05
def TRANSFER_VERIFIED : UInt8 := 0x06
def PROGRESS : UInt8 := 0x07
def CANCEL : UInt8 := 0x08
def PING : UInt8 := 0x09
def PONG : UInt8 := 0x0A

end tags

def tag : Message → UInt8
  | .transferRequest _ => tags.TRANSFER_REQUEST
  | .transferResponse _ => tags.TRANSFER_RESPONSE
  | .chunkData _ _ => tags.CHUNK_DATA
  | .chunkAck _ => tags.CHUNK_ACK
  | .transferComplete _ => tags.TRANSFER_COMPLETE
  | .transferVerified _ _ => tags.TRANSFER_VERIFIED
  | .progress _ _ => tags.PROGRESS
  | .cancel _ => tags.CANCEL
  | .ping => tags.PING
  | .pong => tags.PONG

/-- Serialization into memory does not fail. -/
def encode (message : Message) : Except String Bytes :=
  .ok (message.tag :: message.serialize)

/-- The serializer's own error follows the text of the second error. -/
def decode (data : Bytes) : Except String Message :=
  if data.isEmpty then .error "empty message"
  else match (format Serializer.bincode).decode data with
    | some (message, _) => .ok message
    | none => .error "deserialization failed: "

theorem variantIndex_lt (message : Message) : message.variantIndex < 10 := by
  cases message <;> simp [variantIndex]

theorem variants_of_le (s : Serializer) {i : ℕ} (h : 10 ≤ i) : variants s i = Format.nothing := by
  obtain ⟨k, rfl⟩ := Nat.exists_eq_add_of_le' h
  rfl

/-- Serialized messages start with the number of the variant, which takes one byte. -/
theorem serialize_eq_cons (message : Message) :
    ∃ payload, message.serialize = UInt8.ofNat message.variantIndex :: 0 :: 0 :: 0 :: payload := by
  cases message with
  | transferRequest manifest => exact ⟨_, rfl⟩
  | transferResponse response => exact ⟨_, rfl⟩
  | chunkData id data => exact ⟨_, rfl⟩
  | chunkAck ack => exact ⟨_, rfl⟩
  | transferComplete manifestHash => exact ⟨_, rfl⟩
  | transferVerified ok error => exact ⟨_, rfl⟩
  | progress bytesTransferred totalBytes => exact ⟨_, rfl⟩
  | cancel reason => exact ⟨_, rfl⟩
  | ping => exact ⟨_, rfl⟩
  | pong => exact ⟨_, rfl⟩

section Reading
open Serializer

/-- The number in the first four bytes. -/
def firstNumber (b c d e : UInt8) : ℕ :=
  b.toNat + 256 * (c.toNat + 256 * (d.toNat + 256 * e.toNat))

theorem decode_variant (b c d e : UInt8) (rest : Bytes) :
    bincode.variant.decode (b :: c :: d :: e :: rest) = some (firstNumber b c d e, rest) := by
  simp [bincode, Format.fixed, Nat.ofDigits_cons, firstNumber]

/-- The first four bytes choose the variant that reads the others. -/
theorem decode_choice {α : Type} (indexOf : α → ℕ) (variants : ℕ → Format α)
    (h : ∀ i a spelling, (variants i).Spells a spelling → indexOf a = i) (b c d e : UInt8)
    (rest : Bytes) :
    (Format.choice bincode.variant indexOf variants h).decode (b :: c :: d :: e :: rest) =
      (variants (firstNumber b c d e)).decode rest := by
  simp only [Format.choice, decode_variant, Option.bind_eq_bind, Option.bind_some]

/-- Behind the tag of a request the first number is the response's, and the size of the
transfer id is read as a variant of the response. -/
theorem decode_tagged_request (manifest : TransferManifest) :
    (format bincode).decode (tags.TRANSFER_REQUEST :: (transferRequest manifest).serialize) =
      none := by
  obtain ⟨payload, hpayload⟩ :
      ∃ payload, manifest.encode = 16 :: 0 :: 0 :: 0 :: 0 :: 0 :: 0 :: 0 :: payload := by
    have hlength : manifest.transferId.toList.length = 16 := by simp
    rw [TransferManifest.encode, Bincode.bytes, hlength]
    simp only [List.append_assoc]
    exact ⟨_, rfl⟩
  have hserialize : (transferRequest manifest).serialize =
      0 :: 0 :: 0 :: 0 :: manifest.encode := rfl
  rw [hserialize, hpayload, format, decode_choice]
  have hresponse : (TransferResponse.format bincode).decode
      (0 :: 16 :: 0 :: 0 :: 0 :: 0 :: 0 :: 0 :: 0 :: payload) = none := by
    rw [TransferResponse.format, decode_choice]
    rfl
  simp [firstNumber, tags.TRANSFER_REQUEST, variants, Format.built, Format.via, hresponse]

theorem decode_tagged (message : Message) :
    (format bincode).decode (message.tag :: message.serialize) = none := by
  by_cases hindex : message.variantIndex = 0
  · cases message with
    | transferRequest manifest => exact decode_tagged_request manifest
    | _ => simp [variantIndex] at hindex
  · obtain ⟨payload, hserialize⟩ := message.serialize_eq_cons
    have hlt := message.variantIndex_lt
    rw [hserialize, format, decode_choice, variants_of_le]
    · rfl
    · have hnat : (UInt8.ofNat message.variantIndex).toNat = message.variantIndex := by
        rw [UInt8.toNat_ofNat']
        omega
      rw [firstNumber, hnat]
      omega

end Reading

/-- What stands behind the tag is read back, whatever follows it. -/
theorem decode_serialize {message : Message} (rest : Bytes) (h : message.Sized) :
    decode (message.serialize ++ rest) = .ok message := by
  have hread := (format Serializer.bincode).decode_encode rest (fits Serializer.bincode h)
  rw [encode_eq] at hread
  obtain ⟨payload, hserialize⟩ := message.serialize_eq_cons
  rw [decode, if_neg (by simp [hserialize]), hread]

/-- With its tag a message is not read back. -/
theorem decode_encode_error (message : Message) : ∃ data, message.encode = .ok data ∧
    decode data = .error "deserialization failed: " := by
  refine ⟨_, rfl, ?_⟩
  rw [decode, if_neg (by simp), decode_tagged]

/-- The round trip of the encoder and the decoder fails on every message. -/
theorem not_decode_encode :
    ¬∀ (message : Message) (data : Bytes),
      message.encode = .ok data → decode data = .ok message := by
  intro h
  have hping := h .ping _ rfl
  simp [decode, decode_tagged] at hping

end Message
end JustDrop

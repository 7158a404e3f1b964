import JustDrop.Peer
import JustDrop.Serializer
import JustDrop.Utf8

/-!
# What a device advertises over Bluetooth

An advertisement shows the first eight bytes of the fingerprint, a hash of the name and
what the device is ready for. Two magic bytes stand in front of its Postcard form.
-/
namespace JustDrop

inductive TransportHint where
  | sharedLan
  | localHotspot
  | hotspotClient
  deriving DecidableEq, Repr

/-- Transferring files is 1 and transferring folders is 4. -/
def Capabilities.new : UInt8 := 0x01 ||| 0x04

structure Advertisement where
  protocolVersion : UInt8
  deviceId : Vector UInt8 8
  deviceNameHash : UInt16
  capabilities : UInt8
  transportHint : TransportHint
  presence : PresenceState
  batteryLevel : UInt8
  deriving DecidableEq

inductive AdvertisementError where
  | invalidMagic
  | deserialize
  deriving DecidableEq, Repr

namespace Advertisement

def MAGIC : Bytes := [0x4A, 0x44]

/-- The first two bytes of the hash, the lower one first. -/
def nameHash (blake3 : Bytes → Sha256Hash) (name : Text) : UInt16 :=
  let hash := blake3 (Utf8.encode name)
  UInt16.ofNat (hash[0].toNat + 256 * hash[1].toNat)

def fromIdentity (blake3 : Bytes → Sha256Hash) (deviceId : Fingerprint) (deviceName : Text)
    (transportHint : TransportHint) : Advertisement where
  protocolVersion := 1
  deviceId := deviceId.take 8
  deviceNameHash := nameHash blake3 deviceName
  capabilities := Capabilities.new
  transportHint := transportHint
  presence := .available
  batteryLevel := 255

def fields : Advertisement ≃
    UInt8 × Vector UInt8 8 × UInt16 × UInt8 × TransportHint × PresenceState × UInt8 where
  toFun ad := (ad.protocolVersion, ad.deviceId, ad.deviceNameHash, ad.capabilities,
    ad.transportHint, ad.presence, ad.batteryLevel)
  invFun v := ⟨v.1, v.2.1, v.2.2.1, v.2.2.2.1, v.2.2.2.2.1, v.2.2.2.2.2.1, v.2.2.2.2.2.2⟩
  left_inv _ := rfl
  right_inv _ := rfl

section Format
open Format Serializer

def hintFormat : Format TransportHint :=
  postcard.enumeration [.sharedLan, .localHotspot, .hotspotClient] (by decide)

def presenceFormat : Format PresenceState :=
  postcard.enumeration [.idle, .available, .receiving, .busy, .invisible] (by decide)

def format : Format Advertisement :=
  (byte.pair ((array 8).pair (postcardU16.pair (byte.pair
    (hintFormat.pair (presenceFormat.pair byte)))))).record fields

end Format

def toBytes (ad : Advertisement) : Bytes := MAGIC ++ format.encode ad

/-- What follows the advertisement is not looked at. -/
def fromBytes (data : Bytes) : Except AdvertisementError Advertisement :=
  if data.length < 2 ∨ data.take 2 ≠ MAGIC then .error .invalidMagic
  else
    match format.decode (data.drop 2) with
    | some (ad, _) => .ok ad
    | none => .error .deserialize

theorem fits_hintFormat (hint : TransportHint) : hintFormat.Fits hint := by
  apply Serializer.fits_enumeration _ (by decide)
  cases hint <;> decide

theorem fits_presenceFormat (presence : PresenceState) : presenceFormat.Fits presence := by
  apply Serializer.fits_enumeration _ (by decide)
  cases presence <;> decide

theorem fits_format (ad : Advertisement) : format.Fits ad := by
  rw [format, Format.record_fits]
  exact ⟨trivial, Serializer.fits_array _, Serializer.fits_postcardU16 _, trivial,
    fits_hintFormat _, fits_presenceFormat _, trivial⟩

/-- What a device advertises is what is seen of it. -/
theorem fromBytes_toBytes (ad : Advertisement) : fromBytes ad.toBytes = .ok ad := by
  have hlength : ¬(ad.toBytes.length < 2 ∨ ad.toBytes.take 2 ≠ MAGIC) := by
    simp [toBytes, MAGIC]
  have hdecode := format.decode_encode [] (fits_format ad)
  rw [List.append_nil] at hdecode
  have hdrop : ad.toBytes.drop 2 = format.encode ad := rfl
  rw [fromBytes, if_neg hlength, hdrop, hdecode]

@[simp] theorem toList_deviceId_fromIdentity (blake3 : Bytes → Sha256Hash)
    (fingerprint : Fingerprint) (deviceName : Text) (transportHint : TransportHint) :
    (fromIdentity blake3 fingerprint deviceName transportHint).deviceId.toList =
      fingerprint.toList.take 8 :=
  Vector.toList_take

end Advertisement
end JustDrop

import JustDrop.MessagesV2

/-!
# The handshakes over Bluetooth

The library and the Mac each have messages for the handshake over a GATT service, with a
request written by one device and a response that notifies it. The library's are in the
form of Postcard, with an identity and a transport; the Mac's are keys of fixed size. A
request of the library begins like one of the Mac's and is taken for one, but the answers
do not fit.
-/
namespace JustDrop
open Format

/-! ### The library -/

inductive TransportRequest where
  | sharedLan (ip : Option String) (port : UInt16)
  | requestHotspot
  | offerHotspot
  deriving DecidableEq

inductive TransportAccept where
  | sharedLan (ip : String) (port : UInt16)
  | hotspotCreated (ssid passphrase : String) (port : UInt16)
  | rejected (reason : String)
  deriving DecidableEq

/-- The fields that a request and a response share, and the transport asked for or accepted. -/
structure BleMessage (τ : Type) where
  version : UInt8
  publicKey : Vector UInt8 32
  ephemeralKey : Vector UInt8 32
  nonce : Vector UInt8 16
  signature : Bytes
  deviceName : String
  transport : τ
  deriving DecidableEq

abbrev HandshakeRequest := BleMessage TransportRequest
abbrev HandshakeResponse := BleMessage TransportAccept

namespace TransportRequest

def variantIndex : TransportRequest → ℕ
  | .sharedLan _ _ => 0
  | .requestHotspot => 1
  | .offerHotspot => 2

def variants : ℕ → Format TransportRequest
  | 0 => ((Format.option Serializer.postcard.string).pair Serializer.postcardU16).built
      (fun v => .sharedLan v.1 v.2)
      (fun | .sharedLan ip port => some (ip, port) | _ => none)
      (by intro a b; cases a <;> simp [Prod.ext_iff, eq_comm])
  | 1 => unit.built (fun _ => .requestHotspot)
      (fun | .requestHotspot => some () | _ => none) (by intro a b; cases a <;> simp)
  | 2 => unit.built (fun _ => .offerHotspot)
      (fun | .offerHotspot => some () | _ => none) (by intro a b; cases a <;> simp)
  | _ => Format.nothing

theorem variantIndex_eq (i : ℕ) (transport : TransportRequest) (spelling : Bytes)
    (h : (variants i).Spells transport spelling) : transport.variantIndex = i := by
  unfold variants at h
  split at h
  case h_4 => exact absurd h id
  all_goals
    obtain ⟨fields, rfl, -⟩ := built_spells.mp h
    rfl

def format : Format TransportRequest :=
  choice Serializer.postcard.variant variantIndex variants variantIndex_eq

end TransportRequest

namespace TransportAccept

def variantIndex : TransportAccept → ℕ
  | .sharedLan _ _ => 0
  | .hotspotCreated _ _ _ => 1
  | .rejected _ => 2

def variants : ℕ → Format TransportAccept
  | 0 => (Serializer.postcard.string.pair Serializer.postcardU16).built
      (fun v => .sharedLan v.1 v.2)
      (fun | .sharedLan ip port => some (ip, port) | _ => none)
      (by intro a b; cases a <;> simp [Prod.ext_iff, eq_comm])
  | 1 => (Serializer.postcard.string.pair (Serializer.postcard.string.pair
        Serializer.postcardU16)).built
      (fun v => .hotspotCreated v.1 v.2.1 v.2.2)
      (fun | .hotspotCreated ssid passphrase port => some (ssid, passphrase, port) | _ => none)
      (by intro a b; cases a <;> simp [Prod.ext_iff, eq_comm])
  | 2 => Serializer.postcard.string.built .rejected
      (fun | .rejected reason => some reason | _ => none)
      (by intro a b; cases a <;> simp [eq_comm])
  | _ => Format.nothing

theorem variantIndex_eq (i : ℕ) (transport : TransportAccept) (spelling : Bytes)
    (h : (variants i).Spells transport spelling) : transport.variantIndex = i := by
  unfold variants at h
  split at h
  case h_4 => exact absurd h id
  all_goals
    obtain ⟨fields, rfl, -⟩ := built_spells.mp h
    rfl

def format : Format TransportAccept :=
  choice Serializer.postcard.variant variantIndex variants variantIndex_eq

end TransportAccept

namespace BleMessage
variable {τ : Type}

def fields : BleMessage τ ≃ UInt8 × Vector UInt8 32 × Vector UInt8 32 × Vector UInt8 16 ×
    Bytes × String × τ where
  toFun m := (m.version, m.publicKey, m.ephemeralKey, m.nonce, m.signature, m.deviceName,
    m.transport)
  invFun v := ⟨v.1, v.2.1, v.2.2.1, v.2.2.2.1, v.2.2.2.2.1, v.2.2.2.2.2.1, v.2.2.2.2.2.2⟩
  left_inv _ := rfl
  right_inv _ := rfl

/-- What stands behind the keys and the nonce. -/
def rest (transport : Format τ) : Format (Bytes × String × τ) :=
  Serializer.postcard.bytes.pair (Serializer.postcard.string.pair transport)

def format (transport : Format τ) : Format (BleMessage τ) :=
  (byte.pair ((Serializer.array 32).pair ((Serializer.array 32).pair
    ((Serializer.array 16).pair (rest transport))))).record fields

/-- What is signed: neither the identity nor the transport. -/
def signedPayload (m : BleMessage τ) : Bytes :=
  m.version :: (m.ephemeralKey.toList ++ m.nonce.toList)

/-- A signature says nothing of the identity and the transport, nor whether it stands in a
request or in a response. -/
theorem signedPayload_eq_iff {υ : Type} {m : BleMessage τ} {other : BleMessage υ} :
    m.signedPayload = other.signedPayload ↔ m.version = other.version ∧
      m.ephemeralKey = other.ephemeralKey ∧ m.nonce = other.nonce := by
  have hlength : m.ephemeralKey.toList.length = other.ephemeralKey.toList.length := by simp
  rw [signedPayload, signedPayload, List.cons.injEq]
  constructor
  · rintro ⟨hversion, hparts⟩
    obtain ⟨hkey, hnonce⟩ := List.append_inj hparts hlength
    exact ⟨hversion, Vector.toList_inj.mp hkey, Vector.toList_inj.mp hnonce⟩
  · rintro ⟨hversion, hkey, hnonce⟩
    rw [hkey, hnonce]
    exact ⟨hversion, rfl⟩

end BleMessage

def HandshakeRequest.toBytes (m : HandshakeRequest) : Bytes :=
  (BleMessage.format TransportRequest.format).encode m

/-- What follows the message is left. -/
def HandshakeRequest.fromBytes (data : Bytes) : Option HandshakeRequest :=
  ((BleMessage.format TransportRequest.format).decode data).map Prod.fst

def HandshakeResponse.toBytes (m : HandshakeResponse) : Bytes :=
  (BleMessage.format TransportAccept.format).encode m

def HandshakeResponse.fromBytes (data : Bytes) : Option HandshakeResponse :=
  ((BleMessage.format TransportAccept.format).decode data).map Prod.fst

/-! ### The Mac -/

namespace BleHandshake

structure Request where
  publicKey : Bytes
  ephemeralKey : Bytes
  nonce : Bytes
  protocolVersion : UInt8
  deriving DecidableEq

namespace Request

def encode (request : Request) : Bytes :=
  request.protocolVersion :: (request.publicKey ++ request.ephemeralKey ++ request.nonce)

/-- The bytes from `first` up to `last`. -/
def slice (data : Bytes) (first last : ℕ) : Bytes := (data.take last).drop first

def decode (data : Bytes) : Option Request :=
  if 77 ≤ data.length then
    some {
      publicKey := slice data 1 33, ephemeralKey := slice data 33 65
      nonce := slice data 65 77, protocolVersion := data.getD 0 0 }
  else none

end Request

structure Response where
  publicKey : Bytes
  ephemeralKey : Bytes
  nonce : Bytes
  transportHint : UInt8
  ipAddress : Bytes
  deriving DecidableEq

namespace Response

/-- No value where the length does not fit a byte and the program traps. -/
def encode (response : Response) : Option Bytes :=
  if response.ipAddress.length < 256 then
    some (response.publicKey ++ response.ephemeralKey ++ response.nonce ++
      response.transportHint :: UInt8.ofNat response.ipAddress.length :: response.ipAddress)
  else none

def decode (data : Bytes) : Option Response :=
  if 78 ≤ data.length then
    let ipLen := (data.getD 77 0).toNat
    if 78 + ipLen ≤ data.length then
      some {
        publicKey := Request.slice data 0 32, ephemeralKey := Request.slice data 32 64
        nonce := Request.slice data 64 76, transportHint := data.getD 76 0
        ipAddress := Request.slice data 78 (78 + ipLen) }
    else none
  else none

end Response

/-- `localIp` is the address of the interface, when there is one. -/
def processRequest (localPublicKey localEphemeralKey responseNonce : Bytes)
    (localIp : Option (Vector UInt8 4)) (requestData : Bytes) : Option Bytes := do
  let _ ← Request.decode requestData
  Response.encode {
    publicKey := localPublicKey, ephemeralKey := localEphemeralKey, nonce := responseNonce
    transportHint := 0x01, ipAddress := (localIp.map Vector.toList).getD [127, 0, 0, 1] }

end BleHandshake

/-! ### Messages as bytes -/

namespace BleMessage
variable {τ : Type} {transport : Format τ}

theorem spellsMany_byte {bytes spelling : Bytes} :
    byte.SpellsMany bytes spelling ↔ spelling = bytes := by
  induction bytes generalizing spelling with
  | nil => exact Iff.rfl
  | cons b bytes ih =>
    constructor
    · rintro ⟨p, q, hp, hq, rfl⟩
      obtain rfl : p = [b] := hp
      rw [ih.mp hq]
      rfl
    · rintro rfl
      exact ⟨[b], bytes, rfl, ih.mpr rfl, rfl⟩

/-- The version, the keys and the nonce stand for themselves. -/
theorem spells_iff {m : BleMessage τ} {spelling : Bytes} : (format transport).Spells m spelling ↔
    ∃ tail, (rest transport).Spells (m.signature, m.deviceName, m.transport) tail ∧
      spelling = m.version ::
        (m.publicKey.toList ++ m.ephemeralKey.toList ++ m.nonce.toList ++ tail) := by
  have harray : ∀ {n : ℕ} (v : Vector UInt8 n) (q : Bytes),
      (Serializer.array n).Spells v q ↔ q = v.toList := fun v q => spellsMany_byte
  have hbyte : ∀ (b : UInt8) (q : Bytes), byte.Spells b q ↔ q = [b] := fun b q => Iff.rfl
  simp only [format, record, via, Equiv.toPEquiv_apply, Option.some.injEq, exists_eq_left',
    fields, Equiv.coe_fn_mk, pair, harray, hbyte]
  constructor
  · rintro ⟨_, _, rfl, ⟨_, _, rfl, ⟨_, _, rfl, ⟨_, tail, rfl, htail, rfl⟩, rfl⟩, rfl⟩, rfl⟩
    exact ⟨tail, htail, by simp⟩
  · rintro ⟨tail, htail, rfl⟩
    exact ⟨_, _, rfl, ⟨_, _, rfl, ⟨_, _, rfl, ⟨_, tail, rfl, htail, rfl⟩, rfl⟩, rfl⟩, by simp⟩

/-- The signature, the name and the transport take a byte each at least. -/
theorem le_length_of_spells {m : BleMessage τ} {spelling : Bytes}
    (htransport : ∀ a q, transport.Spells a q → q ≠ [])
    (h : (format transport).Spells m spelling) : 84 ≤ spelling.length := by
  obtain ⟨_, ⟨p, _, ⟨plen, pdata, hp, -, rfl⟩, ⟨q, r, hq, hr, rfl⟩, rfl⟩, rfl⟩ := spells_iff.mp h
  obtain ⟨qlen, hqlen, rfl⟩ := (Serializer.string_spells_iff _).mp hq
  have hsignature : 0 < plen.length := by
    obtain ⟨b, tail, rfl⟩ := SpellsVarint.nonempty hp
    simp
  have hname : 0 < qlen.length := by
    obtain ⟨b, tail, rfl⟩ := SpellsVarint.nonempty hqlen
    simp
  have hlast : 0 < r.length := List.length_pos_iff.mpr (htransport _ _ hr)
  simp only [List.length_cons, List.length_append, Vector.length_toList]
  omega

theorem length_of_decode {data : Bytes} {read : BleMessage τ × Bytes}
    (htransport : ∀ a q, transport.Spells a q → q ≠ [])
    (h : (format transport).decode data = some read) : 84 ≤ data.length := by
  obtain ⟨spelling, hspells, rfl⟩ := ((format transport).decode_eq_some_iff _ _ _).mp h
  have hle := le_length_of_spells htransport hspells
  rw [List.length_append]
  omega

/-- The lengths take at most eight bytes, as of everything that is held in memory. -/
def Sized (fits : τ → Prop) (m : BleMessage τ) : Prop :=
  m.signature.length < 2 ^ 64 ∧ (Bincode.utf8 m.deviceName).length < 2 ^ 64 ∧ fits m.transport

theorem fits {m : BleMessage τ} (h : m.Sized transport.Fits) : (format transport).Fits m := by
  rw [format, record_fits]
  exact ⟨trivial, Serializer.fits_array _, Serializer.fits_array _, Serializer.fits_array _,
    (Serializer.fits_bytes _ _).mpr h.1, (Serializer.fits_string _ _).mpr h.2.1, h.2.2⟩

theorem decode_encode {m : BleMessage τ} (h : m.Sized transport.Fits) (tail : Bytes) :
    ((format transport).decode ((format transport).encode m ++ tail)).map Prod.fst = some m := by
  rw [(format transport).decode_encode tail (fits h)]
  rfl

theorem exists_encode {m : BleMessage τ} (h : m.Sized transport.Fits)
    (htransport : ∀ a q, transport.Spells a q → q ≠ []) :
    ∃ tail, 3 ≤ tail.length ∧ (format transport).encode m = m.version ::
      (m.publicKey.toList ++ m.ephemeralKey.toList ++ m.nonce.toList ++ tail) := by
  have hspells := (format transport).spells_encode m (fits h)
  have hle := le_length_of_spells htransport hspells
  obtain ⟨tail, -, hencode⟩ := spells_iff.mp hspells
  rw [hencode] at hle
  simp only [List.length_cons, List.length_append, Vector.length_toList] at hle
  exact ⟨tail, by omega, hencode⟩

end BleMessage

theorem TransportRequest.spells_ne_nil (transport : TransportRequest) (spelling : Bytes)
    (h : format.Spells transport spelling) : spelling ≠ [] := by
  obtain ⟨p, q, hp, -, rfl⟩ := h
  obtain ⟨b, tail, rfl⟩ := SpellsVarint.nonempty hp
  exact List.cons_ne_nil _ _

theorem TransportAccept.spells_ne_nil (transport : TransportAccept) (spelling : Bytes)
    (h : format.Spells transport spelling) : spelling ≠ [] := by
  obtain ⟨p, q, hp, -, rfl⟩ := h
  obtain ⟨b, tail, rfl⟩ := SpellsVarint.nonempty hp
  exact List.cons_ne_nil _ _

namespace BleHandshake

theorem take_append_drop_append (bytes : Bytes) (n : ℕ) (tail : Bytes) :
    bytes.take n ++ (bytes.drop n ++ tail) = bytes ++ tail := by
  rw [← List.append_assoc, List.take_append_drop]

theorem slice_append (before part after : Bytes) {first last : ℕ} (hfirst : before.length = first)
    (hlast : first + part.length = last) :
    Request.slice (before ++ (part ++ after)) first last = part := by
  subst hfirst hlast
  rw [Request.slice, ← List.append_assoc, ← List.length_append, List.take_left, List.drop_left]

/-- Keys and nonce of the sizes that the comments of the source give. -/
def Request.Sized (request : Request) : Prop :=
  request.publicKey.length = 32 ∧ request.ephemeralKey.length = 32 ∧ request.nonce.length = 12

theorem Request.decode_append (request : Request) (h : request.Sized) (tail : Bytes) :
    decode (request.encode ++ tail) = some request := by
  obtain ⟨publicKey, ephemeralKey, nonce, version⟩ := request
  obtain ⟨hpublic, hephemeral, hnonce⟩ := h
  simp only at hpublic hephemeral hnonce
  have hdata : encode ⟨publicKey, ephemeralKey, nonce, version⟩ ++ tail =
      version :: (publicKey ++ (ephemeralKey ++ (nonce ++ tail))) := by
    simp [encode]
  have hlength : 77 ≤ (version :: (publicKey ++ (ephemeralKey ++ (nonce ++ tail)))).length := by
    simp only [List.length_cons, List.length_append]
    omega
  rw [hdata, decode, if_pos hlength]
  have h1 := slice_append [version] publicKey (ephemeralKey ++ (nonce ++ tail))
    List.length_singleton (show 1 + publicKey.length = 33 by omega)
  have h2 := slice_append (version :: publicKey) ephemeralKey (nonce ++ tail)
    (show _ = 33 by simp [hpublic]) (show 33 + ephemeralKey.length = 65 by omega)
  have h3 := slice_append (version :: (publicKey ++ ephemeralKey)) nonce tail
    (show _ = 65 by simp [hpublic, hephemeral]) (show 65 + nonce.length = 77 by omega)
  simp only [List.cons_append, List.nil_append, List.append_assoc] at h1 h2 h3
  rw [h1, h2, h3]
  rfl

/-- What a response says of itself decides whether it is long enough. -/
theorem Response.decode_append {publicKey ephemeralKey nonce : Bytes}
    (hpublic : publicKey.length = 32) (hephemeral : ephemeralKey.length = 32)
    (hnonce : nonce.length = 12) (hint ipLen : UInt8) (behind : Bytes) :
    decode (publicKey ++ (ephemeralKey ++ (nonce ++ hint :: ipLen :: behind))) =
      if ipLen.toNat ≤ behind.length then
        some { publicKey, ephemeralKey, nonce, transportHint := hint
               ipAddress := behind.take ipLen.toNat }
      else none := by
  have h1 := slice_append [] publicKey (ephemeralKey ++ (nonce ++ hint :: ipLen :: behind))
    List.length_nil (show 0 + publicKey.length = 32 by omega)
  have h2 := slice_append publicKey ephemeralKey (nonce ++ hint :: ipLen :: behind) hpublic
    (show 32 + ephemeralKey.length = 64 by omega)
  have h3 := slice_append (publicKey ++ ephemeralKey) nonce (hint :: ipLen :: behind)
    (show _ = 64 by simp [hpublic, hephemeral]) (show 64 + nonce.length = 76 by omega)
  rw [List.nil_append] at h1
  rw [List.append_assoc] at h3
  have hhead : (publicKey ++ (ephemeralKey ++ nonce)).length = 76 := by
    simp only [List.length_append]
    omega
  have hdata : publicKey ++ (ephemeralKey ++ (nonce ++ hint :: ipLen :: behind)) =
      publicKey ++ (ephemeralKey ++ nonce) ++ hint :: ipLen :: behind := by
    simp only [List.append_assoc]
  have hhint : (publicKey ++ (ephemeralKey ++ (nonce ++ hint :: ipLen :: behind))).getD 76 0 =
      hint := by
    rw [hdata, List.getD_eq_getElem?_getD, List.getElem?_append_right (by omega), hhead]
    rfl
  have hlen : (publicKey ++ (ephemeralKey ++ (nonce ++ hint :: ipLen :: behind))).getD 77 0 =
      ipLen := by
    rw [hdata, List.getD_eq_getElem?_getD, List.getElem?_append_right (by omega), hhead]
    rfl
  have hip : Request.slice (publicKey ++ (ephemeralKey ++ (nonce ++ hint :: ipLen :: behind)))
      78 (78 + ipLen.toNat) = behind.take ipLen.toNat := by
    have hnothing : (publicKey ++ (ephemeralKey ++ nonce)).drop 78 = [] :=
      List.drop_eq_nil_of_le (by omega)
    rw [hdata, Request.slice, List.drop_take, List.drop_append, hhead, hnothing,
      Nat.add_sub_cancel_left]
    rfl
  have hlength : (publicKey ++ (ephemeralKey ++ (nonce ++ hint :: ipLen :: behind))).length =
      78 + behind.length := by
    simp only [List.length_append, List.length_cons]
    omega
  rw [decode, if_pos (by omega)]
  simp only [hlen, hlength, h1, h2, h3, hhint, hip, Nat.add_le_add_iff_left]

/-- Keys and nonce of the sizes that the comments of the source give, and an address whose
length fits its byte. -/
def Response.Sized (response : Response) : Prop :=
  response.publicKey.length = 32 ∧ response.ephemeralKey.length = 32 ∧
    response.nonce.length = 12 ∧ response.ipAddress.length < 256

/-- A response is read back, whatever follows it. -/
theorem Response.decode_encode (response : Response) (h : response.Sized) :
    ∃ data, response.encode = some data ∧ data.length = 78 + response.ipAddress.length ∧
      ∀ tail, decode (data ++ tail) = some response := by
  obtain ⟨publicKey, ephemeralKey, nonce, hint, ipAddress⟩ := response
  obtain ⟨hpublic, hephemeral, hnonce, hip⟩ := h
  simp only at hpublic hephemeral hnonce hip
  have hlen : (UInt8.ofNat ipAddress.length).toNat = ipAddress.length := by
    rw [UInt8.toNat_ofNat']
    exact Nat.mod_eq_of_lt hip
  refine ⟨_, if_pos hip, ?_, fun tail => ?_⟩
  · simp only [List.length_append, List.length_cons]
    omega
  · simp only [List.append_assoc, List.cons_append]
    rw [decode_append hpublic hephemeral hnonce, hlen, if_pos (by simp), List.take_left]

/-! ### The library and the Mac -/

/-- Of a request of the library the Mac reads the version, the keys and twelve bytes of the
nonce. -/
theorem decode_toBytes {request : HandshakeRequest}
    (h : request.Sized TransportRequest.format.Fits) (tail : Bytes) :
    Request.decode (request.toBytes ++ tail) = some {
      publicKey := request.publicKey.toList, ephemeralKey := request.ephemeralKey.toList
      nonce := request.nonce.toList.take 12, protocolVersion := request.version } := by
  obtain ⟨behind, -, hencode⟩ := BleMessage.exists_encode h TransportRequest.spells_ne_nil
  let seen : Request :=
    { publicKey := request.publicKey.toList, ephemeralKey := request.ephemeralKey.toList
      nonce := request.nonce.toList.take 12, protocolVersion := request.version }
  have hseen : seen.Sized := ⟨by simp [seen], by simp [seen], by simp [seen]⟩
  have hdata : request.toBytes ++ tail =
      seen.encode ++ (request.nonce.toList.drop 12 ++ (behind ++ tail)) := by
    rw [HandshakeRequest.toBytes, hencode]
    simp only [seen, Request.encode, List.cons_append, List.append_assoc,
      take_append_drop_append]
  rw [hdata]
  exact Request.decode_append seen hseen _

/-- Of a response of the library the Mac reads everything a byte too early. -/
theorem publicKey_of_decode_toBytes {response : HandshakeResponse}
    (h : response.Sized TransportAccept.format.Fits) {tail : Bytes} {read : Response}
    (hread : Response.decode (response.toBytes ++ tail) = some read) :
    read.publicKey = response.version :: response.publicKey.toList.take 31 := by
  obtain ⟨behind, -, hencode⟩ := BleMessage.exists_encode h TransportAccept.spells_ne_nil
  obtain ⟨hint, ipLen, last, hnonce⟩ : ∃ hint ipLen last,
      response.nonce.toList.drop 11 = hint :: ipLen :: last := by
    have hlength : (response.nonce.toList.drop 11).length = 5 := by simp
    obtain ⟨hint, behind, hhint⟩ := List.exists_cons_of_length_pos
      (show 0 < (response.nonce.toList.drop 11).length by omega)
    rw [hhint, List.length_cons] at hlength
    obtain ⟨ipLen, last, rfl⟩ := List.exists_cons_of_length_pos (by omega : 0 < behind.length)
    exact ⟨hint, ipLen, last, hhint⟩
  have hdata : response.toBytes ++ tail =
      (response.version :: response.publicKey.toList.take 31) ++
        ((response.publicKey.toList.drop 31 ++ response.ephemeralKey.toList.take 31) ++
          ((response.ephemeralKey.toList.drop 31 ++ response.nonce.toList.take 11) ++
            hint :: ipLen :: (last ++ (behind ++ tail)))) := by
    have hrest : hint :: ipLen :: (last ++ (behind ++ tail)) =
        response.nonce.toList.drop 11 ++ (behind ++ tail) := by
      rw [hnonce]
      rfl
    rw [hrest, HandshakeResponse.toBytes, hencode]
    simp only [List.cons_append, List.append_assoc, take_append_drop_append]
  rw [hdata, Response.decode_append (by simp) (by simp) (by simp)] at hread
  split_ifs at hread
  obtain rfl := Option.some.inj hread
  rfl

/-- What the Mac sends is too short to be a message of the library. -/
theorem fromBytes_eq_none {τ : Type} {transport : Format τ}
    (htransport : ∀ a q, transport.Spells a q → q ≠ []) {data : Bytes} (h : data.length < 84) :
    ((BleMessage.format transport).decode data).map Prod.fst = none := by
  rw [Option.map_eq_none_iff, Option.eq_none_iff_forall_ne_some]
  intro read hread
  have hle := BleMessage.length_of_decode htransport hread
  omega

/-- The Mac answers a request of the library and reads its own answer back. -/
theorem answer_of_request {request : HandshakeRequest}
    (h : request.Sized TransportRequest.format.Fits) (tail : Bytes)
    {localPublicKey localEphemeralKey responseNonce : Bytes} (hpublic : localPublicKey.length = 32)
    (hephemeral : localEphemeralKey.length = 32) (hnonce : responseNonce.length = 12)
    (localIp : Option (Vector UInt8 4)) :
    ∃ answer, processRequest localPublicKey localEphemeralKey responseNonce localIp
        (request.toBytes ++ tail) = some answer ∧
      (∀ behind, Response.decode (answer ++ behind) = some {
        publicKey := localPublicKey, ephemeralKey := localEphemeralKey, nonce := responseNonce
        transportHint := 0x01, ipAddress := (localIp.map Vector.toList).getD [127, 0, 0, 1] }) ∧
      HandshakeResponse.fromBytes answer = none := by
  have hip : ((localIp.map Vector.toList).getD [127, 0, 0, 1]).length = 4 := by
    cases localIp <;> simp
  obtain ⟨answer, hanswer, hlength, hread⟩ := Response.decode_encode
    ⟨localPublicKey, localEphemeralKey, responseNonce, 0x01,
      (localIp.map Vector.toList).getD [127, 0, 0, 1]⟩
    ⟨hpublic, hephemeral, hnonce, hip.trans_lt (by decide)⟩
  have hshort : answer.length = 82 := hlength.trans (congrArg (78 + ·) hip)
  refine ⟨answer, ?_, hread, ?_⟩
  · rw [processRequest, decode_toBytes h, Option.bind_eq_bind, Option.bind_some, hanswer]
  · exact fromBytes_eq_none TransportAccept.spells_ne_nil (by omega)

/-- Each side reads what its own kind sends. The library refuses the Mac's requests and
answers; the Mac takes a request of the library for one of its own, and in a response of the
library it misreads the key. -/
theorem exchanges (request : HandshakeRequest)
    (hrequest : request.Sized TransportRequest.format.Fits) (response : HandshakeResponse)
    (hresponse : response.Sized TransportAccept.format.Fits) (macRequest : Request)
    (hmac : macRequest.Sized) (macResponse : Response) (hmacResponse : macResponse.Sized)
    (localPublicKey localEphemeralKey responseNonce : Bytes)
    (hpublic : localPublicKey.length = 32) (hephemeral : localEphemeralKey.length = 32)
    (hnonce : responseNonce.length = 12) (localIp : Option (Vector UInt8 4)) (tail : Bytes) :
    (HandshakeRequest.fromBytes (request.toBytes ++ tail) = some request ∧
      HandshakeResponse.fromBytes (response.toBytes ++ tail) = some response ∧
      Request.decode (macRequest.encode ++ tail) = some macRequest ∧
      ∃ data, macResponse.encode = some data ∧
        Response.decode (data ++ tail) = some macResponse) ∧
    HandshakeRequest.fromBytes macRequest.encode = none ∧
    Request.decode (request.toBytes ++ tail) = some {
      publicKey := request.publicKey.toList, ephemeralKey := request.ephemeralKey.toList
      nonce := request.nonce.toList.take 12, protocolVersion := request.version } ∧
    (∃ answer, processRequest localPublicKey localEphemeralKey responseNonce localIp
        (request.toBytes ++ tail) = some answer ∧
      (∀ behind, Response.decode (answer ++ behind) = some {
        publicKey := localPublicKey, ephemeralKey := localEphemeralKey, nonce := responseNonce
        transportHint := 0x01, ipAddress := (localIp.map Vector.toList).getD [127, 0, 0, 1] }) ∧
      HandshakeResponse.fromBytes answer = none) ∧
    ∀ read, Response.decode (response.toBytes ++ tail) = some read →
      read.publicKey = response.version :: response.publicKey.toList.take 31 := by
  have hshort : macRequest.encode.length < 84 := by
    obtain ⟨hkey, hephemeralKey, hmacNonce⟩ := hmac
    simp only [Request.encode, List.length_cons, List.length_append]
    omega
  refine ⟨⟨?_, ?_, ?_, ?_⟩, ?_, decode_toBytes hrequest tail, ?_, ?_⟩
  · exact BleMessage.decode_encode hrequest tail
  · exact BleMessage.decode_encode hresponse tail
  · exact Request.decode_append macRequest hmac tail
  · obtain ⟨data, hdata, -, hread⟩ := macResponse.decode_encode hmacResponse
    exact ⟨data, hdata, hread tail⟩
  · exact fromBytes_eq_none TransportRequest.spells_ne_nil hshort
  · exact answer_of_request hrequest tail hpublic hephemeral hnonce localIp
  · exact fun read hread => publicKey_of_decode_toBytes hresponse hread

/-- A message of zeros that is signed with nothing. -/
def zeros {τ : Type} (transport : τ) : BleMessage τ :=
  { version := 1, publicKey := Vector.replicate 32 0, ephemeralKey := Vector.replicate 32 0
    nonce := Vector.replicate 16 0, signature := [], deviceName := "", transport }

theorem sized_zeros {τ : Type} {fits : τ → Prop} {transport : τ} (h : fits transport) :
    (zeros transport).Sized fits :=
  ⟨by simp [zeros], show (Bincode.utf8 "").length < 2 ^ 64 by decide, h⟩

/-- A response of the Mac with an address of version 6. -/
def sampleResponse : Response :=
  ⟨List.replicate 32 2, List.replicate 32 3, List.replicate 12 4, 1, List.replicate 16 5⟩

theorem exchanges_zeros :
    (∃ data, sampleResponse.encode = some data ∧
      Response.decode (data ++ [7]) = some sampleResponse) ∧
    (∃ answer, processRequest (List.replicate 32 2) (List.replicate 32 2) (List.replicate 12 2)
        none (HandshakeRequest.toBytes (zeros .requestHotspot) ++ [7]) = some answer ∧
      HandshakeResponse.fromBytes answer = none) ∧
    ∀ read,
      Response.decode (HandshakeResponse.toBytes (zeros (.rejected "busy")) ++ [7]) = some read →
      read.publicKey = 1 :: List.replicate 31 0 := by
  have hrequest : TransportRequest.format.Fits .requestHotspot :=
    ⟨(Serializer.postcard.fits_variant _).mpr (by decide), (), rfl, trivial⟩
  have hresponse : TransportAccept.format.Fits (.rejected "busy") :=
    ⟨(Serializer.postcard.fits_variant _).mpr (by decide), "busy", rfl,
      (Serializer.fits_string _ _).mpr (by decide)⟩
  have hall := exchanges (zeros .requestHotspot) (sized_zeros hrequest) (zeros (.rejected "busy"))
    (sized_zeros hresponse) ⟨List.replicate 32 2, List.replicate 32 2, List.replicate 12 2, 1⟩
    ⟨rfl, rfl, rfl⟩ sampleResponse ⟨rfl, rfl, rfl, by decide⟩ (List.replicate 32 2)
    (List.replicate 32 2) (List.replicate 12 2) rfl rfl rfl none [7]
  obtain ⟨⟨-, -, -, hread⟩, -, -, ⟨answer, hanswer, -, hrefused⟩, hmisread⟩ := hall
  exact ⟨hread, ⟨answer, hanswer, hrefused⟩, hmisread⟩

end BleHandshake
end JustDrop

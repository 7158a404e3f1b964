import JustDrop.Serializer

/-!
# Hotspot credentials over Bluetooth

One side writes the credentials as JSON, the other side reads Postcard. The brace is
read as the length of the first text, which would have to repeat what stands before it,
and so would the second one; behind them stands no byte that an option begins with.
-/
namespace JustDrop
open Bincode (utf8 utf8_append)

structure HotspotCredentials where
  ssid : String
  passphrase : String
  bssid : Option String
  serverIp : String
  port : UInt16
  deriving DecidableEq

namespace HotspotCredentials

def fields : HotspotCredentials ≃ String × String × Option String × String × UInt16 where
  toFun c := (c.ssid, c.passphrase, c.bssid, c.serverIp, c.port)
  invFun v := ⟨v.1, v.2.1, v.2.2.1, v.2.2.2.1, v.2.2.2.2⟩
  left_inv _ := rfl
  right_inv _ := rfl

section Format
open Format Serializer

def format : Format HotspotCredentials :=
  (postcard.string.pair (postcard.string.pair ((Format.option postcard.string).pair
    (postcard.string.pair postcardU16)))).record fields

end Format

def toBytes (credentials : HotspotCredentials) : Bytes := format.encode credentials

/-- What follows the credentials is not looked at. -/
def fromBytes (data : Bytes) : Option HotspotCredentials := (format.decode data).map Prod.fst

/-- The texts are held in memory. -/
def Sized (credentials : HotspotCredentials) : Prop :=
  (utf8 credentials.ssid).length < 2 ^ 64 ∧ (utf8 credentials.passphrase).length < 2 ^ 64 ∧
    (∀ bssid ∈ credentials.bssid, (utf8 bssid).length < 2 ^ 64) ∧
    (utf8 credentials.serverIp).length < 2 ^ 64

/-- The two functions of one side agree. -/
theorem fromBytes_toBytes {credentials : HotspotCredentials} (h : credentials.Sized) :
    fromBytes credentials.toBytes = some credentials := by
  obtain ⟨hssid, hpassphrase, hbssid, hserverIp⟩ := h
  have hfits : format.Fits credentials := by
    rw [format, Format.record_fits]
    refine ⟨(Serializer.fits_string _ _).mpr hssid, (Serializer.fits_string _ _).mpr hpassphrase,
      (Serializer.fits_option _ _).mpr fun bssid hmem => ?_,
      (Serializer.fits_string _ _).mpr hserverIp, Serializer.fits_postcardU16 _⟩
    exact (Serializer.fits_string _ _).mpr (hbssid bssid hmem)
  have hdecode := format.decode_encode [] hfits
  rw [List.append_nil] at hdecode
  rw [fromBytes, toBytes, hdecode]
  rfl

end HotspotCredentials

/-! ### The writer -/

/-- The text with its parts put in as they are. -/
def BleGattServer.credentialsJson (ssid passphrase serverIp : String) (port : ℤ) : String :=
  "\x7b\"ssid\":\"" ++ ssid ++ "\",\"passphrase\":\"" ++ passphrase ++ "\",\"server_ip\":\"" ++
    serverIp ++ "\",\"port\":" ++ toString port ++ "\x7d"

/-- What is put on the characteristic. -/
def BleGattServer.sendHotspotCredentials (ssid passphrase serverIp : String) (port : ℤ) : Bytes :=
  utf8 (credentialsJson ssid passphrase serverIp port)

/-- The reader gets the four values. -/
def HotspotCredentials.Delivered (ssid passphrase serverIp : String) (port : ℤ) : Prop :=
  ∃ credentials, fromBytes (BleGattServer.sendHotspotCredentials ssid passphrase serverIp port) =
      some credentials ∧ credentials.ssid = ssid ∧ credentials.passphrase = passphrase ∧
    credentials.serverIp = serverIp ∧ (credentials.port.toNat : ℤ) = port

/-! ### A text that follows its own label -/

section Overlap
variable {α : Type*} {whole label text behind rest : List α} {j m : ℕ}

/-- A list that begins with a text, and also with a label and the same text, repeats the
label up to the end of the second occurrence. -/
theorem getElem?_of_overlap (hlabel : whole = label ++ (text ++ behind))
    (htext : whole = text ++ rest) (hlt : j + m * label.length < label.length + text.length)
    (hj : j < label.length) : whole[j + m * label.length]? = label[j]? := by
  induction m with
  | zero => rw [Nat.zero_mul, Nat.add_zero, hlabel, List.getElem?_append_left hj]
  | succ m ih =>
    rw [Nat.succ_mul] at hlt
    have hearlier := ih (by omega)
    have hshift : j + (m + 1) * label.length = label.length + (j + m * label.length) := by
      rw [Nat.succ_mul]
      omega
    rw [htext, List.getElem?_append_left (by omega)] at hearlier
    rw [hshift, hlabel, List.getElem?_append_right (by omega), Nat.add_sub_cancel_left,
      List.getElem?_append_left (by omega), hearlier]

/-- The byte behind the first occurrence is one of the label. -/
theorem getElem?_behind_text {c : α} (h : label ++ (text ++ behind) = text ++ c :: rest)
    (hlength : text.length = j + m * label.length) (hj : j < label.length) :
    label[j]? = some c := by
  have hoverlap := getElem?_of_overlap (m := m) h.symm rfl (by omega) hj
  rw [← hoverlap, ← hlength, List.getElem?_append_right (Nat.le_refl _), Nat.sub_self]
  rfl

/-- What follows that byte is the end of the second occurrence and what is behind it. -/
theorem drop_behind_text {c : α} (h : label ++ (text ++ behind) = text ++ c :: rest)
    (hle : label.length ≤ text.length + 1) (hpos : 0 < label.length) :
    text.drop (text.length + 1 - label.length) ++ behind = rest := by
  have hdrop := congrArg (List.drop (text.length + 1)) h
  rw [List.drop_append, List.drop_of_length_le hle, List.nil_append, List.drop_append,
    Nat.sub_eq_zero_of_le (by omega : text.length + 1 - label.length ≤ text.length),
    List.drop_zero] at hdrop
  rw [hdrop, List.drop_append, List.drop_of_length_le (Nat.le_succ _), Nat.add_sub_cancel_left]
  rfl

end Overlap

namespace HotspotCredentials
open Format Serializer

def ssidLabel : Bytes := [0x22, 0x73, 0x73, 0x69, 0x64, 0x22, 0x3A, 0x22]

def passphraseLabel : Bytes :=
  [0x22, 0x2C, 0x22, 0x70, 0x61, 0x73, 0x73, 0x70, 0x68, 0x72, 0x61, 0x73, 0x65, 0x22, 0x3A, 0x22]

theorem exists_sendHotspotCredentials (ssid passphrase serverIp : String) (port : ℤ) :
    ∃ behind, BleGattServer.sendHotspotCredentials ssid passphrase serverIp port =
      0x7B :: (ssidLabel ++ (utf8 ssid ++ (passphraseLabel ++ (utf8 passphrase ++ behind)))) := by
  have hssid : utf8 "\x7b\"ssid\":\"" = 0x7B :: ssidLabel := by decide
  have hpassphrase : utf8 "\",\"passphrase\":\"" = passphraseLabel := by decide
  refine ⟨utf8 "\",\"server_ip\":\"" ++ (utf8 serverIp ++ (utf8 "\",\"port\":" ++
    (utf8 (toString port) ++ utf8 "\x7d"))), ?_⟩
  show utf8 ("\x7b\"ssid\":\"" ++ ssid ++ "\",\"passphrase\":\"" ++ passphrase ++
    "\",\"server_ip\":\"" ++ serverIp ++ "\",\"port\":" ++ toString port ++ "\x7d") = _
  simp only [utf8_append, hssid, hpassphrase, List.append_assoc, List.cons_append]

/-- What is read begins with the two texts and a byte that is zero or one. -/
theorem exists_of_fromBytes {data : Bytes} {credentials : HotspotCredentials}
    (h : fromBytes data = some credentials) : ∃ first second b rest,
      postcard.string.Spells credentials.ssid first ∧
        postcard.string.Spells credentials.passphrase second ∧ b.toNat ≤ 1 ∧
        data = first ++ (second ++ b :: rest) := by
  obtain ⟨⟨own, tail⟩, hdecode, rfl⟩ := Option.map_eq_some_iff.mp h
  obtain ⟨spelling, ⟨v, hv, hspells⟩, rfl⟩ := (format.decode_eq_some_iff _ _ _).mp hdecode
  obtain rfl : fields own = v := Option.some.inj hv
  obtain ⟨first, _, hfirst, ⟨second, _, hsecond, ⟨third, last, hthird, -, rfl⟩, rfl⟩, rfl⟩ :=
    hspells
  obtain ⟨b, rest, rfl, hb⟩ := option_spells_head hthird
  exact ⟨first, second, b, rest ++ (last ++ tail), hfirst, hsecond, hb, by simp⟩

/-- The reader never gets what was written. -/
theorem not_delivered (ssid passphrase serverIp : String) (port : ℤ) :
    ¬Delivered ssid passphrase serverIp port := by
  rintro ⟨credentials, hread, rfl, rfl, -, -⟩
  obtain ⟨behind, hsent⟩ := exists_sendHotspotCredentials credentials.ssid credentials.passphrase
    serverIp port
  obtain ⟨first, second, b, rest, hfirst, hsecond, hb, hdata⟩ := exists_of_fromBytes hread
  rw [hsent] at hdata
  -- the brace is the length of the first text
  obtain ⟨hssid, hwhole⟩ := postcard_string_head (by decide) ⟨first, hfirst, hdata⟩
  have hssid' : (utf8 credentials.ssid).length = 3 + 15 * ssidLabel.length := hssid
  obtain ⟨c, data, hcons⟩ : ∃ c data, second ++ b :: rest = c :: data :=
    List.exists_cons_of_ne_nil (by simp)
  rw [hcons] at hwhole
  -- behind it stands a letter of its label, which is the length of the second text
  obtain rfl : 0x69 = c := Option.some.inj (getElem?_behind_text hwhole hssid' (by decide))
  obtain ⟨hpassphrase, rfl⟩ := postcard_string_head (by decide) ⟨second, hsecond, hcons.symm⟩
  have hrest := drop_behind_text hwhole (by rw [hssid]; decide) (by decide)
  rw [← List.append_assoc] at hrest
  -- and behind that again a letter of what stands before it
  have hlength : ((utf8 credentials.ssid).drop
      ((utf8 credentials.ssid).length + 1 - ssidLabel.length)).length = 7 := by
    rw [List.length_drop, hssid]
    rfl
  have hletter := getElem?_behind_text (m := 4) (j := 13) hrest
    (by rw [List.length_append, hlength, hpassphrase]; rfl)
    (by rw [List.length_append, hlength]; decide)
  rw [List.getElem?_append_right (by omega), hlength] at hletter
  obtain rfl : 0x73 = b := Option.some.inj hletter
  exact absurd hb (by decide)

/-- A text of 123 bytes is looked for in the credentials of a small hotspot. -/
theorem fromBytes_small :
    fromBytes (BleGattServer.sendHotspotCredentials "JD" "secret12" "192.168.49.1" 42420) = none ∧
      ¬Delivered "JD" "secret12" "192.168.49.1" 42420 := by
  have hnone : fromBytes (BleGattServer.sendHotspotCredentials "JD" "secret12" "192.168.49.1"
      42420) = none := by decide +kernel
  refine ⟨hnone, ?_⟩
  rintro ⟨credentials, hread, -⟩
  rw [hnone] at hread
  cases hread

end HotspotCredentials
end JustDrop

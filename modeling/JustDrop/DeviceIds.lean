import JustDrop.BleAdvertisement
import JustDrop.Discovery
import JustDrop.Registry

/-!
# One device, one identifier

Bluetooth shows eight bytes of a fingerprint, mDNS its digits, and the browser decodes
these and encodes the first bytes again. All of them come to the same identifier, under
which the engine merges what is reported.
-/
namespace JustDrop

/-- The reports that are made of a device with this fingerprint. -/
inductive Reports (blake3 : Bytes → Sha256Hash) (fingerprint : Fingerprint) : Peer → Prop
  | ble (deviceName transportHint nameHash presence rssi now) :
      Reports blake3 fingerprint (Peer.fromBle
        (Advertisement.fromIdentity blake3 fingerprint deviceName transportHint).deviceId
        nameHash presence rssi now)
  | mdns (name addr platform now) :
      Reports blake3 fingerprint
        (Peer.fromMdns name addr (hexEncode fingerprint.toList) platform now)

variable {blake3 : Bytes → Sha256Hash} {fingerprint : Fingerprint} {peer other : Peer}

theorem Reports.deviceId_eq (h : Reports blake3 fingerprint peer) :
    peer.deviceId = deviceId fingerprint := by
  cases h with
  | ble deviceName transportHint =>
    show hexEncode (Advertisement.fromIdentity blake3 fingerprint deviceName
      transportHint).deviceId.toList = deviceId fingerprint
    rw [Advertisement.toList_deviceId_fromIdentity, deviceId]
  | mdns =>
    show (hexEncode fingerprint.toList).take 16 = deviceId fingerprint
    exact take_hexEncode fingerprint.toList 8

theorem deviceId_eq_iff {fingerprint other : Fingerprint} :
    deviceId fingerprint = deviceId other ↔ fingerprint.toList.take 8 = other.toList.take 8 :=
  hexEncode_injective.eq_iff

/-- A resolved service that announces the fingerprint is entered under its identifier,
unless it is the browser itself. -/
theorem ServiceBrowser.handleResolved_of_property (browser : ServiceBrowser) {info : ServiceInfo}
    {ip : Bytes} (haddress : info.addressesV4.head? = some ip)
    (hproperty : info.property "fingerprint".toList = some (hexEncode fingerprint.toList)) :
    ∃ device event, device.id = deviceId fingerprint ∧ device.fingerprint = fingerprint ∧
      browser.handleResolved info = some (
        if browser.selfId = some device.id then browser
        else { browser with
          peers := browser.peers.insert device.id device, events := browser.events ++ [event] }) := by
  let device : BrowsedDevice := {
    id := deviceId fingerprint, name := info.name, addr := { ip, port := info.port }, fingerprint
    platform := info.platform }
  refine ⟨device, if device.id ∈ browser.peers then .updated device else .discovered device, rfl,
    rfl, ?_⟩
  unfold handleResolved
  simp only [haddress, ServiceInfo.fingerprint_of_property hproperty, Option.bind_eq_bind,
    Option.bind_some]
  exact (apply_ite some _ _ _).symm

namespace Engine
variable {engine : Engine} {fault fault' : Bool}

/-- The second report is entered over what the first one left. -/
def Merges (engine : Engine) (peer other : Peer) (fault fault' : Bool) : Prop :=
  ∃ entry trust, (engine.onPeerDiscovered peer fault).peers.lookup peer.deviceId = some entry ∧
    ((engine.onPeerDiscovered peer fault).onPeerDiscovered other fault').peers.lookup
      peer.deviceId = some (Peer.merge entry { other with trust })

/-- A report that is not ignored is entered under its own identifier. -/
theorem exists_entry_of_not_ignores (hpeer : ¬engine.Ignores peer fault) : ∃ entry,
    (engine.onPeerDiscovered peer fault).peers.lookup peer.deviceId = some entry ∧
      entry.deviceId = peer.deviceId := by
  rw [onPeerDiscovered_of_not_ignores hpeer, lookup_register, if_pos rfl]
  exact ⟨_, rfl, deviceId_entryFor _⟩

/-- Reports that are not ignored are merged when they have one identifier. -/
theorem merges_iff (hpeer : ¬engine.Ignores peer fault) (hother : ¬engine.Ignores other fault') :
    engine.Merges peer other fault fault' ↔ peer.deviceId = other.deviceId := by
  have hfirst := onPeerDiscovered_of_not_ignores hpeer
  have hnot : ¬(engine.onPeerDiscovered peer fault).Ignores other fault' := by
    rw [Ignores, hfirst, db_register]
    exact hother
  obtain ⟨entry, hentry, hid⟩ := exists_entry_of_not_ignores hpeer
  rw [Merges, onPeerDiscovered_of_not_ignores hnot]
  simp only [lookup_register]
  constructor
  · rintro ⟨existing, trust, hlookup, hmerged⟩
    by_contra hne
    rw [if_neg hne, hlookup, Option.some.injEq] at hmerged
    have hother' : existing.deviceId = other.deviceId := by
      rw [hmerged]
      rfl
    rw [hentry, Option.some.injEq] at hlookup
    exact hne (hid.symm.trans (hlookup ▸ hother'))
  · intro hsame
    refine ⟨entry, (engine.onPeerDiscovered peer fault).trustFor other fault', hentry, ?_⟩
    rw [hsame] at hentry
    rw [if_pos hsame, entryFor]
    simp only [hentry]

end Engine

/-- However a device is reported, it has one identifier, which mDNS carries together with
the fingerprint; reports are merged when the fingerprints begin with the same eight bytes. -/
theorem reports_agree (blake3 : Bytes → Sha256Hash) (fingerprint : Fingerprint) :
    (∀ peer, Reports blake3 fingerprint peer → peer.deviceId = deviceId fingerprint) ∧
    parseFingerprint (hexEncode fingerprint.toList) = some (some fingerprint) ∧
    (∀ (browser : ServiceBrowser) info ip, info.addressesV4.head? = some ip →
      info.property "fingerprint".toList = some (hexEncode fingerprint.toList) →
      ∃ device event, device.id = deviceId fingerprint ∧ device.fingerprint = fingerprint ∧
        browser.handleResolved info = some (
          if browser.selfId = some device.id then browser
          else { browser with
            peers := browser.peers.insert device.id device
            events := browser.events ++ [event] })) ∧
    ∀ (engine : Engine) other peer peer' fault fault', Reports blake3 fingerprint peer →
      Reports blake3 other peer' → ¬engine.Ignores peer fault → ¬engine.Ignores peer' fault' →
      (engine.Merges peer peer' fault fault' ↔
        fingerprint.toList.take 8 = other.toList.take 8) := by
  refine ⟨fun peer h => h.deviceId_eq, parseFingerprint_hexEncode fingerprint,
    fun browser info ip haddress hproperty =>
      browser.handleResolved_of_property haddress hproperty,
    fun engine other peer peer' fault fault' h h' hpeer hpeer' => ?_⟩
  rw [Engine.merges_iff hpeer hpeer', h.deviceId_eq, h'.deviceId_eq, deviceId_eq_iff]

/-- A fingerprint whose bytes are all the same. -/
def evenFingerprint : Fingerprint := Vector.replicate 32 0xaa

/-- The advertisement of the device with this fingerprint. -/
def evenAdvertisement : Advertisement :=
  .fromIdentity (fun _ => Vector.replicate 32 0) evenFingerprint "Phone".toList .sharedLan

theorem reports_agree_phone : (Engine.new ∅).Merges
    (Peer.fromBle evenAdvertisement.deviceId 0 .available (-65) 1)
    (Peer.fromMdns "Phone".toList ⟨[192, 168, 1, 2], 42424⟩ (hexEncode evenFingerprint.toList)
      .android 2) false false := by
  refine ((reports_agree _ evenFingerprint).2.2.2 (Engine.new ∅) evenFingerprint _ _ false
    false (.ble _ _ _ _ _ _) (.mdns _ _ _ _) ?_ ?_).mpr rfl
  · rintro ⟨-, _, hfingerprint, -⟩
    simp [Peer.fromBle] at hfingerprint
  · rintro ⟨-, digits, -, hblocked⟩
    simp [Engine.new, Database.getTrust] at hblocked

end JustDrop

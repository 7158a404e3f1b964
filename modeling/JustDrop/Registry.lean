import JustDrop.Hex
import JustDrop.Runs
import Mathlib.Data.Finmap
import Mathlib.Data.List.DropRight

/-!
# The registry of mDNS peers

The browser keeps a device for every service that was resolved, under the first
eight bytes of its fingerprint. A removal names the service, and the browser looks
for an entry whose host name lies in that name.
-/
namespace JustDrop

/-- A resolved service: its addresses in the order they are gone through, its TXT
properties by their keys. -/
structure ServiceInfo where
  fullname : Text
  hostname : Text
  port : UInt16
  addressesV4 : List Bytes
  property : Text → Option Text

inductive ServiceEvent where
  | serviceResolved (info : ServiceInfo)
  | serviceRemoved (serviceType fullname : Text)
  | searchStarted (serviceType : Text)
  | searchStopped (serviceType : Text)
  | other

/-- The information about a device that the browser stores. -/
structure BrowsedDevice where
  id : Text
  name : Text
  addr : SocketAddr
  fingerprint : Fingerprint
  platform : Platform
  deriving DecidableEq

inductive PeerEvent where
  | discovered (device : BrowsedDevice)
  | lost (id : Text)
  | updated (device : BrowsedDevice)
  deriving DecidableEq

structure ServiceBrowser where
  selfId : Option Text
  peers : Finmap (fun _ : Text => BrowsedDevice)
  events : List PeerEvent

/-- A fingerprint has 32 bytes; the outer option is empty where decoding panics. -/
def parseFingerprint (hex : Text) : Option (Option Fingerprint) :=
  (hexDecode hex).map fun decoded => decoded.bind fun bytes =>
    if h : bytes.length = 32 then some ⟨bytes.toArray, h⟩ else none

theorem parseFingerprint_hexEncode (fingerprint : Fingerprint) :
    parseFingerprint (hexEncode fingerprint.toList) = some (some fingerprint) := by
  simp only [parseFingerprint, hexDecode_of_hexEncode, Option.map_some, Option.bind_some]
  rw [dif_pos (by simp)]
  exact congrArg (some ∘ some) (Vector.toArray_inj.mp Array.toArray_toList)

/-- The name of a platform in a TXT property. -/
def platformProperty : Platform → Text
  | .android => "Android".toList
  | .macOS => "macOS".toList
  | .linux => "Linux".toList
  | .windows => "Windows".toList
  | .unknown => "Unknown".toList

def parsePlatform (s : Text) : Platform :=
  if s = "Android".toList then .android
  else if s = "macOS".toList then .macOS
  else if s = "Linux".toList then .linux
  else if s = "Windows".toList then .windows
  else .unknown

/-- The identifier of a device by its fingerprint. -/
def deviceId (fingerprint : Fingerprint) : Text := hexEncode (fingerprint.toList.take 8)

namespace ServiceInfo

/-- A missing or malformed fingerprint counts as zeros. -/
def fingerprint (info : ServiceInfo) : Option Fingerprint :=
  match info.property "fingerprint".toList with
  | none => some (Vector.replicate 32 0)
  | some hex => (parseFingerprint hex).map fun parsed => parsed.getD (Vector.replicate 32 0)

def platform (info : ServiceInfo) : Platform :=
  ((info.property "platform".toList).map parsePlatform).getD .unknown

/-- The host name without the dots it ends in. -/
def name (info : ServiceInfo) : Text := info.hostname.rdropWhile (· = '.')

/-- What a device announces as its fingerprint is read back. -/
theorem fingerprint_of_property {info : ServiceInfo} {fingerprint : Fingerprint}
    (h : info.property "fingerprint".toList = some (hexEncode fingerprint.toList)) :
    info.fingerprint = some fingerprint := by
  rw [ServiceInfo.fingerprint, h]
  simp only [parseFingerprint_hexEncode, Option.map_some, Option.getD_some]

end ServiceInfo

namespace ServiceBrowser

/-- No value where reading the fingerprint panics. -/
def handleResolved (browser : ServiceBrowser) (info : ServiceInfo) : Option ServiceBrowser :=
  match info.addressesV4.head? with
  | none => some browser
  | some ip => do
    let fingerprint ← info.fingerprint
    let device : BrowsedDevice := {
      id := deviceId fingerprint, name := info.name, addr := { ip, port := info.port }, fingerprint
      platform := info.platform }
    if browser.selfId = some device.id then pure browser
    else
      let event := if device.id ∈ browser.peers then .updated device else .discovered device
      pure { browser with
        peers := browser.peers.insert device.id device, events := browser.events ++ [event] }

/-- The first entry whose name lies in the removed one, in the order the table happens
to be searched: any such entry, or none when there is none. -/
def FindsName (browser : ServiceBrowser) (fullname : Text) : Option Text → Prop
  | some id => ∃ device, browser.peers.lookup id = some device ∧ device.name <:+: fullname
  | none => ∀ id device, browser.peers.lookup id = some device → ¬device.name <:+: fullname

/-- `found` is what the search of the table gives. -/
def handleRemoved (browser : ServiceBrowser) (found : Option Text) : ServiceBrowser :=
  match found with
  | some id =>
    { browser with peers := browser.peers.erase id, events := browser.events ++ [.lost id] }
  | none => browser

/-- One event. Only the search of the table leaves a choice. -/
inductive Step (browser : ServiceBrowser) : ServiceEvent → ServiceBrowser → Prop
  | serviceResolved {browser'} (info) (h : browser.handleResolved info = some browser') :
      Step browser (.serviceResolved info) browser'
  | serviceRemoved (found serviceType fullname) (h : browser.FindsName fullname found) :
      Step browser (.serviceRemoved serviceType fullname) (browser.handleRemoved found)
  | searchStarted (serviceType) : Step browser (.searchStarted serviceType) browser
  | searchStopped (serviceType) : Step browser (.searchStopped serviceType) browser
  | other : Step browser .other browser

variable {browser browser' : ServiceBrowser}

theorem step_serviceResolved_iff {info : ServiceInfo} :
    Step browser (.serviceResolved info) browser' ↔
      browser.handleResolved info = some browser' := by
  constructor
  · intro h
    cases h with
    | serviceResolved _ hhandled => exact hhandled
  · exact .serviceResolved info

theorem step_serviceRemoved_iff {serviceType fullname : Text} :
    Step browser (.serviceRemoved serviceType fullname) browser' ↔
      ∃ found, browser.FindsName fullname found ∧ browser' = browser.handleRemoved found := by
  constructor
  · intro h
    cases h with
    | serviceRemoved found _ _ hfound => exact ⟨found, hfound, rfl⟩
  · rintro ⟨found, hfound, rfl⟩
    exact .serviceRemoved found serviceType fullname hfound

end ServiceBrowser

/-! ### Services as they are registered -/

/-- What a device registers, and the address and the platform it has. -/
structure AdvertisedService where
  instanceName : Text
  fingerprint : Fingerprint
  port : UInt16
  localIp : Bytes
  platform : Platform

namespace AdvertisedService

/-- Characters other than letters, digits and the hyphen become hyphens; which are
letters and digits is the standard library's matter. -/
def sanitized (isAlphanumeric : Char → Bool) (service : AdvertisedService) : Text :=
  service.instanceName.map fun c => if !isAlphanumeric c && c ≠ '-' then '-' else c

/-- The service as the registrar announces it and a browser resolves it. -/
def info (isAlphanumeric : Char → Bool) (serviceType : Text) (service : AdvertisedService) :
    ServiceInfo where
  fullname := service.instanceName ++ '.' :: serviceType
  hostname := service.sanitized isAlphanumeric ++ ".local.".toList
  port := service.port
  addressesV4 := [service.localIp]
  property key :=
    if key = "version".toList then some (Nat.toDigits 10 PROTOCOL_VERSION.toNat)
    else if key = "platform".toList then some (platformProperty service.platform)
    else if key = "fingerprint".toList then some (hexEncode service.fingerprint.toList)
    else none

def id (service : AdvertisedService) : Text := deviceId service.fingerprint

variable (isAlphanumeric : Char → Bool) (serviceType : Text) (service : AdvertisedService)

theorem fingerprint_info : (service.info isAlphanumeric serviceType).fingerprint =
    some service.fingerprint := by
  apply ServiceInfo.fingerprint_of_property
  unfold info
  simp only
  rw [if_neg (by decide), if_neg (by decide), if_pos trivial]

theorem name_info : (service.info isAlphanumeric serviceType).name =
    service.sanitized isAlphanumeric ++ ".local".toList := by
  have hdots : (service.info isAlphanumeric serviceType).hostname =
      (service.sanitized isAlphanumeric ++ ".loca".toList ++ ['l']) ++ ['.'] := by
    rw [List.append_assoc, List.append_assoc]
    rfl
  rw [ServiceInfo.name, hdots, List.rdropWhile_concat_pos _ _ _ (by decide),
    List.rdropWhile_concat_neg _ _ _ (by decide), List.append_assoc]
  rfl

/-- A service that is not the browser's own is entered under its identifier. -/
theorem handleResolved_info (browser : ServiceBrowser)
    (hself : browser.selfId ≠ some service.id) :
    ∃ device events, device.name = (service.info isAlphanumeric serviceType).name ∧
      browser.handleResolved (service.info isAlphanumeric serviceType) =
        some { browser with peers := browser.peers.insert service.id device, events } := by
  unfold ServiceBrowser.handleResolved
  have hhead : (service.info isAlphanumeric serviceType).addressesV4.head? =
      some service.localIp := rfl
  unfold id at hself ⊢
  simp only [hhead, fingerprint_info, Option.bind_eq_bind, Option.bind_some, if_neg hself]
  exact ⟨_, _, rfl, rfl⟩

end AdvertisedService
end JustDrop

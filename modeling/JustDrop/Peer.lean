import JustDrop.UnixPath
import JustDrop.Types

/-!
# Peers

A peer is found by a Bluetooth advertisement, which shows eight bytes of its
fingerprint and nothing else, or by mDNS, which shows all of it with a name and an
address. Both reports of one device carry the same identifier: the first sixteen
hexadecimal digits of the fingerprint.
-/
namespace JustDrop

/-- A text as its characters. -/
abbrev Text := List Char

inductive TrustLevel where
  | unknown
  | trusted
  | favorite
  | blocked
  deriving DecidableEq, Repr

namespace TrustLevel

/-- The stored form of a level. -/
def asStr : TrustLevel → Text
  | unknown => "unknown".toList
  | trusted => "trusted".toList
  | favorite => "favorite".toList
  | blocked => "blocked".toList

def parseStr (s : Text) : TrustLevel :=
  if s = "trusted".toList then trusted
  else if s = "favorite".toList then favorite
  else if s = "blocked".toList then blocked
  else unknown

@[simp] theorem parseStr_asStr (level : TrustLevel) : parseStr level.asStr = level := by
  cases level <;> decide

def autoAccept (level : TrustLevel) : Bool := level = favorite

def isBlocked (level : TrustLevel) : Bool := level = blocked

@[simp] theorem isBlocked_iff {level : TrustLevel} : level.isBlocked = true ↔ level = blocked :=
  decide_eq_true_iff

/-- From `blocked` only a reset leads on. -/
def transitionTo : TrustLevel → TrustLevel → Option TrustLevel
  | _, blocked => some blocked
  | blocked, unknown => some unknown
  | blocked, _ => none
  | unknown, trusted => some trusted
  | unknown, favorite => some favorite
  | trusted, favorite => some favorite
  | favorite, trusted => some trusted
  | trusted, unknown => some unknown
  | favorite, unknown => some unknown
  | level, target => if level = target then some target else none

theorem transitionTo_eq_none_iff {level target : TrustLevel} :
    level.transitionTo target = none ↔ level = blocked ∧ target ≠ blocked ∧ target ≠ unknown := by
  cases level <;> cases target <;> decide

/-- A transition that is valid leads to its target. -/
theorem transitionTo_eq_some_iff {level target : TrustLevel} :
    level.transitionTo target = some target ↔ level.transitionTo target ≠ none := by
  cases level <;> cases target <;> decide

end TrustLevel

inductive PresenceState where
  | idle
  | available
  | receiving
  | busy
  | invisible
  deriving DecidableEq, Repr

inductive DiscoverySource where
  | ble
  | mdns
  | both
  deriving DecidableEq, Repr

structure SocketAddr where
  ip : Bytes
  port : UInt16
  deriving DecidableEq, Repr

structure Peer where
  deviceId : Text
  name : Text
  fingerprint : Option Text
  platform : Platform
  presence : PresenceState
  trust : TrustLevel
  addr : Option SocketAddr
  rssi : Option Int16
  battery : Option UInt8
  lastSeen : ℕ
  discovery : DiscoverySource
  deriving DecidableEq

namespace Peer

/-- Lower-case hexadecimal digits, at least `width` of them. -/
def hex (width n : ℕ) : Text := (Nat.toDigits 16 n).leftpad width '0'

/-- A peer seen in a Bluetooth advertisement. -/
def fromBle (deviceId : Vector UInt8 8) (nameHash : UInt16) (presence : PresenceState)
    (rssi : Int16) (now : ℕ) : Peer :=
  { deviceId := deviceId.toList.flatMap fun b => hex 2 b.toNat
    name := "Device-".toList ++ hex 4 nameHash.toNat
    fingerprint := none
    platform := .unknown
    presence
    trust := .unknown
    addr := none
    rssi := some rssi
    battery := none
    lastSeen := now
    discovery := .ble }

/-- The part of a fingerprint that identifies the device in both kinds of report. -/
def idOf (fingerprint : Text) : Text := fingerprint.take 16

/-- A peer found by mDNS. -/
def fromMdns (name : Text) (addr : SocketAddr) (fingerprint : Text) (platform : Platform)
    (now : ℕ) : Peer :=
  { deviceId := idOf fingerprint
    name
    fingerprint := some fingerprint
    platform
    presence := .available
    trust := .unknown
    addr := some addr
    rssi := none
    battery := none
    lastSeen := now
    discovery := .mdns }

def isVisible (peer : Peer) : Bool := !peer.trust.isBlocked && peer.presence ≠ .invisible

def autoAccept (peer : Peer) : Bool := peer.trust.autoAccept

/-- The name made up for an advertisement. -/
def Unnamed (name : Text) : Prop := "Device-".toList <+: name

instance (name : Text) : Decidable (Unnamed name) := inferInstanceAs (Decidable (_ <+: _))

/-- A new report with what it lacks taken from the entry before it. -/
def merge (existing peer : Peer) : Peer :=
  { peer with
    fingerprint := if peer.fingerprint = none then existing.fingerprint else peer.fingerprint
    addr := if peer.addr = none then existing.addr else peer.addr
    name := if Unnamed peer.name ∧ ¬Unnamed existing.name then existing.name else peer.name }

/-- The report lacks nothing that the entry before it has. -/
structure Covers (peer existing : Peer) : Prop where
  fingerprint : peer.fingerprint = none → existing.fingerprint = none
  addr : peer.addr = none → existing.addr = none
  name : Unnamed peer.name → Unnamed existing.name

@[simp] theorem covers_trust {existing peer : Peer} {trust : TrustLevel} :
    { peer with trust }.Covers existing ↔ peer.Covers existing :=
  ⟨fun h => ⟨h.fingerprint, h.addr, h.name⟩, fun h => ⟨h.fingerprint, h.addr, h.name⟩⟩

theorem merge_eq_self_iff {existing peer : Peer} :
    merge existing peer = peer ↔ peer.Covers existing := by
  obtain ⟨id, name, fingerprint, platform, presence, trust, addr, rssi, battery, seen, source⟩ :=
    peer
  simp only [merge, Peer.mk.injEq, true_and, and_true, ite_eq_right_iff]
  constructor
  · rintro ⟨hname, hfingerprint, haddr⟩
    refine ⟨fun h => (hfingerprint h).trans h, fun h => (haddr h).trans h, fun h => ?_⟩
    by_contra hnamed
    exact hnamed ((hname ⟨h, hnamed⟩) ▸ h)
  · rintro ⟨hfingerprint, haddr, hname⟩
    exact ⟨fun h => absurd (hname h.1) h.2, fun h => (hfingerprint h).trans h.symm,
      fun h => (haddr h).trans h.symm⟩

/-- The two ways a peer is made. -/
inductive Built : Peer → Prop
  | ble (deviceId nameHash presence rssi now) :
      Built (fromBle deviceId nameHash presence rssi now)
  | mdns (name addr fingerprint platform now) :
      Built (fromMdns name addr fingerprint platform now)

theorem Built.trust {peer : Peer} (h : peer.Built) : peer.trust = .unknown := by
  cases h <;> rfl

theorem Built.deviceId {peer : Peer} (h : peer.Built) {fingerprint : Text}
    (hfingerprint : peer.fingerprint = some fingerprint) : peer.deviceId = idOf fingerprint := by
  cases h with
  | ble => simp [fromBle] at hfingerprint
  | mdns => exact congrArg idOf (Option.some.inj hfingerprint)

end Peer
end JustDrop

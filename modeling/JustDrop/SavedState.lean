import JustDrop.Errors
import JustDrop.Peer
import JustDrop.Resume
import JustDrop.StoredText
import Mathlib.Data.Countable.Basic
import Mathlib.Logic.Encodable.Basic
import Mathlib.Logic.Equiv.List

/-!
# Resume states and identities on disk

Three values are kept as JSON files that are written in place: the resume state of a
transfer, the Noise keys and the device identity. What a crash leaves of such a
file is taken for the file: a state that was cut off hides the old one, and
identities that were cut off are never generated again.
-/
namespace JustDrop

/-! ### Resume states -/

/-- A resume state with the time of its last change, in nanoseconds. -/
structure DatedResumeState where
  state : TransferResumeState
  lastUpdated : ℤ
  deriving DecidableEq

/-- The hyphenated form of an identifier. -/
def uuidText (id : TransferId) : Text :=
  let digits := id.toList.flatMap fun b => Peer.hex 2 b.toNat
  digits.take 8 ++ '-' :: (digits.drop 8).take 4 ++ '-' :: (digits.drop 12).take 4 ++
    '-' :: (digits.drop 16).take 4 ++ '-' :: digits.drop 20

structure ResumeManager where
  stateDir : Path
  deriving DecidableEq, Repr

namespace ResumeManager
variable (json : TextFormat DatedResumeState) (manager : ResumeManager)

def statePath (transferId : TransferId) : Path :=
  manager.stateDir.child (uuidText transferId ++ ".json".toList)

def save (saved : DatedResumeState) (files : Files Path) : Files Path :=
  files.write (manager.statePath saved.state.transferId) (json.content saved)

/-- The files after a crash of `save`. -/
def saveCrash (saved : DatedResumeState) (point : CrashPoint) (files : Files Path) : Files Path :=
  point.leaves (manager.statePath saved.state.transferId) (json.content saved) files

def load (transferId : TransferId) (files : Files Path) :
    Except StorageError (Option DatedResumeState) :=
  match files (manager.statePath transferId) with
  | none => .ok none
  | some bytes =>
    match json.read bytes with
    | .error .notUtf8 => .error (.io (manager.statePath transferId) .invalidData)
    | .error .malformed => .error (.resumeStateCorrupted transferId)
    | .ok saved => .ok (some saved)

variable {json manager}

theorem load_eq_ok_some {transferId : TransferId} {files : Files Path} {bytes : Bytes}
    (hfile : files (manager.statePath transferId) = some bytes)
    (result : Option DatedResumeState) :
    manager.load json transferId files = .ok result ↔
      ∃ saved, json.read bytes = .ok saved ∧ result = some saved := by
  rw [load, hfile]
  cases hread : json.read bytes with
  | error failure => cases failure <;> simp [hread]
  | ok saved => simp [hread, eq_comm]

/-- The last save is what loading finds. -/
theorem load_save (saved : DatedResumeState) (files : Files Path) :
    manager.load json saved.state.transferId (manager.save json saved files) = .ok (some saved) :=
  (load_eq_ok_some (Files.write_same ..) _).mpr ⟨saved, json.read_content saved, rfl⟩

/-- After a crash of `save` the old or the new state is found if and only if the crash was
harmless. -/
theorem load_saveCrash_iff {files : Files Path} {saved : DatedResumeState}
    {old : Option DatedResumeState}
    (hold : manager.load json saved.state.transferId files = .ok old) (point : CrashPoint) :
    (manager.load json saved.state.transferId (manager.saveCrash json saved point files) =
        .ok old ∨
      manager.load json saved.state.transferId (manager.saveCrash json saved point files) =
        .ok (some saved)) ↔ point.Harmless (json.content saved) := by
  cases point with
  | before =>
    simp only [CrashPoint.Harmless, iff_true]
    exact Or.inl hold
  | written count =>
    have hfile : (manager.saveCrash json saved (.written count) files)
        (manager.statePath saved.state.transferId) = some ((json.content saved).take count) :=
      Files.write_same ..
    rw [load_eq_ok_some hfile, load_eq_ok_some hfile, CrashPoint.Harmless]
    constructor
    · rintro (⟨read, hread, -⟩ | ⟨read, hread, -⟩)
      · exact (json.read_take_iff saved count).mp ⟨read, hread⟩
      · exact (json.read_take_iff saved count).mp ⟨read, hread⟩
    · intro hle
      rw [List.take_of_length_le hle]
      exact Or.inr ⟨saved, json.read_content saved, rfl⟩

end ResumeManager

/-! ### Noise keys -/

structure Keypair where
  privateKey : Bytes
  publicKey : Bytes
  deriving DecidableEq, Repr

structure StoredKeys where
  privateKey : Bytes
  publicKey : Bytes
  deriving DecidableEq, Repr

structure IdentityKeys where
  keypair : Keypair
  fingerprint : Fingerprint
  storagePath : Path
  deriving DecidableEq, Repr

/-- What the keys use from elsewhere: the hash, and JSON. -/
structure KeyHost where
  blake2s : Bytes → Fingerprint
  json : TextFormat StoredKeys

namespace IdentityKeys
variable (host : KeyHost)

def computeFingerprint (publicKey : Bytes) : Fingerprint := host.blake2s publicKey

/-- From a drawn private key and its public key, which are missing where drawing fails. -/
def generate (drawn : Option (Vector UInt8 32 × PublicKey)) (storagePath : Path) :
    Except SecurityError IdentityKeys :=
  match drawn with
  | none => .error (.invalidKey "keypair generation failed: ")
  | some (privateKey, publicKey) => .ok {
      keypair := ⟨privateKey.toList, publicKey.toList⟩
      fingerprint := computeFingerprint host publicKey.toList
      storagePath }

def loadFromFile (path : Path) (files : Files Path) : Except SecurityError IdentityKeys :=
  match files path with
  | none => .error (.keyStorage "failed to read key file: ")
  | some bytes =>
    match host.json.read bytes with
    | .error .notUtf8 => .error (.keyStorage "failed to read key file: ")
    | .error .malformed => .error (.keyStorage "failed to parse key file: ")
    | .ok stored =>
      if stored.privateKey.length ≠ 32 ∨ stored.publicKey.length ≠ 32 then
        .error (.invalidKey "key file contains invalid key lengths")
      else .ok {
        keypair := ⟨stored.privateKey, stored.publicKey⟩
        fingerprint := computeFingerprint host stored.publicKey
        storagePath := path }

/-- What `save` writes. -/
def content (keys : IdentityKeys) : Bytes :=
  host.json.content ⟨keys.keypair.privateKey, keys.keypair.publicKey⟩

def storagePathIn (dataDir : Path) : Path := dataDir.child "identity_keys.json".toList

def loadOrGenerate (dataDir : Path) (drawn : Option (Vector UInt8 32 × PublicKey)) :
    Files Path → Except SecurityError IdentityKeys × Files Path :=
  startFrom (storagePathIn dataDir) (loadFromFile host (storagePathIn dataDir)) (content host)
    (generate host drawn (storagePathIn dataDir))

/-- The files after a crash of `loadOrGenerate`. -/
def loadOrGenerateCrash (dataDir : Path) (drawn : Option (Vector UInt8 32 × PublicKey)) :
    CrashPoint → Files Path → Files Path :=
  startCrash (storagePathIn dataDir) (content host)
    (generate host drawn (storagePathIn dataDir))

variable {host}

/-- Generated keys load from the file that is made of them, and from nothing shorter. -/
theorem loadFromFile_take_iff {keys : IdentityKeys} {drawn : Vector UInt8 32 × PublicKey}
    {path : Path} (hkeys : generate host (some drawn) path = .ok keys) (files : Files Path)
    (count : ℕ) :
    (∃ loaded, loadFromFile host path (files.write path ((content host keys).take count)) =
      .ok loaded) ↔ (content host keys).length ≤ count := by
  refine host.json.exists_load_take_iff
    (fun bytes => loadFromFile host path (files.write path bytes)) ?_ ?_ count
  · intro bytes loaded hloaded
    simp only [loadFromFile, Files.write_same] at hloaded
    cases hread : host.json.read bytes with
    | error failure => cases failure <;> simp [hread] at hloaded
    | ok stored => exact ⟨stored, rfl⟩
  · obtain ⟨privateKey, publicKey⟩ := drawn
    simp only [generate, Except.ok.injEq] at hkeys
    subst hkeys
    simp only [loadFromFile, Files.write_same, TextFormat.read_content]
    exact ⟨_, if_neg (by simp)⟩

/-- What the first start left behind loads, or is generated again, if and only if its crash
was harmless. -/
theorem loadOrGenerate_crash_iff {dataDir : Path} {files : Files Path}
    (hmissing : files (storagePathIn dataDir) = none) (first next : Vector UInt8 32 × PublicKey)
    {keys : IdentityKeys}
    (hkeys : generate host (some first) (storagePathIn dataDir) = .ok keys) (point : CrashPoint) :
    (∃ loaded, (loadOrGenerate host dataDir (some next)
      (loadOrGenerateCrash host dataDir (some first) point files)).1 = .ok loaded) ↔
      point.Harmless (content host keys) := by
  rw [loadOrGenerate, loadOrGenerateCrash, hkeys]
  exact startFrom_startCrash_iff hmissing (loadFromFile_take_iff hkeys files) point

end IdentityKeys

/-! ### The device identity -/

structure Ed25519KeyPair where
  seed : Vector UInt8 32
  publicKey : PublicKey
  deriving DecidableEq, Repr

structure StoredIdentity where
  uuid : TransferId
  name : String
  pkcs8Der : Bytes
  deriving DecidableEq, Repr

structure DeviceIdentity where
  uuid : TransferId
  name : String
  keypair : Ed25519KeyPair
  pkcs8Bytes : Bytes
  fingerprint : Fingerprint
  storagePath : Path
  deriving DecidableEq, Repr

inductive IdentityError where
  | keyGeneration
  | invalidKey
  | storage (text : String)
  deriving DecidableEq, Repr

/-- What the identity uses from elsewhere: the keys in a PKCS#8 document, the hash, and JSON. -/
structure IdentityHost where
  fromPkcs8 : Bytes → Option Ed25519KeyPair
  blake3 : Bytes → Fingerprint
  json : TextFormat StoredIdentity

namespace DeviceIdentity
variable (host : IdentityHost)

/-- From a drawn document, which is missing where drawing fails, and a drawn identifier. -/
def generate (drawn : Option Bytes) (uuid : TransferId) (storagePath : Path)
    (deviceName : String) : Except IdentityError DeviceIdentity :=
  match drawn with
  | none => .error .keyGeneration
  | some pkcs8Bytes =>
    match host.fromPkcs8 pkcs8Bytes with
    | none => .error .keyGeneration
    | some keypair => .ok {
        uuid
        name := deviceName
        keypair
        pkcs8Bytes
        fingerprint := host.blake3 keypair.publicKey.toList
        storagePath }

def load (path : Path) (files : Files Path) : Except IdentityError DeviceIdentity :=
  match files path with
  | none => .error (.storage "read: ")
  | some bytes =>
    match host.json.read bytes with
    | .error .notUtf8 => .error (.storage "read: ")
    | .error .malformed => .error (.storage "parse: ")
    | .ok stored =>
      match host.fromPkcs8 stored.pkcs8Der with
      | none => .error .invalidKey
      | some keypair => .ok {
          uuid := stored.uuid
          name := stored.name
          keypair
          pkcs8Bytes := stored.pkcs8Der
          fingerprint := host.blake3 keypair.publicKey.toList
          storagePath := path }

/-- What `save` writes. -/
def content (identity : DeviceIdentity) : Bytes :=
  host.json.content ⟨identity.uuid, identity.name, identity.pkcs8Bytes⟩

def storagePathIn (dataDir : Path) : Path := dataDir.child "device_identity.json".toList

def loadOrGenerate (dataDir : Path) (deviceName : String) (drawn : Option Bytes)
    (uuid : TransferId) : Files Path → Except IdentityError DeviceIdentity × Files Path :=
  startFrom (storagePathIn dataDir) (load host (storagePathIn dataDir)) (content host)
    (generate host drawn uuid (storagePathIn dataDir) deviceName)

/-- The files after a crash of `loadOrGenerate`. -/
def loadOrGenerateCrash (dataDir : Path) (deviceName : String) (drawn : Option Bytes)
    (uuid : TransferId) : CrashPoint → Files Path → Files Path :=
  startCrash (storagePathIn dataDir) (content host)
    (generate host drawn uuid (storagePathIn dataDir) deviceName)

variable {host}

theorem generate_eq_ok {drawn : Option Bytes} {uuid : TransferId} {path : Path}
    {deviceName : String} {identity : DeviceIdentity}
    (h : generate host drawn uuid path deviceName = .ok identity) :
    host.fromPkcs8 identity.pkcs8Bytes = some identity.keypair := by
  cases drawn with
  | none => simp [generate] at h
  | some pkcs8Bytes =>
    cases hkeys : host.fromPkcs8 pkcs8Bytes with
    | none => simp [generate, hkeys] at h
    | some keypair =>
      simp only [generate, hkeys, Except.ok.injEq] at h
      subst h
      exact hkeys

/-- A generated identity loads from the file that is made of it, and from nothing shorter. -/
theorem load_take_iff {identity : DeviceIdentity} {drawn : Option Bytes} {uuid : TransferId}
    {path : Path} {deviceName : String}
    (hidentity : generate host drawn uuid path deviceName = .ok identity) (files : Files Path)
    (count : ℕ) :
    (∃ loaded, load host path (files.write path ((content host identity).take count)) =
      .ok loaded) ↔ (content host identity).length ≤ count := by
  refine host.json.exists_load_take_iff
    (fun bytes => load host path (files.write path bytes)) ?_ ?_ count
  · intro bytes loaded hloaded
    simp only [load, Files.write_same] at hloaded
    cases hread : host.json.read bytes with
    | error failure => cases failure <;> simp [hread] at hloaded
    | ok stored => exact ⟨stored, rfl⟩
  · simp only [load, Files.write_same, TextFormat.read_content, generate_eq_ok hidentity]
    exact ⟨_, rfl⟩

/-- What the first start left behind loads, or is generated again, if and only if its crash
was harmless. -/
theorem loadOrGenerate_crash_iff {dataDir : Path} {files : Files Path}
    (hmissing : files (storagePathIn dataDir) = none) {deviceName nextName : String}
    {drawn nextDrawn : Option Bytes} {uuid nextUuid : TransferId}
    {identity next : DeviceIdentity}
    (hidentity : generate host drawn uuid (storagePathIn dataDir) deviceName = .ok identity)
    (hnext : generate host nextDrawn nextUuid (storagePathIn dataDir) nextName = .ok next)
    (point : CrashPoint) :
    (∃ loaded, (loadOrGenerate host dataDir nextName nextDrawn nextUuid
      (loadOrGenerateCrash host dataDir deviceName drawn uuid point files)).1 = .ok loaded) ↔
      point.Harmless (content host identity) := by
  rw [loadOrGenerate, loadOrGenerateCrash, hidentity, hnext]
  exact startFrom_startCrash_iff hmissing (load_take_iff hidentity files) point

end DeviceIdentity
end JustDrop

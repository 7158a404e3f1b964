import JustDrop.SavedState

/-!
# What a crash leaves behind

A write in place is safe against a crash exactly where the crash comes before the
file is cut or behind its last byte. Anywhere else the resume state is lost with the
one before it, and an identity that was cut off fails every later start.
-/
namespace JustDrop

section Countable

instance countable_uint8 : Countable UInt8 :=
  Function.Injective.countable (f := UInt8.toNat) fun _ _ h => UInt8.toNat_inj.mp h

instance countable_uint32 : Countable UInt32 :=
  Function.Injective.countable (f := UInt32.toNat) fun _ _ h => UInt32.toNat_inj.mp h

instance countable_uint64 : Countable UInt64 :=
  Function.Injective.countable (f := UInt64.toNat) fun _ _ h => UInt64.toNat_inj.mp h

instance countable_char : Countable Char :=
  Function.Injective.countable (f := Char.toNat) fun _ _ h => Char.toNat_inj.mp h

instance countable_string : Countable String :=
  Function.Injective.countable (f := String.toList) fun _ _ h => String.toList_inj.mp h

instance countable_bytes {n : ℕ} : Countable (Vector UInt8 n) :=
  Function.Injective.countable (f := Vector.toList) fun _ _ h => Vector.toList_inj.mp h

instance : Countable FileResumeState :=
  Function.Injective.countable
    (f := fun s => (s.fileIndex, s.destPath, s.tempPath, s.fileSize, s.chunkSize,
      s.completedChunks))
    fun a b h => by cases a; cases b; simpa using h

instance : Countable TransferResumeState :=
  Function.Injective.countable
    (f := fun s => (s.transferId, s.files, s.bytesTransferred, s.totalBytes))
    fun a b h => by cases a; cases b; simpa using h

instance : Countable DatedResumeState :=
  Function.Injective.countable (f := fun s => (s.state, s.lastUpdated))
    fun a b h => by cases a; cases b; simpa using h

instance : Countable StoredKeys :=
  Function.Injective.countable (f := fun s => (s.privateKey, s.publicKey))
    fun a b h => by cases a; cases b; simpa using h

instance : Countable StoredIdentity :=
  Function.Injective.countable (f := fun s => (s.uuid, s.name, s.pkcs8Der))
    fun a b h => by cases a; cases b; simpa using h

end Countable

/-! ### Surviving a crash -/

/-- After a crash of a save, loading finds the state from before or the saved one. -/
def SaveSurvives (json : TextFormat DatedResumeState) (manager : ResumeManager)
    (saved : DatedResumeState) (old : Option DatedResumeState) (files : Files Path)
    (point : CrashPoint) : Prop :=
  manager.load json saved.state.transferId (manager.saveCrash json saved point files) = .ok old ∨
    manager.load json saved.state.transferId (manager.saveCrash json saved point files) =
      .ok (some saved)

/-- After a crash of the first start, the next one has keys. -/
def KeysSurvive (host : KeyHost) (dataDir : Path) (first next : Vector UInt8 32 × PublicKey)
    (files : Files Path) (point : CrashPoint) : Prop :=
  ∃ keys, (IdentityKeys.loadOrGenerate host dataDir (some next)
    (IdentityKeys.loadOrGenerateCrash host dataDir (some first) point files)).1 = .ok keys

/-- What a start of the device identity is given: its name, and what it draws. -/
structure IdentityDraw where
  deviceName : String
  pkcs8Bytes : Bytes
  uuid : TransferId

def IdentityDraw.generate (draw : IdentityDraw) (host : IdentityHost) (dataDir : Path) :
    Except IdentityError DeviceIdentity :=
  DeviceIdentity.generate host (some draw.pkcs8Bytes) draw.uuid
    (DeviceIdentity.storagePathIn dataDir) draw.deviceName

/-- After a crash of the first start, the next one has an identity. -/
def IdentitySurvives (host : IdentityHost) (dataDir : Path) (first next : IdentityDraw)
    (files : Files Path) (point : CrashPoint) : Prop :=
  ∃ identity, (DeviceIdentity.loadOrGenerate host dataDir next.deviceName (some next.pkcs8Bytes)
    next.uuid (DeviceIdentity.loadOrGenerateCrash host dataDir first.deviceName
      (some first.pkcs8Bytes) first.uuid point files)).1 = .ok identity

/-- A crash is survived if and only if it comes before the file is cut or behind its last
byte, for all three files. -/
theorem survives_iff_harmless (json : TextFormat DatedResumeState) (keyHost : KeyHost)
    (identityHost : IdentityHost) (files : Files Path) (point : CrashPoint) :
    (∀ manager saved old, ResumeManager.load json manager saved.state.transferId files = .ok old →
      (SaveSurvives json manager saved old files point ↔ point.Harmless (json.content saved))) ∧
    (∀ dataDir first next keys, files (IdentityKeys.storagePathIn dataDir) = none →
      IdentityKeys.generate keyHost (some first) (IdentityKeys.storagePathIn dataDir) = .ok keys →
      (KeysSurvive keyHost dataDir first next files point ↔
        point.Harmless (keys.content keyHost))) ∧
    (∀ dataDir first next identity, files (DeviceIdentity.storagePathIn dataDir) = none →
      first.generate identityHost dataDir = .ok identity →
      (∃ other, next.generate identityHost dataDir = .ok other) →
      (IdentitySurvives identityHost dataDir first next files point ↔
        point.Harmless (identity.content identityHost))) := by
  refine ⟨fun manager saved old hold => ResumeManager.load_saveCrash_iff hold point,
    fun dataDir first next keys hmissing hkeys =>
      IdentityKeys.loadOrGenerate_crash_iff hmissing first next hkeys point,
    fun dataDir first next identity hmissing hidentity hnext => ?_⟩
  obtain ⟨other, hother⟩ := hnext
  exact DeviceIdentity.loadOrGenerate_crash_iff hmissing hidentity hother point

/-- Keys that a crash cut off fail every later start. -/
theorem IdentityKeys.starts_fail_of_cut {host : KeyHost} {dataDir : Path} {files : Files Path}
    {first : Vector UInt8 32 × PublicKey} {keys : IdentityKeys}
    (hkeys : generate host (some first) (storagePathIn dataDir) = .ok keys) {count : ℕ}
    (hcut : count < (content host keys).length)
    (draws : List (Except SecurityError IdentityKeys)) :
    ∃ failure, ∀ result ∈ starts (storagePathIn dataDir)
      (loadFromFile host (storagePathIn dataDir)) (content host) draws
      (files.write (storagePathIn dataDir) ((content host keys).take count)),
      result = .error failure := by
  cases hload : loadFromFile host (storagePathIn dataDir)
      (files.write (storagePathIn dataDir) ((content host keys).take count)) with
  | error failure => exact ⟨failure, starts_fail (by simp) hload draws⟩
  | ok loaded =>
    have hle := (loadFromFile_take_iff hkeys files count).mp ⟨loaded, hload⟩
    omega

/-- So does a device identity. -/
theorem DeviceIdentity.starts_fail_of_cut {host : IdentityHost} {dataDir : Path}
    {files : Files Path} {first : IdentityDraw} {identity : DeviceIdentity}
    (hidentity : first.generate host dataDir = .ok identity) {count : ℕ}
    (hcut : count < (content host identity).length)
    (draws : List (Except IdentityError DeviceIdentity)) :
    ∃ failure, ∀ result ∈ starts (storagePathIn dataDir) (load host (storagePathIn dataDir))
      (content host) draws
      (files.write (storagePathIn dataDir) ((content host identity).take count)),
      result = .error failure := by
  cases hload : load host (storagePathIn dataDir)
      (files.write (storagePathIn dataDir) ((content host identity).take count)) with
  | error failure => exact ⟨failure, starts_fail (by simp) hload draws⟩
  | ok loaded =>
    have hle := (load_take_iff hidentity files count).mp ⟨loaded, hload⟩
    omega

/-! ### An instance -/

section Instance

def aDir : Path := ⟨true, [.normal "data".toList], false⟩

/-- A file of four bytes in chunks of two, of which these have arrived. -/
def photoState (completed : Finset ℕ) (bytes : UInt64) (seconds : ℤ) : DatedResumeState where
  state := {
    transferId := Vector.replicate 16 0x5a
    files := [{
      fileIndex := 0, destPath := "/dl/photo.jpg", tempPath := "/dl/photo.justdrop_partial",
      fileSize := 4, chunkSize := 2, completedChunks := completed }]
    bytesTransferred := bytes
    totalBytes := 4 }
  lastUpdated := seconds * 1000000000

def photoText (completed bytes lastUpdated : String) : String :=
  "\n  \"transfer_id\": \"5a5a5a5a-5a5a-5a5a-5a5a-5a5a5a5a5a5a\"," ++
  "\n  \"last_updated\": \"" ++ lastUpdated ++ "\",\n  \"files\": [\n    \x7b" ++
  "\n      \"file_index\": 0,\n      \"dest_path\": \"/dl/photo.jpg\"," ++
  "\n      \"temp_path\": \"/dl/photo.justdrop_partial\"," ++
  "\n      \"file_size\": 4,\n      \"chunk_size\": 2," ++
  "\n      \"completed_chunks\": [" ++ completed ++ "\n      ]\n    \x7d\n  ]," ++
  "\n  \"bytes_transferred\": " ++ bytes ++ ",\n  \"total_bytes\": 4\n\x7d"

/-- The state of a first run, with one chunk, and that of a second, with both. -/
def anOldState : DatedResumeState := photoState {0} 2 1700000000
def aState : DatedResumeState := photoState {0, 1} 4 1700000060

def anOldText : String := photoText "\n        0" "2" "2023-11-14T22:13:20Z"
def aStateText : String := photoText "\n        0,\n        1" "4" "2023-11-14T22:14:20Z"

def stateTexts : List (DatedResumeState × String) := [(anOldState, anOldText), (aState, aStateText)]

theorem stateTexts_distinguishable : TextFormat.Distinguishable stateTexts := by decide +kernel

/-- Numbers in brackets, one a line. -/
def numbersText (bytes : Bytes) : String :=
  "[\n" ++ String.intercalate ",\n" (bytes.map fun b => "    " ++ toString b.toNat) ++ "\n  ]"

def aKeyPair : Vector UInt8 32 × PublicKey := (Vector.replicate 32 0,
  #v[47, 229, 125, 163, 71, 205, 98, 67, 21, 40, 218, 172, 95, 187, 41, 7,
  48, 255, 246, 132, 175, 196, 207, 194, 237, 144, 153, 95, 88, 203, 59, 116])

def aStoredKeys : StoredKeys := ⟨aKeyPair.1.toList, aKeyPair.2.toList⟩

def aKeysText : String :=
  "\n  \"private_key\": " ++ numbersText aStoredKeys.privateKey ++
  ",\n  \"public_key\": " ++ numbersText aStoredKeys.publicKey ++ "\n\x7d"

noncomputable def aKeyHost : KeyHost where
  blake2s _ :=
    #v[182, 198, 152, 211, 203, 121, 12, 32, 6, 198, 158, 45, 141, 209, 100, 244,
    28, 245, 82, 95, 104, 6, 221, 45, 172, 99, 132, 78, 19, 195, 142, 228]
  json := TextFormat.printing [(aStoredKeys, aKeysText)] (TextFormat.distinguishable_singleton _)

def anEd25519KeyPair : Ed25519KeyPair := ⟨Vector.replicate 32 0,
  #v[59, 106, 39, 188, 206, 182, 164, 45, 98, 163, 168, 208, 42, 111, 13, 115,
  101, 50, 21, 119, 29, 226, 67, 166, 58, 192, 72, 161, 139, 89, 218, 41]⟩

/-- The document of the key pair. -/
def aPkcs8 : Bytes :=
  [48, 83, 2, 1, 1, 48, 5, 6, 3, 43, 101, 112, 4, 34, 4, 32] ++ anEd25519KeyPair.seed.toList ++
    [161, 35, 3, 33, 0] ++ anEd25519KeyPair.publicKey.toList

def aDraw : IdentityDraw := ⟨"TestMac", aPkcs8, Vector.replicate 16 0⟩

def aStoredIdentity : StoredIdentity := ⟨aDraw.uuid, aDraw.deviceName, aPkcs8⟩

def anIdentityText : String :=
  "\n  \"uuid\": \"00000000-0000-0000-0000-000000000000\"," ++
  "\n  \"name\": \"TestMac\",\n  \"pkcs8_der\": " ++ numbersText aPkcs8 ++ "\n\x7d"

noncomputable def anIdentityHost : IdentityHost where
  fromPkcs8 der := if der = aPkcs8 then some anEd25519KeyPair else none
  blake3 _ :=
    #v[81, 241, 54, 90, 221, 144, 124, 61, 202, 234, 216, 250, 233, 12, 254, 85,
    144, 38, 56, 36, 131, 119, 180, 221, 29, 181, 1, 177, 21, 84, 172, 70]
  json := TextFormat.printing [(aStoredIdentity, anIdentityText)]
    (TextFormat.distinguishable_singleton _)

noncomputable def aJson : TextFormat DatedResumeState :=
  TextFormat.printing stateTexts stateTexts_distinguishable

/-- The old state is stored, and nothing else. -/
noncomputable def aStored : Files Path := ResumeManager.save aJson ⟨aDir⟩ anOldState fun _ => none

theorem aStored_keys : aStored (IdentityKeys.storagePathIn aDir) = none := by
  unfold aStored ResumeManager.save Files.write
  rw [Function.update_of_ne (by decide)]

theorem aStored_identity : aStored (DeviceIdentity.storagePathIn aDir) = none := by
  unfold aStored ResumeManager.save Files.write
  rw [Function.update_of_ne (by decide)]

/-- The identity that is generated from the draw. -/
noncomputable def anIdentity : DeviceIdentity where
  uuid := aDraw.uuid
  name := aDraw.deviceName
  keypair := anEd25519KeyPair
  pkcs8Bytes := aPkcs8
  fingerprint := anIdentityHost.blake3 anEd25519KeyPair.publicKey.toList
  storagePath := DeviceIdentity.storagePathIn aDir

theorem aDraw_generates : aDraw.generate anIdentityHost aDir = .ok anIdentity := by
  have hkeys : anIdentityHost.fromPkcs8 aPkcs8 = some anEd25519KeyPair := by
    simp [anIdentityHost]
  simp only [IdentityDraw.generate, aDraw, DeviceIdentity.generate, hkeys]
  rfl

/-! The lengths of the three files. -/

theorem length_aState : (aJson.content aState).length = 387 := by
  have hcontent : aJson.content aState = 0x7b :: Bincode.utf8 aStateText :=
    TextFormat.content_printing stateTexts_distinguishable (by decide +kernel)
  rw [hcontent]
  decide +kernel

theorem length_aStoredKeys : (aKeyHost.json.content aStoredKeys).length = 545 := by
  have hcontent : aKeyHost.json.content aStoredKeys = 0x7b :: Bincode.utf8 aKeysText :=
    TextFormat.content_printing (TextFormat.distinguishable_singleton _) (by decide +kernel)
  rw [hcontent]
  decide +kernel

theorem length_aStoredIdentity : (anIdentityHost.json.content aStoredIdentity).length = 753 := by
  have hcontent : anIdentityHost.json.content aStoredIdentity =
      0x7b :: Bincode.utf8 anIdentityText :=
    TextFormat.content_printing (TextFormat.distinguishable_singleton _) (by decide +kernel)
  rw [hcontent]
  decide +kernel

theorem load_aStored :
    ResumeManager.load aJson ⟨aDir⟩ aState.state.transferId aStored = .ok (some anOldState) :=
  ResumeManager.load_save anOldState _

/-- With an old state stored, a crash before the last byte of the new one loses both, and
either identity; behind the last byte of the longest file nothing is lost. -/
theorem survives_iff_harmless_cut :
    (¬SaveSurvives aJson ⟨aDir⟩ aState (some anOldState) aStored (.written 386) ∧
      ¬KeysSurvive aKeyHost aDir aKeyPair aKeyPair aStored (.written 386) ∧
      ¬IdentitySurvives anIdentityHost aDir aDraw aDraw aStored (.written 386)) ∧
    SaveSurvives aJson ⟨aDir⟩ aState (some anOldState) aStored (.written 753) ∧
      KeysSurvive aKeyHost aDir aKeyPair aKeyPair aStored (.written 753) ∧
      IdentitySurvives anIdentityHost aDir aDraw aDraw aStored (.written 753) := by
  obtain ⟨hsave, hkeys, hidentity⟩ :=
    survives_iff_harmless aJson aKeyHost anIdentityHost aStored (.written 386)
  obtain ⟨hsave', hkeys', hidentity'⟩ :=
    survives_iff_harmless aJson aKeyHost anIdentityHost aStored (.written 753)
  refine ⟨⟨fun hcut => ?_, fun hcut => ?_, fun hcut => ?_⟩, ?_, ?_, ?_⟩
  · have hle := (hsave ⟨aDir⟩ aState _ load_aStored).mp hcut
    exact absurd (length_aState.symm.trans_le hle) (by decide)
  · have hle := (hkeys aDir aKeyPair aKeyPair _ aStored_keys rfl).mp hcut
    exact absurd (length_aStoredKeys.symm.trans_le hle) (by decide)
  · have hle := (hidentity aDir aDraw aDraw _ aStored_identity aDraw_generates
      ⟨_, aDraw_generates⟩).mp hcut
    exact absurd (length_aStoredIdentity.symm.trans_le hle) (by decide)
  · exact (hsave' ⟨aDir⟩ aState _ load_aStored).mpr (length_aState.trans_le (by decide))
  · exact (hkeys' aDir aKeyPair aKeyPair _ aStored_keys rfl).mpr
      (length_aStoredKeys.trans_le (by decide))
  · exact (hidentity' aDir aDraw aDraw _ aStored_identity aDraw_generates
      ⟨_, aDraw_generates⟩).mpr (length_aStoredIdentity.trans_le (by decide))

/-- A crash right behind the cut is not survived. -/
theorem not_survives :
    ¬∀ (json : TextFormat DatedResumeState) (keyHost : KeyHost) (identityHost : IdentityHost)
      (files : Files Path) (point : CrashPoint),
      (∀ manager saved old,
        ResumeManager.load json manager saved.state.transferId files = .ok old →
        SaveSurvives json manager saved old files point) ∧
      (∀ dataDir first next, files (IdentityKeys.storagePathIn dataDir) = none →
        KeysSurvive keyHost dataDir first next files point) ∧
      (∀ dataDir first next, files (DeviceIdentity.storagePathIn dataDir) = none →
        (∃ identity, first.generate identityHost dataDir = .ok identity) →
        (∃ identity, next.generate identityHost dataDir = .ok identity) →
        IdentitySurvives identityHost dataDir first next files point) := by
  intro h
  obtain ⟨hsave, -, -⟩ := h aJson aKeyHost anIdentityHost aStored (.written 0)
  have hharmless := (ResumeManager.load_saveCrash_iff load_aStored (.written 0)).mp
    (hsave ⟨aDir⟩ aState _ load_aStored)
  rw [CrashPoint.Harmless, length_aState] at hharmless
  simp at hharmless

end Instance
end JustDrop

import JustDrop.Errors

/-!
# Configuration

The settings that the transfers read, with the defaults and the checks of the
configuration file.
-/
namespace JustDrop

structure GeneralConfig where
  deviceName : String
  downloadDir : String
  deriving DecidableEq, Repr

structure NetworkConfig where
  listenPort : UInt16
  deriving DecidableEq, Repr

structure TransferConfig where
  chunkSize : UInt32
  pipelineDepth : ℕ
  deriving DecidableEq, Repr

structure SecurityConfig where
  autoAcceptAll : Bool
  deriving DecidableEq, Repr

structure Config where
  general : GeneralConfig
  network : NetworkConfig
  transfer : TransferConfig
  security : SecurityConfig
  deriving DecidableEq, Repr

namespace Config

/-- `Config::default`. -/
def default : Config where
  general := { deviceName := "", downloadDir := "" }
  network := { listenPort := 42420 }
  transfer := { chunkSize := 256 * 1024, pipelineDepth := 8 }
  security := { autoAcceptAll := false }

def validate (config : Config) : Except ConfigError Unit :=
  if config.network.listenPort = 0 then
    .error (.invalidValue "network.listen_port" "0" "port must be > 0")
  else if config.transfer.chunkSize < 4096 then
    .error (.invalidValue "transfer.chunk_size" (toString config.transfer.chunkSize)
      "chunk size must be >= 4096 bytes")
  else if config.transfer.pipelineDepth = 0 then
    .error (.invalidValue "transfer.pipeline_depth" "0" "pipeline depth must be > 0")
  else .ok ()

/-- `~/JustDrop`, or `JustDrop` where there is no home directory, unless one is configured. -/
def downloadDir (config : Config) (homeDir : Option Path) : Path :=
  if config.general.downloadDir.isEmpty then
    match homeDir with
    | some home => home.join (Path.ofString "JustDrop")
    | none => Path.ofString "JustDrop"
  else Path.ofString config.general.downloadDir

def deviceName (config : Config) (hostname : String) : String :=
  if config.general.deviceName.isEmpty then hostname else config.general.deviceName

/-- A valid configuration has at least 4 KiB in a chunk. -/
theorem le_chunkSize_of_validate {config : Config} (h : config.validate = .ok ()) :
    4096 ≤ config.transfer.chunkSize.toNat := by
  unfold validate at h
  split_ifs at h with h₁ h₂ h₃
  rw [UInt32.lt_iff_toNat_lt] at h₂
  simpa using h₂

theorem validate_default : default.validate = .ok () := by decide

end Config
end JustDrop

import JustDrop.Disk
import JustDrop.Messages

/-!
# Errors

An error built with a formatted text keeps the fixed part of the text and the
error shown after it. The tag of an unexpected message is the message received.
-/
namespace JustDrop

inductive ConfigError where
  | invalidValue (field value reason : String)
  deriving DecidableEq, Repr

inductive StorageError where
  | fileNotFound (path : Path)
  | chunkIntegrityFailed (transferId : TransferId) (chunkId : ℕ)
  | resumeStateCorrupted (transferId : TransferId)
  | io (path : Path) (source : IoError)
  deriving DecidableEq, Repr

inductive SecurityError where
  | encryptionFailed (text : String)
  | decryptionFailed (text : String)
  | invalidKey (text : String)
  | keyStorage (text : String)
  deriving DecidableEq, Repr

inductive NetworkError where
  | connectionReset
  | frameTooLarge (size max : ℕ)
  | security (source : SecurityError)
  | io
  deriving DecidableEq, Repr

/-- What a protocol error shows after its own text. -/
inductive ErrorSource where
  | none
  | storage (source : StorageError)
  | network (source : NetworkError)
  | snow
  | io
  deriving DecidableEq, Repr

inductive ProtocolError where
  | messageTooLarge (size max : ℕ)
  | unexpectedMessage (state : String) (tag : Option Message)
  | rejected (reason : String)
  | cancelled (reason : String)
  | serialization (text : String) (source : ErrorSource)
  | deserialization (text : String) (source : ErrorSource)
  deriving DecidableEq, Repr

/-- An error that a failing file-system call caused. -/
def StorageError.IsIo (e : StorageError) : Prop := ∃ path source, e = .io path source

def ProtocolError.IsIo (e : ProtocolError) : Prop :=
  ∃ text source, StorageError.IsIo source ∧ e = .serialization text (.storage source)

end JustDrop

import JustDrop.Errors

/-!
# Framed, encrypted transport

A message is serialized, sealed by the Noise session and written as a frame with
a four-byte length. Reading puts the frame together again from whatever parts
the stream hands out.
-/
namespace JustDrop
open Bincode

/-- Poly1305 tag length. -/
def TAG_LEN : ℕ := 16

/-- A Noise message is at most this long. -/
def NOISE_MAX_MESSAGE : ℕ := 65535

def FRAME_HEADER_SIZE : ℕ := 4

/-- The cipher of an established Noise session: a sealed message is the plaintext
and a tag, and opens under the counter it was sealed with. -/
structure Noise where
  sealWith : ℕ → Bytes → Bytes
  openWith : ℕ → Bytes → Option Bytes
  length_sealWith : ∀ n plaintext, (sealWith n plaintext).length = plaintext.length + TAG_LEN
  openWith_sealWith : ∀ n plaintext, openWith n (sealWith n plaintext) = some plaintext

/-- A cipher that only adds room for the tag. -/
def Noise.plain : Noise where
  sealWith _ plaintext := List.replicate TAG_LEN 0 ++ plaintext
  openWith _ ciphertext := some (ciphertext.drop TAG_LEN)
  length_sealWith _ plaintext := by simp [Nat.add_comm]
  openWith_sealWith _ plaintext := by simp

/-- The counters of the two directions and the static key the handshake authenticated. -/
structure NoiseSession where
  sendNonce : ℕ
  recvNonce : ℕ
  remoteStatic : PublicKey
  deriving DecidableEq, Repr

namespace NoiseSession

/-- snow's `write_message` into a buffer of `bufLen` bytes. -/
def writeMessage (noise : Noise) (session : NoiseSession) (plaintext : Bytes) (bufLen : ℕ) :
    Option (Bytes × NoiseSession) :=
  if NOISE_MAX_MESSAGE < plaintext.length + TAG_LEN ∨ bufLen < plaintext.length + TAG_LEN then none
  else some (noise.sealWith session.sendNonce plaintext,
    { session with sendNonce := session.sendNonce + 1 })

/-- snow's `read_message`. -/
def readMessage (noise : Noise) (session : NoiseSession) (ciphertext : Bytes) :
    Option (Bytes × NoiseSession) :=
  if NOISE_MAX_MESSAGE < ciphertext.length then none
  else (noise.openWith session.recvNonce ciphertext).map fun plaintext =>
    (plaintext, { session with recvNonce := session.recvNonce + 1 })

def encrypt (noise : Noise) (session : NoiseSession) (plaintext : Bytes) :
    Except SecurityError (Bytes × NoiseSession) :=
  match writeMessage noise session plaintext (plaintext.length + TAG_LEN) with
  | some sealed => .ok sealed
  | none => .error (.encryptionFailed "input error")

def decrypt (noise : Noise) (session : NoiseSession) (ciphertext : Bytes) :
    Except SecurityError (Bytes × NoiseSession) :=
  match readMessage noise session ciphertext with
  | some opened => .ok opened
  | none => .error (.decryptionFailed "decrypt error")

theorem encrypt_of_le (noise : Noise) (session : NoiseSession) {plaintext : Bytes}
    (h : plaintext.length + TAG_LEN ≤ NOISE_MAX_MESSAGE) :
    encrypt noise session plaintext = .ok (noise.sealWith session.sendNonce plaintext,
      { session with sendNonce := session.sendNonce + 1 }) := by
  simp [encrypt, writeMessage, not_lt.mpr h]

theorem encrypt_of_lt (noise : Noise) (session : NoiseSession) {plaintext : Bytes}
    (h : NOISE_MAX_MESSAGE < plaintext.length + TAG_LEN) :
    encrypt noise session plaintext = .error (.encryptionFailed "input error") := by
  simp [encrypt, writeMessage, h]

end NoiseSession

/-! ### Frames -/

def frameHeader (n : ℕ) : Bytes := (leBytes 4 n).reverse

/-- `u32::from_be_bytes`. -/
def headerLength (header : Bytes) : ℕ := header.foldl (fun n b => n * 256 + b.toNat) 0

def frame (ciphertext : Bytes) : Bytes := frameHeader ciphertext.length ++ ciphertext

@[simp] theorem length_frameHeader (n : ℕ) : (frameHeader n).length = FRAME_HEADER_SIZE := by
  simp [frameHeader, FRAME_HEADER_SIZE]

theorem headerLength_frameHeader {n : ℕ} (h : n < 2 ^ 32) : headerLength (frameHeader n) = n := by
  simp only [headerLength, frameHeader, leBytes, List.reverse_cons, List.reverse_nil,
    List.nil_append, List.cons_append, List.foldl_cons, List.foldl_nil, UInt8.toNat_ofNat']
  omega

/-- Read until `needed` bytes are buffered, or a read returns nothing. -/
def fill (needed : ℕ) : Bytes → List Bytes → Bytes × List Bytes
  | readBuf, [] => (readBuf, [])
  | readBuf, part :: reads =>
    if needed ≤ readBuf.length then (readBuf, part :: reads)
    else if part = [] then (readBuf, reads)
    else fill needed (readBuf ++ part) reads

/-- One end of a connection: its session, what it has buffered, what the coming
reads return, what it has written and whether the next write fails. -/
structure SecureTransport where
  session : NoiseSession
  readBuf : Bytes
  reads : List Bytes
  written : Bytes
  writeFault : Bool

namespace SecureTransport

def new (session : NoiseSession) (reads : List Bytes) : SecureTransport :=
  { session, readBuf := [], reads, written := [], writeFault := false }

def fillTo (needed : ℕ) (transport : SecureTransport) : SecureTransport :=
  let filled := fill needed transport.readBuf transport.reads
  { transport with readBuf := filled.1, reads := filled.2 }

/-- The sealed message advances the session even if the write then fails. -/
def send (noise : Noise) (plaintext : Bytes) : Task SecureTransport NetworkError Unit := do
  let transport ← Task.get
  match transport.session.encrypt noise plaintext with
  | .error e => Task.fail (.security e)
  | .ok (ciphertext, session) => do
    Task.modify fun t => { t with session }
    if transport.writeFault then Task.fail .io
    else Task.modify fun t => { t with written := t.written ++ frame ciphertext }

def recv (noise : Noise) : Task SecureTransport NetworkError (Option Bytes) := do
  Task.modify (fillTo FRAME_HEADER_SIZE)
  let transport ← Task.get
  if transport.readBuf.length < FRAME_HEADER_SIZE then
    if transport.readBuf = [] then pure none else Task.fail .connectionReset
  else
    let frameLen := headerLength (transport.readBuf.take FRAME_HEADER_SIZE)
    if MAX_MESSAGE_SIZE < frameLen then Task.fail (.frameTooLarge frameLen MAX_MESSAGE_SIZE)
    else do
      Task.modify (fillTo (FRAME_HEADER_SIZE + frameLen))
      let transport ← Task.get
      if transport.readBuf.length < FRAME_HEADER_SIZE + frameLen then Task.fail .connectionReset
      else do
        let body := transport.readBuf.drop FRAME_HEADER_SIZE
        Task.modify fun t => { t with readBuf := body.drop frameLen }
        match transport.session.decrypt noise (body.take frameLen) with
        | .error e => Task.fail (.security e)
        | .ok (plaintext, session) => do
          Task.modify fun t => { t with session }
          pure (some plaintext)

end SecureTransport

/-! ### Messages -/

/-- Message-level sending. `attempted` lists what was passed to `send`, `sent` what
was written. -/
structure ProtocolCodec where
  transport : SecureTransport
  attempted : List Message
  sent : List Message

namespace ProtocolCodec

def new (transport : SecureTransport) : ProtocolCodec :=
  { transport, attempted := [], sent := [] }

/-- Whether the next write fails. -/
def withWriteFault (writeFault : Bool) (codec : ProtocolCodec) : ProtocolCodec :=
  { codec with transport := { codec.transport with writeFault } }

def send (noise : Noise) (message : Message) : Task ProtocolCodec ProtocolError Unit := do
  Task.modify fun codec => { codec with attempted := codec.attempted ++ [message] }
  Task.zoom ProtocolCodec.transport (fun transport codec => { codec with transport })
    (Task.mapErr (fun e => .serialization "transport send failed" (.network e))
      (SecureTransport.send noise message.serialize))
  Task.modify fun codec => { codec with sent := codec.sent ++ [message] }

end ProtocolCodec

/-- The serialized message fits one Noise message. -/
def Message.Fits (message : Message) : Prop :=
  message.serialize.length + TAG_LEN ≤ NOISE_MAX_MESSAGE

instance (message : Message) : Decidable message.Fits := inferInstanceAs (Decidable (_ ≤ _))

namespace ProtocolCodec

/-- A message that fits is sent unless the write fails. -/
theorem send_of_fits (noise : Noise) (codec : ProtocolCodec) {message : Message}
    (hfit : message.Fits) (hwrite : codec.transport.writeFault = false) :
    ∃ codec', send noise message codec = (.ok (), codec') ∧
      codec'.transport.writeFault = false ∧
      codec'.attempted = codec.attempted ++ [message] ∧
      codec'.sent = codec.sent ++ [message] := by
  have henc := NoiseSession.encrypt_of_le noise codec.transport.session hfit
  simp [send, Task.zoom, Task.mapErr, SecureTransport.send, henc, hwrite, bind]

/-- A message that does not fit is not sent. -/
theorem send_of_not_fits (noise : Noise) (codec : ProtocolCodec) {message : Message}
    (hfit : ¬message.Fits) :
    send noise message codec =
      (.err (.serialization "transport send failed"
          (.network (.security (.encryptionFailed "input error")))),
        { codec with attempted := codec.attempted ++ [message] }) := by
  have henc := NoiseSession.encrypt_of_lt noise codec.transport.session (not_le.mp hfit)
  simp [send, Task.zoom, Task.mapErr, SecureTransport.send, henc, bind]

/-- A failing write sends nothing. -/
theorem send_of_fault (noise : Noise) (codec : ProtocolCodec) {message : Message}
    (hfit : message.Fits) (hwrite : codec.transport.writeFault = true) :
    ∃ codec', send noise message codec =
        (.err (.serialization "transport send failed" (.network .io)), codec') ∧
      codec'.attempted = codec.attempted ++ [message] ∧ codec'.sent = codec.sent := by
  have henc := NoiseSession.encrypt_of_le noise codec.transport.session hfit
  simp [send, Task.zoom, Task.mapErr, SecureTransport.send, henc, hwrite, bind]

/-- What `send` leaves, however it ends. -/
theorem send_cases (noise : Noise) (message : Message) (codec : ProtocolCodec) :
    (send noise message codec).2.attempted = codec.attempted ++ [message] ∧
      (((send noise message codec).1 = .ok () ∧ message.Fits ∧
          (send noise message codec).2.sent = codec.sent ++ [message]) ∨
        (∃ source, (send noise message codec).1 =
            .err (.serialization "transport send failed" (.network source))) ∧
          (send noise message codec).2.sent = codec.sent) := by
  by_cases hfit : message.Fits
  · cases hwrite : codec.transport.writeFault with
    | false =>
      obtain ⟨codec', h, -, hatt, hsent⟩ := send_of_fits noise codec hfit hwrite
      exact h ▸ ⟨hatt, Or.inl ⟨rfl, hfit, hsent⟩⟩
    | true =>
      obtain ⟨codec', h, hatt, hsent⟩ := send_of_fault noise codec hfit hwrite
      exact h ▸ ⟨hatt, Or.inr ⟨⟨_, rfl⟩, hsent⟩⟩
  · rw [send_of_not_fits noise codec hfit]
    exact ⟨rfl, Or.inr ⟨⟨_, rfl⟩, rfl⟩⟩

theorem attempted_send (noise : Noise) (message : Message) (codec : ProtocolCodec) :
    (send noise message codec).2.attempted = codec.attempted ++ [message] :=
  (send_cases noise message codec).1

/-- Every message written so far is in `P`. -/
def SentAll (P : Message → Prop) (codec : ProtocolCodec) : Prop := ∀ m ∈ codec.sent, P m

theorem keeps_sentAll {P : Message → Prop} {noise : Noise} {message : Message} (h : P message) :
    Task.Keeps (SentAll P) (send noise message) := by
  intro codec hc
  rcases (send_cases noise message codec).2 with ⟨-, -, hs⟩ | ⟨-, hs⟩
  · intro m hm
    rw [hs, List.mem_append, List.mem_singleton] at hm
    rcases hm with hm | rfl
    · exact hc m hm
    · exact h
  · intro m hm
    exact hc m (hs ▸ hm)

/-- Every message passed to `send` so far is in `P`. -/
def AttemptedAll (P : Message → Prop) (codec : ProtocolCodec) : Prop := ∀ m ∈ codec.attempted, P m

theorem keeps_attemptedAll {P : Message → Prop} {noise : Noise} {message : Message}
    (h : P message) : Task.Keeps (AttemptedAll P) (send noise message) := by
  intro codec hc m hm
  rw [attempted_send, List.mem_append, List.mem_singleton] at hm
  rcases hm with hm | rfl
  · exact hc m hm
  · exact h

/-- What has been written stays written. -/
theorem sent_prefix_send (noise : Noise) (message : Message) (codec : ProtocolCodec) :
    codec.sent <+: (send noise message codec).2.sent := by
  rcases (send_cases noise message codec).2 with ⟨-, -, hsent⟩ | ⟨-, hsent⟩
  · exact ⟨[message], hsent.symm⟩
  · rw [hsent]

end ProtocolCodec
end JustDrop

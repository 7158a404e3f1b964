import JustDrop.Framing
import JustDrop.MessageCodec
import JustDrop.Runs
import Mathlib.Algebra.Order.BigOperators.Group.List

/-!
# Two ends and a network between them

Both ends send and receive at any time, and the network hands either end whatever
bytes it likes, in whatever parts. An end numbers what it seals and opens what it
reads under its own count, so a stream that was cut, repeated, reordered or made up
yields a beginning of what the other end has sealed and no more.
-/
namespace JustDrop

/-- A cipher whose tag is the count and the length. -/
def Noise.labelled : Noise where
  sealWith n plaintext := Bincode.leBytes 8 n ++ Bincode.leBytes 8 plaintext.length ++ plaintext
  openWith n ciphertext :=
    if ciphertext.take TAG_LEN =
        Bincode.leBytes 8 n ++ Bincode.leBytes 8 (ciphertext.drop TAG_LEN).length then
      some (ciphertext.drop TAG_LEN)
    else none
  length_sealWith n plaintext := by
    simp [TAG_LEN]
    omega
  openWith_sealWith n plaintext := by
    have hlength : (Bincode.leBytes 8 n ++ Bincode.leBytes 8 plaintext.length).length =
        TAG_LEN := by
      simp [TAG_LEN]
    rw [List.drop_left' hlength, List.take_left' hlength, if_pos rfl]

/-! ### One call of `recv` -/

namespace SecureTransport

/-- What is buffered and what is still to be read. -/
def unread (transport : SecureTransport) : Bytes := transport.readBuf ++ transport.reads.flatten

/-- Filling loses no byte, also when a read is empty. -/
theorem fill_append (needed : ℕ) (readBuf : Bytes) (reads : List Bytes) :
    (fill needed readBuf reads).1 ++ (fill needed readBuf reads).2.flatten =
      readBuf ++ reads.flatten := by
  induction reads generalizing readBuf with
  | nil => rfl
  | cons part reads ih =>
    unfold fill
    split_ifs with h₁ h₂
    · rfl
    · rw [h₂, List.flatten_cons, List.nil_append]
    · rw [ih, List.flatten_cons, List.append_assoc]

@[simp] theorem unread_fillTo (needed : ℕ) (transport : SecureTransport) :
    (transport.fillTo needed).unread = transport.unread :=
  fill_append needed transport.readBuf transport.reads

@[simp] theorem session_fillTo (needed : ℕ) (transport : SecureTransport) :
    (transport.fillTo needed).session = transport.session := rfl

/-- What one call of `recv` does to the counters and to the unread bytes. -/
inductive Received (noise : Noise) (transport transport' : SecureTransport) :
    Outcome NetworkError (Option Bytes) → Prop where
  | opened {ciphertext plaintext} (part : ciphertext <:+: transport.unread)
      (opens : noise.openWith transport.session.recvNonce ciphertext = some plaintext)
      (session : transport'.session =
        { transport.session with recvNonce := transport.session.recvNonce + 1 }) :
      Received noise transport transport' (.ok (some plaintext))
  | closed (session : transport'.session = transport.session)
      (kept : transport'.unread = transport.unread) :
      Received noise transport transport' (.ok none)
  | failed {e} (session : transport'.session = transport.session)
      (kept : e = .connectionReset → transport'.unread = transport.unread) :
      Received noise transport transport' (.err e)

/-- What is left after reading: bytes go away at the front only, and nothing is written. -/
structure ReadFrom (transport transport' : SecureTransport) : Prop where
  unread : transport'.unread <:+ transport.unread
  reads : transport'.reads <:+ transport.reads
  written : transport'.written = transport.written
  writeFault : transport'.writeFault = transport.writeFault

theorem Received.sendNonce {noise : Noise} {transport transport' : SecureTransport}
    {outcome : Outcome NetworkError (Option Bytes)}
    (h : Received noise transport transport' outcome) :
    transport'.session.sendNonce = transport.session.sendNonce := by
  cases h with
  | opened part opens session => rw [session]
  | closed session kept => rw [session]
  | failed session kept => rw [session]

theorem decrypt_eq_ok {noise : Noise} {session session' : NoiseSession}
    {ciphertext plaintext : Bytes}
    (h : session.decrypt noise ciphertext = .ok (plaintext, session')) :
    noise.openWith session.recvNonce ciphertext = some plaintext ∧
      session' = { session with recvNonce := session.recvNonce + 1 } := by
  unfold NoiseSession.decrypt NoiseSession.readMessage at h
  by_cases hlong : NOISE_MAX_MESSAGE < ciphertext.length
  · simp [hlong] at h
  · cases hopen : noise.openWith session.recvNonce ciphertext with
    | none => simp [hlong, hopen] at h
    | some opened =>
      simp only [hlong, hopen, if_false, Option.map_some, Except.ok.injEq, Prod.mk.injEq] at h
      exact ⟨by rw [h.1], h.2.symm⟩

theorem fill_reads (needed : ℕ) (readBuf : Bytes) (reads : List Bytes) :
    (fill needed readBuf reads).2 <:+ reads := by
  induction reads generalizing readBuf with
  | nil => exact List.suffix_refl _
  | cons part reads ih =>
    unfold fill
    split_ifs with h₁ h₂
    · exact List.suffix_refl _
    · exact List.suffix_cons _ _
    · exact (ih _).trans (List.suffix_cons _ _)

theorem readFrom_fillTo (needed : ℕ) (transport : SecureTransport) :
    transport.ReadFrom (transport.fillTo needed) :=
  ⟨unread_fillTo needed transport ▸ List.suffix_refl _, fill_reads _ _ _, rfl, rfl⟩

theorem ReadFrom.trans {t₁ t₂ t₃ : SecureTransport} (h₁ : t₁.ReadFrom t₂) (h₂ : t₂.ReadFrom t₃) :
    t₁.ReadFrom t₃ :=
  ⟨h₂.unread.trans h₁.unread, h₂.reads.trans h₁.reads, h₂.written.trans h₁.written,
    h₂.writeFault.trans h₁.writeFault⟩

/-- Whatever the stream holds, `recv` opens a part of it under the next count or leaves
the session as it was; nothing is written and no byte is put back. -/
theorem received_recv (noise : Noise) (transport : SecureTransport) :
    Received noise transport (recv noise transport).2 (recv noise transport).1 ∧
      transport.ReadFrom (recv noise transport).2 := by
  unfold recv
  simp only [Task.modify_bind_run, Task.get_bind_run]
  have hunread₁ := unread_fillTo FRAME_HEADER_SIZE transport
  have hsession₁ := session_fillTo FRAME_HEADER_SIZE transport
  have hread₁ := readFrom_fillTo FRAME_HEADER_SIZE transport
  set t₁ := transport.fillTo FRAME_HEADER_SIZE
  by_cases hshort : t₁.readBuf.length < FRAME_HEADER_SIZE
  · by_cases hnil : t₁.readBuf = []
    · simp only [if_pos hshort, if_pos hnil]
      exact ⟨.closed hsession₁ hunread₁, hread₁⟩
    · simp only [if_pos hshort, if_neg hnil]
      exact ⟨.failed hsession₁ fun _ => hunread₁, hread₁⟩
  · generalize headerLength (t₁.readBuf.take FRAME_HEADER_SIZE) = frameLen
    by_cases hover : MAX_MESSAGE_SIZE < frameLen
    · simp only [if_neg hshort, if_pos hover]
      exact ⟨.failed hsession₁ fun _ => hunread₁, hread₁⟩
    · simp only [if_neg hshort, if_neg hover, Task.modify_bind_run, Task.get_bind_run]
      have hunread₂ := (unread_fillTo (FRAME_HEADER_SIZE + frameLen) t₁).trans hunread₁
      have hsession₂ := (session_fillTo (FRAME_HEADER_SIZE + frameLen) t₁).trans hsession₁
      have hread₂ := hread₁.trans (readFrom_fillTo (FRAME_HEADER_SIZE + frameLen) t₁)
      set t₂ := t₁.fillTo (FRAME_HEADER_SIZE + frameLen)
      by_cases hend : t₂.readBuf.length < FRAME_HEADER_SIZE + frameLen
      · simp only [if_pos hend]
        exact ⟨.failed hsession₂ fun _ => hunread₂, hread₂⟩
      · simp only [if_neg hend, Task.modify_bind_run]
        -- the frame is cut out of the middle: header, body, what follows
        have hcut : t₂.readBuf.take FRAME_HEADER_SIZE ++
            ((t₂.readBuf.drop FRAME_HEADER_SIZE).take frameLen ++
              ((t₂.readBuf.drop FRAME_HEADER_SIZE).drop frameLen ++ t₂.reads.flatten)) =
            transport.unread := by
          rw [← List.append_assoc (List.take _ _) _ t₂.reads.flatten, List.take_append_drop,
            ← List.append_assoc, List.take_append_drop]
          exact hunread₂
        have hpart : (t₂.readBuf.drop FRAME_HEADER_SIZE).take frameLen <:+: transport.unread :=
          ⟨_, _, by rw [List.append_assoc]; exact hcut⟩
        have hrest : (t₂.readBuf.drop FRAME_HEADER_SIZE).drop frameLen ++ t₂.reads.flatten <:+
            transport.unread :=
          ⟨t₂.readBuf.take FRAME_HEADER_SIZE ++ (t₂.readBuf.drop FRAME_HEADER_SIZE).take frameLen,
            by rw [List.append_assoc]; exact hcut⟩
        cases hdecrypt : t₂.session.decrypt noise
            ((t₂.readBuf.drop FRAME_HEADER_SIZE).take frameLen) with
        | error e =>
          exact ⟨.failed hsession₂ (by simp), hrest, hread₂.reads, hread₂.written,
            hread₂.writeFault⟩
        | ok opened =>
          obtain ⟨hopens, hsession⟩ := decrypt_eq_ok hdecrypt
          rw [hsession₂] at hopens hsession
          exact ⟨.opened hpart hopens hsession, hrest, hread₂.reads, hread₂.written,
            hread₂.writeFault⟩

end SecureTransport

/-! ### One call of `send` and of `recv` on messages -/

theorem FileEntry.lt_length_encode (entry : FileEntry) :
    (Bincode.utf8 entry.relativePath).length + (Bincode.utf8 entry.mimeType).length <
      entry.encode.length := by
  simp only [encode, List.length_append, Bincode.length_u32, Bincode.length_string,
    Bincode.length_u64, Bincode.length_array]
  omega

/-- The lengths in a manifest are bounded by the length of its encoding. -/
theorem TransferManifest.sized_of_lt {manifest : TransferManifest}
    (h : manifest.encode.length < 2 ^ 64) : manifest.Sized := by
  have hlengths : manifest.encode.length =
      (Bincode.bytes manifest.transferId.toList).length + (Bincode.u8 manifest.version).length +
        (8 + (manifest.files.map fun entry => entry.encode.length).sum) + 8 + 4 +
          (8 + (Bincode.utf8 manifest.senderName).length) +
            manifest.senderPlatform.encode.length := by
    simp only [encode, List.length_append, Bincode.length_seq, Bincode.length_u64,
      Bincode.length_u32, Bincode.length_string]
  have hfiles : manifest.files.length ≤
      (manifest.files.map fun entry => entry.encode.length).sum := by
    have hpos : ∀ n ∈ manifest.files.map fun entry => entry.encode.length, 1 ≤ n := by
      intro n hn
      obtain ⟨entry, -, rfl⟩ := List.mem_map.mp hn
      have := entry.lt_length_encode
      omega
    simpa using List.length_le_sum_of_one_le _ hpos
  refine ⟨by omega, fun entry hentry => ?_, by omega⟩
  have hentryLength := List.single_le_sum (fun n _ => Nat.zero_le n) _
    (List.mem_map_of_mem (f := fun entry => entry.encode.length) hentry)
  have hlt := entry.lt_length_encode
  exact ⟨by omega, by omega⟩

/-- A message that fits one Noise message can be read back. -/
theorem Message.sized_of_fits {message : Message} (h : message.Fits) : message.Sized := by
  have hlt : message.serialize.length < 2 ^ 64 := by
    have : NOISE_MAX_MESSAGE < 2 ^ 64 := by decide
    have := h
    unfold Message.Fits at this
    omega
  cases message with
  | transferRequest manifest =>
    show manifest.Sized
    refine TransferManifest.sized_of_lt ?_
    rw [serialize, List.length_append] at hlt
    omega
  | transferResponse response =>
    cases response with
    | accept => trivial
    | reject reason =>
      rw [length_serialize_reject] at hlt
      exact Nat.lt_of_le_of_lt (Nat.le_add_left _ _) hlt
    | resumeAt receivedChunks =>
      rw [length_serialize_resumeAt] at hlt
      exact Nat.lt_of_le_of_lt (Nat.le_add_left _ _) hlt
  | chunkData id data =>
    rw [length_serialize_chunkData] at hlt
    exact Nat.lt_of_le_of_lt (Nat.le_add_left _ _) hlt
  | transferVerified ok error =>
    rintro text rfl
    rw [length_serialize_transferVerified_some] at hlt
    exact Nat.lt_of_le_of_lt (Nat.le_add_left _ _) hlt
  | cancel reason =>
    have hlength : (cancel reason).serialize.length = 12 + (Bincode.utf8 reason).length := by
      simp [serialize]
      omega
    rw [hlength] at hlt
    exact Nat.lt_of_le_of_lt (Nat.le_add_left _ _) hlt
  | chunkAck ack => trivial
  | transferComplete manifestHash => trivial
  | progress bytesTransferred totalBytes => trivial
  | ping => trivial
  | pong => trivial

namespace ProtocolCodec

/-- `bincode::deserialize`, which ignores what follows the value; the text of its own
error is left out. -/
def deserialize (data : Bytes) : Except ProtocolError Message :=
  match (Message.format Serializer.bincode).decode data with
  | some (message, _) => .ok message
  | none => .error (.deserialization "" .none)

def recv (noise : Noise) : Task ProtocolCodec ProtocolError (Option Message) := do
  let data ← Task.zoom transport (fun transport codec => { codec with transport })
    (Task.mapErr (fun e => .deserialization "transport recv failed" (.network e))
      (SecureTransport.recv noise))
  match data with
  | none => pure none
  | some data =>
    match deserialize data with
    | .ok message => pure (some message)
    | .error e => Task.fail e

theorem deserialize_serialize {message : Message} (h : message.Fits) :
    deserialize message.serialize = .ok message := by
  have hread := (Message.format Serializer.bincode).decode_encode []
    (Message.fits Serializer.bincode (Message.sized_of_fits h))
  rw [Message.encode_eq, List.append_nil] at hread
  rw [deserialize, hread]

/-- What `send` does to the transport: a message that fits is sealed under the next
count, and its frame is written unless the write fails. -/
theorem transport_send (noise : Noise) (message : Message) (codec : ProtocolCodec) :
    (send noise message codec).2.transport =
      if message.Fits then
        { codec.transport with
          session := { codec.transport.session with
            sendNonce := codec.transport.session.sendNonce + 1 }
          written := codec.transport.written ++ if codec.transport.writeFault then [] else
            frame (noise.sealWith codec.transport.session.sendNonce message.serialize) }
      else codec.transport := by
  by_cases hfit : message.Fits
  · have henc := NoiseSession.encrypt_of_le noise codec.transport.session hfit
    cases hfault : codec.transport.writeFault <;>
      simp [send, Task.zoom, Task.mapErr, SecureTransport.send, henc, hfault, hfit, bind]
  · rw [send_of_not_fits noise codec hfit, if_neg hfit]

theorem recv_transport (noise : Noise) (codec : ProtocolCodec) :
    (recv noise codec).2 =
      { codec with transport := (SecureTransport.recv noise codec.transport).2 } := by
  unfold recv
  rcases hrecv : SecureTransport.recv noise codec.transport with ⟨data | e | _, transport'⟩
  · cases data with
    | none => simp [Task.zoom, Task.mapErr, hrecv, bind]
    | some data =>
      cases hdata : deserialize data <;> simp [Task.zoom, Task.mapErr, hrecv, bind, hdata]
  · simp [Task.zoom, Task.mapErr, hrecv, bind]
  · simp [Task.zoom, Task.mapErr, hrecv, bind]

/-- What a caller of `recv` gets for what the transport hands out. -/
theorem recv_outcome (noise : Noise) (codec : ProtocolCodec) :
    (recv noise codec).1 =
      match (SecureTransport.recv noise codec.transport).1 with
      | .ok none => .ok none
      | .ok (some data) =>
        match deserialize data with
        | .ok message => .ok (some message)
        | .error e => .err e
      | .err e => .err (.deserialization "transport recv failed" (.network e))
      | .panic => .panic := by
  unfold recv
  rcases hrecv : SecureTransport.recv noise codec.transport with ⟨data | e | _, transport'⟩
  · cases data with
    | none => simp [Task.zoom, Task.mapErr, hrecv, bind]
    | some data =>
      cases hdata : deserialize data <;> simp [Task.zoom, Task.mapErr, hrecv, bind, hdata]
  · simp [Task.zoom, Task.mapErr, hrecv, bind]
  · simp [Task.zoom, Task.mapErr, hrecv, bind]

end ProtocolCodec

/-! ### Conversations -/

inductive Side where
  | initiator
  | responder
  deriving DecidableEq, Repr

def Side.other : Side → Side
  | .initiator => .responder
  | .responder => .initiator

@[simp] theorem Side.other_other (side : Side) : side.other.other = side := by
  cases side <;> rfl

theorem Side.other_ne (side : Side) : side.other ≠ side := by
  cases side <;> decide

/-- One end of the connection. `sealed` lists the ciphertexts its session has made,
`network` the bytes that have been handed to it and `outcomes` what its calls of `recv`
have returned. -/
structure Endpoint where
  codec : ProtocolCodec
  sealed : List Bytes
  network : Bytes
  outcomes : List (Outcome ProtocolError (Option Message))

namespace Endpoint

/-- An end as the handshake leaves it. -/
def new (remoteStatic : PublicKey) : Endpoint where
  codec := ProtocolCodec.new (SecureTransport.new ⟨0, 0, remoteStatic⟩ [])
  sealed := []
  network := []
  outcomes := []

/-- The messages that `send` has sealed. -/
def posted (endpoint : Endpoint) : List Message :=
  endpoint.codec.attempted.filter fun message => message.Fits

/-- The message that a call of `recv` has handed out. -/
def handedOut : Outcome ProtocolError (Option Message) → Option Message
  | .ok message => message
  | _ => none

def received (endpoint : Endpoint) : List Message := endpoint.outcomes.filterMap handedOut

def send (noise : Noise) (message : Message) (endpoint : Endpoint) : Endpoint :=
  { endpoint with
    codec := (ProtocolCodec.send noise message endpoint.codec).2
    sealed := endpoint.sealed ++
      match endpoint.codec.transport.session.encrypt noise message.serialize with
      | .ok (ciphertext, _) => [ciphertext]
      | .error _ => [] }

def recv (noise : Noise) (endpoint : Endpoint) : Endpoint :=
  { endpoint with
    codec := (ProtocolCodec.recv noise endpoint.codec).2
    outcomes := endpoint.outcomes ++ [(ProtocolCodec.recv noise endpoint.codec).1] }

/-- The next read returns `part`. A read of nothing is the end of the stream. -/
def deliver (part : Bytes) (endpoint : Endpoint) : Endpoint :=
  { endpoint with
    codec := { endpoint.codec with
      transport := { endpoint.codec.transport with
        reads := endpoint.codec.transport.reads ++ [part] } }
    network := endpoint.network ++ part }

/-- Whether the coming writes fail. -/
def writeFault (fault : Bool) (endpoint : Endpoint) : Endpoint :=
  { endpoint with codec := endpoint.codec.withWriteFault fault }

end Endpoint

/-- What happens at an end of the connection. -/
inductive ChannelCall where
  | send (message : Message)
  | recv
  | deliver (part : Bytes)
  | writeFault (fault : Bool)

/-- `noise` is the cipher the end seals with, `other` the one it opens with. -/
def Endpoint.step (noise other : Noise) (endpoint : Endpoint) : ChannelCall → Endpoint
  | .send message => endpoint.send noise message
  | .recv => endpoint.recv other
  | .deliver part => endpoint.deliver part
  | .writeFault fault => endpoint.writeFault fault

/-- Both ends. Each direction has a cipher of its own, named by the side that seals. -/
abbrev Conversation := Side → Endpoint

namespace Conversation

def start (remoteStatic : Side → PublicKey) : Conversation :=
  fun side => Endpoint.new (remoteStatic side)

def step (noise : Side → Noise) (conversation : Conversation) (call : Side × ChannelCall) :
    Conversation :=
  Function.update conversation call.1
    ((conversation call.1).step (noise call.1) (noise call.1.other) call.2)

/-- The runs of two ends, in any order of their calls and of what the network does. -/
abbrev Runs (noise : Side → Noise) :
    Conversation → List (Conversation × (Side × ChannelCall)) → Conversation → Prop :=
  Run fun conversation call conversation' => conversation' = step noise conversation call

/-- Nothing forged: of the bytes an end has been handed, what opens under its next count
is what the other end has sealed under that count. -/
def Unforged (noise : Side → Noise) (conversation : Conversation) (side : Side) : Prop :=
  ∀ ciphertext, ciphertext <:+: (conversation side).network →
    ((noise side.other).openWith (conversation side).codec.transport.session.recvNonce
      ciphertext).isSome →
    (conversation side.other).sealed[(conversation side).codec.transport.session.recvNonce]? =
      some ciphertext

end Conversation

/-! ### What an end has sealed -/

namespace Endpoint
variable {noise : Noise} {endpoint : Endpoint}

/-- The ciphertexts are the posted messages, numbered from zero. -/
structure Numbered (noise : Noise) (endpoint : Endpoint) : Prop where
  sendNonce : endpoint.codec.transport.session.sendNonce = endpoint.posted.length
  sealed : endpoint.sealed =
    endpoint.posted.mapIdx fun n message => noise.sealWith n message.serialize

theorem numbered_new (noise : Noise) (remoteStatic : PublicKey) :
    (new remoteStatic).Numbered noise := ⟨rfl, rfl⟩

theorem posted_send (noise : Noise) (message : Message) (endpoint : Endpoint) :
    (endpoint.send noise message).posted =
      endpoint.posted ++ if message.Fits then [message] else [] := by
  rw [posted, send, ProtocolCodec.attempted_send, List.filter_append]
  by_cases hfit : message.Fits <;> simp [posted, hfit]

/-- Sealing one more message appends it under the next number. -/
theorem Numbered.send (h : endpoint.Numbered noise) (message : Message) :
    (endpoint.send noise message).Numbered noise := by
  have htransport := ProtocolCodec.transport_send noise message endpoint.codec
  have hposted := posted_send noise message endpoint
  by_cases hfit : message.Fits
  · rw [if_pos hfit] at htransport hposted
    have henc := NoiseSession.encrypt_of_le noise endpoint.codec.transport.session hfit
    constructor
    · rw [hposted, List.length_append, List.length_singleton, ← h.sendNonce]
      exact congrArg (·.session.sendNonce) htransport
    · rw [hposted, List.mapIdx_append, List.mapIdx_singleton, Nat.zero_add, ← h.sealed,
        ← h.sendNonce]
      simp only [Endpoint.send, henc]
  · rw [if_neg hfit] at htransport hposted
    have henc := NoiseSession.encrypt_of_lt noise endpoint.codec.transport.session
      (not_le.mp hfit)
    constructor
    · rw [hposted, List.append_nil, ← h.sendNonce]
      exact congrArg (·.session.sendNonce) htransport
    · rw [hposted, List.append_nil, ← h.sealed]
      simp only [Endpoint.send, henc, List.append_nil]

@[simp] theorem posted_recv (noise : Noise) (endpoint : Endpoint) :
    (endpoint.recv noise).posted = endpoint.posted := by
  rw [posted, recv, ProtocolCodec.recv_transport]
  rfl

/-- Receiving, with the other cipher, seals nothing. -/
theorem Numbered.recv (h : endpoint.Numbered noise) (other : Noise) :
    (endpoint.recv other).Numbered noise := by
  refine ⟨?_, ?_⟩
  · rw [posted_recv, ← h.sendNonce, Endpoint.recv, ProtocolCodec.recv_transport]
    exact (SecureTransport.received_recv other endpoint.codec.transport).1.sendNonce
  · rw [posted_recv, ← h.sealed]
    rfl

theorem received_recv (noise : Noise) (endpoint : Endpoint) :
    (endpoint.recv noise).received = endpoint.received ++
      (handedOut (ProtocolCodec.recv noise endpoint.codec).1).toList := by
  rw [received, recv, List.filterMap_append, ← received]
  cases hout : handedOut (ProtocolCodec.recv noise endpoint.codec).1 <;> simp [hout]

theorem Numbered.getElem? (h : endpoint.Numbered noise) {n : ℕ} {ciphertext : Bytes}
    (hn : endpoint.sealed[n]? = some ciphertext) :
    ∃ message, endpoint.posted[n]? = some message ∧
      noise.sealWith n message.serialize = ciphertext := by
  rw [h.sealed, List.getElem?_mapIdx, Option.map_eq_some_iff] at hn
  exact hn

theorem fits_of_posted {endpoint : Endpoint} {n : ℕ} {message : Message}
    (h : endpoint.posted[n]? = some message) : message.Fits := by
  have hmem := List.mem_of_getElem? h
  simpa using (List.mem_filter.mp hmem).2

theorem Numbered.step (h : endpoint.Numbered noise) (other : Noise) (call : ChannelCall) :
    (endpoint.step noise other call).Numbered noise := by
  cases call with
  | send message => exact h.send message
  | recv => exact h.recv other
  | deliver part => exact ⟨h.sendNonce, h.sealed⟩
  | writeFault fault => exact ⟨h.sendNonce, h.sealed⟩

/-- No call takes back what has been posted. -/
theorem posted_step (noise other : Noise) (call : ChannelCall) (endpoint : Endpoint) :
    endpoint.posted <+: (endpoint.step noise other call).posted := by
  cases call with
  | send message => exact ⟨_, (posted_send noise message endpoint).symm⟩
  | recv => exact (posted_recv other endpoint) ▸ List.prefix_refl _
  | deliver part => exact List.prefix_refl _
  | writeFault fault => exact List.prefix_refl _

end Endpoint

/-! ### What an end hears -/

/-- The messages handed out at one end are the first ones that the other end has posted;
its calls of `recv` fail only where the transport does. -/
structure Hears (sender receiver : Endpoint) : Prop where
  recvNonce : receiver.codec.transport.session.recvNonce = receiver.received.length
  inOrder : receiver.received <+: sender.posted
  unread : receiver.codec.transport.unread <:+ receiver.network
  failures : ∀ e, .err e ∈ receiver.outcomes →
    ∃ source, e = .deserialization "transport recv failed" (.network source)

namespace Hears
variable {noise other : Noise} {sender receiver : Endpoint}

theorem start (sent received : PublicKey) : Hears (Endpoint.new sent) (Endpoint.new received) :=
  ⟨rfl, List.prefix_refl _, List.suffix_refl _, fun _ h => absurd h List.not_mem_nil⟩

/-- Posting more changes nothing of what has been heard. -/
theorem sender_step (h : Hears sender receiver) (noise other : Noise) (call : ChannelCall) :
    Hears (sender.step noise other call) receiver :=
  { h with inOrder := h.inOrder.trans (Endpoint.posted_step noise other call sender) }

/-- The next message in order is heard. -/
theorem concat {l m : List Message} {message : Message} (h : l <+: m)
    (hnext : m[l.length]? = some message) : l ++ [message] <+: m := by
  obtain ⟨rest, rfl⟩ := h
  rw [List.getElem?_append_right (Nat.le_refl _), Nat.sub_self] at hnext
  cases rest with
  | nil => simp at hnext
  | cons next rest =>
    obtain rfl : next = message := by simpa using hnext
    exact ⟨rest, by simp⟩

/-- A call of `recv` hands out the next posted message or none. -/
theorem recv (h : Hears sender receiver)
    (hnext : ∀ plaintext,
      (SecureTransport.recv noise receiver.codec.transport).1 = .ok (some plaintext) →
      ∃ message, sender.posted[receiver.received.length]? = some message ∧
        message.serialize = plaintext) :
    Hears sender (receiver.recv noise) := by
  obtain ⟨hreceived, hread⟩ := SecureTransport.received_recv noise receiver.codec.transport
  have houtcome := ProtocolCodec.recv_outcome noise receiver.codec
  have hcodec := ProtocolCodec.recv_transport noise receiver.codec
  have hnetwork : (receiver.recv noise).codec.transport.unread <:+ receiver.network := by
    rw [Endpoint.recv, hcodec]
    exact hread.unread.trans h.unread
  have hnonce : (receiver.recv noise).codec.transport.session =
      (SecureTransport.recv noise receiver.codec.transport).2.session := by
    rw [Endpoint.recv, hcodec]
  have hlog := Endpoint.received_recv noise receiver
  generalize (SecureTransport.recv noise receiver.codec.transport).2 = transport' at *
  generalize (SecureTransport.recv noise receiver.codec.transport).1 = outcome at *
  have hfailures : ∀ outcome', (ProtocolCodec.recv noise receiver.codec).1 = outcome' →
      (∀ e, outcome' = .err e →
        ∃ source, e = .deserialization "transport recv failed" (.network source)) →
      ∀ e, .err e ∈ (receiver.recv noise).outcomes →
        ∃ source, e = .deserialization "transport recv failed" (.network source) := by
    rintro _ rfl hlast e he
    rcases List.mem_append.mp he with he | he
    · exact h.failures e he
    · exact hlast e (List.mem_singleton.mp he).symm
  cases hreceived with
  | @opened ciphertext plaintext part opens session =>
    obtain ⟨message, hposted, rfl⟩ := hnext plaintext rfl
    have hmessageOutcome : (ProtocolCodec.recv noise receiver.codec).1 = .ok (some message) := by
      rw [houtcome]
      simp only [ProtocolCodec.deserialize_serialize (Endpoint.fits_of_posted hposted)]
    rw [hmessageOutcome] at hlog
    refine ⟨?_, ?_, hnetwork, hfailures _ hmessageOutcome (by simp)⟩
    · rw [hnonce, session, hlog, h.recvNonce, List.length_append]
      rfl
    · rw [hlog]
      exact concat h.inOrder hposted
  | closed session kept =>
    have hnone : (ProtocolCodec.recv noise receiver.codec).1 = .ok none := houtcome
    rw [hnone] at hlog
    have hsame : (receiver.recv noise).received = receiver.received :=
      hlog.trans (List.append_nil _)
    exact ⟨by rw [hnonce, session, hsame, h.recvNonce], by rw [hsame]; exact h.inOrder, hnetwork,
      hfailures _ hnone (by simp)⟩
  | @failed e session kept =>
    have herr : (ProtocolCodec.recv noise receiver.codec).1 =
      .err (.deserialization "transport recv failed" (.network e)) := houtcome
    rw [herr] at hlog
    have hsame : (receiver.recv noise).received = receiver.received :=
      hlog.trans (List.append_nil _)
    refine ⟨by rw [hnonce, session, hsame, h.recvNonce], by rw [hsame]; exact h.inOrder, hnetwork,
      hfailures _ herr ?_⟩
    rintro e' he
    exact ⟨_, (Outcome.err.inj he).symm⟩

/-- What opens under the next count is the next posted message when nothing is forged. -/
theorem next_of_unforged (h : Hears sender receiver) (hsender : sender.Numbered noise)
    (hunforged : ∀ ciphertext, ciphertext <:+: receiver.network →
      (noise.openWith receiver.codec.transport.session.recvNonce ciphertext).isSome →
      sender.sealed[receiver.codec.transport.session.recvNonce]? = some ciphertext)
    (plaintext : Bytes)
    (hrecv : (SecureTransport.recv noise receiver.codec.transport).1 = .ok (some plaintext)) :
    ∃ message, sender.posted[receiver.received.length]? = some message ∧
      message.serialize = plaintext := by
  have hreceived := (SecureTransport.received_recv noise receiver.codec.transport).1
  rw [hrecv] at hreceived
  cases hreceived with
  | @opened ciphertext plaintext part opens session =>
    have hsealed := hunforged _ (part.trans h.unread.isInfix) (by rw [opens]; rfl)
    obtain ⟨message, hposted, hmessage⟩ := hsender.getElem? hsealed
    rw [← hmessage, noise.openWith_sealWith] at opens
    exact ⟨message, h.recvNonce ▸ hposted, Option.some.inj opens⟩

/-- What the receiving end does besides `recv` is not heard. -/
theorem receiver_step (h : Hears sender receiver) (noise other : Noise) (call : ChannelCall)
    (hnext : call = .recv → ∀ plaintext,
      (SecureTransport.recv other receiver.codec.transport).1 = .ok (some plaintext) →
      ∃ message, sender.posted[receiver.received.length]? = some message ∧
        message.serialize = plaintext) :
    Hears sender (receiver.step noise other call) := by
  cases call with
  | recv => exact h.recv (hnext rfl)
  | send message =>
    have htransport := ProtocolCodec.transport_send noise message receiver.codec
    have hsession : (receiver.send noise message).codec.transport.session.recvNonce =
        receiver.codec.transport.session.recvNonce := by
      rw [Endpoint.send, htransport]
      split_ifs <;> rfl
    have hunread : (receiver.send noise message).codec.transport.unread =
        receiver.codec.transport.unread := by
      rw [Endpoint.send, htransport]
      split_ifs <;> rfl
    exact ⟨hsession.trans h.recvNonce, h.inOrder, hunread ▸ h.unread, h.failures⟩
  | deliver part =>
    refine ⟨h.recvNonce, h.inOrder, ?_, h.failures⟩
    have hunread : (receiver.deliver part).codec.transport.unread =
        receiver.codec.transport.unread ++ part := by
      simp [Endpoint.deliver, SecureTransport.unread]
    obtain ⟨front, hfront⟩ := h.unread
    exact ⟨front, by
      show front ++ (receiver.deliver part).codec.transport.unread = receiver.network ++ part
      rw [hunread, ← hfront, List.append_assoc]⟩
  | writeFault fault => exact ⟨h.recvNonce, h.inOrder, h.unread, h.failures⟩

end Hears

/-! ### Runs under an active network -/

namespace Conversation
variable {noise : Side → Noise} {conversation final : Conversation}
  {taken : List (Conversation × (Side × ChannelCall))}

@[simp] theorem step_self (side : Side) (call : ChannelCall) :
    step noise conversation (side, call) side =
      (conversation side).step (noise side) (noise side.other) call := by
  simp [step]

@[simp] theorem step_other (side : Side) (call : ChannelCall) :
    step noise conversation (side, call) side.other = conversation side.other := by
  simp [step, Function.update_of_ne side.other_ne]

/-- Both ends number what they seal, and each hears the other. -/
def InOrder (noise : Side → Noise) (conversation : Conversation) : Prop :=
  ∀ side, (conversation side).Numbered (noise side) ∧
    Hears (conversation side.other) (conversation side)

theorem inOrder_start (noise : Side → Noise) (remoteStatic : Side → PublicKey) :
    InOrder noise (start remoteStatic) :=
  fun side => ⟨Endpoint.numbered_new (noise side) _, Hears.start _ _⟩

theorem InOrder.step (h : InOrder noise conversation) (call : Side × ChannelCall)
    (hunforged : call.2 = .recv → Unforged noise conversation call.1) :
    InOrder noise (step noise conversation call) := by
  obtain ⟨side, call⟩ := call
  have hself := h side
  have hother := h side.other
  rw [side.other_other] at hother
  intro side'
  by_cases hside : side' = side
  · subst hside
    rw [step_self, step_other]
    exact ⟨hself.1.step _ call, hself.2.receiver_step _ _ call fun hcall =>
      hself.2.next_of_unforged hother.1 (hunforged hcall)⟩
  · obtain rfl : side' = side.other := by
      cases side <;> cases side' <;> first | rfl | exact absurd rfl hside
    rw [step_other, side.other_other, step_self]
    exact ⟨hother.1, hother.2.sender_step _ _ call⟩

/-- Whatever the network does short of forging a ciphertext, the messages handed out at
either end are at all times the first messages that the other end has posted, in order and
without repetition, and no call of `recv` meets a message it cannot read. -/
theorem received_prefix_posted (noise : Side → Noise) (remoteStatic : Side → PublicKey)
    (run : Runs noise (start remoteStatic) taken final)
    (hunforged : ∀ t ∈ taken, t.2.2 = .recv → Unforged noise t.1 t.2.1) :
    Run.Always (fun conversation : Conversation => ∀ side,
      (conversation side).received <+: (conversation side.other).posted ∧
        ∀ e, .err e ∈ (conversation side).outcomes →
          ∃ source, e = .deserialization "transport recv failed" (.network source)) taken final := by
  have halways := run.always_of (I := InOrder noise)
    (C := fun conversation call => call.2 = .recv → Unforged noise conversation call.1)
    (inOrder_start noise remoteStatic) (fun _ call _ h hC hstep => hstep ▸ h.step call hC)
    hunforged
  have hread : ∀ conversation, InOrder noise conversation → ∀ side,
      (conversation side).received <+: (conversation side.other).posted ∧
        ∀ e, .err e ∈ (conversation side).outcomes →
          ∃ source, e = .deserialization "transport recv failed" (.network source) :=
    fun _ h side => ⟨(h side).2.inOrder, (h side).2.failures⟩
  exact ⟨fun t ht => hread _ (halways.1 t ht), hread _ halways.2⟩

/-- A ping is sent, and the network hands its frame over twice. -/
def replay : List (Side × ChannelCall) :=
  [(.initiator, .send .ping),
    (.responder, .deliver (frame (Noise.labelled.sealWith 0 Message.ping.serialize) ++
      frame (Noise.labelled.sealWith 0 Message.ping.serialize))),
    (.responder, .recv), (.responder, .recv)]

def replayed (n : ℕ) : Conversation :=
  (replay.take n).foldl (step fun _ => Noise.labelled) (start fun _ => Vector.replicate 32 0)

theorem runs_replay : Runs (fun _ => Noise.labelled) (start fun _ => Vector.replicate 32 0)
    (replay.mapIdx fun n call => (replayed n, call)) (replayed 4) :=
  .snoc (.snoc (.snoc (.snoc .refl rfl) rfl) rfl) rfl

/-- Whether no part of the bytes that were handed over is forged can be computed. -/
def unforgedParts (noise : Noise) (n : ℕ) (network : Bytes) (sealed : Option Bytes) : Bool :=
  network.tails.all fun t => t.inits.all fun ciphertext =>
    (noise.openWith n ciphertext).isNone || sealed == some ciphertext

theorem unforged_of_parts {noise : Side → Noise} {conversation : Conversation} {side : Side}
    (h : unforgedParts (noise side.other)
      (conversation side).codec.transport.session.recvNonce (conversation side).network
      ((conversation side.other).sealed[
        (conversation side).codec.transport.session.recvNonce]?) = true) :
    Unforged noise conversation side := by
  intro ciphertext hpart hopens
  obtain ⟨t, hprefix, hsuffix⟩ := List.infix_iff_prefix_suffix.mp hpart
  have hone := List.all_eq_true.mp (List.all_eq_true.mp h t ((List.mem_tails _ _).mpr hsuffix))
    ciphertext ((List.mem_inits _ _).mpr hprefix)
  rw [Bool.or_eq_true, Option.isNone_iff_eq_none, beq_iff_eq] at hone
  rcases hone with hnone | hsealed
  · rw [hnone] at hopens
    simp at hopens
  · exact hsealed

/-- The repetition is not handed out. -/
theorem received_prefix_posted_replay :
    (replayed 4 .responder).received <+: (replayed 4 .initiator).posted ∧
      (replayed 4 .responder).outcomes.length = 2 := by
  refine ⟨?_, by decide +kernel⟩
  refine ((received_prefix_posted _ _ runs_replay fun t ht hrecv => ?_).2 .responder).1
  simp only [replay, List.mapIdx_cons, List.mapIdx_nil, List.mem_cons, List.not_mem_nil,
    or_false] at ht
  rcases ht with rfl | rfl | rfl | rfl
  · simp at hrecv
  · simp at hrecv
  · exact unforged_of_parts (by decide +kernel)
  · exact unforged_of_parts (by decide +kernel)

end Conversation
end JustDrop

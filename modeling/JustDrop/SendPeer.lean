import JustDrop.SendRun

/-!
# Whom the sender talks to

The sender offers its files to whoever completes the handshake. It keeps to the
device it was asked to reach exactly when that device answered, or when the
offer cannot be sent at all.
-/
namespace JustDrop

/-- A message that releases file data or its description. -/
def Message.Releases : Message → Prop
  | .transferRequest _ => True
  | .chunkData _ _ => True
  | _ => False

instance (message : Message) : Decidable message.Releases := by
  cases message <;> unfold Message.Releases <;> infer_instance

namespace SendWorld

/-- A message that fits is written unless the write fails, whatever is received after it. -/
theorem exchange_sent {noise : Noise} {turn : SendTurn} {message : Message} (hfit : message.Fits)
    (hfault : turn.sendFault = false) (world : SendWorld) :
    (exchange noise turn message world).2.codec.sent = world.codec.sent ++ [message] := by
  obtain ⟨codec, hsend, -, -, hsent⟩ := ProtocolCodec.send_of_fits noise
    (world.codec.withWriteFault turn.sendFault) hfit hfault
  rw [exchange_snd, hsend]
  exact hsent

/-- A message that does not fit, or whose write fails, ends the exchange. -/
theorem exchange_unsent (noise : Noise) {turn : SendTurn} {message : Message}
    (h : ¬message.Fits ∨ turn.sendFault = true) (world : SendWorld) :
    (∃ e, (exchange noise turn message world).1 = .err e) ∧
      (exchange noise turn message world).2.codec.sent = world.codec.sent := by
  rw [exchange_snd]
  by_cases hfit : message.Fits
  · obtain ⟨codec, hsend, -, hsent⟩ := ProtocolCodec.send_of_fault noise
      (world.codec.withWriteFault turn.sendFault) hfit (h.resolve_left (not_not_intro hfit))
    exact ⟨⟨_, exchange_of_err (congrArg Prod.fst hsend)⟩, by rw [hsend]; exact hsent⟩
  · have hsend := ProtocolCodec.send_of_not_fits noise
      (world.codec.withWriteFault turn.sendFault) hfit
    exact ⟨⟨_, exchange_of_err (congrArg Prod.fst hsend)⟩, by rw [hsend]; rfl⟩

/-- An exchange fails or hands on what was received. -/
theorem exchange_cases (noise : Noise) (turn : SendTurn) (message : Message)
    (world : SendWorld) :
    (∃ e, (exchange noise turn message world).1 = .err e) ∨
      ∃ reply, turn.recv = .ok reply ∧ (exchange noise turn message world).1 = .ok reply := by
  rcases (ProtocolCodec.send_cases noise message
    (world.codec.withWriteFault turn.sendFault)).2 with ⟨hok, -⟩ | ⟨⟨e, herr⟩, -⟩
  · rw [exchange_of_ok hok]
    cases hrecv : turn.recv with
    | error e => exact Or.inl ⟨e, rfl⟩
    | ok reply => exact Or.inr ⟨reply, rfl, rfl⟩
  · exact Or.inl ⟨_, exchange_of_err herr⟩

end SendWorld

namespace SendTransfer
open SendWorld

variable {sender : SendTransfer} {peer : DeviceInfo} {paths : List Path} {script : SendScript}
  {manifest : TransferManifest} {session : NoiseSession}

/-- Data is released to the peer's key only, and to another key nothing is sent. -/
def OnlyToPeer (blake2s : Bytes → Fingerprint) (peer : DeviceInfo) (remoteStatic : PublicKey)
    (run : Outcome ProtocolError TransferId × SendWorld) : Prop :=
  ((∃ m ∈ run.2.codec.sent, m.Releases) →
      computeFingerprint blake2s remoteStatic = peer.fingerprint) ∧
    (computeFingerprint blake2s remoteStatic ≠ peer.fingerprint →
      (∃ e, run.1 = .err e) ∧ run.2.codec.sent = [])

/-- The first exchange of a transfer. -/
def firstTurn (script : SendScript) : SendTurn := script.turns.headD .closed

theorem sendFiles_eq (hmanifest : sender.buildManifest script paths = .ok manifest)
    (hsession : sender.openSession peer script = .ok session) (world : SendWorld) :
    sendFiles sender peer paths script world = transfer sender script manifest paths { world with
      codec := ProtocolCodec.new (SecureTransport.new session []), turns := script.turns } := by
  simp only [sendFiles, hmanifest, hsession]

/-- The manifest is the first that has been written on the connection. -/
def Offered (manifest : TransferManifest) (codec : ProtocolCodec) : Prop :=
  [.transferRequest manifest] <+: codec.sent

theorem keeps_offered (noise : Noise) (message : Message) :
    Task.Keeps (Offered manifest) (ProtocolCodec.send noise message) := fun codec hoffered =>
  hoffered.trans (ProtocolCodec.sent_prefix_send noise message codec)

/-- What the first exchange starts from. -/
def connected (session : NoiseSession) (script : SendScript) (world : SendWorld) : SendWorld :=
  { world with
    codec := ProtocolCodec.new (SecureTransport.new session [])
    turns := script.turns.tail }

theorem negotiate_run (sender : SendTransfer) (script : SendScript)
    (manifest : TransferManifest) (session : NoiseSession) (world : SendWorld) :
    negotiate sender manifest { world with
        codec := ProtocolCodec.new (SecureTransport.new session []), turns := script.turns } =
      (exchange sender.noise (firstTurn script) (.transferRequest manifest) >>=
        skipChunks manifest) (connected session script world) := by
  have hturn : nextTurn { world with
        codec := ProtocolCodec.new (SecureTransport.new session []), turns := script.turns } =
      (.ok (firstTurn script), connected session script world) := rfl
  rw [negotiate, Task.bind_of_ok hturn]

/-- A response that neither accepts nor resumes ends the transfer. -/
theorem negotiate_refused (sender : SendTransfer) (manifest : TransferManifest)
    (session : NoiseSession) {reason : String} (world : SendWorld)
    (hrefused : ∀ reply, (firstTurn script).recv = .ok reply →
      reply = none ∨ reply = some (.transferResponse (.reject reason))) :
    ∃ e world', negotiate sender manifest { world with
        codec := ProtocolCodec.new (SecureTransport.new session []), turns := script.turns } =
      (.err e, world') := by
  rw [negotiate_run]
  rcases exchange_cases sender.noise (firstTurn script) (.transferRequest manifest)
    (connected session script world) with ⟨e, h⟩ | ⟨reply, hreply, h⟩
  · exact ⟨e, _, Task.bind_of_err (Prod.ext h rfl) _⟩
  · rw [Task.bind_of_ok (Prod.ext h rfl)]
    rcases hrefused reply hreply with rfl | rfl
    · exact ⟨_, _, rfl⟩
    · exact ⟨_, _, rfl⟩

theorem offered_of_fits (hmanifest : sender.buildManifest script paths = .ok manifest)
    (hsession : sender.openSession peer script = .ok session)
    (hfit : (Message.transferRequest manifest).Fits)
    (hfault : (firstTurn script).sendFault = false) (world : SendWorld) :
    Offered manifest (sendFiles sender peer paths script world).2.codec := by
  have hrest : ∀ skip, Task.Keeps (fun world : SendWorld => Offered manifest world.codec) (do
      streamFiles sender script manifest skip 0 (manifest.files.zip paths) 0
      finish sender script manifest) := fun skip =>
    Task.Keeps.bind (keeps_streamFiles (fun _ _ h => h) (fun _ _ _ _ _ => keeps_offered _ _) _ _)
      fun _ => keeps_finish (fun _ _ h => h) fun _ => keeps_offered _ _
  have hoffer : Offered manifest (exchange sender.noise (firstTurn script)
      (.transferRequest manifest) (connected session script world)).2.codec := by
    rw [Offered, exchange_sent hfit hfault]
    exact List.prefix_refl _
  have hnegotiated := Task.Keeps.after (I := fun world : SendWorld => Offered manifest world.codec)
    hoffer fun response => keeps_skipChunks manifest response
  rw [← negotiate_run] at hnegotiated
  rw [sendFiles_eq hmanifest hsession, transfer]
  exact Task.Keeps.after (I := fun world : SendWorld => Offered manifest world.codec)
    hnegotiated hrest

theorem sendFiles_unsent (hmanifest : sender.buildManifest script paths = .ok manifest)
    (hsession : sender.openSession peer script = .ok session)
    (h : ¬(Message.transferRequest manifest).Fits ∨ (firstTurn script).sendFault = true)
    (world : SendWorld) :
    (∃ e, (sendFiles sender peer paths script world).1 = .err e) ∧
      (sendFiles sender peer paths script world).2.codec.sent = [] := by
  obtain ⟨⟨e, herr⟩, hsent⟩ := exchange_unsent sender.noise h (connected session script world)
  have hnegotiate := (negotiate_run sender script manifest session world).trans
    (Task.bind_of_err (Prod.ext herr rfl) _)
  rw [sendFiles_eq hmanifest hsession, transfer, Task.bind_of_err hnegotiate]
  exact ⟨⟨e, rfl⟩, hsent⟩

/-! ### A small sender -/

/-- A sender with the default configuration. -/
def plainSender : SendTransfer where
  config := Config.default
  privateKey := []
  hostname := "sender"
  platform := .linux
  host := { usizeBits := 64, wants := fun _ => 1, sha256 := sumHash }
  snow := Snow.plain
  noise := Noise.plain

/-- Every file has these bytes, and a responder with this static key answers the handshake. -/
def plainScript (file : Bytes) (remoteStatic : PublicKey) (turns : List SendTurn) :
    SendScript where
  metadata _ := some (UInt64.ofNat file.length)
  hashed _ := some file
  streamed _ := some file
  transferId := Vector.replicate 16 7
  connect _ := some { incoming := frame remoteStatic.toList, written := [], writeFaults := [] }
  turns := turns
  shutdownFault := false

def plainPeer (fingerprint : Fingerprint) : DeviceInfo where
  id := "peer"
  name := "peer"
  addr := "10.0.0.2:42420"
  fingerprint := fingerprint
  platform := .linux

def peerKey : PublicKey := Vector.replicate 32 5

/-- The files of one run to a peer with a fingerprint, answered under a key. -/
def sendTo (fingerprint : Fingerprint) (remoteStatic : PublicKey) :
    Outcome ProtocolError TransferId × SendWorld :=
  sendFiles plainSender (plainPeer fingerprint) [Path.ofString "/tmp/a.txt"]
    (plainScript [1, 2, 3] remoteStatic []) idle

/-! ### The peer's key -/

/-- Once a responder has completed the handshake, the sender keeps to its peer
exactly when the responder's key is the peer's, or the offer cannot be sent. -/
theorem onlyToPeer_iff (blake2s : Bytes → Fingerprint) (session : NoiseSession)
    (world : SendWorld)
    (hmanifest : sender.buildManifest script paths = .ok manifest)
    (hsession : sender.openSession peer script = .ok session) :
    OnlyToPeer blake2s peer session.remoteStatic (sendFiles sender peer paths script world) ↔
      computeFingerprint blake2s session.remoteStatic = peer.fingerprint ∨
        ¬(Message.transferRequest manifest).Fits ∨ (firstTurn script).sendFault = true := by
  constructor
  · intro honly
    by_cases hfit : (Message.transferRequest manifest).Fits
    · cases hfault : (firstTurn script).sendFault with
      | true => exact Or.inr (Or.inr rfl)
      | false =>
        have hoffered := offered_of_fits hmanifest hsession hfit hfault world
        exact Or.inl (honly.1 ⟨_, hoffered.subset (List.mem_singleton_self _), trivial⟩)
    · exact Or.inr (Or.inl hfit)
  · rintro (hpeer | hunsent)
    · exact ⟨fun _ => hpeer, fun hne => absurd hpeer hne⟩
    · have h := sendFiles_unsent hmanifest hsession hunsent world
      exact ⟨fun ⟨m, hm, _⟩ => absurd hm (by simp [h.2]), fun _ => h⟩

/-- The peer itself answers, and is offered the file. -/
theorem onlyToPeer_own_key :
    OnlyToPeer sumHash (plainPeer (sumHash peerKey.toList)) peerKey
        (sendTo (sumHash peerKey.toList) peerKey) ∧
      ∃ m ∈ (sendTo (sumHash peerKey.toList) peerKey).2.codec.sent, m.Releases :=
  ⟨(onlyToPeer_iff sumHash ⟨0, 0, peerKey⟩ idle rfl (by decide +kernel)).mpr
    (Or.inl rfl), by decide +kernel⟩

/-- Somebody else answers, and is offered the file. -/
theorem not_onlyToPeer_other_key :
    ¬OnlyToPeer sumHash (plainPeer (sumHash [1])) peerKey (sendTo (sumHash [1]) peerKey) := by
  intro honly
  have hsent : ∃ m ∈ (sendTo (sumHash [1]) peerKey).2.codec.sent, m.Releases := by decide +kernel
  exact absurd (honly.1 hsent) (by decide +kernel)

end SendTransfer
end JustDrop

import JustDrop.Send

/-!
# What the steps of a send keep

Predicates on the connection that every step of a transfer keeps, and what the
first steps of a transfer have done.
-/
namespace JustDrop

/-- A chunk is at most as long as a chunk and as the file. -/
theorem FileChunker.length_readChunk_le {host : ReadHost} {chunker : FileChunker} {file : Bytes}
    {chunkOffset : ℕ} {chunk : ReadChunk}
    (h : chunker.readChunk host file chunkOffset = some chunk) :
    chunk.data.length ≤ min chunker.chunkSize file.length := by
  obtain ⟨-, -, rfl⟩ := readChunk_eq_some.mp h
  simp only [readSize, List.length_take, List.length_drop]
  omega

namespace SendWorld
variable {J : ProtocolCodec → Prop}

theorem keeps_emit (event : TransferEvent) :
    Task.Keeps (fun world => J world.codec) (emit event) := fun _ h => h

theorem keeps_warn (text : String) : Task.Keeps (fun world => J world.codec) (warn text) :=
  fun _ h => h

theorem keeps_nextTurn : Task.Keeps (fun world => J world.codec) nextTurn := fun _ h => h

theorem keeps_exchange (hfault : ∀ b codec, J codec → J (codec.withWriteFault b)) {noise : Noise}
    {message : Message} (hsend : Task.Keeps J (ProtocolCodec.send noise message))
    (turn : SendTurn) : Task.Keeps (fun world => J world.codec) (exchange noise turn message) := by
  refine Task.Keeps.bind (Task.Keeps.modify fun world h => hfault _ _ h) fun _ => ?_
  refine Task.Keeps.bind (Task.Keeps.zoom hsend (fun _ h => h) fun _ _ _ h => h) fun _ => ?_
  split
  · exact Task.Keeps.fail _
  · exact Task.Keeps.pure _

/-- An exchange leaves what the send of its message leaves. -/
theorem exchange_snd (noise : Noise) (turn : SendTurn) (message : Message) (world : SendWorld) :
    (exchange noise turn message world).2 = { world with
      codec := (ProtocolCodec.send noise message
        (world.codec.withWriteFault turn.sendFault)).2 } := by
  unfold exchange
  rcases hsend : ProtocolCodec.send noise message (world.codec.withWriteFault turn.sendFault)
    with ⟨_ | e | _, codec⟩
  · cases hrecv : turn.recv <;> simp [bind, Task.zoom, Task.modify, hsend]
  · simp [bind, Task.zoom, Task.modify, hsend]
  · simp [bind, Task.zoom, Task.modify, hsend]

/-- An exchange keeps what does not depend on the connection. -/
theorem keeps_exchange_of {I : SendWorld → Prop}
    (hcodec : ∀ world codec, I world → I { world with codec }) (noise : Noise) (turn : SendTurn)
    (message : Message) : Task.Keeps I (exchange noise turn message) := by
  intro world h
  rw [exchange_snd]
  exact hcodec world _ h

theorem exchange_of_ok {noise : Noise} {turn : SendTurn} {message : Message} {world : SendWorld}
    (hsend : (ProtocolCodec.send noise message
      (world.codec.withWriteFault turn.sendFault)).1 = .ok ()) :
    (exchange noise turn message world).1 = match turn.recv with
      | .error e => .err e
      | .ok reply => .ok reply := by
  unfold exchange
  cases hrecv : turn.recv <;> simp [bind, Task.zoom, Task.modify, hsend]

theorem exchange_of_err {noise : Noise} {turn : SendTurn} {message : Message} {world : SendWorld}
    {e : ProtocolError} (hsend : (ProtocolCodec.send noise message
      (world.codec.withWriteFault turn.sendFault)).1 = .err e) :
    (exchange noise turn message world).1 = .err e := by
  unfold exchange
  simp [bind, Task.zoom, Task.modify, hsend]

end SendWorld

namespace SendTransfer
open SendWorld

variable {sender : SendTransfer} {script : SendScript} {manifest : TransferManifest}
  {J : ProtocolCodec → Prop}

/-- Reading the response changes nothing. -/
theorem keeps_skipChunks {I : SendWorld → Prop} (manifest : TransferManifest)
    (response : Option Message) : Task.Keeps I (skipChunks manifest response) := by
  unfold skipChunks
  split
  · exact Task.Keeps.pure _
  · exact Task.Keeps.bind (Task.Keeps.ofChecked _) fun _ => Task.Keeps.pure _
  · exact Task.Keeps.fail _
  · exact Task.Keeps.fail _

/-- An acknowledgement is at most a reason to warn. -/
theorem keeps_awaitAck_of {I : SendWorld → Prop}
    (hwarnings : ∀ world warnings, I world → I { world with warnings })
    (sha256 : Sha256Hash) (reply : Option Message) : Task.Keeps I (awaitAck sha256 reply) := by
  unfold awaitAck
  split
  · exact Task.Keeps.when _ fun world h => hwarnings world _ h
  · exact Task.Keeps.fail _
  · exact Task.Keeps.fail _

theorem keeps_awaitAck (sha256 : Sha256Hash) (reply : Option Message) :
    Task.Keeps (fun world => J world.codec) (awaitAck sha256 reply) :=
  keeps_awaitAck_of (fun _ _ h => h) sha256 reply

/-- The request changes the connection and the turns only. -/
theorem keeps_negotiate_of {I : SendWorld → Prop}
    (hI : ∀ world codec turns, I world → I { world with codec, turns }) :
    Task.Keeps I (negotiate sender manifest) := by
  refine Task.Keeps.bind (fun world h => hI world world.codec _ h) fun turn => ?_
  refine Task.Keeps.bind ?_ fun response => keeps_skipChunks manifest response
  exact keeps_exchange_of (fun world codec h => hI world codec world.turns h) _ _ _

theorem keeps_awaitVerified (transferId : TransferId) (reply : Option Message) :
    Task.Keeps (fun world => J world.codec) (awaitVerified transferId reply) := by
  unfold awaitVerified
  split
  · exact keeps_emit _
  · exact Task.Keeps.fail _
  · exact Task.Keeps.fail _

variable (hfault : ∀ b codec, J codec → J (codec.withWriteFault b))
include hfault

theorem keeps_sendChunk {skip : Finset ℕ} {chunker : FileChunker} {file : Bytes}
    (hchunk : ∀ id data, data.length ≤ min chunker.chunkSize file.length →
      Task.Keeps J (ProtocolCodec.send sender.noise (.chunkData id data)))
    (bytesSent chunkOffset : ℕ) :
    Task.Keeps (fun world => J world.codec)
      (sendChunk sender manifest skip chunker file bytesSent chunkOffset) := by
  refine Task.Keeps.bind (Task.Keeps.ofChecked _) fun globalOffset => ?_
  split_ifs
  · exact Task.Keeps.ofChecked _
  · refine Task.Keeps.bind keeps_nextTurn fun turn => ?_
    refine Task.Keeps.bind (Task.Keeps.when _ (Task.Keeps.fail _)) fun _ => ?_
    refine Task.Keeps.ofChecked_bind fun chunk hread => ?_
    have hlen := FileChunker.length_readChunk_le hread
    refine Task.Keeps.bind (keeps_exchange hfault (hchunk _ _ hlen) turn) fun reply => ?_
    refine Task.Keeps.bind (keeps_awaitAck _ _) fun _ => ?_
    refine Task.Keeps.bind (Task.Keeps.ofChecked _) fun _ => ?_
    exact Task.Keeps.bind (keeps_emit _) fun _ => Task.Keeps.pure _

theorem keeps_sendChunks {skip : Finset ℕ} {chunker : FileChunker} {file : Bytes}
    (hchunk : ∀ id data, data.length ≤ min chunker.chunkSize file.length →
      Task.Keeps J (ProtocolCodec.send sender.noise (.chunkData id data)))
    (offsets : List ℕ) (bytesSent : ℕ) :
    Task.Keeps (fun world => J world.codec)
      (sendChunks sender manifest skip chunker file offsets bytesSent) := by
  induction offsets generalizing bytesSent with
  | nil => exact Task.Keeps.pure _
  | cons offset offsets ih =>
    exact Task.Keeps.bind (keeps_sendChunk hfault hchunk _ _) fun _ => ih _

theorem keeps_streamFiles {skip : Finset ℕ} {files : List (FileEntry × Path)}
    (hchunk : ∀ file ∈ files, ∀ id data,
      data.length ≤ min (effectiveChunkSize file.1.size.toNat
        sender.config.transfer.chunkSize.toNat) ((script.streamed file.2).getD []).length →
      Task.Keeps J (ProtocolCodec.send sender.noise (.chunkData id data)))
    (i bytesSent : ℕ) :
    Task.Keeps (fun world => J world.codec)
      (streamFiles sender script manifest skip i files bytesSent) := by
  induction files generalizing i bytesSent with
  | nil => exact Task.Keeps.pure _
  | cons file files ih =>
    rw [List.forall_mem_cons] at hchunk
    unfold streamFiles
    cases hfile : script.streamed file.2 with
    | none => exact Task.Keeps.fail _
    | some bytes =>
      refine Task.Keeps.bind (Task.Keeps.ofChecked _) fun count => ?_
      rw [hfile] at hchunk
      exact Task.Keeps.bind (keeps_sendChunks hfault hchunk.1 _ _) fun _ => ih hchunk.2 _ _

theorem keeps_negotiate
    (hrequest : Task.Keeps J (ProtocolCodec.send sender.noise (.transferRequest manifest))) :
    Task.Keeps (fun world => J world.codec) (negotiate sender manifest) := by
  refine Task.Keeps.bind keeps_nextTurn fun turn => ?_
  exact Task.Keeps.bind (keeps_exchange hfault hrequest turn) fun _ => keeps_skipChunks _ _

theorem keeps_finish
    (hcomplete : ∀ manifestHash,
      Task.Keeps J (ProtocolCodec.send sender.noise (.transferComplete manifestHash))) :
    Task.Keeps (fun world => J world.codec) (finish sender script manifest) := by
  refine Task.Keeps.bind keeps_nextTurn fun turn => ?_
  refine Task.Keeps.bind (keeps_exchange hfault (hcomplete _) turn) fun reply => ?_
  refine Task.Keeps.bind (keeps_awaitVerified _ _) fun _ => ?_
  exact Task.Keeps.bind (Task.Keeps.when _ (Task.Keeps.fail _)) fun _ => Task.Keeps.pure _

/-- What every transfer of a manifest keeps. -/
theorem keeps_transfer {paths : List Path}
    (hrequest : Task.Keeps J (ProtocolCodec.send sender.noise (.transferRequest manifest)))
    (hchunk : ∀ file ∈ manifest.files.zip paths, ∀ id data,
      data.length ≤ min (effectiveChunkSize file.1.size.toNat
        sender.config.transfer.chunkSize.toNat) ((script.streamed file.2).getD []).length →
      Task.Keeps J (ProtocolCodec.send sender.noise (.chunkData id data)))
    (hcomplete : ∀ manifestHash,
      Task.Keeps J (ProtocolCodec.send sender.noise (.transferComplete manifestHash))) :
    Task.Keeps (fun world => J world.codec) (transfer sender script manifest paths) := by
  refine Task.Keeps.bind (keeps_negotiate hfault hrequest) fun skip => ?_
  exact Task.Keeps.bind (keeps_streamFiles hfault hchunk _ _) fun _ => keeps_finish hfault hcomplete

/-- What a new connection has and every message of the run keeps holds at its end. -/
theorem codec_sendFiles (hnew : ∀ transport, J (ProtocolCodec.new transport))
    {peer : DeviceInfo} {paths : List Path}
    (hrequest : ∀ manifest, sender.buildManifest script paths = .ok manifest →
      Task.Keeps J (ProtocolCodec.send sender.noise (.transferRequest manifest)) ∧
        ∀ file ∈ manifest.files.zip paths, ∀ id data,
          data.length ≤ min (effectiveChunkSize file.1.size.toNat
            sender.config.transfer.chunkSize.toNat) ((script.streamed file.2).getD []).length →
          Task.Keeps J (ProtocolCodec.send sender.noise (.chunkData id data)))
    (hcomplete : ∀ manifestHash,
      Task.Keeps J (ProtocolCodec.send sender.noise (.transferComplete manifestHash))) :
    J (sendFiles sender peer paths script idle).2.codec := by
  unfold sendFiles
  cases hmanifest : sender.buildManifest script paths with
  | err e => exact hnew _
  | panic => exact hnew _
  | ok manifest =>
    cases hsession : sender.openSession peer script with
    | err e => exact hnew _
    | panic => exact hnew _
    | ok session =>
      obtain ⟨hoffer, hchunk⟩ := hrequest manifest hmanifest
      exact keeps_transfer hfault hoffer hchunk hcomplete _ (hnew _)

end SendTransfer
end JustDrop

import JustDrop.Streaming

/-!
# What the sender's success says about its chunks

After each chunk the sender waits for an acknowledgement, but it looks neither at
the chunk that is acknowledged nor, beyond a warning, at the hash. A send that
returns has every chunk acknowledged intact exactly when the peer's
acknowledgements are about the chunks they answer.
-/
namespace JustDrop

namespace SendTransfer
open SendWorld

variable {sender : SendTransfer} {peer : DeviceInfo} {paths : List Path} {script : SendScript}
  {manifest : TransferManifest}

/-- The messages of a run, each with the turn in which it was sent and answered. -/
def exchanges (script : SendScript) (world : SendWorld) : List (Message × SendTurn) :=
  world.codec.sent.zip script.turns

/-- The chunk was sent, and the reply was an acknowledgement of it and its bytes. -/
structure Acked (sender : SendTransfer) (script : SendScript) (world : SendWorld)
    (id : ChunkId) : Prop where
  sent : ∃ data turn, (.chunkData id data, turn) ∈ exchanges script world
  answered : ∀ data turn, (.chunkData id data, turn) ∈ exchanges script world →
    ∃ ack, turn.recv = .ok (some (.chunkAck ack)) ∧ ack.id = id ∧
      ack.sha256 = sender.host.sha256 data

/-- Every chunk of every file is marked by the peer's response, or acknowledged intact. -/
def AllAcked (sender : SendTransfer) (script : SendScript) (manifest : TransferManifest)
    (paths : List Path) (world : SendWorld) : Prop :=
  ∀ i file chunker count, (manifest.files.zip paths)[i]? = some file →
    chunkerOf sender script i file = .ok chunker → chunker.chunkCount = some count →
    ∀ k < count,
      (∃ globalOffset, globalChunkOffset manifest (UInt32.ofNat i) k = some globalOffset ∧
        globalOffset ∈ markedBy manifest (firstTurn script)) ∨
      Acked sender script world ⟨UInt32.ofNat i, UInt64.ofNat k⟩

/-- Every acknowledgement that answers a chunk is about this chunk and its bytes. -/
def Truthful (sender : SendTransfer) (script : SendScript) (manifest : TransferManifest)
    (paths : List Path) : Prop :=
  ∀ chunks j chunk turn ack, planned sender script manifest paths = some chunks →
    chunks[j]? = some chunk → script.turns[j + 1]? = some turn →
    turn.recv = .ok (some (.chunkAck ack)) → ack.id = chunk.id ∧ ack.sha256 = chunk.sha256

/-- A chunk is at its place among the messages, after the request and before the completion. -/
theorem chunk_at_iff {chunks : List ReadChunk} {manifestHash : Sha256Hash} {id : ChunkId}
    {data : Bytes} {n : ℕ} :
    (Message.transferRequest manifest :: (chunks.map ReadChunk.message ++
        [.transferComplete manifestHash]))[n]? = some (.chunkData id data) ↔
      ∃ j chunk, n = j + 1 ∧ chunks[j]? = some chunk ∧ chunk.id = id ∧ chunk.data = data := by
  cases n with
  | zero => simp
  | succ j =>
    rw [List.getElem?_cons_succ]
    constructor
    · intro h
      by_cases hj : j < chunks.length
      · rw [List.getElem?_append_left (by simpa using hj), List.getElem?_map] at h
        obtain ⟨chunk, hchunk, hmessage⟩ := Option.map_eq_some_iff.mp h
        obtain ⟨hid, hdata⟩ := Message.chunkData.inj hmessage
        exact ⟨j, chunk, rfl, hchunk, hid, hdata⟩
      · rw [List.getElem?_append_right (by simpa using hj)] at h
        have hmem := List.mem_of_getElem? h
        simp at hmem
    · rintro ⟨j', chunk, hj, hchunk, rfl, rfl⟩
      obtain rfl : j = j' := by omega
      have hlt := (List.getElem?_eq_some_iff.mp hchunk).1
      rw [List.getElem?_append_left (by simpa using hlt), List.getElem?_map, hchunk]
      rfl

theorem mem_exchanges {world : SendWorld} {chunks : List ReadChunk} {manifestHash : Sha256Hash}
    {id : ChunkId} {data : Bytes} {turn : SendTurn}
    (hsent : world.codec.sent = .transferRequest manifest :: (chunks.map ReadChunk.message ++
      [.transferComplete manifestHash])) :
    (.chunkData id data, turn) ∈ exchanges script world ↔
      ∃ j chunk, chunks[j]? = some chunk ∧ chunk.id = id ∧ chunk.data = data ∧
        script.turns[j + 1]? = some turn := by
  rw [exchanges, hsent, List.mem_iff_getElem?]
  simp only [List.getElem?_zip_eq_some, chunk_at_iff]
  constructor
  · rintro ⟨n, ⟨j, chunk, rfl, hchunk, hid, hdata⟩, hturn⟩
    exact ⟨j, chunk, hchunk, hid, hdata, hturn⟩
  · rintro ⟨j, chunk, hchunk, hid, hdata, hturn⟩
    exact ⟨j + 1, ⟨j, chunk, rfl, hchunk, hid, hdata⟩, hturn⟩

section Returned
variable {world : SendWorld} {transferId : TransferId}

theorem AllAcked.truthful (hmanifest : sender.buildManifest script paths = .ok manifest)
    (hok : (sendFiles sender peer paths script world).1 = .ok transferId)
    (hall : AllAcked sender script manifest paths (sendFiles sender peer paths script world).2) :
    Truthful sender script manifest paths := by
  have hrun : sendFiles sender peer paths script world =
      (.ok transferId, (sendFiles sender peer paths script world).2) := Prod.ext hok rfl
  obtain ⟨chunks, hsmooth, hsent⟩ := sendFiles_eq_ok hmanifest hrun
  have hplanned := hsmooth.planned
  intro chunks' j chunk turn ack hplanned' hj hturn hrecv
  obtain rfl := Option.some.inj (hplanned.symm.trans hplanned')
  obtain ⟨p, file, chunker, count, hp, hchunker, hcount, k, hk, hread, globalOffset, hskip,
    hglobal⟩ := of_mem_plannedFrom hplanned (List.mem_of_getElem? hj)
  rw [Nat.zero_add] at hchunker
  have hid := FileChunker.id_readChunk hread
  rw [fileIndex_chunkerOf hchunker] at hid hglobal
  rcases hall p file chunker count hp hchunker hcount k hk with ⟨other, hother, hmarked⟩ | hack
  · obtain rfl := Option.some.inj (hglobal.symm.trans hother)
    exact absurd hmarked hskip
  · obtain ⟨given, hgiven, hgivenId, hgivenHash⟩ := hack.answered chunk.data turn
      ((mem_exchanges hsent).mpr ⟨j, chunk, hj, hid, rfl, hturn⟩)
    rw [hrecv] at hgiven
    obtain rfl : ack = given := by simpa using hgiven
    exact ⟨hgivenId.trans hid.symm, hgivenHash.trans (FileChunker.sha256_readChunk hread).symm⟩

theorem Truthful.allAcked (hmanifest : sender.buildManifest script paths = .ok manifest)
    (hok : (sendFiles sender peer paths script world).1 = .ok transferId)
    (htruthful : Truthful sender script manifest paths) :
    AllAcked sender script manifest paths (sendFiles sender peer paths script world).2 := by
  have hrun : sendFiles sender peer paths script world =
      (.ok transferId, (sendFiles sender peer paths script world).2) := Prod.ext hok rfl
  obtain ⟨chunks, hsmooth, hsent⟩ := sendFiles_eq_ok hmanifest hrun
  have hplanned := hsmooth.planned
  have hanswer : ∀ j chunk turn, chunks[j]? = some chunk → script.turns[j + 1]? = some turn →
      ∃ ack, turn.recv = .ok (some (.chunkAck ack)) ∧ ack.id = chunk.id ∧
        ack.sha256 = sender.host.sha256 chunk.data := by
    intro j chunk turn hj hturn
    obtain ⟨turn', ack, hturn', hrecv⟩ := hsmooth.acked hj
    obtain rfl := Option.some.inj (hturn.symm.trans hturn')
    obtain ⟨hid, hhash⟩ := htruthful chunks j chunk turn ack hplanned hj hturn hrecv
    obtain ⟨_, _, _, _, _, _, _, _, _, hread, _⟩ :=
      of_mem_plannedFrom hplanned (List.mem_of_getElem? hj)
    exact ⟨ack, hrecv, hid, hhash.trans (FileChunker.sha256_readChunk hread)⟩
  intro i file chunker count hi hchunker hcount k hk
  obtain ⟨globalOffset, hglobal, hcase⟩ := exists_mem_plannedFrom hplanned hi
    (by rw [Nat.zero_add]; exact hchunker) hcount hk
  rw [fileIndex_chunkerOf hchunker] at hglobal
  rcases hcase with hmarked | ⟨chunk, hmem, hread⟩
  · exact Or.inl ⟨globalOffset, hglobal, hmarked⟩
  · have hid := FileChunker.id_readChunk hread
    rw [fileIndex_chunkerOf hchunker] at hid
    right
    constructor
    · obtain ⟨j, hj⟩ := List.mem_iff_getElem?.mp hmem
      obtain ⟨turn, -, hturn, -⟩ := hsmooth.acked hj
      exact ⟨chunk.data, turn, (mem_exchanges hsent).mpr ⟨j, chunk, hj, hid, rfl, hturn⟩⟩
    · intro data turn hexchange
      obtain ⟨j, other, hj, hotherId, rfl, hturn⟩ := (mem_exchanges hsent).mp hexchange
      obtain ⟨ack, hrecv, hackId, hackHash⟩ := hanswer j other turn hj hturn
      exact ⟨ack, hrecv, hackId.trans hotherId, hackHash⟩

end Returned

/-- A send that returns has every chunk acknowledged intact exactly when the
acknowledgements are about the chunks they answer. -/
theorem allAcked_iff (world : SendWorld) {transferId : TransferId}
    (hmanifest : sender.buildManifest script paths = .ok manifest)
    (hok : (sendFiles sender peer paths script world).1 = .ok transferId) :
    AllAcked sender script manifest paths (sendFiles sender peer paths script world).2 ↔
      Truthful sender script manifest paths :=
  ⟨AllAcked.truthful hmanifest hok, Truthful.allAcked hmanifest hok⟩

/-! ### One chunk and its acknowledgement -/

/-- A peer that accepts, gives this acknowledgement to the first chunk and verifies. -/
def ackScript (ack : ChunkAck) : SendScript :=
  plainScript [1, 2, 3] peerKey
    ([.transferResponse .accept, .chunkAck ack, .transferVerified true none].map fun message =>
      { readFault := false, sendFault := false, recv := .ok (some message) })

/-- The run that sends one file of one chunk to this peer. -/
def sendAcked (ack : ChunkAck) : Outcome ProtocolError TransferId × SendWorld :=
  sendFiles plainSender (plainPeer (sumHash peerKey.toList)) [Path.ofString "/tmp/a.txt"]
    (ackScript ack) idle

def rightAck : ChunkAck := { id := ⟨0, 0⟩, sha256 := sumHash [1, 2, 3] }

/-- An acknowledgement of another chunk, with the hash of no bytes. -/
def wrongAck : ChunkAck := { id := ⟨7, 7⟩, sha256 := sumHash [] }

theorem buildManifest_ackScript (ack : ChunkAck) :
    plainSender.buildManifest (ackScript ack) [Path.ofString "/tmp/a.txt"] = .ok smallManifest := by
  rfl

theorem sendAcked_eq_ok : ∀ ack ∈ [rightAck, wrongAck],
    (sendAcked ack).1 = .ok smallManifest.transferId := by
  decide +kernel

theorem planned_ackScript : ∀ ack ∈ [rightAck, wrongAck],
    planned plainSender (ackScript ack) smallManifest [Path.ofString "/tmp/a.txt"] =
      some [{ id := ⟨0, 0⟩, data := [1, 2, 3], sha256 := sumHash [1, 2, 3] }] := by
  decide +kernel

theorem allAcked_rightAck : AllAcked plainSender (ackScript rightAck) smallManifest
    [Path.ofString "/tmp/a.txt"] (sendAcked rightAck).2 := by
  refine (allAcked_iff idle (buildManifest_ackScript rightAck)
    (sendAcked_eq_ok rightAck (by simp))).mpr ?_
  intro chunks j chunk turn ack hplanned hj hturn hrecv
  rw [planned_ackScript rightAck (by simp)] at hplanned
  obtain rfl := Option.some.inj hplanned
  obtain ⟨rfl, rfl⟩ : j = 0 ∧ _ = chunk := by
    cases j with
    | zero => exact ⟨rfl, Option.some.inj hj⟩
    | succ j => simp at hj
  obtain rfl := Option.some.inj hturn
  obtain rfl : rightAck = ack := by simpa using hrecv
  exact ⟨rfl, rfl⟩

/-- The sender takes the acknowledgement of another chunk for that of its own. -/
theorem not_allAcked_wrongAck : (sendAcked wrongAck).1 = .ok smallManifest.transferId ∧
    ¬AllAcked plainSender (ackScript wrongAck) smallManifest [Path.ofString "/tmp/a.txt"]
      (sendAcked wrongAck).2 := by
  have hok := sendAcked_eq_ok wrongAck (by simp)
  refine ⟨hok, fun hall => ?_⟩
  have htruthful := AllAcked.truthful (buildManifest_ackScript wrongAck) hok hall
  have hsame := htruthful _ 0 _ _ wrongAck (planned_ackScript wrongAck (by simp)) rfl rfl rfl
  exact absurd hsame.1 (by decide)

end SendTransfer
end JustDrop

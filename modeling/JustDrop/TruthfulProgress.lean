import JustDrop.HonestRun
import JustDrop.ReceiveProgress
import JustDrop.Resumption
import JustDrop.SendProgress

/-!
# When progress is truthful

The sender takes every skipped chunk for a whole one; the receiver carries over the
byte count of its stored state, which need not be the bytes of the chunks that it
marks. In a run between an honest sender and an honest receiver the progress of the
sender is truthful when only whole chunks are skipped, and the progress of the
receiver is when the stored count is that of the marked chunks. Where a run comes to
its last chunk, neither is truthful otherwise.
-/
namespace JustDrop
open ChunkBytes ProtocolCodec

/-- The sizes of the files. -/
def TransferManifest.sizes (manifest : TransferManifest) : List ℕ :=
  manifest.files.map fun entry => entry.size.toNat

theorem TransferManifest.totalSizeFrom_eq_some {entries : List FileEntry} {total sum : ℕ}
    (h : totalSizeFrom total entries = some sum) :
    sum = total + (entries.map fun entry => entry.size.toNat).sum ∧
      (total < 2 ^ 64 → sum < 2 ^ 64) := by
  induction entries generalizing total with
  | nil =>
    obtain rfl := Option.some.inj h
    exact ⟨rfl, fun hlt => hlt⟩
  | cons entry entries ih =>
    simp only [totalSizeFrom, Option.bind_eq_bind, Option.bind_eq_some_iff,
      checkedAdd_eq_some] at h
    obtain ⟨_, ⟨hlt, rfl⟩, hrest⟩ := h
    obtain ⟨hsum, hbound⟩ := ih hrest
    rw [List.map_cons, List.sum_cons, ← Nat.add_assoc]
    exact ⟨hsum, fun _ => hbound hlt⟩

namespace SendTransfer
open SendWorld

variable {sender : SendTransfer} {peer : DeviceInfo} {paths : List Path} {script : SendScript}
  {manifest : TransferManifest}

theorem length_fileEntries {i : ℕ} {entries : List FileEntry}
    (h : fileEntries sender script i paths = .ok entries) : entries.length = paths.length := by
  induction paths generalizing i entries with
  | nil =>
    obtain rfl := Except.ok.inj h
    rfl
  | cons path paths ih =>
    unfold fileEntries at h
    split at h
    · simp at h
    · simp at h
    · cases hrest : fileEntries sender script (i + 1) paths with
      | error e => simp [hrest] at h
      | ok rest =>
        rw [hrest] at h
        obtain rfl := Except.ok.inj h
        rw [List.length_cons, List.length_cons, ih hrest]

/-- A manifest lists a file for each path, and its total is the sum of their sizes. -/
theorem buildManifest_sizes (h : sender.buildManifest script paths = .ok manifest) :
    sizesOf (manifest.files.zip paths) = manifest.sizes ∧
      manifest.totalSize.toNat = manifest.sizes.sum := by
  unfold buildManifest at h
  cases hentries : fileEntries sender script 0 paths with
  | error e => simp [hentries] at h
  | ok entries =>
    simp only [hentries] at h
    cases hnew : TransferManifest.new script.transferId entries
        (sender.config.deviceName sender.hostname) sender.config.transfer.chunkSize
        sender.platform with
    | none => simp [hnew] at h
    | some built =>
      simp only [hnew, Outcome.ok.injEq] at h
      obtain rfl := h
      simp only [TransferManifest.new, Option.bind_eq_bind, Option.bind_eq_some_iff] at hnew
      obtain ⟨total, htotal, hbuilt⟩ := hnew
      obtain rfl := Option.some.inj hbuilt
      obtain ⟨hsum, hbound⟩ := TransferManifest.totalSizeFrom_eq_some htotal
      constructor
      · show (entries.zip paths).map (fun file => file.1.size.toNat) = entries.map _
        have hfst : (entries.zip paths).map Prod.fst = entries :=
          List.map_fst_zip (length_fileEntries hentries).le
        have hmap := congrArg (List.map fun entry : FileEntry => entry.size.toNat) hfst
        rwa [List.map_map] at hmap
      · show (UInt64.ofNat total).toNat = _
        rw [UInt64.toNat_ofNat_of_lt' (hbound (by norm_num)), hsum, Nat.zero_add]
        rfl

/-- The run has sent or skipped every chunk, and its byte count is `n`. -/
def CountsAll (sender : SendTransfer) (peer : DeviceInfo) (paths : List Path)
    (script : SendScript) (manifest : TransferManifest) (n : ℕ) : Prop :=
  ∃ session skip negotiated streamed, sender.openSession peer script = .ok session ∧
    negotiate sender manifest { SendWorld.idle with
      codec := ProtocolCodec.new (SecureTransport.new session [])
      turns := script.turns } = (.ok skip, negotiated) ∧
    countFiles sender script manifest skip 0 (manifest.files.zip paths) 0 negotiated =
      (.ok n, streamed)

/-- Only the completion is left of such a run. -/
theorem CountsAll.sendFiles_eq {n : ℕ}
    (hmanifest : sender.buildManifest script paths = .ok manifest)
    (h : CountsAll sender peer paths script manifest n) :
    ∃ streamed, sendFiles sender peer paths script .idle =
      finish sender script manifest streamed := by
  obtain ⟨session, skip, negotiated, streamed, hsession, hnegotiate, hcount⟩ := h
  refine ⟨streamed, ?_⟩
  rw [SendTransfer.sendFiles_eq hmanifest hsession, transfer, Task.bind_of_ok hnegotiate,
    streamFiles_eq_countFiles, Task.bind_assoc, Task.bind_of_ok hcount]
  rfl

/-- The reports of a run are truthful, and after the last chunk its count is the sum
of the file sizes. -/
structure SendsTruly (sender : SendTransfer) (peer : DeviceInfo) (paths : List Path)
    (script : SendScript) (manifest : TransferManifest) : Prop where
  reported : TruthfulReports (sendFiles sender peer paths script .idle).2.events
  counted : ∀ n, CountsAll sender peer paths script manifest n → n = manifest.sizes.sum

/-- Every chunk that the peer's response marks is a whole one. -/
def SkipsWhole (sender : SendTransfer) (script : SendScript) (manifest : TransferManifest) :
    Prop :=
  MarksWhole sender.chunkSizeOf (skips manifest (markedBy manifest (firstTurn script))) 0
    manifest.sizes

theorem markedBy_of_not_responds (h : ¬Responds manifest (firstTurn script)) :
    markedBy manifest (firstTurn script) = ∅ := by
  unfold markedBy
  split
  · next receivedChunks hrecv =>
    cases htotal : manifest.totalChunks with
    | none => rfl
    | some total => exact absurd (Or.inr ⟨receivedChunks, hrecv, by simp [htotal]⟩) h
  · rfl

section Steady
variable (hmanifest : sender.buildManifest script paths = .ok manifest)
  (hsteady : ∀ file ∈ manifest.files.zip paths, Steady sender script file)
include hmanifest hsteady

theorem CountsAll.eq_counted {n : ℕ} (h : CountsAll sender peer paths script manifest n) :
    n = countedFrom sender.chunkSizeOf (skips manifest (markedBy manifest (firstTurn script))) 0
        manifest.sizes ∧
      allFrom sender.chunkSizeOf 0 manifest.sizes = manifest.sizes.sum := by
  obtain ⟨session, skip, negotiated, streamed, -, hnegotiate, hcount⟩ := h
  obtain ⟨-, rfl, -, -⟩ := negotiate_eq_ok hnegotiate
  obtain ⟨⟨chunks, hplanned⟩, rfl⟩ := countFiles_eq_ok hcount
  obtain ⟨hweight, -, hdivisible⟩ := weightFrom_eq hsteady hplanned
  rw [(buildManifest_sizes hmanifest).1] at hweight hdivisible
  exact ⟨by rw [Nat.zero_add, hweight]; rfl, allFrom_eq_sum _ hdivisible⟩

/-- A sender that skips whole chunks only counts truthfully, however the run goes. -/
theorem SkipsWhole.sendsTruly (hwhole : SkipsWhole sender script manifest) :
    SendsTruly sender peer paths script manifest := by
  obtain ⟨hsizes, htotal⟩ := buildManifest_sizes hmanifest
  have hcounted : countedFrom sender.chunkSizeOf
      (skips manifest (markedBy manifest (firstTurn script))) 0 manifest.sizes =
        allFrom sender.chunkSizeOf 0 manifest.sizes := (countedFrom_eq_iff _).mpr hwhole
  constructor
  · have hbound : weightFrom sender script manifest (markedBy manifest (firstTurn script)) 0
        (manifest.files.zip paths) ≤ manifest.totalSize.toNat := by
      calc weightFrom sender script manifest (markedBy manifest (firstTurn script)) 0
            (manifest.files.zip paths)
          ≤ countedFrom sender.chunkSizeOf
              (skips manifest (markedBy manifest (firstTurn script))) 0
                (sizesOf (manifest.files.zip paths)) := weightFrom_le hsteady
        _ = allFrom sender.chunkSizeOf 0 manifest.sizes := by rw [hsizes, hcounted]
        _ ≤ manifest.sizes.sum := allFrom_le_sum _ _ _
        _ = manifest.totalSize.toNat := htotal.symm
    have hreported : Reported _ _ [] (sendFiles sender peer paths script .idle).2.events :=
      reported_sendFiles hmanifest .idle
    obtain ⟨added, hevents, htrue⟩ := hreported.truthful hbound
    rw [hevents]
    exact htrue
  · intro n h
    obtain ⟨rfl, hall⟩ := h.eq_counted hmanifest hsteady
    rw [hcounted, hall]

/-- A run that comes to the last chunk counts truthfully only when it skips whole chunks. -/
theorem SendsTruly.skipsWhole {n : ℕ} (h : CountsAll sender peer paths script manifest n)
    (htrue : SendsTruly sender peer paths script manifest) :
    SkipsWhole sender script manifest := by
  obtain ⟨hn, hall⟩ := h.eq_counted hmanifest hsteady
  refine (countedFrom_eq_iff _).mp ?_
  rw [← hn, hall]
  exact htrue.counted n h

end Steady
end SendTransfer

namespace RecvTransfer
open World
open SendTransfer (planned firstTurn markedBy skips sizesOf Steady Responds)

variable {sender : SendTransfer} {peer : DeviceInfo} {paths : List Path} {sendScript : SendScript}
  {receiver : RecvTransfer} {script : Script} {world : World} {manifest : TransferManifest}

/-- The run has taken every chunk that the sender sends, and its byte count is `n`. -/
def CountsAll (sender : SendTransfer) (paths : List Path) (sendScript : SendScript)
    (receiver : RecvTransfer) (script : Script) (world : World) (manifest : TransferManifest)
    (n : ℕ) : Prop :=
  ∃ sent chunks remoteStatic rest state taken,
    planned sender sendScript manifest paths = some sent ∧
    chunks.map (fun chunk : ChunkTurn => (chunk.id, chunk.data)) =
      sent.map (fun chunk => (chunk.id, chunk.data)) ∧
    script.handshake = .ok remoteStatic ∧
    script.request.recv = .ok (some (.transferRequest manifest)) ∧
    receiver.decisionOf script.decision = .accept ∧
    script.turns = chunks.map ChunkTurn.turn ++ rest ∧
    receiveChunks receiver manifest (world.resume manifest.transferId) chunks
      (started script.request remoteStatic manifest world) = (.ok state, taken) ∧
    state.bytesReceived = n

/-- The loop goes on from where such a run stands. -/
theorem CountsAll.handleIncoming_eq {n : ℕ}
    (h : CountsAll sender paths sendScript receiver script world manifest n) :
    ∃ rest state taken, state.bytesReceived = n ∧
      handleIncoming receiver script world = receiveLoop receiver manifest rest state taken := by
  obtain ⟨sent, chunks, remoteStatic, rest, state, taken, -, -, hhandshake, hrequest, hdecision,
    hturns, hrun, hn⟩ := h
  refine ⟨rest, state, taken, hn, ?_⟩
  rw [handleIncoming_of_accept hhandshake hrequest hdecision, hturns, receiveFiles_append,
    Task.bind_of_ok hrun]

/-- The reports of a run are truthful, and after the last chunk its count is the sum
of the file sizes. -/
structure ReceivesTruly (sender : SendTransfer) (paths : List Path) (sendScript : SendScript)
    (receiver : RecvTransfer) (script : Script) (world : World)
    (manifest : TransferManifest) : Prop where
  reported : ∃ added, (handleIncoming receiver script world).2.events = world.events ++ added ∧
    TruthfulReports added
  counted : ∀ n, CountsAll sender paths sendScript receiver script world manifest n →
    n = manifest.sizes.sum

/-- The stored byte count is that of the chunks that the receiver marks. -/
def StoresTruly (sender : SendTransfer) (receiver : RecvTransfer) (world : World)
    (manifest : TransferManifest) : Prop :=
  bytesBefore (world.resume manifest.transferId) =
    markedFrom sender.chunkSizeOf
      (skips manifest (marked receiver manifest (world.resume manifest.transferId))) 0
      manifest.sizes

/-! ### What the two ends agree on -/

/-- What an accepting receiver responds is the answer to its stored state. -/
theorem response_of_sent {response : TransferResponse} (hunsent : world.codec.sent = [])
    (hrequest : script.request.recv = .ok (some (.transferRequest manifest)))
    (hsent : .transferResponse response ∈ (handleIncoming receiver script world).2.codec.sent) :
    (∃ reason, response = .reject reason) ∨
      acceptResponse receiver manifest (world.resume manifest.transferId) = some response := by
  have hall : SentAll (fun m => ∀ response, m = .transferResponse response →
      (∃ reason, response = .reject reason) ∨
        acceptResponse receiver manifest (world.resume manifest.transferId) = some response)
      (handleIncoming receiver script world).2.codec := by
    refine codec_handleIncoming (P := fun m => ∀ response, m = .transferResponse response →
      (∃ reason, response = .reject reason) ∨
        acceptResponse receiver manifest (world.resume manifest.transferId) = some response)
      (fun _ _ h => h) (fun _ _ hm => absurd hm List.not_mem_nil)
      (by simp [SentAll, hunsent]) (fun _ hm => keeps_sentAll hm) ?_ ?_
    · intro _ reason _ _ response heq
      cases heq
      exact Or.inl ⟨reason, rfl⟩
    · intro other hother _
      have hsame : other = manifest := by
        rw [hrequest] at hother
        simpa using hother.symm
      rw [hsame]
      refine ⟨?_, ?_, ?_⟩
      · intro response hresponse other heq
        cases heq
        exact Or.inr hresponse
      · intro ack response heq
        cases heq
      · intro allOk response heq
        cases heq
  exact hall _ hsent response rfl

/-- A response that lets the sender go on marks the chunks that the receiver marks. -/
theorem markedBy_eq_marked
    (hrun : HonestRun sender peer paths sendScript receiver script world)
    (hrequest : script.request.recv = .ok (some (.transferRequest manifest)))
    (hresponds : Responds manifest (firstTurn sendScript)) :
    markedBy manifest (firstTurn sendScript) =
      marked receiver manifest (world.resume manifest.transferId) := by
  have hfirst : ∀ message, (firstTurn sendScript).recv = .ok (some message) →
      message ∈ (handleIncoming receiver script world).2.codec.sent := by
    intro message hrecv
    refine hrun.toSender.subset ?_
    unfold firstTurn at hrecv
    cases hturns : sendScript.turns with
    | nil => simp [hturns, SendTurn.closed] at hrecv
    | cons turn turns =>
      rw [hturns, List.headD_cons] at hrecv
      simp [SendScript.received, hturns, hrecv, Except.toOption]
  unfold markedBy marked
  rcases hresponds with hrecv | ⟨receivedChunks, hrecv, htotal⟩
  · rcases response_of_sent hrun.unsent hrequest (hfirst _ hrecv) with ⟨_, h⟩ | haccept
    · simp at h
    · rw [hrecv, haccept]
  · rcases response_of_sent hrun.unsent hrequest (hfirst _ hrecv) with ⟨_, h⟩ | haccept
    · simp at h
    · obtain ⟨totalChunks, htotal⟩ := Option.isSome_iff_exists.mp htotal
      rw [hrecv, haccept]
      simp only [htotal, Option.elim_some]
      rw [(TransferManifest.totalChunks_eq_some.mp htotal).2.2]

section Honest
variable (hrun : HonestRun sender peer paths sendScript receiver script world)
  (hrequest : script.request.recv = .ok (some (.transferRequest manifest)))
include hrun hrequest

/-- The messages of the turns have been sent. -/
theorem mem_sent_of_mem_messages {message : Message}
    (h : message ∈ Turn.messages script.turns) :
    message ∈ (sender.sendFiles peer paths sendScript .idle).2.codec.sent := by
  refine hrun.toReceiver.subset ?_
  rw [Script.received, List.filterMap_cons, hrequest]
  exact List.mem_cons_of_mem _ h

variable (hmanifest : sender.buildManifest sendScript paths = .ok manifest)
include hmanifest

/-- A sender that is not let go on has sent no data. -/
theorem dataBytes_eq_zero (hresponds : ¬Responds manifest (firstTurn sendScript)) :
    dataBytes (Turn.messages script.turns) = 0 := by
  unfold dataBytes
  rw [List.sum_eq_zero_iff]
  intro size hsize
  obtain ⟨message, hmessage, rfl⟩ := List.mem_map.mp hsize
  have hsent := mem_sent_of_mem_messages hrun hrequest hmessage
  rw [SendTransfer.sent_of_not_responds hmanifest hresponds message hsent]
  rfl

variable (hsteady : ∀ file ∈ manifest.files.zip paths, Steady sender sendScript file)
include hsteady

/-- The data of the turns and the marked chunks are no more than all chunks. -/
theorem dataBytes_add_markedFrom_le :
    dataBytes (Turn.messages script.turns) + markedFrom sender.chunkSizeOf
        (skips manifest (marked receiver manifest (world.resume manifest.transferId))) 0
        manifest.sizes ≤ allFrom sender.chunkSizeOf 0 manifest.sizes := by
  have hall := markedFrom_add_unmarkedFrom sender.chunkSizeOf
    (skips manifest (marked receiver manifest (world.resume manifest.transferId))) 0
    manifest.sizes
  by_cases hresponds : Responds manifest (firstTurn sendScript)
  · have hsent : dataBytes (sender.sendFiles peer paths sendScript .idle).2.codec.sent ≤ _ :=
      SendTransfer.sendsAtMost_sendFiles hmanifest hsteady
    rw [(SendTransfer.buildManifest_sizes hmanifest).1,
      markedBy_eq_marked hrun hrequest hresponds] at hsent
    have hreceived := dataBytes_le_of_prefix hrun.toReceiver
    have hturns : dataBytes script.received = dataBytes (Turn.messages script.turns) := by
      rw [Script.received, List.filterMap_cons, hrequest]
      exact Nat.zero_add _
    omega
  · rw [dataBytes_eq_zero hrun hrequest hmanifest hresponds]
    omega

omit hrequest in
/-- A run that has taken every chunk counts their data and the stored bytes. -/
theorem CountsAll.eq_add {n : ℕ}
    (h : CountsAll sender paths sendScript receiver script world manifest n) :
    ∃ data, n = bytesBefore (world.resume manifest.transferId) + data ∧
      data + markedFrom sender.chunkSizeOf
        (skips manifest (marked receiver manifest (world.resume manifest.transferId))) 0
        manifest.sizes = manifest.sizes.sum := by
  obtain ⟨sent, chunks, remoteStatic, rest, state, taken, hplanned, hchunks, -, hrequest, -,
    hturns, hreceive, rfl⟩ := h
  refine ⟨_, receiveChunks_eq_ok hreceive, ?_⟩
  have hdata : (chunks.map fun chunk => chunk.data.length).sum =
      (sent.map fun chunk => chunk.data.length).sum := by
    have hlengths := congrArg (List.map fun chunk : Delivery => chunk.2.length) hchunks
    simp only [List.map_map] at hlengths
    exact congrArg List.sum hlengths
  obtain ⟨-, hunmarked, hdivisible⟩ := SendTransfer.weightFrom_eq hsteady hplanned
  rw [(SendTransfer.buildManifest_sizes hmanifest).1] at hunmarked hdivisible
  rw [hdata, hunmarked, ← allFrom_eq_sum _ hdivisible (i := 0)]
  have hall := markedFrom_add_unmarkedFrom sender.chunkSizeOf
    (skips manifest (marked receiver manifest (world.resume manifest.transferId))) 0
    manifest.sizes
  by_cases hresponds : Responds manifest (firstTurn sendScript)
  · rw [markedBy_eq_marked hrun hrequest hresponds, Nat.add_comm]
    exact hall
  · have hnone : chunks = [] := by
      cases chunks with
      | nil => rfl
      | cons chunk chunks =>
        have hmem : .chunkData chunk.id chunk.data ∈ Turn.messages script.turns := by
          simp [Turn.messages, hturns, chunk.delivers, Except.toOption]
        have hrequested := SendTransfer.sent_of_not_responds hmanifest hresponds _
          (mem_sent_of_mem_messages hrun hrequest hmem)
        simp at hrequested
    have hwhole : unmarkedFrom sender.chunkSizeOf
        (skips manifest (markedBy manifest (firstTurn sendScript))) 0 manifest.sizes =
          allFrom sender.chunkSizeOf 0 manifest.sizes := by
      rw [SendTransfer.markedBy_of_not_responds hresponds]
      exact unmarkedFrom_of_none _ (SendTransfer.skips_empty manifest)
    rw [hnone, List.map_nil, List.sum_nil] at hdata
    omega

omit hrequest in
/-- A receiver whose stored count is that of the marked chunks counts truthfully, however
the run goes. -/
theorem StoresTruly.receivesTruly (hstored : StoresTruly sender receiver world manifest) :
    ReceivesTruly sender paths sendScript receiver script world manifest := by
  have hbefore : bytesBefore (world.resume manifest.transferId) = _ := hstored
  constructor
  · by_cases hrequested : ∃ other, script.request.recv = .ok (some (.transferRequest other))
    · obtain ⟨other, hrequest⟩ := hrequested
      obtain rfl : manifest = other :=
        Outcome.ok.inj (hmanifest.symm.trans (hrun.buildManifest hrequest))
      have hbound := dataBytes_add_markedFrom_le hrun hrequest hmanifest hsteady
      have hle := allFrom_le_sum sender.chunkSizeOf 0 manifest.sizes
      refine (reported_handleIncoming hrequest world).truthful ?_
      rw [(SendTransfer.buildManifest_sizes hmanifest).2]
      omega
    · have hsame : (handleIncoming receiver script world).2.events = world.events :=
        events_handleIncoming_of_no_request (fun other h => hrequested ⟨other, h⟩) world
      refine ⟨[], ?_, by simp [reports], List.Pairwise.nil⟩
      rw [hsame, List.append_nil]
  · intro n h
    obtain ⟨data, rfl, hsum⟩ := h.eq_add hrun hmanifest hsteady
    omega

omit hrequest in
/-- A run that comes to the last chunk counts truthfully only from such a stored count. -/
theorem ReceivesTruly.storesTruly {n : ℕ}
    (h : CountsAll sender paths sendScript receiver script world manifest n)
    (htrue : ReceivesTruly sender paths sendScript receiver script world manifest) :
    StoresTruly sender receiver world manifest := by
  have hn := htrue.counted n h
  obtain ⟨data, rfl, hsum⟩ := h.eq_add hrun hmanifest hsteady
  unfold StoresTruly
  omega

end Honest

/-- Over files that keep their sizes, a sender counts truthfully whatever the peer responds
when its response marks whole chunks only, and the receiver of an honest run when its stored
count is that of the chunks it marks. Each condition is needed where a run comes to the last
chunk. -/
theorem truthful_of_conditions
    (hmanifest : sender.buildManifest sendScript paths = .ok manifest)
    (hsteady : ∀ file ∈ manifest.files.zip paths, Steady sender sendScript file) :
    (SendTransfer.SkipsWhole sender sendScript manifest →
        SendTransfer.SendsTruly sender peer paths sendScript manifest) ∧
      (∀ n, SendTransfer.CountsAll sender peer paths sendScript manifest n →
        (SendTransfer.SendsTruly sender peer paths sendScript manifest ↔
          SendTransfer.SkipsWhole sender sendScript manifest)) ∧
      ∀ receiver script world, HonestRun sender peer paths sendScript receiver script world →
        (StoresTruly sender receiver world manifest →
            ReceivesTruly sender paths sendScript receiver script world manifest) ∧
          ∀ n, CountsAll sender paths sendScript receiver script world manifest n →
            (ReceivesTruly sender paths sendScript receiver script world manifest ↔
              StoresTruly sender receiver world manifest) := by
  refine ⟨fun hwhole => hwhole.sendsTruly hmanifest hsteady, ?_, ?_⟩
  · intro n h
    constructor
    · exact fun htrue => htrue.skipsWhole hmanifest hsteady h
    · exact fun hwhole => hwhole.sendsTruly hmanifest hsteady
  · intro receiver script world hrun
    refine ⟨fun hstored => hstored.receivesTruly hrun hmanifest hsteady, ?_⟩
    intro n h
    constructor
    · exact fun htrue => htrue.storesTruly hrun hmanifest hsteady h
    · exact fun hstored => hstored.receivesTruly hrun hmanifest hsteady

/-! ### A whole transfer and a resumed one -/

theorem steady_plainScript {file : Bytes} {turns : List SendTurn} {entry : FileEntry}
    (path : Path) (hsize : file.length = entry.size.toNat)
    (hbits : entry.size.toNat < 2 ^ 64) :
    Steady SendTransfer.plainSender (SendTransfer.plainScript file SendTransfer.peerKey turns)
      (entry, path) := by
  constructor
  · intro bytes heq
    cases heq
    exact hsize
  · exact hbits

/-- The small file is transferred from its first chunk on, and both ends count truthfully. -/
theorem truthful_of_conditions_small :
    SendTransfer.SendsTruly SendTransfer.plainSender (SendTransfer.plainPeer (sumHash []))
        [Path.ofString "/tmp/a.txt"] smallSendScript smallManifest ∧
      ReceivesTruly SendTransfer.plainSender [Path.ofString "/tmp/a.txt"] smallSendScript
        (plainReceiver 100) smallScript emptyWorld smallManifest := by
  have hrun : HonestRun SendTransfer.plainSender (SendTransfer.plainPeer (sumHash []))
      [Path.ofString "/tmp/a.txt"] smallSendScript (plainReceiver 100) smallScript emptyWorld :=
    ⟨by decide +kernel, by decide +kernel, rfl, rfl⟩
  have hmanifest : SendTransfer.plainSender.buildManifest smallSendScript
      [Path.ofString "/tmp/a.txt"] = .ok smallManifest := by rfl
  have hsteady : ∀ file ∈ smallManifest.files.zip [Path.ofString "/tmp/a.txt"],
      Steady SendTransfer.plainSender smallSendScript file := by
    intro file hfile
    obtain rfl := List.mem_singleton.mp hfile
    exact steady_plainScript _ (by decide) (by decide)
  obtain ⟨hsends, -, hreceives⟩ := truthful_of_conditions hmanifest hsteady
  refine ⟨hsends ?_, (hreceives _ _ _ hrun).1 ?_⟩
  · intro j size _ k _ hmark
    have hnone : markedBy smallManifest (firstTurn smallSendScript) = ∅ := rfl
    rw [hnone, SendTransfer.skips_empty] at hmark
    simp at hmark
  · show (0 : ℕ) = _
    decide +kernel

/-- The manifest of two files. -/
def pairManifest : TransferManifest :=
  { smallManifest with
    files := smallManifest.files ++ smallManifest.files.map fun entry =>
      { entry with index := 1, relativePath := "b.txt" }
    totalSize := 6 }

/-- The first file has been received. -/
def pairStored : World :=
  { emptyWorld with
    resume := emptyWorld.resume.save {
      transferId := pairManifest.transferId
      files := [
        { fileIndex := 0, destPath := "a.txt", tempPath := "", fileSize := 3,
          chunkSize := DEFAULT_CHUNK_SIZE.toNat, completedChunks := {0} },
        { fileIndex := 1, destPath := "b.txt", tempPath := "", fileSize := 3,
          chunkSize := DEFAULT_CHUNK_SIZE.toNat, completedChunks := ∅ }]
      bytesTransferred := 3, totalBytes := 6 } }

/-- The receiver marks the first chunk and acknowledges the second. -/
def pairSendScript : SendScript :=
  SendTransfer.plainScript [1, 2, 3] SendTransfer.peerKey
    ([.transferResponse (.resumeAt [1]), .chunkAck ⟨⟨1, 0⟩, sumHash [1, 2, 3]⟩,
      .transferVerified false (some "some files incomplete")].map fun message =>
        { readFault := false, sendFault := false, recv := .ok (some message) })

def pairScript : Script :=
  peerScript (Vector.replicate 32 1) pairManifest (some .accept) [(⟨1, 0⟩, [1, 2, 3])]
    (computeManifestHash sumHash pairManifest)

/-- The skipped chunk of three bytes counts for a whole one: of six bytes 262147 are
reported. -/
theorem not_truthful : ¬∀ (sender : SendTransfer) (peer : DeviceInfo) (paths : List Path)
    (sendScript : SendScript) (receiver : RecvTransfer) (script : Script) (world : World)
    (manifest : TransferManifest), HonestRun sender peer paths sendScript receiver script world →
    sender.buildManifest sendScript paths = .ok manifest →
    (∀ file ∈ manifest.files.zip paths, Steady sender sendScript file) →
    SendTransfer.SendsTruly sender peer paths sendScript manifest ∧
      ReceivesTruly sender paths sendScript receiver script world manifest := by
  intro h
  have htrue := h SendTransfer.plainSender (SendTransfer.plainPeer (sumHash []))
    [Path.ofString "/tmp/a.txt", Path.ofString "/tmp/b.txt"] pairSendScript (plainReceiver 100)
    pairScript pairStored pairManifest ⟨by decide +kernel, by decide +kernel, rfl, rfl⟩
    (by decide +kernel) fun file hfile => by
      rcases List.mem_pair.mp hfile with rfl | rfl
      · exact steady_plainScript _ (by decide) (by decide)
      · exact steady_plainScript _ (by decide) (by decide)
  exact absurd htrue.1.reported.bounded (by decide +kernel)

end RecvTransfer
end JustDrop

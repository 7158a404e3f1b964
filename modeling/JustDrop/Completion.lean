import JustDrop.Agreement
import JustDrop.Answer
import JustDrop.TruthfulProgress

/-!
# A transfer that completes

An honest receiver with nothing stored answers every message of an honest sender with
the one the sender waits for. When the files keep their lengths and every chunk fits
the channel, both ends return, unless a call of the receiver's file system fails.
-/
namespace JustDrop
open ByteImage

/-! ### What an answering receiver writes -/

namespace RecvTransfer
open World
open ProtocolCodec (SentAll keeps_sentAll)

variable {receiver : RecvTransfer} {manifest : TransferManifest}

/-- The acknowledgement of a delivery. -/
def acknowledgement (receiver : RecvTransfer) (chunk : Delivery) : Message :=
  .chunkAck { id := chunk.1, sha256 := receiver.host.sha256 chunk.2 }

/-- The task returns, and these are the messages that it has written. -/
def Writes (t : Task World ProtocolError Unit) (world : World) (messages : List Message) : Prop :=
  (t world).1 = .ok () ∧ (t world).2.codec.sent = world.codec.sent ++ messages

/-- A message in front of those of the rest. -/
theorem Writes.after {α : Type} {t : Task World ProtocolError α}
    {f : α → Task World ProtocolError Unit} {world world₁ : World} {a : α}
    {messages rest : List Message} (ht : t world = (.ok a, world₁))
    (hsent : world₁.codec.sent = world.codec.sent ++ messages)
    (hrest : Writes (f a) world₁ rest) : Writes (t >>= f) world (messages ++ rest) := by
  rw [Writes, Task.bind_of_ok ht, ← List.append_assoc, ← hsent]
  exact hrest

/-- A part that writes nothing. -/
theorem Writes.silently {α : Type} {t : Task World ProtocolError α}
    {f : α → Task World ProtocolError Unit} {world world₁ : World} {a : α} {rest : List Message}
    (ht : t world = (.ok a, world₁)) (hsent : world₁.codec.sent = world.codec.sent)
    (hrest : Writes (f a) world₁ rest) : Writes (t >>= f) world rest := by
  rw [Writes, Task.bind_of_ok ht, ← hsent]
  exact hrest

/-- A message that is written for the first time is written by a send that returns. -/
theorem send_eq_of_lost {J : ProtocolCodec → Prop} {noise : Noise} {message : Message}
    {world : World} (hJ : ∀ codec codec' : ProtocolCodec, codec'.sent = codec.sent →
      J codec → J codec') (h : J world.codec)
    (hlost : ¬J (send noise message world).2.codec) :
    ∃ world₁, send noise message world = (.ok (), world₁) ∧
      world₁.codec.sent = world.codec.sent ++ [message] := by
  rcases (ProtocolCodec.send_cases noise message world.codec).2 with ⟨hok, -, hsent⟩ | ⟨-, hsent⟩
  · exact ⟨_, Prod.ext hok rfl, hsent⟩
  · exact absurd (hJ _ _ hsent h) hlost

/-- A positive answer is the last message of a completion. -/
theorem writes_complete {state : RecvState} {manifestHash : Sha256Hash} {world : World}
    (hun : Unanswered world.codec)
    (hans : ¬Unanswered (complete receiver manifest state manifestHash false world).2.codec) :
    Writes (complete receiver manifest state manifestHash false) world
      [.transferVerified true none] := by
  unfold complete at hans ⊢
  obtain ⟨_, world₁, hwarn, hun₁, hans₁⟩ := Task.Keeps.lost_by_rest
    (I := fun world : World => Unanswered world.codec) (Task.Keeps.when _ (keeps_warn _)) hun hans
  obtain ⟨allOk, world₂, hfinish, hun₂, hans₂⟩ := Task.Keeps.lost_by_rest
    (I := fun world : World => Unanswered world.codec)
    (keeps_finishFiles (fun _ _ _ _ h => h) _ _ _) hun₁ hans₁
  have hcodec₁ : Task.Keeps (fun w : World => w.codec = world.codec)
      (Task.when (manifestHash ≠ computeManifestHash receiver.host.sha256 manifest)
        (warn "manifest hash mismatch")) := Task.Keeps.when _ fun _ h => h
  have hcodec₂ : Task.Keeps (fun w : World => w.codec = world.codec)
      (finishFiles receiver state.writers 0 manifest.files) :=
    keeps_finishFiles (fun _ _ _ _ h => h) _ _ _
  have hsame : world₂.codec = world.codec := by
    have h₁ := hcodec₁ world rfl
    rw [hwarn] at h₁
    have h₂ := hcodec₂ world₁ h₁
    rwa [hfinish] at h₂
  obtain ⟨world₃, hsend, hsent⟩ := send_eq_of_lost (J := Unanswered)
    (fun _ _ hsent h m hm => h m (hsent ▸ hm)) hun₂ fun hkept => hans₂ (Task.Keeps.after
      (I := fun world : World => Unanswered world.codec) hkept fun _ => by
        refine Task.Keeps.bind (Task.Keeps.when _ (Task.Keeps.modify fun _ h => h)) fun _ => ?_
        exact Task.Keeps.when _ (Task.Keeps.fail _))
  rw [Task.bind_of_ok hsend] at hans₂
  cases allOk with
  | false =>
    refine absurd (fun m hm => ?_) hans₂
    have hm : m ∈ world₃.codec.sent := hm
    rw [hsent, List.mem_append, List.mem_singleton] at hm
    rcases hm with hold | rfl
    · exact hun₂ m hold
    · simp
  | true =>
    rw [Writes, Task.bind_of_ok hwarn, Task.bind_of_ok hfinish, Task.bind_of_ok hsend, ← hsame]
    exact ⟨rfl, hsent⟩

/-- A loop that answers positively acknowledges every chunk first. -/
theorem writes_receiveLoop {chunks : List Delivery} {manifestHash : Sha256Hash}
    {state : RecvState} {world : World} (hun : Unanswered world.codec)
    (hans : ¬Unanswered (receiveLoop receiver manifest
      (chunkTurns chunks ++ [Turn.calm (.transferComplete manifestHash)]) state world).2.codec) :
    Writes (receiveLoop receiver manifest
        (chunkTurns chunks ++ [Turn.calm (.transferComplete manifestHash)]) state) world
      (chunks.map (acknowledgement receiver) ++ [.transferVerified true none]) := by
  induction chunks generalizing state world with
  | nil =>
    have hloop : receiveLoop receiver manifest [Turn.calm (.transferComplete manifestHash)] state =
        (do
          World.beginTurn (Turn.calm (.transferComplete manifestHash))
          complete receiver manifest state manifestHash false) := rfl
    simp only [chunkTurns, List.map_nil, List.nil_append, hloop] at hans ⊢
    obtain ⟨_, world₁, hturn, hun₁, hans₁⟩ := Task.Keeps.lost_by_rest
      (I := fun world : World => Unanswered world.codec)
      (keeps_beginTurn fun _ h => h) hun hans
    have hsent : world₁.codec.sent = world.codec.sent := by
      rw [← (Prod.mk.inj hturn).2]
      rfl
    exact Writes.silently hturn hsent (writes_complete hun₁ hans₁)
  | cons chunk chunks ih =>
    have hunfold : receiveLoop receiver manifest (chunkTurns (chunk :: chunks) ++
        [Turn.calm (.transferComplete manifestHash)]) state =
        (do
          World.beginTurn (Turn.calm (.chunkData chunk.1 chunk.2))
          let state ← handleChunk receiver manifest state chunk.1 chunk.2
          receiveLoop receiver manifest
            (chunkTurns chunks ++ [Turn.calm (.transferComplete manifestHash)]) state) := rfl
    rw [hunfold] at hans ⊢
    obtain ⟨_, world₁, hturn, hun₁, hans₁⟩ := Task.Keeps.lost_by_rest
      (I := fun world : World => Unanswered world.codec)
      (keeps_beginTurn fun _ h => h) hun hans
    obtain ⟨state₂, world₂, hchunk, hun₂, hans₂⟩ := Task.Keeps.lost_by_rest
      (I := fun world : World => Unanswered world.codec)
      (keeps_handleChunk (fun _ => keeps_sentAll (by simp)) _ _ _) hun₁ hans₁
    obtain ⟨_, -, -, -, -, -, -, -, hsent₂, -⟩ := handleChunk_eq_ok hchunk
    have hsent₁ : world₁.codec.sent = world.codec.sent := by
      rw [← (Prod.mk.inj hturn).2]
      rfl
    have hrest := Writes.after hchunk hsent₂ (ih hun₂ hans₂)
    exact Writes.silently hturn hsent₁ hrest

/-- A receiver with nothing stored writes its response, the acknowledgements and the
verification, and returns. -/
theorem writes_handleIncoming {remoteStatic : PublicKey}
    {decision : Option IncomingTransferDecision} {chunks : List Delivery}
    {manifestHash : Sha256Hash} {world : World}
    (hdecision : receiver.decisionOf decision = .accept)
    (hresume : world.resume manifest.transferId = none)
    (hans : Answered (handleIncoming receiver
      (peerScript remoteStatic manifest decision chunks manifestHash) world).2) :
    (handleIncoming receiver (peerScript remoteStatic manifest decision chunks manifestHash)
        world).1 = .ok () ∧
      (handleIncoming receiver (peerScript remoteStatic manifest decision chunks manifestHash)
        world).2.codec.sent =
        .transferResponse .accept ::
          (chunks.map (acknowledgement receiver) ++ [.transferVerified true none]) := by
  rw [answered_iff] at hans
  rw [handleIncoming_of_accept rfl rfl hdecision, hresume] at hans ⊢
  set world₁ := started (peerScript remoteStatic manifest decision chunks manifestHash).request
    remoteStatic manifest world with hworld₁
  have hstart : Unanswered world₁.codec := by
    simp [Unanswered, SentAll, hworld₁, started, ProtocolCodec.new]
  have hrun : receiveFiles receiver manifest none
      (peerScript remoteStatic manifest decision chunks manifestHash).turns = (do
        send receiver.noise (.transferResponse .accept)
        let writers ← openWriters receiver manifest manifest.files
        receiveLoop receiver manifest
          (chunkTurns chunks ++ [Turn.calm (.transferComplete manifestHash)])
          { writers, bytesReceived := bytesBefore none }) := rfl
  rw [hrun] at hans ⊢
  obtain ⟨_, world₂, hsend, hun₂, hans₂⟩ := Task.Keeps.lost_by_rest
    (I := fun world : World => Unanswered world.codec)
    (keeps_send_unanswered (by simp)) hstart hans
  obtain ⟨writers, world₃, hopen, hun₃, hans₃⟩ := Task.Keeps.lost_by_rest
    (I := fun world : World => Unanswered world.codec)
    (keeps_openWriters (fun _ _ h => h) _) hun₂ hans₂
  obtain ⟨-, hsent₂, -⟩ := send_eq_ok hsend
  have hopened : Task.Keeps (fun w : World => w.codec = world₂.codec)
      (openWriters receiver manifest manifest.files) := keeps_openWriters (fun _ _ h => h) _
  have hsame := hopened world₂ rfl
  rw [hopen] at hsame
  have hrest : Writes (do
      let writers ← openWriters receiver manifest manifest.files
      receiveLoop receiver manifest
        (chunkTurns chunks ++ [Turn.calm (.transferComplete manifestHash)])
        { writers, bytesReceived := bytesBefore none }) world₂ _ :=
    Writes.silently hopen (congrArg ProtocolCodec.sent hsame) (writes_receiveLoop hun₃ hans₃)
  obtain ⟨hok, hsent⟩ := Writes.after (f := fun _ => do
    let writers ← openWriters receiver manifest manifest.files
    receiveLoop receiver manifest (chunkTurns chunks ++ [Turn.calm (.transferComplete manifestHash)])
      { writers, bytesReceived := bytesBefore none }) hsend hsent₂ hrest
  refine ⟨hok, hsent.trans ?_⟩
  simp [hworld₁, started, ProtocolCodec.new]

end RecvTransfer

/-! ### The manifest and the plan of an honest sender -/

/-- A file of two bytes to the chunk has at most half as many chunks, and one for the rest. -/
theorem two_mul_chunksOf_le (size : ℕ) {chunkSize : ℕ} (h : 2 ≤ chunkSize) :
    2 * chunksOf size chunkSize ≤ size + 2 := by
  unfold chunksOf
  split_ifs with hsize
  · omega
  · have hle : size ⌈/⌉ chunkSize ≤ (size + 1) / 2 := by
      rw [ceilDiv_le_iff_le_mul (by omega)]
      calc size ≤ 2 * ((size + 1) / 2) := by omega
        _ ≤ chunkSize * ((size + 1) / 2) := Nat.mul_le_mul_right _ h
    omega

theorem two_mul_sumChunks_le {chunkSize : ℕ} (h : 2 ≤ chunkSize) (entries : List FileEntry) :
    2 * sumChunks chunkSize entries ≤
      (entries.map fun entry => entry.size.toNat).sum + 2 * entries.length := by
  induction entries with
  | nil => simp
  | cons entry entries ih =>
    have hentry := two_mul_chunksOf_le entry.size.toNat h
    simp only [sumChunks_cons, List.map_cons, List.sum_cons, List.length_cons]
    omega

namespace SendTransfer
open SendWorld

variable {sender : SendTransfer} {peer : DeviceInfo} {paths : List Path} {script : SendScript}
  {manifest : TransferManifest}

theorem index_of_fileEntries {i : ℕ} {entries : List FileEntry}
    (h : fileEntries sender script i paths = .ok entries) {j : ℕ} {entry : FileEntry}
    (hj : entries[j]? = some entry) : entry.index = UInt32.ofNat (i + j) := by
  induction paths generalizing i entries j with
  | nil =>
    obtain rfl := Except.ok.inj h
    simp at hj
  | cons path paths ih =>
    unfold fileEntries at h
    split at h
    · simp at h
    · simp at h
    · cases hrest : fileEntries sender script (i + 1) paths with
      | error e => simp [hrest] at h
      | ok rest =>
        rw [hrest] at h
        obtain rfl := Except.ok.inj h
        cases j with
        | zero =>
          obtain rfl := Option.some.inj hj
          rfl
        | succ j =>
          rw [ih hrest (by simpa using hj), Nat.add_assoc, Nat.add_comm 1 j]

/-- What a manifest that was built says about its files. -/
structure Built (sender : SendTransfer) (paths : List Path) (manifest : TransferManifest) :
    Prop where
  chunkSize : manifest.chunkSize = sender.config.transfer.chunkSize
  length : manifest.files.length = paths.length
  index : ∀ i entry, manifest.files[i]? = some entry → entry.index = UInt32.ofNat i

theorem built_of_buildManifest (h : sender.buildManifest script paths = .ok manifest) :
    Built sender paths manifest := by
  unfold buildManifest at h
  cases hentries : fileEntries sender script 0 paths with
  | error e => simp [hentries] at h
  | ok entries =>
    simp only [hentries] at h
    cases hnew : TransferManifest.new script.transferId entries
        (sender.config.deviceName sender.hostname) sender.config.transfer.chunkSize
        sender.platform with
    | none => simp [hnew] at h
    | some built =>
      simp only [hnew, Outcome.ok.injEq] at h
      obtain rfl := h
      simp only [TransferManifest.new, Option.bind_eq_bind, Option.bind_eq_some_iff] at hnew
      obtain ⟨total, -, hbuilt⟩ := hnew
      obtain rfl := Option.some.inj hbuilt
      refine ⟨rfl, length_fileEntries hentries, fun i entry hi => ?_⟩
      rw [index_of_fileEntries hentries hi, Nat.zero_add]

theorem Built.positional (h : Built sender paths manifest) (hpaths : paths.length ≤ 2 ^ 32) :
    manifest.Positional := by
  intro i entry hi
  have hlt := (List.getElem?_eq_some_iff.mp hi).1
  rw [h.length] at hlt
  rw [h.index i entry hi]
  simpa using Nat.mod_eq_of_lt (lt_of_lt_of_le hlt hpaths)

/-- Every chunk of the manifest has a number. -/
theorem Built.exists_global (h : Built sender paths manifest) (hpaths : paths.length ≤ 2 ^ 32)
    (hvalid : sender.config.validate = .ok ())
    (hsizes : manifest.sizes.sum < 2 ^ 64) {i k : ℕ} {entry : FileEntry}
    (hi : manifest.files[i]? = some entry)
    (hk : k < chunksOf entry.size.toNat manifest.chunkSize.toNat) :
    ∃ global, globalChunkOffset manifest (UInt32.ofNat i) k = some global := by
  have hchunk : 4096 ≤ manifest.chunkSize.toNat :=
    h.chunkSize ▸ Config.le_chunkSize_of_validate hvalid
  have hsum := two_mul_sumChunks_le (by omega : 2 ≤ manifest.chunkSize.toNat) manifest.files
  have hcounts : manifest.counts.sum < 2 ^ 64 := by
    rw [TransferManifest.sum_counts]
    rw [h.length] at hsum
    unfold TransferManifest.sizes at hsizes
    omega
  rw [← h.index i entry hi]
  exact ⟨_, TransferManifest.globalChunkOffset_index (h.positional hpaths)
    (fun _ _ => Or.inr (by omega)) hcounts hi hk⟩

/-- The chunks of a file can be read while they have a place and a number. -/
theorem exists_plannedOf {skip : Finset ℕ} {chunker : FileChunker} {file : Bytes}
    {offsets : List ℕ}
    (hoffsets : ∀ k ∈ offsets, (∃ global, globalChunkOffset manifest chunker.fileIndex k =
      some global) ∧ ∃ chunk, chunker.readChunk sender.host file k = some chunk) :
    ∃ chunks, plannedOf sender manifest skip chunker file offsets = some chunks := by
  induction offsets with
  | nil => exact ⟨[], rfl⟩
  | cons k offsets ih =>
    rw [List.forall_mem_cons] at hoffsets
    obtain ⟨⟨global, hglobal⟩, chunk, hread⟩ := hoffsets.1
    obtain ⟨rest, hrest⟩ := ih hoffsets.2
    simp only [plannedOf, hglobal, hrest, hread, Option.bind_eq_bind, Option.bind_some,
      Option.map_some]
    split_ifs
    · exact ⟨_, rfl⟩
    · exact ⟨_, rfl⟩

/-- A stable file is read in as many chunks as the receiver expects of it. -/
theorem Stable.exists_plan (hbits : sender.host.usizeBits = 64)
    (hchunkSize : manifest.chunkSize.toNat ≠ 0) (skip : Finset ℕ) {i : ℕ} {entry : FileEntry}
    {path : Path} {file : Bytes} (h : Stable sender script manifest entry path file)
    (hglobal : ∀ k < chunksOf entry.size.toNat manifest.chunkSize.toNat,
      ∃ global, globalChunkOffset manifest (UInt32.ofNat i) k = some global) :
    ∃ chunker count chunks, chunkerOf sender script i (entry, path) = .ok chunker ∧
      chunker.chunkCount = some count ∧
      plannedOf sender manifest skip chunker ((script.streamed path).getD []) (List.range count) =
        some chunks := by
  have hsize : file.length < 2 ^ 64 := h.length ▸ entry.size.toNat_lt
  have hroom : manifest.chunkSize.toNat < 2 ^ 63 := lt_trans manifest.chunkSize.toNat_lt (by decide)
  have hstreamed : (script.streamed path).getD [] = file := by
    rw [h.streamed]
    rfl
  rw [h.length] at hglobal
  rw [hstreamed]
  set chunker : FileChunker := {
    path, fileIndex := UInt32.ofNat i, chunkSize := manifest.chunkSize.toNat
    fileSize := file.length }
  have hchunks : ∃ chunks, plannedOf sender manifest skip chunker file
      (List.range (chunksOf file.length manifest.chunkSize.toNat)) = some chunks := by
    refine exists_plannedOf fun k hk => ?_
    have hk := List.mem_range.mp hk
    exact ⟨hglobal k hk, _, FileChunker.readChunk_eq hbits rfl hsize hroom
      (mul_lt_of_lt_chunksOf hsize hk)⟩
  obtain ⟨chunks, hchunks⟩ := hchunks
  exact ⟨chunker, _, chunks, h.chunkerOf_eq i, count_eq_some.mpr ⟨Or.inr hchunkSize, rfl⟩, hchunks⟩

/-- What the files of a transfer are while their chunks are sent. -/
def Undisturbed (sender : SendTransfer) (script : SendScript) (manifest : TransferManifest)
    (paths : List Path) : Prop :=
  ∀ file ∈ manifest.files.zip paths,
    ∃ bytes, Stable sender script manifest file.1 file.2 bytes ∧
      min manifest.chunkSize.toNat bytes.length ≤ maxChunkData

theorem exists_plannedFrom (hbits : sender.host.usizeBits = 64)
    (hchunkSize : manifest.chunkSize.toNat ≠ 0) {skip : Finset ℕ} {i : ℕ}
    {files : List (FileEntry × Path)}
    (hfiles : ∀ file ∈ files, ∃ bytes, Stable sender script manifest file.1 file.2 bytes)
    (hglobal : ∀ j file, files[j]? = some file →
      ∀ k < chunksOf file.1.size.toNat manifest.chunkSize.toNat,
        ∃ global, globalChunkOffset manifest (UInt32.ofNat (i + j)) k = some global) :
    ∃ chunks, plannedFrom sender script manifest skip i files = some chunks := by
  induction files generalizing i with
  | nil => exact ⟨[], rfl⟩
  | cons file files ih =>
    rw [List.forall_mem_cons] at hfiles
    obtain ⟨bytes, hstable⟩ := hfiles.1
    obtain ⟨chunker, count, first, hchunker, hcount, hfirst⟩ :=
      hstable.exists_plan hbits hchunkSize skip (hglobal 0 file rfl)
    obtain ⟨rest, hrest⟩ := ih hfiles.2 fun j other hj k hk => by
      have h := hglobal (j + 1) other (by simpa using hj) k hk
      rwa [show i + (j + 1) = i + 1 + j by omega] at h
    rw [Nat.add_zero] at hchunker
    exact ⟨first ++ rest, by simp [plannedFrom, hchunker, hcount, hfirst, hrest]⟩

theorem Stable.steady (hbits : sender.host.usizeBits = 64) {file : FileEntry × Path}
    {bytes : Bytes} (h : Stable sender script manifest file.1 file.2 bytes) :
    Steady sender script file := by
  constructor
  · intro other hother
    rw [h.streamed] at hother
    obtain rfl := Option.some.inj hother
    exact h.length.symm
  · rw [hbits]
    exact file.1.size.toNat_lt

/-- Without skipped chunks the byte count and the data are the size of all files. -/
theorem weightFrom_of_stable (hbits : sender.host.usizeBits = 64)
    (hfiles : ∀ file ∈ manifest.files.zip paths,
      ∃ bytes, Stable sender script manifest file.1 file.2 bytes)
    (hsizes : sizesOf (manifest.files.zip paths) = manifest.sizes) {chunks : List ReadChunk}
    (hplanned : plannedFrom sender script manifest ∅ 0 (manifest.files.zip paths) = some chunks) :
    weightFrom sender script manifest ∅ 0 (manifest.files.zip paths) = manifest.sizes.sum ∧
      (chunks.map fun chunk => chunk.data.length).sum = manifest.sizes.sum := by
  have hsteady : ∀ file ∈ manifest.files.zip paths, Steady sender script file := by
    intro file hfile
    obtain ⟨bytes, hstable⟩ := hfiles file hfile
    exact hstable.steady hbits
  obtain ⟨hweight, hdata, hdivisible⟩ := weightFrom_eq hsteady hplanned
  rw [hsizes] at hweight hdata hdivisible
  have hnone := skips_empty manifest
  have hall := ChunkBytes.allFrom_eq_sum sender.chunkSizeOf hdivisible (i := 0)
  constructor
  · rw [hweight, ← hall]
    refine (ChunkBytes.countedFrom_eq_iff _).mpr fun j _ _ k _ hmark => ?_
    rw [hnone] at hmark
    exact absurd hmark Bool.false_ne_true
  · rw [hdata, ← hall]
    exact ChunkBytes.unmarkedFrom_of_none _ hnone

/-- A run that returns hands out the identifier of its manifest. -/
theorem transferId_of_sendFiles {world world' : SendWorld} {transferId : TransferId}
    (hmanifest : sender.buildManifest script paths = .ok manifest)
    (h : sendFiles sender peer paths script world = (.ok transferId, world')) :
    transferId = manifest.transferId := by
  cases hsession : sender.openSession peer script with
  | err e => simp [sendFiles, hmanifest, hsession] at h
  | panic => simp [sendFiles, hmanifest, hsession] at h
  | ok session =>
    rw [sendFiles_eq hmanifest hsession] at h
    obtain ⟨_, _, -, h₁⟩ := Task.bind_eq_ok.mp h
    obtain ⟨_, _, -, h₂⟩ := Task.bind_eq_ok.mp h₁
    obtain ⟨_, _, -, h₃⟩ := Task.bind_eq_ok.mp h₂
    obtain ⟨_, _, -, h₄⟩ := Task.bind_eq_ok.mp h₃
    obtain ⟨_, _, -, h₅⟩ := Task.bind_eq_ok.mp h₄
    obtain ⟨_, _, -, h₆⟩ := Task.bind_eq_ok.mp h₅
    exact (Outcome.ok.inj (congrArg Prod.fst h₆)).symm

end SendTransfer

/-! ### Both ends -/

/-- A turn in which nothing fails and this message is received. -/
def SendTurn.calm (message : Message) : SendTurn :=
  { readFault := false, sendFault := false, recv := .ok (some message) }

/-- A chunk as it is delivered. -/
def ReadChunk.delivery (chunk : ReadChunk) : RecvTransfer.Delivery := (chunk.id, chunk.data)

/-- What a receiver with nothing stored is handed by an honest sender. -/
def SendTransfer.honestScript (sender : SendTransfer) (sendScript : SendScript)
    (manifest : TransferManifest) (paths : List Path) (remoteStatic : PublicKey)
    (decision : Option IncomingTransferDecision) : Script :=
  RecvTransfer.peerScript remoteStatic manifest decision
    (((sender.plannedFrom sendScript manifest ∅ 0 (manifest.files.zip paths)).getD []).map
      ReadChunk.delivery)
    (computeManifestHash sender.host.sha256 manifest)

section Completion
variable {sender : SendTransfer} {peer : DeviceInfo} {paths : List Path} {sendScript : SendScript}
  {receiver : RecvTransfer} {world : World} {manifest : TransferManifest}
  {remoteStatic : PublicKey} {decision : Option IncomingTransferDecision}
  {chunks : List ReadChunk}

/-- The chunks of undisturbed files fit the channel. -/
theorem SendTransfer.Undisturbed.fits (hbits : sender.host.usizeBits = 64)
    (hpaths : paths.length ≤ 2 ^ 32)
    (hfiles : sender.Undisturbed sendScript manifest paths)
    (hplanned : sender.plannedFrom sendScript manifest ∅ 0 (manifest.files.zip paths) = some chunks)
    {chunk : ReadChunk} (hchunk : chunk ∈ chunks) : chunk.message.Fits := by
  obtain ⟨⟨entry, path⟩, -, -, hi, -⟩ := file_of_planned hpaths hplanned hchunk
  obtain ⟨bytes, hstable, hle⟩ := hfiles _ (List.mem_of_getElem? hi)
  obtain ⟨hdata, -⟩ := slot_of_planned hbits hpaths hplanned hchunk hi hstable
  rw [ReadChunk.message, fits_chunkData, hdata, length_slot]
  omega

/-- The chunks of undisturbed files are what a receiver with nothing stored accepts. -/
theorem SendTransfer.Undisturbed.acceptable (hbits : sender.host.usizeBits = 64)
    (hpaths : paths.length ≤ 2 ^ 32) (hchunkSize : manifest.chunkSize.toNat ≠ 0)
    (hmanifest : sender.buildManifest sendScript paths = .ok manifest)
    (hfiles : sender.Undisturbed sendScript manifest paths)
    (hplanned : sender.plannedFrom sendScript manifest ∅ 0 (manifest.files.zip paths) =
      some chunks) :
    RecvTransfer.Acceptable receiver manifest none (chunks.map ReadChunk.delivery) := by
  have hbuilt := built_of_buildManifest hmanifest
  obtain ⟨hsizes, htotal⟩ := buildManifest_sizes hmanifest
  have hstable : ∀ file ∈ manifest.files.zip paths,
      ∃ bytes, Stable sender sendScript manifest file.1 file.2 bytes := fun file hfile =>
    (hfiles file hfile).imp fun _ h => h.1
  constructor
  · exact ⟨.accept, rfl, by decide⟩
  · exact fun _ _ => Or.inr hchunkSize
  · intro delivery hdelivery
    obtain ⟨chunk, hchunk, rfl⟩ := List.mem_map.mp hdelivery
    obtain ⟨⟨entry, path⟩, -, -, hi, -⟩ := file_of_planned hpaths hplanned hchunk
    obtain ⟨bytes, hstable⟩ := hstable _ (List.mem_of_getElem? hi)
    obtain ⟨-, hlt⟩ := slot_of_planned hbits hpaths hplanned hchunk hi hstable
    exact ⟨entry, (List.getElem?_zip_eq_some.mp hi).1, hstable.length ▸ hlt⟩
  · obtain ⟨-, hdata⟩ := weightFrom_of_stable hbits hstable hsizes hplanned
    have hlengths : ((chunks.map ReadChunk.delivery).map fun chunk => chunk.2.length).sum =
        manifest.sizes.sum := by
      rw [List.map_map]
      exact hdata
    rw [hlengths, ← htotal]
    simpa [RecvTransfer.bytesBefore] using manifest.totalSize.toNat_lt
  · intro i entry hi k hk
    obtain ⟨hlt, -⟩ := List.getElem?_eq_some_iff.mp hi
    rw [hbuilt.length] at hlt
    have hzip : (manifest.files.zip paths)[i]? = some (entry, paths[i]) :=
      List.getElem?_zip_eq_some.mpr ⟨hi, List.getElem?_eq_getElem hlt⟩
    obtain ⟨bytes, hstable⟩ := hstable _ (List.mem_of_getElem? hzip)
    have hchunker := hstable.chunkerOf_eq (0 + i)
    rw [hstable.length] at hk
    obtain ⟨_, -, hskip | ⟨chunk, hchunk, hread⟩⟩ := exists_mem_plannedFrom hplanned hzip hchunker
      (count_eq_some.mpr ⟨Or.inr hchunkSize, rfl⟩) hk
    · exact absurd hskip (Finset.notMem_empty _)
    · have hk64 : k < 2 ^ 64 := by
        have hle := chunksOf_le bytes.length manifest.chunkSize.toNat
        have hsize := entry.size.toNat_lt
        rw [hstable.length] at hsize
        omega
      have hid := FileChunker.id_readChunk hread
      refine RecvTransfer.mem_offsetsOf.mpr ⟨chunk.delivery, List.mem_map_of_mem hchunk, ?_, ?_⟩
      · rw [ReadChunk.delivery, hid, Nat.zero_add]
        simpa using Nat.mod_eq_of_lt (lt_of_lt_of_le hlt hpaths)
      · rw [ReadChunk.delivery, hid]
        simpa using Nat.mod_eq_of_lt hk64

/-- What a calm peer hands over are its request, its chunks and its completion. -/
theorem received_peerScript (chunks : List ReadChunk) (manifestHash : Sha256Hash) :
    (RecvTransfer.peerScript remoteStatic manifest decision (chunks.map ReadChunk.delivery)
        manifestHash).received =
      .transferRequest manifest :: (chunks.map ReadChunk.message ++
        [.transferComplete manifestHash]) := by
  have hchunks : (RecvTransfer.chunkTurns (chunks.map ReadChunk.delivery)).filterMap
      (fun turn => turn.recv.toOption.join) = chunks.map ReadChunk.message := by
    rw [RecvTransfer.chunkTurns, List.map_map, List.filterMap_map]
    exact congrFun List.filterMap_eq_map chunks
  rw [Script.received, List.filterMap_cons]
  simp only [RecvTransfer.peerScript, List.filterMap_append, hchunks]
  rfl

/-- The turns of a sender that is answered by a receiver with nothing stored. -/
theorem SendTransfer.smooth_of_answers
    (hanswers : sendScript.turns = (.transferResponse .accept ::
      ((chunks.map ReadChunk.delivery).map (RecvTransfer.acknowledgement receiver) ++
        [.transferVerified true none])).map SendTurn.calm)
    (hplanned : sender.plannedFrom sendScript manifest ∅ 0 (manifest.files.zip paths) = some chunks)
    (hfits : ∀ chunk ∈ chunks, chunk.message.Fits)
    (hcounted : sender.weightFrom sendScript manifest ∅ 0 (manifest.files.zip paths) < 2 ^ 64)
    (hshutdown : sendScript.shutdownFault = false) :
    Smooth sender sendScript manifest paths chunks := by
  have hfirst : firstTurn sendScript = SendTurn.calm (.transferResponse .accept) := by
    rw [firstTurn, hanswers]
    rfl
  have hmarked : markedBy manifest (firstTurn sendScript) = ∅ := by
    rw [hfirst]
    rfl
  have hrest : sendScript.turns.tail =
      (chunks.map fun chunk =>
        SendTurn.calm (RecvTransfer.acknowledgement receiver chunk.delivery)) ++
        [SendTurn.calm (.transferVerified true none)] := by
    rw [hanswers]
    simp
  constructor
  · exact Or.inl (by rw [hfirst]; rfl)
  · rw [planned, hmarked, hplanned]
  · intro j chunk hj
    have hlt := (List.getElem?_eq_some_iff.mp hj).1
    refine ⟨SendTurn.calm (RecvTransfer.acknowledgement receiver chunk.delivery), ?_, rfl, rfl,
      hfits chunk (List.mem_of_getElem? hj), _, rfl⟩
    rw [hrest, List.getElem?_append_left (by simpa using hlt), List.getElem?_map, hj]
    rfl
  · rwa [hmarked]
  · refine ⟨SendTurn.calm (.transferVerified true none), ?_, rfl, none, rfl⟩
    rw [hrest, List.getElem?_append_right (by simp)]
    simp
  · exact hshutdown

end Completion
end JustDrop

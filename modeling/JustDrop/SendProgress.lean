import JustDrop.ChunkBytes
import JustDrop.Progress
import JustDrop.Streaming

/-!
# What the sender counts

The sender adds a skipped chunk as a whole one and a sent chunk with the length of
its data, and reports after each chunk that was sent. Whatever the peer answers and
wherever a run ends, its reports climb, and they stay below the count that all chunks
together would reach.
-/
namespace JustDrop

namespace FileChunker
variable {host : ReadHost} {chunker : FileChunker} {file : Bytes} {k : ℕ} {chunk : ReadChunk}

theorem length_readChunk_le_chunkLength (h : chunker.readChunk host file k = some chunk) :
    chunk.data.length ≤ chunkLength chunker.fileSize chunker.chunkSize k := by
  obtain ⟨-, -, rfl⟩ := readChunk_eq_some.mp h
  simp only [readSize, List.length_take, List.length_drop, chunkLength]
  have hmod : (chunker.fileSize - k * chunker.chunkSize) % 2 ^ host.usizeBits ≤
      chunker.fileSize - k * chunker.chunkSize := Nat.mod_le _ _
  omega

/-- A file whose size fits `usize` is read in whole chunks. -/
theorem length_readChunk (hfile : file.length = chunker.fileSize)
    (hbits : chunker.fileSize < 2 ^ host.usizeBits)
    (h : chunker.readChunk host file k = some chunk) :
    chunk.data.length = chunkLength chunker.fileSize chunker.chunkSize k := by
  obtain ⟨-, -, rfl⟩ := readChunk_eq_some.mp h
  simp only [readSize, List.length_take, List.length_drop, chunkLength]
  rw [Nat.mod_eq_of_lt (by omega)]
  omega

end FileChunker

namespace SendTransfer
open SendWorld ChunkBytes

variable {sender : SendTransfer} {peer : DeviceInfo} {paths : List Path} {script : SendScript}
  {manifest : TransferManifest} {skip : Finset ℕ}

/-! ### The byte count -/

/-- Streaming the files, with the byte count at the end. -/
def countFiles (sender : SendTransfer) (script : SendScript) (manifest : TransferManifest)
    (skip : Finset ℕ) : ℕ → List (FileEntry × Path) → ℕ → Task SendWorld ProtocolError ℕ
  | _, [], bytesSent => pure bytesSent
  | i, file :: files, bytesSent =>
    match chunkerOf sender script i file with
    | .error e => Task.fail (.serialization "chunker" (.storage e))
    | .ok chunker => do
      let count ← Task.ofChecked chunker.chunkCount
      let bytesSent ← sendChunks sender manifest skip chunker ((script.streamed file.2).getD [])
        (List.range count) bytesSent
      countFiles sender script manifest skip (i + 1) files bytesSent

/-- The files are streamed as the source streams them; the count is what it drops. -/
theorem streamFiles_eq_countFiles (i : ℕ) (files : List (FileEntry × Path)) (bytesSent : ℕ) :
    streamFiles sender script manifest skip i files bytesSent =
      (countFiles sender script manifest skip i files bytesSent >>= fun _ => pure ()) := by
  induction files generalizing i bytesSent with
  | nil => rfl
  | cons file files ih =>
    unfold streamFiles countFiles
    rw [chunkerOf]
    cases hopen : FileChunker.open file.2 (script.streamed file.2) (UInt32.ofNat i)
        (effectiveChunkSize file.1.size.toNat sender.config.transfer.chunkSize.toNat) with
    | error e => rfl
    | ok chunker =>
      simp only [Task.bind_assoc]
      congr
      funext count
      congr
      funext bytes
      exact ih (i + 1) bytes

theorem countFiles_eq_ok {files : List (FileEntry × Path)} {i bytesSent n : ℕ}
    {world world' : SendWorld}
    (h : countFiles sender script manifest skip i files bytesSent world = (.ok n, world')) :
    (∃ chunks, plannedFrom sender script manifest skip i files = some chunks) ∧
      n = bytesSent + weightFrom sender script manifest skip i files := by
  induction files generalizing i bytesSent world with
  | nil =>
    obtain ⟨hn, rfl⟩ := Prod.mk.inj h
    exact ⟨⟨[], rfl⟩, (Outcome.ok.inj hn).symm⟩
  | cons file files ih =>
    unfold countFiles at h
    cases hchunker : chunkerOf sender script i file with
    | error e => simp [hchunker] at h
    | ok chunker =>
      simp only [hchunker] at h
      obtain ⟨count, start, hcount, h₁⟩ := Task.bind_eq_ok.mp h
      obtain ⟨bytes, middle, hfirst, h₂⟩ := Task.bind_eq_ok.mp h₁
      obtain ⟨hlength, rfl⟩ := Task.ofChecked_eq_ok.mp hcount
      obtain ⟨chunks, hplanned, -, rfl, -⟩ := sendChunks_eq_ok hfirst
      obtain ⟨⟨rest, hrest⟩, rfl⟩ := ih h₂
      refine ⟨⟨chunks ++ rest, ?_⟩, ?_⟩
      · simp [plannedFrom, hchunker, hlength, hplanned, hrest]
      · simp only [weightFrom, hchunker, hlength, Option.getD_some]
        omega

/-- What the start of a run has and the request keeps, and what streaming the files and
the completion make of it, holds at the end. -/
theorem leaves_sendFiles {P F : SendWorld → Prop} {world : SendWorld}
    (hmanifest : sender.buildManifest script paths = .ok manifest) (hworld : F world)
    (hstart : ∀ session, P { world with
      codec := ProtocolCodec.new (SecureTransport.new session []), turns := script.turns })
    (hnegotiate : Task.Keeps P (negotiate sender manifest)) (hmore : ∀ after, P after → F after)
    (hstream : Responds manifest (firstTurn script) → ∀ after, P after →
      F ((countFiles sender script manifest (markedBy manifest (firstTurn script)) 0
        (manifest.files.zip paths) 0 >>= fun _ => finish sender script manifest) after).2) :
    F (sendFiles sender peer paths script world).2 := by
  cases hsession : sender.openSession peer script with
  | err e =>
    simp only [sendFiles, hmanifest, hsession]
    exact hworld
  | panic =>
    simp only [sendFiles, hmanifest, hsession]
    exact hworld
  | ok session =>
    rw [sendFiles_eq hmanifest hsession]
    have hkept := hnegotiate _ (hstart session)
    generalize hbegun : ({ world with
      codec := ProtocolCodec.new (SecureTransport.new session [])
      turns := script.turns } : SendWorld) = begun at hkept
    have hfirst : begun.turns.headD .closed = firstTurn script := by
      rw [← hbegun]
      rfl
    rcases hrun : negotiate sender manifest begun with ⟨skip | e | _, after⟩ <;>
      rw [hrun] at hkept
    · obtain ⟨hresponds, rfl, -, -⟩ := negotiate_eq_ok hrun
      rw [hfirst] at hresponds
      rw [transfer, Task.bind_of_ok hrun, hfirst, streamFiles_eq_countFiles, Task.bind_assoc]
      exact hstream hresponds after hkept
    · rw [transfer, Task.bind_of_err hrun]
      exact hmore after hkept
    · rw [transfer, Task.bind_of_panic hrun]
      exact hmore after hkept

/-! ### Reports of a run -/

/-- After `before`, the events of the run report up to `bytes` of the manifest's total. -/
def ReportsTo (manifest : TransferManifest) (before : List TransferEvent) (bytes : ℕ)
    (world : SendWorld) : Prop :=
  Reported manifest.totalSize.toNat bytes before world.events

section Reported
variable {before : List TransferEvent} {bytes bytes' : ℕ} {world : SendWorld}

theorem ReportsTo.mono (h : ReportsTo manifest before bytes world) (hle : bytes ≤ bytes') :
    ReportsTo manifest before bytes' world := Reported.mono h hle

/-- A chunk is reported when it has been acknowledged, with the count it brings. -/
theorem ensures_sendChunk_reported (chunker : FileChunker) (file : Bytes) (bytesSent k : ℕ) :
    Task.Ensures (ReportsTo manifest before bytesSent)
      (sendChunk sender manifest skip chunker file bytesSent k)
      (fun n world => n = bytesSent + weight sender manifest skip chunker file k ∧
        ReportsTo manifest before n world)
      (ReportsTo manifest before bytesSent) := by
  have hreports : Task.Ensures (ReportsTo manifest before bytesSent)
      (sendChunk sender manifest skip chunker file bytesSent k)
      (ReportsTo manifest before) (ReportsTo manifest before bytesSent) := by
    refine Task.Ensures.bind_keeps (Task.Keeps.ofChecked _) (fun _ h => h) fun globalOffset => ?_
    split_ifs
    · refine Task.Ensures.ofChecked (fun n hn world h => ?_) fun _ h => h
      obtain ⟨-, rfl⟩ := checkedAdd_eq_some.mp hn
      exact h.mono (Nat.le_add_right _ _)
    · refine Task.Ensures.bind_keeps (fun _ h => h) (fun _ h => h) fun turn => ?_
      refine Task.Ensures.bind_keeps (Task.Keeps.when _ (Task.Keeps.fail _)) (fun _ h => h)
        fun _ => ?_
      refine Task.Ensures.bind_keeps (Task.Keeps.ofChecked _) (fun _ h => h) fun chunk => ?_
      refine Task.Ensures.bind_keeps (keeps_exchange_of (fun _ _ h => h) _ _ _) (fun _ h => h)
        fun reply => ?_
      refine Task.Ensures.bind_keeps (keeps_awaitAck_of (fun _ _ h => h) _ _) (fun _ h => h)
        fun _ => ?_
      refine Task.Ensures.ofChecked_bind (fun _ h => h) fun n hn => ?_
      obtain ⟨-, rfl⟩ := checkedAdd_eq_some.mp hn
      refine Task.Ensures.bind (Q := fun _ => ReportsTo manifest before
        (bytesSent + chunk.data.length)) (Task.Ensures.modify fun world h => ?_)
        fun _ => Task.Ensures.pure fun _ h => h
      exact Reported.progress h (Nat.le_add_right _ _) rfl
  refine hreports.of_ok fun world n world' h hreported => ⟨?_, hreported⟩
  obtain ⟨-, -, -, hn, -⟩ := sendChunk_eq_ok h
  exact hn

theorem ensures_sendChunks_reported (chunker : FileChunker) (file : Bytes) (offsets : List ℕ)
    (bytesSent : ℕ) :
    Task.Ensures (ReportsTo manifest before bytesSent)
      (sendChunks sender manifest skip chunker file offsets bytesSent)
      (fun n world =>
        n = bytesSent + (offsets.map (weight sender manifest skip chunker file)).sum ∧
          ReportsTo manifest before n world)
      (ReportsTo manifest before
        (bytesSent + (offsets.map (weight sender manifest skip chunker file)).sum)) := by
  induction offsets generalizing bytesSent with
  | nil => exact Task.Ensures.pure fun world h => ⟨rfl, h⟩
  | cons k offsets ih =>
    rw [List.map_cons, List.sum_cons, ← Nat.add_assoc]
    refine Task.Ensures.bind ((ensures_sendChunk_reported chunker file bytesSent k).conseq
      (fun _ _ h => h) fun world h => h.mono (by omega)) fun n => ?_
    intro world h
    obtain ⟨rfl, h⟩ := h
    exact ih _ world h

theorem ensures_countFiles_reported (files : List (FileEntry × Path)) (i bytesSent : ℕ) :
    Task.Ensures (ReportsTo manifest before bytesSent)
      (countFiles sender script manifest skip i files bytesSent)
      (fun _ => ReportsTo manifest before
        (bytesSent + weightFrom sender script manifest skip i files))
      (ReportsTo manifest before
        (bytesSent + weightFrom sender script manifest skip i files)) := by
  induction files generalizing i bytesSent with
  | nil => exact Task.Ensures.pure fun world h => h
  | cons file files ih =>
    unfold countFiles weightFrom
    cases hchunker : chunkerOf sender script i file with
    | error e => exact Task.Ensures.fail _ fun world h => h
    | ok chunker =>
      simp only
      refine Task.Ensures.ofChecked_bind (fun world h => h.mono (by omega)) fun count hcount => ?_
      rw [hcount, Option.getD_some, ← Nat.add_assoc]
      refine Task.Ensures.bind ((ensures_sendChunks_reported chunker _ _ bytesSent).conseq
        (fun _ _ h => h) fun world h => h.mono (by omega)) fun n => ?_
      intro world h
      obtain ⟨rfl, h⟩ := h
      exact ih (i + 1) _ world h

theorem keeps_finish_reported :
    Task.Keeps (ReportsTo manifest before bytes) (finish sender script manifest) := by
  refine Task.Keeps.bind (fun _ h => h) fun turn => ?_
  refine Task.Keeps.bind (keeps_exchange_of (fun _ _ h => h) _ _ _) fun reply => ?_
  refine Task.Keeps.bind ?_ fun _ => ?_
  · unfold awaitVerified
    split
    · exact fun world h => Reported.quiet h rfl
    · exact Task.Keeps.fail _
    · exact Task.Keeps.fail _
  · exact Task.Keeps.bind (Task.Keeps.when _ (Task.Keeps.fail _)) fun _ => Task.Keeps.pure _

/-- Whatever happens, the reports of a run climb to at most the count of all chunks. -/
theorem reported_sendFiles (hmanifest : sender.buildManifest script paths = .ok manifest)
    (world : SendWorld) :
    ReportsTo manifest world.events
      (weightFrom sender script manifest (markedBy manifest (firstTurn script)) 0
        (manifest.files.zip paths)) (sendFiles sender peer paths script world).2 := by
  refine leaves_sendFiles (P := ReportsTo manifest world.events 0) hmanifest ?_ ?_ ?_ ?_ ?_
  · exact Reported.refl _ _ _
  · exact fun _ => Reported.refl _ _ _
  · exact keeps_negotiate_of fun _ _ _ h => h
  · exact fun after h => h.mono (Nat.zero_le _)
  · intro _ after h
    rw [← Nat.zero_add (weightFrom sender _ _ _ _ _)]
    exact Task.Keeps.after ((ensures_countFiles_reported _ 0 0).leaves (fun _ _ h => h) h)
      fun _ => keeps_finish_reported

end Reported

/-! ### The count by the sizes of the manifest -/

/-- The chunk size of a file of this size. -/
def chunkSizeOf (sender : SendTransfer) (size : ℕ) : ℕ :=
  effectiveChunkSize size sender.config.transfer.chunkSize.toNat

/-- Chunk `k` of the file at position `i` is among the skipped ones. -/
def skips (manifest : TransferManifest) (skip : Finset ℕ) (i k : ℕ) : Bool :=
  (globalChunkOffset manifest (UInt32.ofNat i) k).any (· ∈ skip)

@[simp] theorem skips_empty (manifest : TransferManifest) (i k : ℕ) :
    skips manifest ∅ i k = false := by
  unfold skips
  cases globalChunkOffset manifest (UInt32.ofNat i) k <;> simp

def sizesOf (files : List (FileEntry × Path)) : List ℕ := files.map fun file => file.1.size.toNat

/-- The file is streamed as long as its entry says, and this length fits `usize`. -/
structure Steady (sender : SendTransfer) (script : SendScript) (file : FileEntry × Path) :
    Prop where
  unchanged : ∀ bytes, script.streamed file.2 = some bytes → bytes.length = file.1.size.toNat
  addressable : file.1.size.toNat < 2 ^ sender.host.usizeBits

theorem getD_chunkCount (chunker : FileChunker) :
    chunker.chunkCount.getD 0 = chunksOf chunker.fileSize chunker.chunkSize := by
  unfold FileChunker.chunkCount chunksOf divCeil
  split_ifs with hsize hchunk
  · rfl
  · rw [hchunk, ceilDiv_zero]
    rfl
  · rfl

section Sizes
variable {i : ℕ} {file : FileEntry × Path} {files : List (FileEntry × Path)}
  {chunker : FileChunker} {chunks : List ReadChunk}

/-- The chunker of a steady file is about the size in the manifest. -/
theorem Steady.geometry (hsteady : Steady sender script file)
    (h : chunkerOf sender script i file = .ok chunker) :
    chunker.fileIndex = UInt32.ofNat i ∧ chunker.fileSize = file.1.size.toNat ∧
      chunker.chunkSize = sender.chunkSizeOf file.1.size.toNat ∧
      ((script.streamed file.2).getD []).length = chunker.fileSize := by
  unfold chunkerOf FileChunker.open at h
  cases hstreamed : script.streamed file.2 with
  | none => simp [hstreamed] at h
  | some bytes =>
    rw [hstreamed] at h
    obtain rfl := Except.ok.inj h
    exact ⟨rfl, hsteady.unchanged bytes hstreamed, rfl, rfl⟩

/-- A chunk counts for no more than its length, or than a whole chunk where it is skipped. -/
theorem Steady.weight_le (hsteady : Steady sender script file)
    (h : chunkerOf sender script i file = .ok chunker) (k : ℕ) :
    weight sender manifest skip chunker ((script.streamed file.2).getD []) k ≤
      countedLength sender.chunkSizeOf (skips manifest skip) i file.1.size.toNat k := by
  obtain ⟨hindex, hsize, hchunk, -⟩ := hsteady.geometry h
  unfold weight countedLength skips
  rw [hindex, ← hchunk, ← hsize]
  split_ifs
  · exact le_rfl
  · cases hread : chunker.readChunk sender.host ((script.streamed file.2).getD []) k with
    | none => exact Nat.zero_le _
    | some chunk => exact FileChunker.length_readChunk_le_chunkLength hread

/-- A chunk that can be read counts for its length. -/
theorem Steady.weight_eq (hsteady : Steady sender script file)
    (h : chunkerOf sender script i file = .ok chunker) {k : ℕ}
    (hplanned : plannedOf sender manifest skip chunker ((script.streamed file.2).getD []) [k] =
      some chunks) :
    weight sender manifest skip chunker ((script.streamed file.2).getD []) k =
        countedLength sender.chunkSizeOf (skips manifest skip) i file.1.size.toNat k ∧
      (chunks.map fun chunk => chunk.data.length).sum =
        unmarkedLength sender.chunkSizeOf (skips manifest skip) i file.1.size.toNat k := by
  obtain ⟨hindex, hsize, hchunk, hlength⟩ := hsteady.geometry h
  simp only [plannedOf, Option.bind_eq_bind, Option.bind_some, Option.bind_eq_some_iff] at hplanned
  obtain ⟨globalOffset, hglobal, hplanned⟩ := hplanned
  unfold weight countedLength unmarkedLength skips
  rw [← hindex, ← hchunk, ← hsize, hglobal, Option.any_some]
  by_cases hskip : globalOffset ∈ skip
  · rw [if_pos hskip] at hplanned
    obtain rfl := Option.some.inj hplanned
    simp [hskip]
  · rw [if_neg hskip] at hplanned
    obtain ⟨chunk, hread, rfl⟩ := Option.map_eq_some_iff.mp hplanned
    have hdata := FileChunker.length_readChunk hlength (hsize ▸ hsteady.addressable) hread
    simp [hskip, hread, hdata]

theorem Steady.sum_weight_eq (hsteady : Steady sender script file)
    (h : chunkerOf sender script i file = .ok chunker) {offsets : List ℕ}
    (hplanned : plannedOf sender manifest skip chunker ((script.streamed file.2).getD [])
      offsets = some chunks) :
    (offsets.map (weight sender manifest skip chunker ((script.streamed file.2).getD []))).sum =
        (offsets.map (countedLength sender.chunkSizeOf (skips manifest skip) i
          file.1.size.toNat)).sum ∧
      (chunks.map fun chunk => chunk.data.length).sum =
        (offsets.map (unmarkedLength sender.chunkSizeOf (skips manifest skip) i
          file.1.size.toNat)).sum := by
  induction offsets generalizing chunks with
  | nil =>
    obtain rfl := Option.some.inj hplanned
    exact ⟨rfl, rfl⟩
  | cons k offsets ih =>
    obtain ⟨first, rest, hfirst, hrest, rfl⟩ := plannedOf_cons_iff.mp hplanned
    obtain ⟨hweight, hdata⟩ := hsteady.weight_eq h hfirst
    obtain ⟨hweights, hdatas⟩ := ih hrest
    simp only [List.map_cons, List.sum_cons, List.map_append, List.sum_append]
    exact ⟨by rw [hweight, hweights], by rw [hdata, hdatas]⟩

/-- The count of a run is at most what skipping whole chunks would give. -/
theorem weightFrom_le (hsteady : ∀ file ∈ files, Steady sender script file) :
    weightFrom sender script manifest skip i files ≤
      countedFrom sender.chunkSizeOf (skips manifest skip) i (sizesOf files) := by
  induction files generalizing i with
  | nil => exact le_rfl
  | cons file files ih =>
    rw [List.forall_mem_cons] at hsteady
    unfold weightFrom
    cases hchunker : chunkerOf sender script i file with
    | error e => exact Nat.zero_le _
    | ok chunker =>
      obtain ⟨-, hsize, hchunk, -⟩ := hsteady.1.geometry hchunker
      simp only
      rw [getD_chunkCount, hsize, hchunk]
      refine Nat.add_le_add ?_ (ih hsteady.2)
      exact List.sum_le_sum fun k _ => hsteady.1.weight_le hchunker k

/-- When all chunks can be read, the count and the data that is sent are what the sizes
and the skipped chunks say. -/
theorem weightFrom_eq (hsteady : ∀ file ∈ files, Steady sender script file)
    (h : plannedFrom sender script manifest skip i files = some chunks) :
    weightFrom sender script manifest skip i files =
        countedFrom sender.chunkSizeOf (skips manifest skip) i (sizesOf files) ∧
      (chunks.map fun chunk => chunk.data.length).sum =
        unmarkedFrom sender.chunkSizeOf (skips manifest skip) i (sizesOf files) ∧
      ∀ size ∈ sizesOf files, Divisible size (sender.chunkSizeOf size) := by
  induction files generalizing i chunks with
  | nil =>
    obtain rfl := Option.some.inj h
    exact ⟨rfl, rfl, by simp [sizesOf]⟩
  | cons file files ih =>
    rw [List.forall_mem_cons] at hsteady
    obtain ⟨chunker, count, first, rest, hchunker, hcount, hfirst, hrest, rfl⟩ :=
      plannedFrom_cons_eq_some h
    obtain ⟨-, hsize, hchunk, -⟩ := hsteady.1.geometry hchunker
    obtain ⟨hdivisible, hcount⟩ := count_eq_some.mp hcount
    rw [hsize, hchunk] at hdivisible hcount
    obtain ⟨hweights, hdatas⟩ := hsteady.1.sum_weight_eq hchunker hfirst
    obtain ⟨hweightsRest, hdatasRest, hdivisibleRest⟩ := ih hsteady.2 hrest
    rw [hcount] at hweights hdatas
    refine ⟨?_, ?_, ?_⟩
    · simp only [weightFrom, hchunker]
      rw [getD_chunkCount, hsize, hchunk, hweights, hweightsRest]
      rfl
    · rw [List.map_append, List.sum_append, hdatas, hdatasRest]
      rfl
    · exact List.forall_mem_cons.mpr ⟨hdivisible, hdivisibleRest⟩

end Sizes

/-! ### The data that leaves the sender -/

/-- The messages that have been sent carry at most `bytes` of data. -/
def SendsAtMost (bytes : ℕ) (world : SendWorld) : Prop := dataBytes world.codec.sent ≤ bytes

section Data
variable {i : ℕ} {file : FileEntry × Path} {chunker : FileChunker} {bytes bytes' : ℕ}
  {world : SendWorld}

theorem SendsAtMost.mono (h : SendsAtMost bytes world) (hle : bytes ≤ bytes') :
    SendsAtMost bytes' world := h.trans hle

theorem keeps_send_data {noise : Noise} {message : Message} (h : message.dataSize = 0) :
    Task.Keeps (fun codec : ProtocolCodec => dataBytes codec.sent ≤ bytes)
      (ProtocolCodec.send noise message) := by
  intro codec hbytes
  rcases (ProtocolCodec.send_cases noise message codec).2 with ⟨-, -, hsent⟩ | ⟨-, hsent⟩
  · rw [hsent, dataBytes_append, dataBytes_cons, h]
    exact hbytes
  · rw [hsent]
    exact hbytes

theorem SendsAtMost.exchange (h : SendsAtMost bytes world) (noise : Noise) (turn : SendTurn)
    (message : Message) :
    SendsAtMost (bytes + message.dataSize) (exchange noise turn message world).2 := by
  rw [exchange_snd]
  rcases (ProtocolCodec.send_cases noise message (world.codec.withWriteFault turn.sendFault)).2
    with ⟨-, -, hsent⟩ | ⟨-, hsent⟩
  · show dataBytes (ProtocolCodec.send noise message _).2.sent ≤ _
    rw [hsent, dataBytes_append, dataBytes_cons, dataBytes_nil, Nat.add_zero]
    exact Nat.add_le_add_right h _
  · show dataBytes (ProtocolCodec.send noise message _).2.sent ≤ _
    rw [hsent]
    exact h.trans (Nat.le_add_right _ _)

/-- A chunk that is not skipped may go out, even when it is not acknowledged. -/
theorem Steady.ensures_sendChunk_data (hsteady : Steady sender script file)
    (h : chunkerOf sender script i file = .ok chunker) (bytesSent k : ℕ) :
    Task.Ensures (SendsAtMost bytes)
      (sendChunk sender manifest skip chunker ((script.streamed file.2).getD []) bytesSent k)
      (fun _ => SendsAtMost (bytes +
        unmarkedLength sender.chunkSizeOf (skips manifest skip) i file.1.size.toNat k))
      (SendsAtMost (bytes +
        unmarkedLength sender.chunkSizeOf (skips manifest skip) i file.1.size.toNat k)) := by
  obtain ⟨hindex, hsize, hchunk, -⟩ := hsteady.geometry h
  have hmore : ∀ world : SendWorld, SendsAtMost bytes world → SendsAtMost (bytes +
      unmarkedLength sender.chunkSizeOf (skips manifest skip) i file.1.size.toNat k) world :=
    fun _ h => h.mono (Nat.le_add_right _ _)
  refine Task.Ensures.ofChecked_bind hmore fun globalOffset hglobal => ?_
  by_cases hskip : globalOffset ∈ skip
  · rw [if_pos hskip]
    exact Task.Ensures.ofChecked (fun _ _ => hmore) hmore
  · rw [if_neg hskip]
    refine Task.Ensures.bind_keeps (fun _ h => h) hmore fun turn => ?_
    refine Task.Ensures.bind_keeps (Task.Keeps.when _ (Task.Keeps.fail _)) hmore fun _ => ?_
    refine Task.Ensures.ofChecked_bind hmore fun chunk hread => ?_
    have hlength : chunk.data.length ≤
        unmarkedLength sender.chunkSizeOf (skips manifest skip) i file.1.size.toNat k := by
      rw [hindex] at hglobal
      simp only [unmarkedLength, skips, hglobal, Option.any_some, hskip, decide_false,
        Bool.false_eq_true, if_false]
      rw [← hchunk, ← hsize]
      exact FileChunker.length_readChunk_le_chunkLength hread
    refine Task.Ensures.bind (Task.Ensures.of_snd fun world h =>
      (h.exchange sender.noise turn _).mono (Nat.add_le_add_left hlength bytes))
      fun reply => Task.Ensures.of_snd ?_
    refine Task.Keeps.bind (keeps_awaitAck_of (fun _ _ h => h) _ _) fun _ => ?_
    refine Task.Keeps.bind (Task.Keeps.ofChecked _) fun _ => ?_
    exact Task.Keeps.bind (fun _ h => h) fun _ => Task.Keeps.pure _

theorem Steady.ensures_sendChunks_data (hsteady : Steady sender script file)
    (h : chunkerOf sender script i file = .ok chunker) (offsets : List ℕ) (bytesSent : ℕ) :
    Task.Ensures (SendsAtMost bytes)
      (sendChunks sender manifest skip chunker ((script.streamed file.2).getD []) offsets
        bytesSent)
      (fun _ => SendsAtMost (bytes + (offsets.map (unmarkedLength sender.chunkSizeOf
        (skips manifest skip) i file.1.size.toNat)).sum))
      (SendsAtMost (bytes + (offsets.map (unmarkedLength sender.chunkSizeOf
        (skips manifest skip) i file.1.size.toNat)).sum)) := by
  induction offsets generalizing bytesSent bytes with
  | nil => exact Task.Ensures.pure fun _ h => h
  | cons k offsets ih =>
    rw [List.map_cons, List.sum_cons, ← Nat.add_assoc]
    refine Task.Ensures.bind ((hsteady.ensures_sendChunk_data h bytesSent k).conseq
      (fun _ _ h => h) fun world h => h.mono (Nat.le_add_right _ _)) fun n => ?_
    exact ih n

theorem ensures_countFiles_data {files : List (FileEntry × Path)}
    (hsteady : ∀ file ∈ files, Steady sender script file) (bytesSent : ℕ) :
    Task.Ensures (SendsAtMost bytes)
      (countFiles sender script manifest skip i files bytesSent)
      (fun _ => SendsAtMost (bytes +
        unmarkedFrom sender.chunkSizeOf (skips manifest skip) i (sizesOf files)))
      (SendsAtMost (bytes +
        unmarkedFrom sender.chunkSizeOf (skips manifest skip) i (sizesOf files))) := by
  induction files generalizing i bytesSent bytes with
  | nil => exact Task.Ensures.pure fun _ h => h
  | cons file files ih =>
    rw [List.forall_mem_cons] at hsteady
    have hmore : ∀ world : SendWorld, SendsAtMost bytes world → SendsAtMost (bytes +
        unmarkedFrom sender.chunkSizeOf (skips manifest skip) i (sizesOf (file :: files))) world :=
      fun _ h => h.mono (Nat.le_add_right _ _)
    unfold countFiles
    cases hchunker : chunkerOf sender script i file with
    | error e => exact Task.Ensures.fail _ hmore
    | ok chunker =>
      obtain ⟨-, hsize, hchunk, -⟩ := hsteady.1.geometry hchunker
      refine Task.Ensures.ofChecked_bind hmore fun count hcount => ?_
      obtain ⟨-, rfl⟩ := count_eq_some.mp hcount
      have hsum : unmarkedFrom sender.chunkSizeOf (skips manifest skip) i
          (sizesOf (file :: files)) =
            ((List.range (chunksOf file.1.size.toNat
              (sender.chunkSizeOf file.1.size.toNat))).map (unmarkedLength sender.chunkSizeOf
                (skips manifest skip) i file.1.size.toNat)).sum +
            unmarkedFrom sender.chunkSizeOf (skips manifest skip) (i + 1) (sizesOf files) := rfl
      rw [hsize, hchunk, hsum, ← Nat.add_assoc]
      refine Task.Ensures.bind ((hsteady.1.ensures_sendChunks_data hchunker _ bytesSent).conseq
        (fun _ _ h => h) fun world h => h.mono (Nat.le_add_right _ _)) fun n => ?_
      exact ih hsteady.2 n

end Data

/-- The data of a run are chunks that the peer's response does not mark. -/
theorem sendsAtMost_sendFiles (hmanifest : sender.buildManifest script paths = .ok manifest)
    (hsteady : ∀ file ∈ manifest.files.zip paths, Steady sender script file) :
    SendsAtMost (unmarkedFrom sender.chunkSizeOf
        (skips manifest (markedBy manifest (firstTurn script))) 0
        (sizesOf (manifest.files.zip paths)))
      (sendFiles sender peer paths script .idle).2 := by
  refine leaves_sendFiles (P := SendsAtMost 0) hmanifest ?_ ?_ ?_ ?_ ?_
  · exact Nat.zero_le _
  · exact fun _ => le_rfl
  · exact keeps_negotiate (J := fun codec => dataBytes codec.sent ≤ 0) (fun _ _ h => h)
      (keeps_send_data rfl)
  · exact fun after h => h.mono (Nat.zero_le _)
  · intro _ after h
    rw [← Nat.zero_add (unmarkedFrom _ _ _ _)]
    exact Task.Keeps.after ((ensures_countFiles_data hsteady 0).leaves (fun _ _ h => h) h)
      fun _ => keeps_finish (J := fun codec => dataBytes codec.sent ≤ _) (fun _ _ h => h)
        fun _ => keeps_send_data rfl

/-- Without a response that lets the transfer go on, only the request is sent. -/
theorem sent_of_not_responds (hmanifest : sender.buildManifest script paths = .ok manifest)
    (hresponds : ¬Responds manifest (firstTurn script)) :
    ∀ m ∈ (sendFiles sender peer paths script .idle).2.codec.sent,
      m = .transferRequest manifest := by
  have hnew : ∀ transport, ProtocolCodec.SentAll (· = .transferRequest manifest)
      (ProtocolCodec.new transport) := fun _ _ hm => absurd hm List.not_mem_nil
  refine leaves_sendFiles
    (P := fun after => ProtocolCodec.SentAll (· = .transferRequest manifest) after.codec)
    (F := fun after => ProtocolCodec.SentAll (· = .transferRequest manifest) after.codec)
    hmanifest ?_ ?_ ?_ ?_ ?_
  · exact hnew _
  · exact fun _ => hnew _
  · exact keeps_negotiate (J := ProtocolCodec.SentAll (· = .transferRequest manifest))
      (fun _ _ h => h) (ProtocolCodec.keeps_sentAll rfl)
  · exact fun _ h => h
  · exact fun h => absurd h hresponds

end SendTransfer
end JustDrop

import JustDrop.Numbering
import JustDrop.ReceiveIntegrity
import JustDrop.Send

/-!
# The negotiation of a resumed transfer

The receiver numbers its stored chunks through the files of the offered manifest
and marks them in a bitmap; the sender reads the same numbers back. The two agree
on every chunk of the manifest. Nothing checks that a stored state belongs to the
offered files.
-/
namespace JustDrop
open ChunkNumbering
open RecvTransfer (plainEntry plainManifest)

namespace TransferManifest

/-- The chunk counts of the files. -/
def counts (manifest : TransferManifest) : List ℕ :=
  manifest.files.map fun entry => chunksOf entry.size.toNat manifest.chunkSize.toNat

/-- Every entry carries its own position. -/
def Positional (manifest : TransferManifest) : Prop :=
  ∀ (i : ℕ) (entry : FileEntry), manifest.files[i]? = some entry → entry.index.toNat = i

variable {manifest : TransferManifest}

theorem sum_counts (manifest : TransferManifest) :
    manifest.counts.sum = sumChunks manifest.chunkSize.toNat manifest.files := rfl

theorem isCell_counts {i k : ℕ} :
    IsCell manifest.counts i k ↔ ∃ entry, manifest.files[i]? = some entry ∧
      k < chunksOf entry.size.toNat manifest.chunkSize.toNat := by
  simp [IsCell, counts]

theorem sum_take_counts (manifest : TransferManifest) (i : ℕ) :
    (manifest.counts.take i).sum = sumChunks manifest.chunkSize.toNat (manifest.files.take i) := by
  rw [counts, ← List.map_take]
  rfl

theorem Positional.index_eq (hpositional : manifest.Positional) {i : ℕ} {entry : FileEntry}
    (hi : manifest.files[i]? = some entry) : entry.index = UInt32.ofNat i := by
  rw [← hpositional i entry hi, UInt32.ofNat_toNat]

theorem Positional.lt (hpositional : manifest.Positional) {i : ℕ} {entry : FileEntry}
    (hi : manifest.files[i]? = some entry) : i < 2 ^ 32 := by
  rw [← hpositional i entry hi]
  exact UInt32.toNat_lt _

theorem Positional.length_le (hpositional : manifest.Positional) :
    manifest.files.length ≤ 2 ^ 32 := by
  by_contra hlt
  have hlast := hpositional.lt (List.getElem?_eq_getElem (not_le.mp hlt))
  omega

/-- In front of an entry that carries its position are the entries before it. -/
theorem filesBefore_index (hpositional : manifest.Positional) {i : ℕ} {entry : FileEntry}
    (hi : manifest.files[i]? = some entry) :
    filesBefore entry.index manifest.files = manifest.files.take i := by
  obtain ⟨hlt, hget⟩ := List.getElem?_eq_some_iff.mp hi
  have hsplit : manifest.files = manifest.files.take i ++ entry :: manifest.files.drop (i + 1) := by
    rw [← hget, List.getElem_cons_drop, List.take_append_drop]
  have hbefore : ∀ e ∈ manifest.files.take i, decide (e.index ≠ entry.index) = true := by
    intro e he
    obtain ⟨j, hj, rfl⟩ := List.getElem_of_mem he
    rw [List.length_take] at hj
    rw [decide_eq_true_eq]
    intro heq
    have hindex : (manifest.files.take i)[j].index.toNat = j := by
      refine hpositional j _ ?_
      rw [List.getElem_take, List.getElem?_eq_getElem (by omega)]
    rw [heq, hpositional i entry hi] at hindex
    omega
  conv_lhs => rw [filesBefore, hsplit]
  rw [List.takeWhile_append_of_pos hbefore, List.takeWhile_cons_of_neg (by simp), List.append_nil]

/-- The global number of a chunk is its number among all chunks. -/
theorem globalChunkOffset_index (hpositional : manifest.Positional)
    (hdivisible : ∀ entry ∈ manifest.files, Divisible entry.size.toNat manifest.chunkSize.toNat)
    (htotal : manifest.counts.sum < 2 ^ 64) {i k : ℕ} {entry : FileEntry}
    (hi : manifest.files[i]? = some entry)
    (hk : k < chunksOf entry.size.toNat manifest.chunkSize.toNat) :
    globalChunkOffset manifest entry.index k = some (number manifest.counts i k) := by
  have hlt := number_lt_sum (isCell_counts.mpr ⟨entry, hi, hk⟩)
  have hnumber : number manifest.counts i k =
      sumChunks manifest.chunkSize.toNat (manifest.files.take i) + k := by
    rw [number, sum_take_counts]
  rw [globalChunkOffset_eq_some, filesBefore_index hpositional hi, hnumber]
  refine ⟨fun e he => hdivisible e (List.mem_of_mem_take he), ?_, rfl⟩
  omega

end TransferManifest

namespace RecvTransfer

variable {receiver : RecvTransfer} {manifest : TransferManifest}

/-- A response to a stored state marks the numbers of its chunks. -/
theorem acceptResponse_eq_some {stored : TransferResumeState} {response : TransferResponse} :
    acceptResponse receiver manifest (some stored) = some response ↔
      ∃ total all, manifest.totalChunks = some total ∧
        completedGlobals manifest stored.files = some all ∧
        bitmapLength total ≤ receiver.memory ∧
        response = .resumeAt (encodeReceivedBitmap all total) := by
  simp only [acceptResponse, Option.bind_eq_bind, Option.bind_eq_some_iff]
  constructor
  · rintro ⟨total, htotal, all, hall, hresponse⟩
    split_ifs at hresponse with hmemory
    exact ⟨total, all, htotal, hall, not_lt.mp hmemory, (Option.some.inj hresponse).symm⟩
  · rintro ⟨total, all, htotal, hall, hmemory, rfl⟩
    exact ⟨total, htotal, all, hall, by rw [if_neg (not_lt.mpr hmemory)]⟩

end RecvTransfer

/-! ### The two sides agree -/

section Agreement
variable {manifest : TransferManifest} {stored : TransferResumeState}
  (hpositional : manifest.Positional)
  (hdivisible : ∀ entry ∈ manifest.files, Divisible entry.size.toNat manifest.chunkSize.toNat)
  (htotal : manifest.counts.sum < 2 ^ 64)
  (hstored : ∀ file ∈ stored.files, ∀ k ∈ file.completedChunks, ∃ entry,
    manifest.files[file.fileIndex.toNat]? = some entry ∧
      k < chunksOf entry.size.toNat manifest.chunkSize.toNat)
include hpositional hdivisible htotal hstored

/-- Every stored chunk has its number among all chunks. -/
theorem globalChunkOffset_stored {file : FileResumeState} (hfile : file ∈ stored.files) {k : ℕ}
    (hk : k ∈ file.completedChunks) :
    globalChunkOffset manifest file.fileIndex k =
      some (number manifest.counts file.fileIndex.toNat k) := by
  obtain ⟨entry, hentry, hlt⟩ := hstored file hfile k hk
  have hindex : entry.index = file.fileIndex :=
    UInt32.toNat_inj.mp (hpositional _ entry hentry)
  rw [← hindex, TransferManifest.globalChunkOffset_index hpositional hdivisible htotal
    (hindex ▸ hentry) hlt]

theorem completedGlobals_stored_isSome : (completedGlobals manifest stored.files).isSome := by
  rw [completedGlobals_isSome]
  intro file hfile k hk
  rw [globalChunkOffset_stored hpositional hdivisible htotal hstored hfile hk]
  rfl

/-- What the sender decodes are the numbers of the stored chunks. -/
theorem mem_decoded_stored {all : Finset ℕ}
    (hall : completedGlobals manifest stored.files = some all) {i k : ℕ} {entry : FileEntry}
    (hi : manifest.files[i]? = some entry)
    (hk : k < chunksOf entry.size.toNat manifest.chunkSize.toNat) :
    number manifest.counts i k ∈ decodeReceivedBitmap
        (encodeReceivedBitmap all manifest.counts.sum) manifest.counts.sum ↔
      k ∈ stored.completedOf entry.index := by
  have hcell : IsCell manifest.counts i k := TransferManifest.isCell_counts.mpr ⟨entry, hi, hk⟩
  have hglobal : ∀ file ∈ stored.files, ∀ k ∈ file.completedChunks,
      globalChunkOffset manifest file.fileIndex k =
        some (number manifest.counts file.fileIndex.toNat k) := fun file hfile k hk =>
    globalChunkOffset_stored hpositional hdivisible htotal hstored hfile hk
  rw [mem_decodeReceivedBitmap_encode, completedGlobals_eq_some hall,
    TransferResumeState.mem_completedOf]
  constructor
  · rintro ⟨-, file, hfile, k', hk', hnumber⟩
    rw [hglobal file hfile k' hk', Option.some.injEq] at hnumber
    obtain ⟨hsame, rfl⟩ := number_injective
      (TransferManifest.isCell_counts.mpr (hstored file hfile k' hk')) hcell hnumber
    refine ⟨file, hfile, UInt32.toNat_inj.mp ?_, hk'⟩
    rw [hsame, hpositional i entry hi]
  · rintro ⟨file, hfile, hindex, hk'⟩
    refine ⟨number_lt_sum hcell, file, hfile, k, hk', ?_⟩
    rw [hglobal file hfile k hk', hindex, hpositional i entry hi]

end Agreement

/-- The sender skips exactly the chunks that the receiver has stored. -/
theorem negotiation_exact (manifest : TransferManifest) (stored : TransferResumeState)
    (hpositional : manifest.Positional) (hchunkSize : manifest.chunkSize ≠ 0)
    (htotal : sumChunks manifest.chunkSize.toNat manifest.files < 2 ^ 64)
    (hstored : ∀ file ∈ stored.files, ∀ k ∈ file.completedChunks, ∃ entry,
      manifest.files[file.fileIndex.toNat]? = some entry ∧
        k < chunksOf entry.size.toNat manifest.chunkSize.toNat) :
    ∃ total all, manifest.totalChunks = some total ∧
      completedGlobals manifest stored.files = some all ∧
      ∀ (i : ℕ) (entry : FileEntry), manifest.files[i]? = some entry →
        ∀ k < chunksOf entry.size.toNat manifest.chunkSize.toNat, ∃ global,
          globalChunkOffset manifest entry.index k = some global ∧
            (global ∈ decodeReceivedBitmap (encodeReceivedBitmap all total) total ↔
              k ∈ stored.completedOf entry.index) := by
  have hdivisible : ∀ entry ∈ manifest.files,
      Divisible entry.size.toNat manifest.chunkSize.toNat := fun entry _ =>
    Or.inr fun hzero => hchunkSize (UInt32.toNat_inj.mp hzero)
  obtain ⟨all, hall⟩ := Option.isSome_iff_exists.mp
    (completedGlobals_stored_isSome hpositional hdivisible htotal hstored)
  refine ⟨_, all, TransferManifest.totalChunks_eq_some.mpr ⟨hdivisible, htotal, rfl⟩, hall,
    fun i entry hi k hk => ⟨_, TransferManifest.globalChunkOffset_index hpositional hdivisible
      htotal hi hk, ?_⟩⟩
  exact mem_decoded_stored hpositional hdivisible htotal hstored hall hi hk

/-- An empty file and the three-byte one. -/
def pairManifest : TransferManifest :=
  plainManifest 2 [plainEntry 0 "empty" [], plainEntry 1 "a.txt" [1, 2, 3]]

theorem positional_pairManifest : pairManifest.Positional := by
  intro i entry hi
  match i with
  | 0 => obtain rfl := Option.some.inj hi; rfl
  | 1 => obtain rfl := Option.some.inj hi; rfl
  | i + 2 => simp [pairManifest, plainManifest] at hi

/-- Stored chunks of the second file, recorded with this size and chunk size. -/
def storedPair (fileSize chunkSize : ℕ) (chunks : Finset ℕ) : TransferResumeState where
  transferId := pairManifest.transferId
  files := [{
    fileIndex := 1, destPath := "a.txt", tempPath := "", fileSize, chunkSize,
    completedChunks := chunks }]
  bytesTransferred := 0
  totalBytes := 3

theorem negotiation_exact_pair : ∃ total all, pairManifest.totalChunks = some total ∧
    completedGlobals pairManifest (storedPair 3 2 {1}).files = some all ∧
    ∃ global, globalChunkOffset pairManifest 1 1 = some global ∧
      global ∈ decodeReceivedBitmap (encodeReceivedBitmap all total) total := by
  obtain ⟨total, all, htotal, hall, hexact⟩ := negotiation_exact pairManifest
    (storedPair 3 2 {1}) positional_pairManifest (by decide) (by decide) (by decide)
  obtain ⟨global, hglobal, hmem⟩ := hexact 1 _ rfl 1 (by decide)
  exact ⟨total, all, htotal, hall, global, hglobal, hmem.mpr (by decide)⟩

/-! ### The numbers of all chunks -/

/-- The file has a chunk at this offset. -/
def TransferManifest.IsChunk (manifest : TransferManifest) (i k : ℕ) : Prop :=
  ∃ entry count, manifest.files[i]? = some entry ∧
    entry.chunkCount manifest.chunkSize.toNat = some count ∧ k < count

theorem isCell_iff_isChunk {manifest : TransferManifest}
    (hdivisible : ∀ entry ∈ manifest.files, Divisible entry.size.toNat manifest.chunkSize.toNat)
    {i k : ℕ} : IsCell manifest.counts i k ↔ manifest.IsChunk i k := by
  rw [TransferManifest.isCell_counts]
  constructor
  · rintro ⟨entry, hi, hk⟩
    have hcount := FileEntry.chunkCount_eq_some.mpr
      ⟨hdivisible entry (List.mem_of_getElem? hi), rfl⟩
    exact ⟨entry, _, hi, hcount, hk⟩
  · rintro ⟨entry, count, hi, hcount, hk⟩
    obtain ⟨-, rfl⟩ := FileEntry.chunkCount_eq_some.mp hcount
    exact ⟨entry, hi, hk⟩

/-- The chunks, file by file and in each file by their offsets, have the numbers from
zero up to the total. -/
theorem globalChunkOffset_enumerates {manifest : TransferManifest} (hpositional : manifest.Positional)
    {total : ℕ} (htotal : manifest.totalChunks = some total) :
    (∀ i k, manifest.IsChunk i k →
      ∃ n < total, globalChunkOffset manifest (UInt32.ofNat i) k = some n) ∧
    (∀ i k j l m n, manifest.IsChunk i k → manifest.IsChunk j l →
      globalChunkOffset manifest (UInt32.ofNat i) k = some m →
      globalChunkOffset manifest (UInt32.ofNat j) l = some n →
      (i < j ∨ i = j ∧ k < l) → m < n) ∧
    ∀ n < total, ∃ i k, manifest.IsChunk i k ∧
      globalChunkOffset manifest (UInt32.ofNat i) k = some n := by
  obtain ⟨hdivisible, hsum, rfl⟩ := TransferManifest.totalChunks_eq_some.mp htotal
  have hnumber : ∀ {i k}, manifest.IsChunk i k →
      globalChunkOffset manifest (UInt32.ofNat i) k = some (number manifest.counts i k) := by
    rintro i k ⟨entry, count, hi, hcount, hk⟩
    obtain ⟨-, rfl⟩ := FileEntry.chunkCount_eq_some.mp hcount
    rw [← hpositional.index_eq hi]
    exact TransferManifest.globalChunkOffset_index hpositional hdivisible hsum hi hk
  refine ⟨fun i k h => ?_, fun i k j l m n h h' hm hn hlt => ?_, fun n hn => ?_⟩
  · exact ⟨_, number_lt_sum ((isCell_iff_isChunk hdivisible).mpr h), hnumber h⟩
  · rw [hnumber h, Option.some.injEq] at hm
    rw [hnumber h', Option.some.injEq] at hn
    rw [← hm, ← hn]
    exact number_lt ((isCell_iff_isChunk hdivisible).mpr h) hlt
  · have hbelow : n < manifest.counts.sum := hn
    obtain ⟨i, k, hcell, rfl⟩ := exists_number_eq hbelow
    have hk := (isCell_iff_isChunk hdivisible).mp hcell
    exact ⟨i, k, hk, hnumber hk⟩

theorem globalChunkOffset_enumerates_pair : ∃ i k, pairManifest.IsChunk i k ∧
    globalChunkOffset pairManifest (UInt32.ofNat i) k = some 2 := by
  have htotal : pairManifest.totalChunks = some 3 := by decide
  exact (globalChunkOffset_enumerates positional_pairManifest htotal).2.2 2 (by decide)

/-! ### Stored states of other files -/

/-- The bit denotes a chunk of the manifest that is stored for its file with the
offered size and chunk size. -/
def Justified (manifest : TransferManifest) (stored : TransferResumeState) (n : ℕ) : Prop :=
  ∃ file ∈ stored.files, ∃ k ∈ file.completedChunks, ∃ entry,
    manifest.files[file.fileIndex.toNat]? = some entry ∧
      file.fileSize = entry.size.toNat ∧ file.chunkSize = manifest.chunkSize.toNat ∧
      k < chunksOf entry.size.toNat manifest.chunkSize.toNat ∧
      number manifest.counts file.fileIndex.toNat k = n

/-- Every stored chunk whose number falls into the bitmap is justified there. -/
def Applicable (manifest : TransferManifest) (stored : TransferResumeState) : Prop :=
  ∀ file ∈ stored.files, ∀ k ∈ file.completedChunks, ∀ n,
    globalChunkOffset manifest file.fileIndex k = some n →
      n < 8 * bitmapLength manifest.counts.sum → Justified manifest stored n

namespace RecvTransfer
open World
open ProtocolCodec (SentAll keeps_sentAll)

variable {receiver : RecvTransfer} {manifest : TransferManifest}

/-- Only the answer to a stored state is sent as a bitmap. -/
theorem acceptResponse_of_sent {script : Script} {remoteStatic : PublicKey} {world : World}
    {bitmap : Bytes} (hhandshake : script.handshake = .ok remoteStatic)
    (hrequest : script.request.recv = .ok (some (.transferRequest manifest)))
    (hsent : .transferResponse (.resumeAt bitmap) ∈
      (handleIncoming receiver script world).2.codec.sent) :
    ∃ stored, world.resume manifest.transferId = some stored ∧
      acceptResponse receiver manifest (some stored) = some (.resumeAt bitmap) := by
  have hstart : SentAll (fun m => m = .transferResponse (.resumeAt bitmap) →
      acceptResponse receiver manifest (world.resume manifest.transferId) =
        some (.resumeAt bitmap)) (started script.request remoteStatic manifest world).codec := by
    simp [SentAll, started, ProtocolCodec.new]
  have hall : SentAll (fun m => m = .transferResponse (.resumeAt bitmap) →
      acceptResponse receiver manifest (world.resume manifest.transferId) =
        some (.resumeAt bitmap)) (handleIncoming receiver script world).2.codec := by
    cases hdecision : receiver.decisionOf script.decision with
    | reject reason =>
      rw [handleIncoming_of_reject hhandshake hrequest hdecision]
      exact (Task.Keeps.bind (keeps_send (keeps_sentAll (by simp))) fun _ =>
        Task.Keeps.fail _) _ hstart
    | accept =>
      rw [handleIncoming_of_accept hhandshake hrequest hdecision]
      refine (Task.Keeps.ofChecked_bind fun response hresponse => ?_ :
        Task.Keeps (fun world : World => SentAll _ world.codec) _) _ hstart
      refine Task.Keeps.bind (keeps_send (keeps_sentAll ?_)) fun _ => ?_
      · rintro ⟨⟩
        exact hresponse
      · refine Task.Keeps.bind (keeps_openWriters (fun _ _ h => h) _) fun _ => ?_
        exact keeps_receiveLoop (fun _ _ _ h => h) (fun _ => keeps_sentAll (by simp))
          (fun _ => keeps_sentAll (by simp)) _
  have hresponse := hall _ hsent rfl
  cases hstored : world.resume manifest.transferId with
  | none => simp [hstored, acceptResponse] at hresponse
  | some stored => exact ⟨stored, rfl, hstored ▸ hresponse⟩

/-- Every bit of a bitmap that is sent is justified exactly when the stored state
applies to the offer. -/
theorem resumeAt_justified_iff (receiver : RecvTransfer) (script : Script)
    (remoteStatic : PublicKey) (manifest : TransferManifest) (world : World) (bitmap : Bytes)
    (hhandshake : script.handshake = .ok remoteStatic)
    (hrequest : script.request.recv = .ok (some (.transferRequest manifest)))
    (hsent : .transferResponse (.resumeAt bitmap) ∈
      (handleIncoming receiver script world).2.codec.sent) :
    ∃ stored, world.resume manifest.transferId = some stored ∧
      ((∀ n, bitIsSet bitmap n = true → Justified manifest stored n) ↔
        Applicable manifest stored) := by
  obtain ⟨stored, hstored, hresponse⟩ := acceptResponse_of_sent hhandshake hrequest hsent
  refine ⟨stored, hstored, ?_⟩
  obtain ⟨total, all, htotal, hall, -, hbitmap⟩ := acceptResponse_eq_some.mp hresponse
  obtain rfl := TransferResponse.resumeAt.inj hbitmap
  obtain ⟨-, -, rfl⟩ := TransferManifest.totalChunks_eq_some.mp htotal
  simp only [bitIsSet_encodeReceivedBitmap, completedGlobals_eq_some hall,
    ← TransferManifest.sum_counts]
  constructor
  · intro hbits file hfile k hk n hn hlt
    exact hbits n ⟨⟨file, hfile, k, hk, hn⟩, hlt⟩
  · rintro happlicable n ⟨⟨file, hfile, k, hk, hn⟩, hlt⟩
    exact happlicable file hfile k hk n hn hlt

/-- An offer of the pair. -/
def offerScript : Script :=
  peerScript (Vector.replicate 32 1) pairManifest (some .accept) [] (Vector.replicate 32 0)

/-- A world in which this state is stored. -/
def storedWorld (stored : TransferResumeState) : World :=
  { emptyWorld with resume := emptyWorld.resume.save stored }

theorem resumeAt_justified_pair :
    bitIsSet [4] 2 = true ∧ Justified pairManifest (storedPair 3 2 {1}) 2 := by
  have hsent : .transferResponse (.resumeAt [4]) ∈
      (handleIncoming (plainReceiver 100) offerScript
        (storedWorld (storedPair 3 2 {1}))).2.codec.sent := by decide +kernel
  obtain ⟨stored, hstored, hiff⟩ := resumeAt_justified_iff (plainReceiver 100) offerScript
    (Vector.replicate 32 1) pairManifest (storedWorld (storedPair 3 2 {1})) [4] rfl rfl hsent
  have hsame : (storedWorld (storedPair 3 2 {1})).resume pairManifest.transferId =
      some (storedPair 3 2 {1}) := by decide +kernel
  rw [hsame] at hstored
  obtain rfl := Option.some.inj hstored
  refine ⟨by decide, hiff.mpr (fun file hfile k hk n hn _ => ?_) 2 (by decide)⟩
  obtain rfl := List.mem_singleton.mp hfile
  obtain rfl := Finset.mem_singleton.mp hk
  have hnumber : globalChunkOffset pairManifest 1 1 = some 2 := by decide
  obtain rfl := Option.some.inj (hnumber.symm.trans hn)
  exact ⟨_, hfile, 1, hk, _, rfl, rfl, rfl, by decide, by decide⟩

/-- A state stored for a file of another size in chunks of another size is used all the same. -/
theorem resumeAt_not_justified :
    .transferResponse (.resumeAt [2]) ∈ (handleIncoming (plainReceiver 100) offerScript
        (storedWorld (storedPair 9 1 {0}))).2.codec.sent ∧
      bitIsSet [2] 1 = true ∧ ¬Justified pairManifest (storedPair 9 1 {0}) 1 := by
  refine ⟨by decide +kernel, by decide, ?_⟩
  rintro ⟨file, hfile, k, -, entry, hentry, hsize, -⟩
  obtain rfl := List.mem_singleton.mp hfile
  obtain rfl : plainEntry 1 "a.txt" [1, 2, 3] = entry := Option.some.inj hentry
  exact absurd hsize (by decide)

end RecvTransfer
end JustDrop

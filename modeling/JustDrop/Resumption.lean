import JustDrop.Interruption
import JustDrop.Negotiation

/-!
# Resuming an interrupted transfer

The sender leaves out the chunks that the receiver has marked. The receiver has
their bytes in its temporary files, but its new writers do not know of them: a
resumed transfer completes exactly when nothing had been received before.
-/
namespace JustDrop
open ByteImage ChunkNumbering

namespace RecvTransfer
open World

variable {receiver : RecvTransfer} {manifest : TransferManifest}

/-! ### The chunks that remain -/

/-- The chunks of one file whose global numbers are not to be skipped. -/
def remainingOf (manifest : TransferManifest) (skip : Finset ℕ) (fileIndex : UInt32)
    (source : Bytes) : List Delivery :=
  ((List.range (chunksOf source.length manifest.chunkSize.toNat)).filter fun k =>
    (globalChunkOffset manifest fileIndex k).any (· ∉ skip)).map fun k =>
      (⟨fileIndex, UInt64.ofNat k⟩, slot source manifest.chunkSize.toNat k)

/-- The chunks that remain of the files from position `i` on. -/
def remainingFrom (manifest : TransferManifest) (skip : Finset ℕ) :
    ℕ → List Bytes → List Delivery
  | _, [] => []
  | i, source :: sources =>
    remainingOf manifest skip (UInt32.ofNat i) source ++ remainingFrom manifest skip (i + 1) sources

/-- What the sender reads from the response to a stored state. -/
def marked (receiver : RecvTransfer) (manifest : TransferManifest)
    (stored : Option TransferResumeState) : Finset ℕ :=
  match acceptResponse receiver manifest stored with
  | some (.resumeAt bitmap) =>
    decodeReceivedBitmap bitmap (sumChunks manifest.chunkSize.toNat manifest.files)
  | _ => ∅

/-- The chunks that the sender still sends. -/
def remaining (receiver : RecvTransfer) (manifest : TransferManifest) (sources : List Bytes)
    (stored : Option TransferResumeState) : List Delivery :=
  remainingFrom manifest (marked receiver manifest stored) 0 sources

theorem fileIndex_of_mem_remainingOf {skip : Finset ℕ} {fileIndex : UInt32} {source : Bytes}
    {chunk : Delivery} (h : chunk ∈ remainingOf manifest skip fileIndex source) :
    chunk.1.fileIndex = fileIndex := by
  obtain ⟨k, -, rfl⟩ := List.mem_map.mp h
  rfl

/-- The remaining chunks with the index of one file are those of that file. -/
theorem deliveredTo_remainingFrom {skip : Finset ℕ} {sources : List Bytes} {j : ℕ}
    (hbound : j + sources.length ≤ 2 ^ 32) (i : ℕ) :
    deliveredTo (remainingFrom manifest skip j sources) i =
      if j ≤ i then (sources[i - j]?).elim [] (remainingOf manifest skip (UInt32.ofNat i))
      else [] := by
  induction sources generalizing j with
  | nil => simp [remainingFrom, deliveredTo]
  | cons source sources ih =>
    rw [List.length_cons] at hbound
    have hindex : (UInt32.ofNat j).toNat = j := UInt32.toNat_ofNat_of_lt' (show j < 2 ^ 32 by omega)
    have hhead : deliveredTo (remainingOf manifest skip (UInt32.ofNat j) source) i =
        if j = i then remainingOf manifest skip (UInt32.ofNat j) source else [] := by
      unfold deliveredTo
      split_ifs with hj
      · refine List.filter_eq_self.mpr fun chunk hchunk => ?_
        rw [fileIndex_of_mem_remainingOf hchunk, hindex]
        simpa using hj
      · refine List.filter_eq_nil_iff.mpr fun chunk hchunk => ?_
        rw [fileIndex_of_mem_remainingOf hchunk, hindex]
        simpa using hj
    have happend : deliveredTo (remainingFrom manifest skip j (source :: sources)) i =
        deliveredTo (remainingOf manifest skip (UInt32.ofNat j) source) i ++
          deliveredTo (remainingFrom manifest skip (j + 1) sources) i := by
      rw [remainingFrom, deliveredTo, List.filter_append]
      rfl
    rw [happend, hhead, ih (by omega)]
    rcases Nat.lt_trichotomy i j with hlt | rfl | hgt
    · rw [if_neg (by omega), if_neg (by omega), if_neg (by omega)]
      rfl
    · rw [if_pos rfl, if_neg (by omega), if_pos (le_refl _), Nat.sub_self]
      simp
    · rw [if_neg (by omega), if_pos (by omega), if_pos (by omega),
        show i - j = i - (j + 1) + 1 by omega]
      simp

/-! ### An interrupted transfer -/

/-- Earlier runs have received these chunks: they are listed in the stored state and
lie in the temporary files, whose sources have the sizes of the manifest. -/
structure Interrupted (receiver : RecvTransfer) (manifest : TransferManifest)
    (sources : List Bytes) (completed : ℕ → Finset ℕ) (bytes : ℕ) (world : World) : Prop where
  positional : manifest.Positional
  sizes : sources.map List.length = manifest.files.map fun entry => entry.size.toNat
  small : ∀ entry ∈ manifest.files, entry.size.toNat ≤ LARGE_FILE_THRESHOLD
  within : ∀ i, ∀ k ∈ completed i, IsCell manifest.counts i k
  stored : world.resume manifest.transferId = some (savedState manifest completed bytes)
  held : ∀ (i : ℕ) (entry : FileEntry) (source : Bytes), manifest.files[i]? = some entry →
    sources[i]? = some source → ∀ k ∈ completed i,
      slot (world.disk.contents (receiver.tempLoc entry)) manifest.chunkSize.toNat k =
        slot source manifest.chunkSize.toNat k

section Interrupted
variable {sources : List Bytes} {completed : ℕ → Finset ℕ} {bytes : ℕ} {world : World}

theorem Interrupted.length_eq
    (h : Interrupted receiver manifest sources completed bytes world) {i : ℕ} {entry : FileEntry}
    {source : Bytes} (hi : manifest.files[i]? = some entry) (hsource : sources[i]? = some source) :
    source.length = entry.size.toNat := by
  have hsizes := congrArg (·[i]?) h.sizes
  simpa [hi, hsource] using hsizes

theorem Interrupted.exists_source
    (h : Interrupted receiver manifest sources completed bytes world) {i : ℕ} {entry : FileEntry}
    (hi : manifest.files[i]? = some entry) : ∃ source, sources[i]? = some source := by
  have hsizes := congrArg (·[i]?) h.sizes
  simp only [List.getElem?_map, hi, Option.map_some, Option.map_eq_some_iff] at hsizes
  exact ⟨_, hsizes.choose_spec.1⟩

theorem Interrupted.exists_entry
    (h : Interrupted receiver manifest sources completed bytes world) {i : ℕ} {source : Bytes}
    (hi : sources[i]? = some source) : ∃ entry, manifest.files[i]? = some entry := by
  have hsizes := congrArg (·[i]?) h.sizes
  simp only [List.getElem?_map, hi, Option.map_some] at hsizes
  exact ⟨_, (Option.map_eq_some_iff.mp hsizes.symm).choose_spec.1⟩

/-- The stored chunks of a file are its completed ones. -/
theorem Interrupted.completedOf_saved
    (h : Interrupted receiver manifest sources completed bytes world) {i : ℕ} {entry : FileEntry}
    (hi : manifest.files[i]? = some entry) :
    (savedState manifest completed bytes).completedOf entry.index = completed i := by
  have hfile : ∀ j k, k ∈ completed j → j < 2 ^ 32 ∧ j < manifest.files.length := by
    intro j k hk
    obtain ⟨e, he, -⟩ := TransferManifest.isCell_counts.mp (h.within j k hk)
    exact ⟨h.positional.lt he, (List.getElem?_eq_some_iff.mp he).1⟩
  have hpersisted := persisted_savedState bytes hfile entry.index
  rwa [h.positional i entry hi] at hpersisted

theorem Interrupted.stored_within
    (h : Interrupted receiver manifest sources completed bytes world) :
    ∀ file ∈ (savedState manifest completed bytes).files, ∀ k ∈ file.completedChunks, ∃ entry,
      manifest.files[file.fileIndex.toNat]? = some entry ∧
        k < chunksOf entry.size.toNat manifest.chunkSize.toNat := by
  intro file hfile k hk
  obtain ⟨j, entry, hj, rfl⟩ := mem_savedFrom.mp hfile
  simp only [Nat.zero_add] at hk ⊢
  rw [← h.positional.index_eq hj, h.positional j entry hj]
  exact TransferManifest.isCell_counts.mp (h.within j k hk)

/-- Once the response exists, a chunk is marked exactly when it is completed. -/
theorem Interrupted.mem_marked
    (h : Interrupted receiver manifest sources completed bytes world)
    {response : TransferResponse} (hresponse : acceptResponse receiver manifest
      (world.resume manifest.transferId) = some response) {i k : ℕ} {entry : FileEntry}
    (hi : manifest.files[i]? = some entry)
    (hk : k < chunksOf entry.size.toNat manifest.chunkSize.toNat) :
    ∃ global, globalChunkOffset manifest entry.index k = some global ∧
      (global ∈ marked receiver manifest (world.resume manifest.transferId) ↔
        k ∈ completed i) := by
  have hsome := hresponse
  rw [h.stored] at hsome
  obtain ⟨total, all, htotal, hall, -, rfl⟩ := acceptResponse_eq_some.mp hsome
  obtain ⟨hdivisible, hlt, rfl⟩ := TransferManifest.totalChunks_eq_some.mp htotal
  refine ⟨_, TransferManifest.globalChunkOffset_index h.positional hdivisible hlt hi hk, ?_⟩
  rw [marked, hresponse]
  dsimp only
  rw [← TransferManifest.sum_counts,
    mem_decoded_stored h.positional hdivisible hlt h.stored_within hall hi hk,
    h.completedOf_saved hi]

/-- The chunks that remain of a file are those not completed, cut from its source. -/
theorem Interrupted.deliveredTo_remaining
    (h : Interrupted receiver manifest sources completed bytes world)
    {response : TransferResponse} (hresponse : acceptResponse receiver manifest
      (world.resume manifest.transferId) = some response) {i : ℕ} {entry : FileEntry}
    {source : Bytes} (hi : manifest.files[i]? = some entry) (hsource : sources[i]? = some source) :
    deliveredTo (remaining receiver manifest sources (world.resume manifest.transferId)) i =
      ((List.range (chunksOf source.length manifest.chunkSize.toNat)).filter
        (· ∉ completed i)).map fun k =>
          (⟨UInt32.ofNat i, UInt64.ofNat k⟩, slot source manifest.chunkSize.toNat k) := by
  have hlength : sources.length = manifest.files.length := by
    simpa using congrArg List.length h.sizes
  have hbound : 0 + sources.length ≤ 2 ^ 32 := by
    have := h.positional.length_le
    omega
  rw [remaining, deliveredTo_remainingFrom hbound, if_pos (Nat.zero_le _), Nat.sub_zero, hsource]
  refine congrArg (List.map _) (List.filter_congr fun k hk => ?_)
  rw [List.mem_range, h.length_eq hi hsource] at hk
  obtain ⟨global, hglobal, hmem⟩ := h.mem_marked hresponse hi hk
  rw [← h.positional.index_eq hi, hglobal, Option.any_some]
  exact decide_eq_decide.mpr (not_congr hmem)

theorem Interrupted.offset_lt
    (h : Interrupted receiver manifest sources completed bytes world) {i : ℕ} {entry : FileEntry}
    {source : Bytes} (hi : manifest.files[i]? = some entry) (hsource : sources[i]? = some source)
    {k : ℕ} (hk : k < chunksOf source.length manifest.chunkSize.toNat) : k < 2 ^ 64 := by
  have hle := chunksOf_le source.length manifest.chunkSize.toNat
  have hsize : entry.size.toNat < 2 ^ 64 := UInt64.toNat_lt _
  rw [h.length_eq hi hsource] at hle hk
  omega

theorem Interrupted.mem_offsetsOf_remaining
    (h : Interrupted receiver manifest sources completed bytes world)
    {response : TransferResponse} (hresponse : acceptResponse receiver manifest
      (world.resume manifest.transferId) = some response) {i k : ℕ} {entry : FileEntry}
    (hi : manifest.files[i]? = some entry) :
    k ∈ offsetsOf (remaining receiver manifest sources (world.resume manifest.transferId)) i ↔
      k < chunksOf entry.size.toNat manifest.chunkSize.toNat ∧ k ∉ completed i := by
  obtain ⟨source, hsource⟩ := h.exists_source hi
  rw [offsetsOf, h.deliveredTo_remaining hresponse hi hsource, List.mem_toFinset, List.map_map,
    List.mem_map]
  constructor
  · rintro ⟨k', hk', rfl⟩
    rw [List.mem_filter, List.mem_range, decide_eq_true_eq] at hk'
    have hoffset : (UInt64.ofNat k').toNat = k' :=
      UInt64.toNat_ofNat_of_lt' (h.offset_lt hi hsource hk'.1)
    rw [h.length_eq hi hsource] at hk'
    rwa [Function.comp_apply, hoffset]
  · rintro ⟨hk, hnot⟩
    rw [← h.length_eq hi hsource] at hk
    refine ⟨k, by simpa using ⟨hk, hnot⟩, ?_⟩
    exact UInt64.toNat_ofNat_of_lt' (h.offset_lt hi hsource hk)

/-- Every chunk that remains can be taken. -/
theorem Interrupted.deliverable_remaining
    (h : Interrupted receiver manifest sources completed bytes world)
    {response : TransferResponse} (hresponse : acceptResponse receiver manifest
      (world.resume manifest.transferId) = some response) {chunk : Delivery}
    (hchunk : chunk ∈ remaining receiver manifest sources (world.resume manifest.transferId)) :
    Deliverable manifest chunk := by
  have hmem : chunk.1.chunkOffset.toNat ∈ offsetsOf
      (remaining receiver manifest sources (world.resume manifest.transferId))
      chunk.1.fileIndex.toNat := mem_offsetsOf.mpr ⟨chunk, hchunk, rfl, rfl⟩
  cases hi : manifest.files[chunk.1.fileIndex.toNat]? with
  | some entry => exact ⟨entry, hi, ((h.mem_offsetsOf_remaining hresponse hi).mp hmem).1⟩
  | none =>
    have hnone : sources[chunk.1.fileIndex.toNat]? = none := by
      cases hsource : sources[chunk.1.fileIndex.toNat]? with
      | none => rfl
      | some source =>
        obtain ⟨entry, hentry⟩ := h.exists_entry hsource
        simp [hi] at hentry
    have hbound : 0 + sources.length ≤ 2 ^ 32 := by
      have hlength : sources.length = manifest.files.length := by
        simpa using congrArg List.length h.sizes
      have := h.positional.length_le
      omega
    have hempty : deliveredTo (remaining receiver manifest sources
        (world.resume manifest.transferId)) chunk.1.fileIndex.toNat = [] := by
      rw [remaining, deliveredTo_remainingFrom hbound, if_pos (Nat.zero_le _), Nat.sub_zero, hnone]
      rfl
    simp [offsetsOf, hempty] at hmem

/-- With nothing completed, the chunks that remain rebuild the source. -/
theorem Interrupted.assembled_remaining
    (h : Interrupted receiver manifest sources completed bytes world)
    {response : TransferResponse} (hresponse : acceptResponse receiver manifest
      (world.resume manifest.transferId) = some response) {i : ℕ} {entry : FileEntry}
    {source : Bytes} (hi : manifest.files[i]? = some entry) (hsource : sources[i]? = some source)
    (hdivisible : Divisible entry.size.toNat manifest.chunkSize.toNat)
    (hempty : completed i = ∅) (d : Disk) :
    assembled receiver manifest d
      (remaining receiver manifest sources (world.resume manifest.transferId)) i entry =
        source := by
  have hall : (List.range (chunksOf source.length manifest.chunkSize.toNat)).filter
      (· ∉ completed i) = List.range (chunksOf source.length manifest.chunkSize.toNat) := by
    rw [List.filter_eq_self, hempty]
    simp
  have hlength : (receiver.preallocated d entry).length = source.length := by
    rw [preallocated, length_resize, h.length_eq hi hsource]
  rw [assembled, h.deliveredTo_remaining hresponse hi hsource, hall, List.map_map]
  have hwrites : (List.range (chunksOf source.length manifest.chunkSize.toNat)).map
      ((fun chunk : Delivery =>
        (chunk.1.chunkOffset.toNat * manifest.chunkSize.toNat, chunk.2)) ∘ fun k =>
          (⟨UInt32.ofNat i, UInt64.ofNat k⟩, slot source manifest.chunkSize.toNat k)) =
      (List.range (chunksOf source.length manifest.chunkSize.toNat)).map fun k =>
        (k * manifest.chunkSize.toNat, slot source manifest.chunkSize.toNat k) := by
    refine List.map_congr_left fun k hk => ?_
    have hoffset : (UInt64.ofNat k).toNat = k :=
      UInt64.toNat_ofNat_of_lt' (h.offset_lt hi hsource (List.mem_range.mp hk))
    rw [Function.comp_apply, hoffset]
  rw [hwrites]
  refine writeSlots_chunks ?_ hlength
  rwa [h.length_eq hi hsource]

/-- All chunks of all files have the bytes of the files between them. -/
theorem sum_length_remainingFrom {skip : Finset ℕ} {sources : List Bytes} {j : ℕ}
    (hdivisible : ∀ source ∈ sources, Divisible source.length manifest.chunkSize.toNat)
    (hall : ∀ i source, sources[i]? = some source →
      ∀ k < chunksOf source.length manifest.chunkSize.toNat,
        (globalChunkOffset manifest (UInt32.ofNat (j + i)) k).any (· ∉ skip) = true) :
    ((remainingFrom manifest skip j sources).map fun chunk => chunk.2.length).sum =
      (sources.map List.length).sum := by
  induction sources generalizing j with
  | nil => rfl
  | cons source sources ih =>
    have hhead : (List.range (chunksOf source.length manifest.chunkSize.toNat)).filter
        (fun k => (globalChunkOffset manifest (UInt32.ofNat j) k).any (· ∉ skip)) =
          List.range (chunksOf source.length manifest.chunkSize.toNat) := by
      refine List.filter_eq_self.mpr fun k hk => ?_
      exact hall 0 source rfl k (List.mem_range.mp hk)
    rw [List.forall_mem_cons] at hdivisible
    have htail := ih (j := j + 1) hdivisible.2 fun i s hs => by
      rw [show j + 1 + i = j + (i + 1) by omega]
      exact hall (i + 1) s (by simpa using hs)
    rw [remainingFrom, List.map_append, List.sum_append, htail, remainingOf, hhead, List.map_map,
      List.map_cons, List.sum_cons]
    exact congrArg (· + _) (sum_length_chunks hdivisible.1)

theorem Interrupted.sum_length_remaining
    (h : Interrupted receiver manifest sources completed bytes world)
    {response : TransferResponse} (hresponse : acceptResponse receiver manifest
      (world.resume manifest.transferId) = some response)
    (hdivisible : ∀ entry ∈ manifest.files,
      Divisible entry.size.toNat manifest.chunkSize.toNat)
    (hempty : ∀ i, completed i = ∅) :
    ((remaining receiver manifest sources (world.resume manifest.transferId)).map
      fun chunk => chunk.2.length).sum =
        (manifest.files.map fun entry => entry.size.toNat).sum := by
  rw [← h.sizes]
  refine sum_length_remainingFrom (fun source hsource => ?_) fun i source hsource k hk => ?_
  · obtain ⟨i, hi, rfl⟩ := List.getElem_of_mem hsource
    obtain ⟨entry, hentry⟩ := h.exists_entry (List.getElem?_eq_getElem hi)
    rw [h.length_eq hentry (List.getElem?_eq_getElem hi)]
    exact hdivisible entry (List.mem_of_getElem? hentry)
  · obtain ⟨entry, hentry⟩ := h.exists_entry hsource
    rw [h.length_eq hentry hsource] at hk
    obtain ⟨global, hglobal, hmem⟩ := h.mem_marked hresponse hentry hk
    rw [Nat.zero_add, ← h.positional.index_eq hentry, hglobal, Option.any_some, decide_eq_true_eq,
      hmem, hempty]
    exact Finset.notMem_empty k

end Interrupted

/-! ### The resumed run -/

/-- Every writer is complete, the answer is positive and every file is published with
the bytes of its source. -/
structure Resumed (receiver : RecvTransfer) (manifest : TransferManifest) (sources : List Bytes)
    (chunks : List Delivery) (world : World) : Prop where
  complete : ∀ (i : ℕ) (entry : FileEntry), manifest.files[i]? = some entry →
    (writerAfter receiver manifest chunks i entry).isComplete = true
  answered : Answered world
  published : ∀ (i : ℕ) (source : Bytes), sources[i]? = some source →
    ∃ dest, (i, dest) ∈ world.published
  equal : ∀ file ∈ world.published, ∀ source, sources[file.1]? = some source →
    world.disk.lookup (receiver.host.locate file.2) = some (.file source)

/-- Nothing had been received, the response can be built and sent, and the byte count
stays below 64 bits. -/
structure Fresh (receiver : RecvTransfer) (manifest : TransferManifest)
    (completed : ℕ → Finset ℕ) (stored : Option TransferResumeState) : Prop where
  empty : ∀ i, completed i = ∅
  response : ∃ response, acceptResponse receiver manifest stored = some response ∧
    (Message.transferResponse response).Fits
  counted : bytesBefore stored + (manifest.files.map fun entry => entry.size.toNat).sum < 2 ^ 64

/-- A resumed transfer completes exactly when it starts from nothing. -/
theorem resumed_iff (receiver : RecvTransfer) (remoteStatic : PublicKey)
    (manifest : TransferManifest) (sources : List Bytes) (completed : ℕ → Finset ℕ) (bytes : ℕ)
    (decision : Option IncomingTransferDecision) (manifestHash : Sha256Hash) (world : World) :
    let stored := world.resume manifest.transferId
    let chunks := remaining receiver manifest sources stored
    let run := handleIncoming receiver
      (peerScript remoteStatic manifest decision chunks manifestHash) world
    TempsDistinct receiver manifest →
    Interrupted receiver manifest sources completed bytes world →
    receiver.decisionOf decision = .accept →
    (∀ e, run.1 = .err e → ¬e.IsIo) →
      (Resumed receiver manifest sources chunks run.2 ↔
        Fresh receiver manifest completed stored) := by
  intro stored chunks run hdistinct hinterrupted hdecision hio
  constructor
  · intro hresumed
    obtain ⟨-, hacceptable, -⟩ := handleIncoming_answered hdistinct hresumed.answered
    obtain ⟨response, hresponse, hfit⟩ := hacceptable.response
    have hempty : ∀ i, completed i = ∅ := by
      intro i
      refine Finset.eq_empty_of_forall_notMem fun k hk => ?_
      obtain ⟨entry, hi, hlt⟩ := TransferManifest.isCell_counts.mp (hinterrupted.within i k hk)
      have hmem := hacceptable.covered i entry hi k hlt
      exact ((hinterrupted.mem_offsetsOf_remaining hresponse hi).mp hmem).2 hk
    refine ⟨hempty, ⟨response, hresponse, hfit⟩, ?_⟩
    rw [← hinterrupted.sum_length_remaining hresponse hacceptable.divisible hempty]
    exact hacceptable.counted
  · rintro ⟨hempty, ⟨response, hresponse, hfit⟩, hcounted⟩
    have hdivisible : ∀ entry ∈ manifest.files,
        Divisible entry.size.toNat manifest.chunkSize.toNat := by
      have hsome : acceptResponse receiver manifest stored = some response := hresponse
      rw [show stored = _ from hinterrupted.stored] at hsome
      obtain ⟨total, -, htotal, -⟩ := acceptResponse_eq_some.mp hsome
      exact (TransferManifest.totalChunks_eq_some.mp htotal).1
    have hdeliverable : ∀ chunk ∈ chunks, Deliverable manifest chunk := fun chunk hchunk =>
      hinterrupted.deliverable_remaining hresponse hchunk
    have hcovered : ∀ (i : ℕ) (entry : FileEntry), manifest.files[i]? = some entry →
        ∀ k < chunksOf entry.size.toNat manifest.chunkSize.toNat, k ∈ offsetsOf chunks i := by
      intro i entry hi k hk
      refine (hinterrupted.mem_offsetsOf_remaining hresponse hi).mpr ⟨hk, ?_⟩
      rw [hempty]
      exact Finset.notMem_empty k
    have hacceptable : Acceptable receiver manifest stored chunks := by
      refine ⟨⟨response, hresponse, hfit⟩, hdivisible, hdeliverable, ?_, hcovered⟩
      rw [hinterrupted.sum_length_remaining hresponse hdivisible hempty]
      exact hcounted
    have hanswered : Answered run.2 :=
      answered_of_acceptable hdistinct hdecision hacceptable hio
    obtain ⟨-, -, hpublished⟩ := handleIncoming_answered hdistinct hanswered
    refine ⟨fun i entry hi => ?_, hanswered, fun i source hsource => ?_, fun file hfile => ?_⟩
    · exact (isComplete_writerAfter_iff hdeliverable hi).mpr (hcovered i entry hi)
    · obtain ⟨entry, hi⟩ := hinterrupted.exists_entry hsource
      exact hpublished.all i entry hi
    · intro source hsource
      obtain ⟨entry, hi⟩ := hinterrupted.exists_entry hsource
      rw [hpublished.bytes file hfile, assembledAt, hi, Option.map_some, Option.getD_some,
        hinterrupted.assembled_remaining hresponse hi hsource
          (hdivisible entry (List.mem_of_getElem? hi)) (hempty _)]

/-- The first offer was cancelled before any chunk. -/
def cutAtOnce : World :=
  (handleIncoming (plainReceiver 100) (abcScript [] (Turn.calm (.cancel "later"))) emptyWorld).2

/-- The chunks received of the only file. -/
def onlyFile (chunks : Finset ℕ) (i : ℕ) : Finset ℕ := if i = 0 then chunks else ∅

/-- The second offer, and what the sender does on it. -/
def resumeAbc (world : World) : Outcome ProtocolError Unit × World :=
  handleIncoming (plainReceiver 100) (peerScript (Vector.replicate 32 1) abcManifest
    (some .accept) (remaining (plainReceiver 100) abcManifest [[1, 2, 3]]
      (world.resume abcManifest.transferId)) (computeManifestHash sumHash abcManifest)) world

theorem interrupted_abc {world : World} {chunks : Finset ℕ} {bytes : ℕ}
    (hchunks : chunks ⊆ {0, 1})
    (hstored : world.resume abcManifest.transferId =
      some (savedState abcManifest (onlyFile chunks) bytes))
    (hheld : ∀ k ∈ chunks, slot (world.disk.contents
      ((plainReceiver 100).tempLoc (plainEntry 0 "a.txt" [1, 2, 3]))) 2 k = slot [1, 2, 3] 2 k) :
    Interrupted (plainReceiver 100) abcManifest [[1, 2, 3]] (onlyFile chunks) bytes world := by
  have hfile : ∀ {i : ℕ} {entry : FileEntry}, abcManifest.files[i]? = some entry →
      i = 0 ∧ entry = plainEntry 0 "a.txt" [1, 2, 3] := by
    intro i entry hi
    simpa [abcManifest, plainManifest, List.getElem?_singleton, eq_comm] using hi
  have hsource : ∀ {i : ℕ} {source : Bytes}, [[1, 2, 3]][i]? = some source →
      source = ([1, 2, 3] : Bytes) := by
    intro i source hi
    exact (List.mem_singleton.mp (List.mem_of_getElem? hi))
  refine ⟨fun i entry hi => ?_, rfl, by decide, fun i k hk => ?_, hstored,
    fun i entry source hi hs k hk => ?_⟩
  · obtain ⟨rfl, rfl⟩ := hfile hi
    rfl
  · unfold onlyFile at hk
    split_ifs at hk with h0
    · subst h0
      have hlt : k < 2 := by
        have := hchunks hk
        simp only [Finset.mem_insert, Finset.mem_singleton] at this
        omega
      exact ⟨2, by decide, hlt⟩
    · simp at hk
  · obtain ⟨rfl, rfl⟩ := hfile hi
    obtain rfl := hsource hs
    exact hheld k hk

theorem resumed_from_nothing :
    Resumed (plainReceiver 100) abcManifest [[1, 2, 3]] (remaining (plainReceiver 100) abcManifest
      [[1, 2, 3]] (cutAtOnce.resume abcManifest.transferId)) (resumeAbc cutAtOnce).2 := by
  have hstored : cutAtOnce.resume abcManifest.transferId =
      some (savedState abcManifest (onlyFile ∅) 0) := by decide +kernel
  have hio : ∀ e, (resumeAbc cutAtOnce).1 = .err e → ¬e.IsIo := by
    have hok : (resumeAbc cutAtOnce).1 = .ok () := by decide +kernel
    intro e he
    simp [hok] at he
  refine (resumed_iff (plainReceiver 100) (Vector.replicate 32 1) abcManifest [[1, 2, 3]]
    (onlyFile ∅) 0 (some .accept) (computeManifestHash sumHash abcManifest) cutAtOnce
    (by decide +kernel) (interrupted_abc (by simp) hstored (by simp)) (by decide) hio).mpr ?_
  refine ⟨fun i => by unfold onlyFile; split_ifs <;> rfl, ⟨.resumeAt [0], ?_, by decide⟩, ?_⟩
  · decide +kernel
  · decide +kernel

/-- The first chunk had been received: the sender sends only the second one and the
receiver finds the file incomplete. -/
theorem not_resumed_after_chunk :
    Interrupted (plainReceiver 100) abcManifest [[1, 2, 3]] (onlyFile {0}) 2 cutOnce ∧
      remaining (plainReceiver 100) abcManifest [[1, 2, 3]]
        (cutOnce.resume abcManifest.transferId) = [(⟨0, 1⟩, [3])] ∧
      (resumeAbc cutOnce).1 = .ok () ∧ (resumeAbc cutOnce).2.published = [] ∧
      ¬Resumed (plainReceiver 100) abcManifest [[1, 2, 3]] [(⟨0, 1⟩, [3])]
        (resumeAbc cutOnce).2 := by
  refine ⟨interrupted_abc (by decide) (by decide +kernel) (by decide +kernel),
    by decide +kernel, by decide +kernel, by decide +kernel, fun hresumed => ?_⟩
  exact absurd hresumed.answered (by decide +kernel)

end RecvTransfer
end JustDrop

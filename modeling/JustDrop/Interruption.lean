import JustDrop.ReceiveIntegrity

/-!
# What an interrupted receive leaves on disk

The turns of a run determine which chunks it takes and whether it ends by saving
them. Only a cancelled or closed connection saves, and what it saves are the
chunks of this run alone, in place of what was stored before.
-/
namespace JustDrop

/-- The offset that a message acknowledges for a file. -/
def Message.ackedOffset (fileIndex : UInt32) : Message → Option ℕ
  | .chunkAck ack => if ack.id.fileIndex = fileIndex then some ack.id.chunkOffset.toNat else none
  | _ => none

/-- The chunks of a file that have been acknowledged on a connection. -/
def ProtocolCodec.acknowledged (codec : ProtocolCodec) (fileIndex : UInt32) : Finset ℕ :=
  (codec.sent.filterMap (Message.ackedOffset fileIndex)).toFinset

theorem ProtocolCodec.acknowledged_of_ack {codec codec' : ProtocolCodec} {ack : ChunkAck}
    (h : codec'.sent = codec.sent ++ [.chunkAck ack]) (i : UInt32) :
    codec'.acknowledged i =
      if ack.id.fileIndex = i then insert ack.id.chunkOffset.toNat (codec.acknowledged i)
      else codec.acknowledged i := by
  unfold acknowledged
  rw [h, List.filterMap_append]
  split_ifs with hi
  · ext k
    simp [Message.ackedOffset, hi]
  · simp [Message.ackedOffset, hi]

/-- Messages that acknowledge nothing leave the acknowledged chunks alone. -/
theorem ProtocolCodec.keeps_acknowledged {noise : Noise} {message : Message}
    (h : ∀ i, message.ackedOffset i = none) (chunks : UInt32 → Finset ℕ) :
    Task.Keeps (fun codec => codec.acknowledged = chunks) (ProtocolCodec.send noise message) := by
  intro codec hcodec
  rw [← hcodec]
  funext i
  rcases (send_cases noise message codec).2 with ⟨-, -, hsent⟩ | ⟨-, hsent⟩
  · rw [acknowledged, hsent, List.filterMap_append]
    simp [h, acknowledged]
  · rw [acknowledged, hsent, acknowledged]

namespace RecvTransfer
open World
open ProtocolCodec (keeps_acknowledged)

variable {receiver : RecvTransfer} {manifest : TransferManifest}

/-! ### The saved state -/

/-- The stored states of the files from position `i` on. -/
def savedFrom (manifest : TransferManifest) (completed : ℕ → Finset ℕ) :
    ℕ → List FileEntry → List FileResumeState
  | _, [] => []
  | i, entry :: entries => {
      fileIndex := UInt32.ofNat i, destPath := entry.relativePath, tempPath := "",
      fileSize := entry.size.toNat, chunkSize := manifest.chunkSize.toNat,
      completedChunks := completed i } :: savedFrom manifest completed (i + 1) entries

/-- The state stored for writers that have completed these chunks. -/
def savedState (manifest : TransferManifest) (completed : ℕ → Finset ℕ) (bytes : ℕ) :
    TransferResumeState where
  transferId := manifest.transferId
  files := savedFrom manifest completed 0 manifest.files
  bytesTransferred := UInt64.ofNat bytes
  totalBytes := manifest.totalSize

theorem mem_savedFrom {completed : ℕ → Finset ℕ} {i : ℕ} {entries : List FileEntry}
    {file : FileResumeState} :
    file ∈ savedFrom manifest completed i entries ↔ ∃ j entry, entries[j]? = some entry ∧
      file = {
        fileIndex := UInt32.ofNat (i + j), destPath := entry.relativePath, tempPath := "",
        fileSize := entry.size.toNat, chunkSize := manifest.chunkSize.toNat,
        completedChunks := completed (i + j) } := by
  induction entries generalizing i with
  | nil => simp [savedFrom]
  | cons entry entries ih =>
    rw [savedFrom, List.mem_cons, ih]
    constructor
    · rintro (rfl | ⟨j, e, he, rfl⟩)
      · exact ⟨0, entry, rfl, rfl⟩
      · exact ⟨j + 1, e, by simpa using he, by rw [show i + (j + 1) = i + 1 + j by omega]⟩
    · rintro ⟨j, e, he, rfl⟩
      cases j with
      | zero =>
        obtain rfl : entry = e := by simpa using he
        exact Or.inl rfl
      | succ j =>
        exact Or.inr ⟨j, e, by simpa using he, by rw [show i + (j + 1) = i + 1 + j by omega]⟩

/-- What is read back for a file: its chunks, as long as positions fit 32 bits. -/
theorem persisted_savedState {completed : ℕ → Finset ℕ} (bytes : ℕ)
    (hfile : ∀ j k, k ∈ completed j → j < 2 ^ 32 ∧ j < manifest.files.length) (i : UInt32) :
    persisted (some (savedState manifest completed bytes)) i = completed i.toNat := by
  ext k
  rw [mem_persisted]
  constructor
  · rintro ⟨_, ⟨⟩, file, hmem, hindex, hk⟩
    obtain ⟨j, entry, -, rfl⟩ := mem_savedFrom.mp hmem
    rw [Nat.zero_add] at hindex hk
    obtain ⟨hlt, -⟩ := hfile j k hk
    have hj : i.toNat = j := by
      rw [← hindex, UInt32.toNat_ofNat_of_lt' hlt]
    rwa [hj]
  · intro hk
    obtain ⟨-, hlt⟩ := hfile _ k hk
    refine ⟨_, rfl, _, mem_savedFrom.mpr ⟨i.toNat, manifest.files[i.toNat],
      List.getElem?_eq_getElem hlt, rfl⟩, ?_, ?_⟩
    · simp
    · simpa using hk

theorem savedFiles_of_writers {completed : ℕ → Finset ℕ} {i : ℕ} {entries : List FileEntry}
    {writers : List (Option ChunkWriter)} (hentries : entries = manifest.files.drop i)
    (hlength : writers.length = entries.length)
    (hwriters : ∀ j (hj : j < writers.length), ∃ writer, writers[j] = some writer ∧
      writer.completedChunks = completed (i + j)) :
    savedFiles manifest i writers = some (savedFrom manifest completed i entries) := by
  induction entries generalizing i writers with
  | nil =>
    obtain rfl := List.length_eq_zero_iff.mp hlength
    rfl
  | cons entry entries ih =>
    obtain ⟨w, writers, rfl⟩ := List.exists_cons_of_length_eq_add_one hlength
    obtain ⟨writer, hw, hcompleted⟩ := hwriters 0 (by simp)
    rw [List.getElem_cons_zero] at hw
    subst hw
    have hentry : manifest.files[i]? = some entry := by
      rw [← List.head?_drop, ← hentries]
      rfl
    have hrest : entries = manifest.files.drop (i + 1) := by
      rw [← List.tail_drop, ← hentries]
      rfl
    have hsaved := ih (i := i + 1) hrest (by simpa using hlength) fun j hj => by
      have := hwriters (j + 1) (by simpa using hj)
      rwa [List.getElem_cons_succ, show i + (j + 1) = i + 1 + j by omega] at this
    rw [Nat.add_zero] at hcompleted
    simp only [savedFiles, hentry, hsaved, hcompleted]
    rfl

/-- There is a writer for every file. -/
theorem WritersAfter.length_eq {chunks : List Delivery} {state : RecvState}
    (h : WritersAfter receiver manifest chunks state) :
    state.writers.length = manifest.files.length := by
  have hiff : ∀ i, state.writers[i]? = none ↔ manifest.files[i]? = none := fun i => by
    rw [h, Option.map_eq_none_iff]
  simp only [List.getElem?_eq_none_iff] at hiff
  exact le_antisymm ((hiff _).mpr le_rfl) ((hiff _).mp le_rfl)

/-- Saving stores the chunks of the writers and nothing else. -/
theorem saveResumeState_of_writersAfter {chunks : List Delivery} {state : RecvState}
    (h : WritersAfter receiver manifest chunks state) (world : World) :
    saveResumeState manifest state world = (.ok (), { world with
      resume := world.resume.save
        (savedState manifest (offsetsOf chunks) state.bytesReceived) }) := by
  have hlength := h.length_eq
  have hsaved : savedFiles manifest 0 state.writers =
      some (savedFrom manifest (offsetsOf chunks) 0 manifest.files) := by
    refine savedFiles_of_writers rfl hlength fun j hj => ?_
    have hentry := List.getElem?_eq_getElem (hlength ▸ hj)
    have hwriter := (List.getElem?_eq_getElem hj).symm.trans (h.getElem? hentry)
    exact ⟨_, Option.some.inj hwriter, by rw [Nat.zero_add]; rfl⟩
  rw [saveResumeState, hsaved]
  rfl

/-- Saving emits nothing. -/
theorem saving_run {chunks : List Delivery} {state : RecvState}
    (h : WritersAfter receiver manifest chunks state) (text : String)
    (rest : Task World ProtocolError Unit) (world : World) :
    ∃ world', world'.events = world.events ∧
      (do
        warn text
        saveResumeState manifest state
        rest : Task World ProtocolError Unit) world = rest world' := by
  simp only [warn, Task.modify_bind_run]
  rw [Task.bind_of_ok (saveResumeState_of_writersAfter h _)]
  refine ⟨_, ?_, rfl⟩
  rfl

/-! ### What a turn does -/

/-- The chunks that the turns of a run take, and whether the run ends by saving. -/
structure Traffic where
  taken : List Delivery
  saves : Bool
  deriving DecidableEq

/-- The turn delivers a chunk in range and none of its calls fails. -/
def Takes (manifest : TransferManifest) (turn : Turn) (chunk : Delivery) : Prop :=
  Deliverable manifest chunk ∧ Disk.WriteSpared turn.diskFaults ∧ turn.sendFault = false

instance (manifest : TransferManifest) (turn : Turn) (chunk : Delivery) :
    Decidable (Takes manifest turn chunk) := inferInstanceAs (Decidable (_ ∧ _ ∧ _))

/-- The traffic of the turns, from a byte count on. -/
def traffic (manifest : TransferManifest) : ℕ → List Turn → Traffic
  | _, [] => ⟨[], true⟩
  | bytes, turn :: turns =>
    match turn.recv with
    | .ok (some (.chunkData id data)) =>
      if Takes manifest turn (id, data) then
        if bytes + data.length < 2 ^ 64 then
          let rest := traffic manifest (bytes + data.length) turns
          ⟨(id, data) :: rest.taken, rest.saves⟩
        else ⟨[(id, data)], false⟩
      else ⟨[], false⟩
    | .ok (some (.cancel _)) => ⟨[], true⟩
    | .ok none => ⟨[], true⟩
    | _ => ⟨[], false⟩

theorem deliverable_of_mem_taken {bytes : ℕ} {turns : List Turn} {chunk : Delivery}
    (h : chunk ∈ (traffic manifest bytes turns).taken) : Deliverable manifest chunk := by
  induction turns generalizing bytes with
  | nil => simp [traffic] at h
  | cons turn turns ih =>
    unfold traffic at h
    split at h
    · split_ifs at h with htakes hbytes
      · rcases List.mem_cons.mp h with rfl | h
        · exact htakes.1
        · exact ih h
      · obtain rfl := List.mem_singleton.mp h
        exact htakes.1
      · simp at h
    all_goals simp at h

/-- The writers have recorded the chunks and the temporary files exist. -/
structure Receiving (receiver : RecvTransfer) (manifest : TransferManifest)
    (chunks : List Delivery) (state : RecvState) (world : World) : Prop where
  writers : WritersAfter receiver manifest chunks state
  temps : ∀ entry ∈ manifest.files, ∃ bytes,
    world.disk.lookup (receiver.tempLoc entry) = some (.file bytes)

/-- Opening writers leaves every temporary file in place, also those of earlier writers. -/
theorem openWriters_files {entries : List FileEntry} {world world' : World}
    {writers : List (Option ChunkWriter)}
    (h : openWriters receiver manifest entries world = (.ok writers, world')) :
    (∀ l bytes, world.disk.lookup l = some (.file bytes) →
      ∃ bytes', world'.disk.lookup l = some (.file bytes')) ∧
    ∀ entry ∈ entries, ∃ bytes, world'.disk.lookup (receiver.tempLoc entry) =
      some (.file bytes) := by
  induction entries generalizing world writers with
  | nil =>
    obtain ⟨-, rfl⟩ : writers = [] ∧ world' = world := by
      simpa [openWriters, eq_comm] using h
    exact ⟨fun l bytes hl => ⟨bytes, hl⟩, by simp⟩
  | cons entry entries ih =>
    simp only [openWriters, Task.bind_eq_ok, onDisk_eq_ok, Task.mapErr_eq_ok] at h
    obtain ⟨writer, _, ⟨d₁, hnew, rfl⟩, rest, w₂, hrest, hpure⟩ := h
    simp only [Task.pure_run, Prod.mk.injEq] at hpure
    obtain ⟨-, rfl⟩ := hpure
    obtain ⟨-, -, htemp, hother⟩ := ChunkWriter.new_eq_ok hnew
    obtain ⟨hkept, htemps⟩ := ih hrest
    refine ⟨fun l bytes hl => ?_, List.forall_mem_cons.mpr ⟨hkept _ _ htemp, htemps⟩⟩
    by_cases he : l = receiver.tempLoc entry
    · exact he ▸ hkept _ _ htemp
    · rcases hother l he with h₁ | ⟨hn, -⟩
      · exact hkept l bytes (h₁.trans hl)
      · exact absurd (hn.symm.trans hl) (by simp)

theorem Receiving.start {world world' : World} {writers : List (Option ChunkWriter)}
    (h : openWriters receiver manifest manifest.files world = (.ok writers, world'))
    (before : ℕ) :
    Receiving receiver manifest [] { writers, bytesReceived := before } world' :=
  ⟨writersAfter_open h before, (openWriters_files h).2⟩

theorem Receiving.beginTurn {chunks : List Delivery} {state : RecvState} {world : World}
    (h : Receiving receiver manifest chunks state world) (turn : Turn) :
    Receiving receiver manifest chunks state (World.beginTurn turn world).2 :=
  ⟨h.writers, h.temps⟩

theorem Receiving.step {chunks : List Delivery} {chunk : Delivery} {state state' : RecvState}
    {world world' : World} (h : Receiving receiver manifest chunks state world)
    (hchunk : handleChunk receiver manifest state chunk.1 chunk.2 world = (.ok state', world')) :
    Receiving receiver manifest (chunks ++ [chunk]) state' world' := by
  obtain ⟨writer, hwriter, -, hset, -, -, -, -, -, hdisk⟩ := handleChunk_eq_ok hchunk
  refine ⟨h.writers.step hwriter hset, fun entry he => ?_⟩
  rw [hdisk]
  split_ifs
  · exact ⟨_, rfl⟩
  · exact h.temps entry he

/-- A chunk that is taken is acknowledged; the count may still overflow after that. -/
theorem Receiving.handleChunk_of_takes {chunks : List Delivery} {turn : Turn} {chunk : Delivery}
    {state : RecvState} {world : World} (h : Receiving receiver manifest chunks state world)
    (hturn : Takes manifest turn chunk) (hfaults : world.disk.faults = turn.diskFaults)
    (hwrite : world.codec.transport.writeFault = turn.sendFault) :
    (state.bytesReceived + chunk.2.length < 2 ^ 64 ∧ ∃ state' world',
      handleChunk receiver manifest state chunk.1 chunk.2 world = (.ok state', world')) ∨
    (¬state.bytesReceived + chunk.2.length < 2 ^ 64 ∧ ∃ world' sha256,
      handleChunk receiver manifest state chunk.1 chunk.2 world = (.panic, world') ∧
        world'.resume = world.resume ∧
        world'.codec.sent = world.codec.sent ++ [.chunkAck ⟨chunk.1, sha256⟩]) := by
  obtain ⟨⟨entry, hentry, hlt⟩, hspared, hsend⟩ := hturn
  obtain ⟨bytes, htemp⟩ := h.temps entry (List.mem_of_getElem? hentry)
  obtain ⟨written, disk, hchunk⟩ := ChunkWriter.writeChunk_of_spared receiver.host
    (writerAfter receiver manifest chunks chunk.1.fileIndex.toNat entry) chunk.2
    (hfaults ▸ hspared) hlt (mul_lt_of_lt_chunksOf (UInt64.toNat_lt _) hlt) htemp
  obtain ⟨codec, hack, -, hsent⟩ := send_of_fits receiver.noise { world with disk }
    (fits_chunkAck ⟨chunk.1, written.1⟩) (hwrite.trans hsend)
  simp only [handleChunk, h.writers.getElem? hentry, Option.join_some]
  rw [Task.bind_of_ok (onDisk_of_ok hchunk), Task.bind_of_ok hack]
  by_cases hbytes : state.bytesReceived + chunk.2.length < 2 ^ 64
  · left
    rw [checkedAdd, if_pos hbytes]
    exact ⟨hbytes, _, _, rfl⟩
  · right
    rw [checkedAdd, if_neg hbytes]
    exact ⟨hbytes, _, written.1, rfl, rfl, hsent⟩

/-- A chunk that is not taken ends the run in an error and is not acknowledged. -/
theorem Receiving.handleChunk_of_not_takes {chunks : List Delivery} {turn : Turn}
    {chunk : Delivery} {state : RecvState} {world : World}
    (h : Receiving receiver manifest chunks state world)
    (hturn : ¬Takes manifest turn chunk) (hfaults : world.disk.faults = turn.diskFaults)
    (hwrite : world.codec.transport.writeFault = turn.sendFault) :
    ∃ e world', handleChunk receiver manifest state chunk.1 chunk.2 world = (.err e, world') ∧
      world'.resume = world.resume ∧ world'.codec.sent = world.codec.sent := by
  unfold handleChunk
  cases hw : state.writers[chunk.1.fileIndex.toNat]?.join with
  | none => exact ⟨_, _, rfl, rfl, rfl⟩
  | some writer =>
    obtain ⟨entry, hentry, rfl⟩ := h.writers.eq_of_getElem? (Option.join_eq_some_iff.mp hw)
    have hmul : chunk.1.chunkOffset.toNat < chunksOf entry.size.toNat manifest.chunkSize.toNat →
        chunk.1.chunkOffset.toNat * manifest.chunkSize.toNat < 2 ^ 64 :=
      mul_lt_of_lt_chunksOf (UInt64.toNat_lt _)
    have hends : Task.Ends (fun _ => True)
        ((writerAfter receiver manifest chunks chunk.1.fileIndex.toNat entry).writeChunk
          receiver.host chunk.1.chunkOffset.toNat chunk.2) (fun _ _ => True) _ :=
      ChunkWriter.ends_writeChunk hmul
    have hpanic := hends.ne_panic (s := world.disk) trivial
    dsimp only
    rcases hchunk : (writerAfter receiver manifest chunks chunk.1.fileIndex.toNat
      entry).writeChunk receiver.host chunk.1.chunkOffset.toNat chunk.2 world.disk
      with ⟨written | e | _, disk⟩
    · have hlt := (ChunkWriter.writeChunk_eq_ok hchunk).1
      have hspared := ChunkWriter.spared_of_writeChunk hchunk
      have hfault : world.codec.transport.writeFault = true := by
        rw [hwrite]
        by_contra hsend
        exact hturn ⟨⟨entry, hentry, hlt⟩, hfaults ▸ hspared, by simpa using hsend⟩
      obtain ⟨codec, hack, -, hsent⟩ := ProtocolCodec.send_of_fault receiver.noise world.codec
        (fits_chunkAck ⟨chunk.1, written.1⟩) hfault
      have hsend : send receiver.noise (.chunkAck ⟨chunk.1, written.1⟩) { world with disk } =
          (.err (.serialization "transport send failed" (.network .io)),
            { world with disk, codec }) := by
        simp only [send, Task.zoom, hack]
      rw [Task.bind_of_ok (onDisk_of_ok hchunk), Task.bind_of_err hsend]
      exact ⟨_, _, rfl, rfl, hsent⟩
    · rw [Task.bind_of_err (onDisk_of_err hchunk)]
      exact ⟨_, _, rfl, rfl, rfl⟩
    · exact absurd (congrArg Prod.fst hchunk) hpanic

/-! ### What a run leaves -/

/-- The traffic of a run has been acknowledged, and stored if the run saves; a run
that does not save leaves the store alone unless it is answered. -/
structure Leaves (manifest : TransferManifest) (pre : List Delivery) (traffic : Traffic)
    (world world' : World) : Prop where
  acknowledged : ∀ i, world'.codec.acknowledged i =
    world.codec.acknowledged i ∪ offsetsOf traffic.taken i.toNat
  saved : traffic.saves = true → ∃ bytes, world'.resume =
    world.resume.save (savedState manifest (offsetsOf (pre ++ traffic.taken)) bytes)
  unsaved : traffic.saves = false → world'.resume = world.resume ∨ Answered world'

theorem acknowledged_union_nil (codec : ProtocolCodec) (i : UInt32) :
    codec.acknowledged i = codec.acknowledged i ∪ offsetsOf [] i.toNat := by
  simp [offsetsOf, deliveredTo]

/-- A run that stops without saving. -/
theorem Leaves.of_stop {pre : List Delivery} {world world' : World}
    (hack : world'.codec.acknowledged = world.codec.acknowledged)
    (hresume : world'.resume = world.resume ∨ Answered world') :
    Leaves manifest pre ⟨[], false⟩ world world' where
  acknowledged i := by
    rw [hack]
    exact acknowledged_union_nil _ i
  saved h := by simp at h
  unsaved _ := hresume

/-- A run that saves what it has received so far. -/
theorem Leaves.of_save {pre : List Delivery} {world world' : World} (bytes : ℕ)
    (hack : world'.codec.acknowledged = world.codec.acknowledged)
    (hresume : world'.resume =
      world.resume.save (savedState manifest (offsetsOf pre) bytes)) :
    Leaves manifest pre ⟨[], true⟩ world world' where
  acknowledged i := by
    rw [hack]
    exact acknowledged_union_nil _ i
  saved _ := ⟨bytes, by rwa [List.append_nil]⟩
  unsaved h := by simp at h

/-- One chunk is acknowledged and the rest of the run follows. -/
theorem Leaves.cons {pre : List Delivery} {chunk : Delivery} {rest : Traffic} {sha256 : Sha256Hash}
    {world world₁ world' : World}
    (hsent : world₁.codec.sent = world.codec.sent ++ [.chunkAck ⟨chunk.1, sha256⟩])
    (hresume : world₁.resume = world.resume)
    (h : Leaves manifest (pre ++ [chunk]) rest world₁ world') :
    Leaves manifest pre ⟨chunk :: rest.taken, rest.saves⟩ world world' where
  acknowledged i := by
    rw [h.acknowledged, ProtocolCodec.acknowledged_of_ack hsent]
    ext k
    simp only [Finset.mem_union, mem_offsetsOf, List.exists_mem_cons_iff,
      ← UInt32.toNat_inj]
    split_ifs with hi
    · simp only [Finset.mem_insert, hi, true_and, eq_comm (a := k)]
      tauto
    · simp [hi]
  saved hsaves := by
    obtain ⟨bytes, hsaved⟩ := h.saved hsaves
    exact ⟨bytes, by rw [hsaved, hresume, List.append_assoc, List.singleton_append]⟩
  unsaved hsaves := hresume ▸ h.unsaved hsaves

theorem complete_leaves (pre : List Delivery) (state : RecvState) (manifestHash : Sha256Hash)
    (shutdownFault : Bool) (world : World) :
    Leaves manifest pre ⟨[], false⟩ world
      (complete receiver manifest state manifestHash shutdownFault world).2 := by
  refine Leaves.of_stop ?_ ?_
  · exact (keeps_complete (J := fun codec => codec.acknowledged = world.codec.acknowledged)
      (fun _ => keeps_acknowledged (fun _ => rfl) _) state manifestHash shutdownFault) world rfl
  · have hwarn : Task.Keeps (fun w : World => w.resume = world.resume)
        (Task.when (manifestHash ≠ computeManifestHash receiver.host.sha256 manifest)
          (warn "manifest hash mismatch")) := Task.Keeps.when _ fun _ h => h
    have hfinish : Task.Keeps (fun w : World => w.resume = world.resume)
        (finishFiles receiver state.writers 0 manifest.files) :=
      keeps_finishFiles (fun _ _ _ _ h => h) _ _ _
    by_contra hlost
    rw [not_or] at hlost
    obtain ⟨_, world₁, hw₁, hresume₁, hlost₁⟩ := hwarn.lost_by_rest rfl hlost.1
    rw [complete, Task.bind_of_ok hw₁] at hlost
    obtain ⟨allOk, world₂, hw₂, hresume₂, hlost₂⟩ := hfinish.lost_by_rest hresume₁ hlost₁
    rw [Task.bind_of_ok hw₂] at hlost
    obtain ⟨_, world₃, hw₃, hresume₃, hlost₃⟩ := Task.Keeps.lost_by_rest
      (I := fun w : World => w.resume = world.resume) (fun _ h => h) hresume₂ hlost₂
    rw [Task.bind_of_ok hw₃] at hlost
    cases allOk with
    | false =>
      refine hlost.1 ?_
      exact (Task.Keeps.when _ (Task.Keeps.fail _) :
        Task.Keeps (fun w : World => w.resume = world.resume) _) world₃ hresume₃
    | true =>
      refine hlost.2 ?_
      have hanswered : Answered world₃ := by
        have hsent := (send_eq_ok hw₃).2.1
        rw [Answered, hsent]
        exact List.mem_append_right _ (List.mem_singleton.mpr rfl)
      refine Task.Keeps.after (I := Answered) ?_ fun _ => Task.Keeps.when _ (Task.Keeps.fail _)
      exact hanswered

/-- What a run leaves depends on the acknowledged and the stored chunks it starts from. -/
theorem Leaves.congr {pre : List Delivery} {rest : Traffic} {world world₁ world' : World}
    (h : Leaves manifest pre rest world₁ world')
    (hack : world₁.codec.acknowledged = world.codec.acknowledged)
    (hresume : world₁.resume = world.resume) : Leaves manifest pre rest world world' :=
  ⟨fun i => hack ▸ h.acknowledged i, hresume ▸ h.saved, hresume ▸ h.unsaved⟩

/-- Every exit that saves. -/
theorem saving_leaves {pre : List Delivery} {state : RecvState}
    (h : WritersAfter receiver manifest pre state) (text : String)
    {rest : Task World ProtocolError Unit}
    (hrest : ∀ world, (rest world).2.codec = world.codec ∧ (rest world).2.resume = world.resume)
    (world : World) :
    Leaves manifest pre ⟨[], true⟩ world
      ((do
        warn text
        saveResumeState manifest state
        rest : Task World ProtocolError Unit) world).2 := by
  simp only [warn, Task.modify_bind_run]
  rw [Task.bind_of_ok (saveResumeState_of_writersAfter h _)]
  refine Leaves.of_save state.bytesReceived ?_ ?_
  · rw [(hrest _).1]
  · rw [(hrest _).2]

theorem receiveLoop_leaves {turns : List Turn} {pre : List Delivery} {state : RecvState}
    {world : World} (h : Receiving receiver manifest pre state world) :
    Leaves manifest pre (traffic manifest state.bytesReceived turns) world
      (receiveLoop receiver manifest turns state world).2 := by
  induction turns generalizing pre state world with
  | nil => exact saving_leaves h.writers _ (fun _ => ⟨rfl, rfl⟩) _
  | cons turn turns ih =>
    have hbegin : World.beginTurn turn world = (.ok (), (World.beginTurn turn world).2) := rfl
    have hturn := h.beginTurn turn
    suffices hleaves : Leaves manifest pre (traffic manifest state.bytesReceived (turn :: turns))
        (World.beginTurn turn world).2
        (receiveLoop receiver manifest (turn :: turns) state world).2 from
      hleaves.congr rfl rfl
    have hfaults : (World.beginTurn turn world).2.disk.faults = turn.diskFaults := rfl
    have hwrite : (World.beginTurn turn world).2.codec.transport.writeFault =
      turn.sendFault := rfl
    rw [receiveLoop, Task.bind_of_ok hbegin]
    generalize (World.beginTurn turn world).2 = world₁ at hturn hfaults hwrite
    obtain ⟨recv, diskFaults, sendFault, shutdownFault⟩ := turn
    rcases recv with e | _ | message
    · exact Leaves.of_stop rfl (Or.inl rfl)
    · exact saving_leaves hturn.writers _ (fun _ => ⟨rfl, rfl⟩) _
    · cases message with
      | chunkData id data =>
        simp only [traffic]
        split_ifs with htakes hbytes
        · rcases hturn.handleChunk_of_takes htakes hfaults hwrite with
            ⟨-, state₂, world₂, hchunk⟩ | ⟨hover, -⟩
          · obtain ⟨writer, -, -, -, hcount, -, -, hresume, hsent, -⟩ :=
              handleChunk_eq_ok hchunk
            have hrest := ih (Receiving.step hturn hchunk)
            rw [hcount] at hrest
            rw [Task.bind_of_ok hchunk]
            exact hrest.cons hsent hresume
          · exact absurd hbytes hover
        · rcases hturn.handleChunk_of_takes htakes hfaults hwrite with
            ⟨hlt, -⟩ | ⟨-, world₂, sha256, hchunk, hresume, hsent⟩
          · exact absurd hlt hbytes
          · rw [Task.bind_of_panic hchunk]
            have hrest : Leaves manifest (pre ++ [(id, data)]) ⟨[], false⟩ world₂ world₂ :=
              Leaves.of_stop rfl (Or.inl rfl)
            exact hrest.cons hsent hresume
        · obtain ⟨e, world₂, hchunk, hresume, hsent⟩ :=
            hturn.handleChunk_of_not_takes htakes hfaults hwrite
          rw [Task.bind_of_err hchunk]
          refine Leaves.of_stop ?_ (Or.inl hresume)
          funext i
          rw [ProtocolCodec.acknowledged, hsent, ProtocolCodec.acknowledged]
      | transferComplete manifestHash => exact complete_leaves _ _ _ _ _
      | cancel reason => exact saving_leaves hturn.writers _ (fun _ => ⟨rfl, rfl⟩) _
      | _ => exact Leaves.of_stop rfl (Or.inl rfl)

/-! ### Runs -/

/-- The script offers the manifest and the receiver accepts it. -/
structure Accepted (receiver : RecvTransfer) (manifest : TransferManifest)
    (script : Script) : Prop where
  handshake : ∃ remoteStatic, script.handshake = .ok remoteStatic
  request : script.request.recv = .ok (some (.transferRequest manifest))
  decision : receiver.decisionOf script.decision = .accept

/-- The response goes out and every writer is created, so that the turns are reached. -/
structure Opens (receiver : RecvTransfer) (manifest : TransferManifest) (script : Script)
    (world : World) : Prop where
  response : ∃ response, acceptResponse receiver manifest (world.resume manifest.transferId) =
    some response ∧ (Message.transferResponse response).Fits
  sent : script.request.sendFault = false
  opened : ∃ writers, (openWriters receiver manifest manifest.files
    (World.beginTurn script.request world).2).1 = .ok writers

/-- What is stored afterwards is what was stored before and what has been acknowledged. -/
def KeepsChunks (manifest : TransferManifest) (world world' : World) : Prop :=
  ∀ i, persisted (world'.resume manifest.transferId) i =
    persisted (world.resume manifest.transferId) i ∪ world'.codec.acknowledged i

/-- A run that saves takes everything stored again; a run that does not takes
nothing new. -/
structure Recoverable (manifest : TransferManifest) (stored : Option TransferResumeState)
    (turns : List Turn) : Prop where
  saved : (traffic manifest (bytesBefore stored) turns).saves = true → ∀ i : UInt32,
    persisted stored i ⊆ offsetsOf (traffic manifest (bytesBefore stored) turns).taken i.toNat
  unsaved : (traffic manifest (bytesBefore stored) turns).saves = false → ∀ i : UInt32,
    offsetsOf (traffic manifest (bytesBefore stored) turns).taken i.toNat ⊆ persisted stored i

theorem Leaves.keeps_iff_recoverable {turns : List Turn} {world world₁ world' : World}
    (h : Leaves manifest [] (traffic manifest (bytesBefore (world.resume manifest.transferId))
      turns) world₁ world')
    (hfresh : world₁.codec.acknowledged = fun _ => ∅) (hresume : world₁.resume = world.resume)
    (hanswered : ¬Answered world') :
    KeepsChunks manifest world world' ↔
      Recoverable manifest (world.resume manifest.transferId) turns := by
  set run := traffic manifest (bytesBefore (world.resume manifest.transferId)) turns with hrun
  have hack : ∀ i, world'.codec.acknowledged i = offsetsOf run.taken i.toNat := fun i => by
    rw [h.acknowledged i, hfresh, Finset.empty_union]
  have hstored : run.saves = true → ∀ i, persisted (world'.resume manifest.transferId) i =
      offsetsOf run.taken i.toNat := by
    intro hsaves i
    obtain ⟨bytes, hsaved⟩ := h.saved hsaves
    rw [hsaved, List.nil_append, ResumeStore.save, savedState, Function.update_self, ← savedState]
    refine persisted_savedState bytes (fun j k hk => ?_) i
    obtain ⟨chunk, hchunk, rfl, -⟩ := mem_offsetsOf.mp hk
    obtain ⟨entry, hentry, -⟩ := deliverable_of_mem_taken hchunk
    exact ⟨UInt32.toNat_lt _, (List.getElem?_eq_some_iff.mp hentry).1⟩
  have hsame : run.saves = false → world'.resume = world.resume := fun hsaves =>
    (h.unsaved hsaves).elim (fun hresume' => hresume'.trans hresume) fun hans =>
      absurd hans hanswered
  constructor
  · intro hkeeps
    refine ⟨fun hsaves i => ?_, fun hsaves i => ?_⟩
    · have hi := hkeeps i
      rwa [hstored hsaves, hack, eq_comm, Finset.union_eq_right] at hi
    · have hi := hkeeps i
      rwa [hsame hsaves, hack, eq_comm, Finset.union_eq_left] at hi
  · intro hrecoverable i
    cases hsaves : run.saves with
    | true =>
      rw [hstored hsaves, hack, eq_comm, Finset.union_eq_right]
      exact hrecoverable.saved hsaves i
    | false =>
      rw [hsame hsaves, hack, eq_comm, Finset.union_eq_left]
      exact hrecoverable.unsaved hsaves i

/-- Nothing is acknowledged yet and the store is as before. -/
def Untouched (store : ResumeStore) (world : World) : Prop :=
  world.codec.acknowledged = (fun _ => ∅) ∧ world.resume = store

theorem keeps_send_untouched {noise : Noise} {store : ResumeStore}
    (response : TransferResponse) :
    Task.Keeps (Untouched store) (send noise (.transferResponse response)) :=
  Task.Keeps.zoom (keeps_acknowledged (fun _ => rfl) _) (fun _ h => h.1) fun _ _ h hack =>
    ⟨hack, h.2⟩

theorem keeps_openWriters_untouched {store : ResumeStore} (entries : List FileEntry) :
    Task.Keeps (Untouched store) (openWriters receiver manifest entries) :=
  keeps_openWriters (fun _ _ h => h) entries

theorem untouched_started (turn : Turn) (remoteStatic : PublicKey) (world : World) :
    Untouched world.resume (started turn remoteStatic manifest world) := ⟨rfl, rfl⟩

/-- Opening writers is work on the disk alone. -/
theorem openWriters_eq_onDisk (receiver : RecvTransfer) (manifest : TransferManifest)
    (entries : List FileEntry) :
    ∃ t : Task Disk ProtocolError (List (Option ChunkWriter)),
      openWriters receiver manifest entries = onDisk t := by
  induction entries with
  | nil => exact ⟨pure [], (onDisk_pure _).symm⟩
  | cons entry entries ih =>
    obtain ⟨t, ht⟩ := ih
    refine ⟨do
      let writer ← Task.mapErr (fun e => .serialization "writer init" (.storage e))
        (ChunkWriter.new receiver.host manifest.transferId entry.index (receiver.destOf entry)
          manifest.chunkSize.toNat entry.size.toNat)
      let writers ← t
      pure (some writer :: writers), ?_⟩
    simp only [openWriters, ht, onDisk_bind, onDisk_pure]

theorem openWriters_congr {entries : List FileEntry} {world world₁ : World}
    (h : world₁.disk = world.disk) :
    (openWriters receiver manifest entries world₁).1 =
      (openWriters receiver manifest entries world).1 := by
  obtain ⟨t, ht⟩ := openWriters_eq_onDisk receiver manifest entries
  simp only [ht, onDisk, Task.zoom, h]

/-- Once the writers are open, the turns decide. -/
theorem receiveFiles_leaves {store : ResumeStore} {stored : Option TransferResumeState}
    {turns : List Turn} {response : TransferResponse} {world₁ world₂ world₃ : World}
    {writers : List (Option ChunkWriter)} (hstart : Untouched store world₁)
    (hresponse : acceptResponse receiver manifest stored = some response)
    (hsend : send receiver.noise (.transferResponse response) world₁ = (.ok (), world₂))
    (hopen : openWriters receiver manifest manifest.files world₂ = (.ok writers, world₃)) :
    ∃ world, Untouched store world ∧ Leaves manifest [] (traffic manifest (bytesBefore stored)
      turns) world (receiveFiles receiver manifest stored turns world₁).2 := by
  have h₂ : Untouched store (send receiver.noise (.transferResponse response) world₁).2 :=
    keeps_send_untouched response world₁ hstart
  rw [hsend] at h₂
  have h₃ : Untouched store (openWriters receiver manifest manifest.files world₂).2 :=
    keeps_openWriters_untouched manifest.files world₂ h₂
  rw [hopen] at h₃
  refine ⟨world₃, h₃, ?_⟩
  rw [receiveFiles, hresponse, Task.ofChecked_some, Task.pure_bind_run, Task.bind_of_ok hsend,
    Task.bind_of_ok hopen]
  exact receiveLoop_leaves (Receiving.start hopen _)

theorem handleIncoming_leaves_of_opens {script : Script}
    (haccepted : Accepted receiver manifest script) {world : World}
    (hopens : Opens receiver manifest script world) :
    ∃ world₁, Untouched world.resume world₁ ∧ Leaves manifest []
      (traffic manifest (bytesBefore (world.resume manifest.transferId)) script.turns) world₁
      (handleIncoming receiver script world).2 := by
  obtain ⟨remoteStatic, hhandshake⟩ := haccepted.handshake
  rw [handleIncoming_of_accept hhandshake haccepted.request haccepted.decision]
  obtain ⟨response, hresponse, hfit⟩ := hopens.response
  obtain ⟨codec, hsend, -, -⟩ := send_of_fits receiver.noise
    (started script.request remoteStatic manifest world) hfit hopens.sent
  obtain ⟨writers, hwriters⟩ := hopens.opened
  have hdisk : { started script.request remoteStatic manifest world with codec }.disk =
      (World.beginTurn script.request world).2.disk := rfl
  rw [← openWriters_congr hdisk] at hwriters
  exact receiveFiles_leaves (untouched_started _ _ _) hresponse hsend (Prod.ext hwriters rfl)

/-- Every step before the turns leaves the store as it is, so a run that changes it has
passed them all. -/
theorem Opens.of_changed {script : Script} (haccepted : Accepted receiver manifest script)
    {world : World}
    (h : ¬Untouched world.resume (handleIncoming receiver script world).2) :
    Opens receiver manifest script world := by
  obtain ⟨remoteStatic, hhandshake⟩ := haccepted.handshake
  rw [handleIncoming_of_accept hhandshake haccepted.request haccepted.decision] at h
  have hstart : Untouched world.resume (started script.request remoteStatic manifest world) :=
    untouched_started _ _ _
  unfold receiveFiles at h
  obtain ⟨response, world₁, hresponse, h₁, hchanged₁⟩ :=
    (Task.Keeps.ofChecked _).lost_by_rest hstart h
  obtain ⟨hsome, rfl⟩ := Task.ofChecked_eq_ok.mp hresponse
  obtain ⟨_, world₂, hsend, h₂, hchanged₂⟩ :=
    (keeps_send_untouched response).lost_by_rest h₁ hchanged₁
  obtain ⟨writers, world₃, hopen, -, -⟩ :=
    (keeps_openWriters_untouched manifest.files).lost_by_rest h₂ hchanged₂
  obtain ⟨hfit, -, hworld₂⟩ := send_eq_ok hsend
  have hsent : script.request.sendFault = false := by
    by_contra hfault
    obtain ⟨e, codec, hsend'⟩ := send_of_writeFault receiver.noise
      (started script.request remoteStatic manifest world) hfit (Bool.eq_true_of_not_eq_false hfault)
    simp [hsend'] at hsend
  have hdisk : world₂.disk = (World.beginTurn script.request world).2.disk := by
    rw [hworld₂]
    rfl
  refine ⟨⟨response, hsome, hfit⟩, hsent, writers, ?_⟩
  rw [← openWriters_congr hdisk, hopen]

/-- A run that does not get to its turns leaves the store untouched. -/
theorem handleIncoming_leaves {script : Script} (haccepted : Accepted receiver manifest script)
    (world : World) :
    Untouched world.resume (handleIncoming receiver script world).2 ∨
      ∃ world₁, Untouched world.resume world₁ ∧ Leaves manifest []
        (traffic manifest (bytesBefore (world.resume manifest.transferId)) script.turns) world₁
        (handleIncoming receiver script world).2 := by
  by_cases hend : Untouched world.resume (handleIncoming receiver script world).2
  · exact Or.inl hend
  · exact Or.inr (handleIncoming_leaves_of_opens haccepted (Opens.of_changed haccepted hend))

theorem Untouched.keepsChunks {world world' : World} (h : Untouched world.resume world') :
    KeepsChunks manifest world world' := by
  intro i
  rw [h.2, h.1, Finset.union_empty]

/-! ### Interrupted runs -/

/-- The world after several runs, each over a connection of its own. -/
def runs (receiver : RecvTransfer) (scripts : List Script) (world : World) : World :=
  scripts.foldl (fun world script => (handleIncoming receiver script world).2) world

theorem keepsChunks_of_recoverable {script : Script} (haccepted : Accepted receiver manifest script)
    {world : World} (hanswered : ¬Answered (handleIncoming receiver script world).2)
    (hrecoverable : Recoverable manifest (world.resume manifest.transferId) script.turns) :
    KeepsChunks manifest world (handleIncoming receiver script world).2 := by
  rcases handleIncoming_leaves haccepted world with huntouched | ⟨world₁, h₁, hleaves⟩
  · exact huntouched.keepsChunks
  · exact (hleaves.keeps_iff_recoverable h₁.1 h₁.2 hanswered).mpr hrecoverable

/-- The chunks of a file acknowledged over several runs. -/
def acknowledgedIn (receiver : RecvTransfer) (fileIndex : UInt32) :
    List Script → World → Finset ℕ
  | [], _ => ∅
  | script :: scripts, world =>
    let after := (handleIncoming receiver script world).2
    after.codec.acknowledged fileIndex ∪ acknowledgedIn receiver fileIndex scripts after

/-- Every run offers the transfer, is accepted and interrupted, and is recoverable
where it starts. -/
def RecoverableRuns (receiver : RecvTransfer) (transferId : TransferId) :
    List Script → World → Prop
  | [], _ => True
  | script :: scripts, world =>
    let after := (handleIncoming receiver script world).2
    (∃ manifest, manifest.transferId = transferId ∧ Accepted receiver manifest script ∧
      ¬Answered after ∧ Recoverable manifest (world.resume transferId) script.turns) ∧
      RecoverableRuns receiver transferId scripts after

/-- Over recoverable interruptions the stored chunks grow by all that is acknowledged. -/
theorem persisted_runs {transferId : TransferId} {scripts : List Script} {world : World}
    (h : RecoverableRuns receiver transferId scripts world) (i : UInt32) :
    persisted ((runs receiver scripts world).resume transferId) i =
      persisted (world.resume transferId) i ∪ acknowledgedIn receiver i scripts world := by
  induction scripts generalizing world with
  | nil => simp [runs, acknowledgedIn]
  | cons script scripts ih =>
    obtain ⟨⟨manifest, rfl, haccepted, hanswered, hrecoverable⟩, hrest⟩ := h
    have hkeeps := keepsChunks_of_recoverable haccepted hanswered hrecoverable i
    have hruns : runs receiver (script :: scripts) world =
        runs receiver scripts (handleIncoming receiver script world).2 := rfl
    rw [hruns, ih hrest, hkeeps, acknowledgedIn, Finset.union_assoc]

/-- After any earlier runs, an interrupted run keeps every chunk when it is
recoverable, and once it has reached its turns only then. One that ends before them
has acknowledged nothing and stored nothing. -/
theorem keepsChunks_iff (receiver : RecvTransfer) (manifest : TransferManifest)
    (earlier : List Script) (script : Script) (world : World) :
    let before := runs receiver earlier world
    let after := (handleIncoming receiver script before).2
    Accepted receiver manifest script → ¬Answered after →
      (Recoverable manifest (before.resume manifest.transferId) script.turns →
        KeepsChunks manifest before after) ∧
      (Opens receiver manifest script before → KeepsChunks manifest before after →
        Recoverable manifest (before.resume manifest.transferId) script.turns) ∧
      (¬Opens receiver manifest script before →
        Untouched before.resume after ∧ KeepsChunks manifest before after) := by
  intro before after haccepted hanswered
  refine ⟨keepsChunks_of_recoverable haccepted hanswered, fun hopens hkeeps => ?_,
    fun hopens => ?_⟩
  · obtain ⟨world₁, h₁, hleaves⟩ := handleIncoming_leaves_of_opens haccepted hopens
    exact (hleaves.keeps_iff_recoverable h₁.1 h₁.2 hanswered).mp hkeeps
  · have huntouched : Untouched before.resume after := by
      by_contra hchanged
      exact hopens (Opens.of_changed haccepted hchanged)
    exact ⟨huntouched, huntouched.keepsChunks⟩

/-- An accepted offer of the file, with these deliveries and then this turn. -/
def abcScript (chunks : List Delivery) (last : Turn) : Script where
  handshake := .ok (Vector.replicate 32 1)
  request := Turn.calm (.transferRequest abcManifest)
  decision := some .accept
  turns := chunkTurns chunks ++ [last]

/-- The connection is reset in the middle of a frame. -/
def resetTurn : Turn where
  recv := .error (.deserialization "transport recv failed" (.network .connectionReset))
  diskFaults := []
  sendFault := false
  shutdownFault := false

/-- One run that was cancelled after the first chunk. -/
def cutOnce : World :=
  runs (plainReceiver 100) [abcScript [(⟨0, 0⟩, [1, 2])] (Turn.calm (.cancel "later"))] emptyWorld

theorem resume_cutOnce :
    cutOnce.resume abcManifest.transferId = some (savedState abcManifest (fun _ => {0}) 2) := by
  decide +kernel

/-- A second run that receives the stored chunk again before the other. -/
def resendScript : Script :=
  abcScript [(⟨0, 0⟩, [1, 2]), (⟨0, 1⟩, [3])] (Turn.calm (.cancel "later"))

def resentOnce : World := (handleIncoming (plainReceiver 100) resendScript cutOnce).2

theorem recoverable_resendScript :
    Recoverable abcManifest (cutOnce.resume abcManifest.transferId) resendScript.turns := by
  have htraffic : traffic abcManifest (bytesBefore
      (some (savedState abcManifest (fun _ => {0}) 2))) resendScript.turns =
        ⟨[(⟨0, 0⟩, [1, 2]), (⟨0, 1⟩, [3])], true⟩ := by decide +kernel
  rw [resume_cutOnce]
  refine ⟨fun _ i k hk => ?_, fun hsaves => ?_⟩
  · rw [htraffic]
    obtain ⟨state, hstate, file, hfile, hindex, hcompleted⟩ := mem_persisted.mp hk
    obtain rfl := Option.some.inj hstate
    obtain rfl := List.mem_singleton.mp hfile
    obtain rfl := Finset.mem_singleton.mp hcompleted
    rw [← hindex]
    decide
  · simp [htraffic] at hsaves

theorem keepsChunks_resent :
    KeepsChunks abcManifest cutOnce resentOnce ∧
      persisted (resentOnce.resume abcManifest.transferId) 0 = {0, 1} := by
  have hanswered : ¬Answered resentOnce := by decide +kernel
  have hkeeps := keepsChunks_iff (plainReceiver 100) abcManifest
    [abcScript [(⟨0, 0⟩, [1, 2])] (Turn.calm (.cancel "later"))] resendScript emptyWorld
  rw [← cutOnce] at hkeeps
  simp only [← resentOnce.eq_1] at hkeeps
  exact ⟨(hkeeps ⟨⟨_, rfl⟩, rfl, rfl⟩ hanswered).1 recoverable_resendScript, by decide +kernel⟩

/-- A reset loses the acknowledged chunk, and a second run that saves loses the stored one. -/
theorem not_keepsChunks_reset_or_second_save :
    (let script := abcScript [(⟨0, 0⟩, [1, 2])] resetTurn
      let after := (handleIncoming (plainReceiver 100) script emptyWorld).2
      Accepted (plainReceiver 100) abcManifest script ∧ ¬Answered after ∧
        after.codec.acknowledged 0 = {0} ∧ after.resume abcManifest.transferId = none ∧
        ¬KeepsChunks abcManifest emptyWorld after) ∧
    (let script := abcScript [(⟨0, 1⟩, [3])] (Turn.calm (.cancel "later"))
      let after := (handleIncoming (plainReceiver 100) script cutOnce).2
      Accepted (plainReceiver 100) abcManifest script ∧ ¬Answered after ∧
        persisted (cutOnce.resume abcManifest.transferId) 0 = {0} ∧
        persisted (after.resume abcManifest.transferId) 0 = {1} ∧
        ¬KeepsChunks abcManifest cutOnce after) := by
  refine ⟨⟨⟨⟨_, rfl⟩, rfl, rfl⟩, by decide +kernel, by decide +kernel, by decide +kernel,
    fun hkeeps => ?_⟩, ⟨⟨_, rfl⟩, rfl, rfl⟩, by decide +kernel, by decide +kernel,
    by decide +kernel, fun hkeeps => ?_⟩
  · exact absurd (hkeeps 0) (by decide +kernel)
  · exact absurd (hkeeps 0) (by decide +kernel)

end RecvTransfer
end JustDrop

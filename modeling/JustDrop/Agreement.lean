import JustDrop.ChunkOrder
import JustDrop.Streaming

/-!
# What a successful send says about the receiver

In a run between an honest sender and an honest receiver the sender returns only
when the receiver has taken every chunk of every file and published all of them.
What is published are the bytes that were streamed, whatever the temporary files
held before and whatever failed and was answered on the way.
-/
namespace JustDrop
open ByteImage

/-- The slots of a file that can be cut rebuild it, in any order that leaves none out. -/
theorem writeSlots_of_divisible {file image : Bytes} {chunkSize : ℕ} {ks : List ℕ}
    (hdivisible : Divisible file.length chunkSize) (hlength : image.length = file.length)
    (hall : ∀ k, k ∈ ks ↔ k < chunksOf file.length chunkSize) :
    writeSlots file chunkSize image ks = file := by
  rcases hdivisible with hzero | hchunk
  · obtain rfl := List.eq_nil_of_length_eq_zero hzero
    obtain rfl := List.eq_nil_of_length_eq_zero hlength
    clear hall
    induction ks with
    | nil => rfl
    | cons k ks ih => simpa [writeSlots_cons, slot] using ih
  · exact writeSlots_of_all hchunk hlength hall

/-! ### A positive answer, whatever the turns -/

namespace RecvTransfer
open World
open ProtocolCodec (SentAll keeps_sentAll)

/-- The message that carries a delivery. -/
def Delivery.message (chunk : Delivery) : Message := .chunkData chunk.1 chunk.2

/-- The messages that some turns hand to the receiver. -/
def handed (turns : List Turn) : List Message :=
  turns.filterMap fun turn => turn.recv.toOption.join

variable {receiver : RecvTransfer} {manifest : TransferManifest}

/-- The messages of a loop that answers positively: chunks that the receiver takes, which
together with those before cover every file, and then the completion. -/
def Delivers (receiver : RecvTransfer) (manifest : TransferManifest) (d : Disk)
    (pre : List Delivery) (messages : List Message) (world : World) : Prop :=
  ∃ chunks manifestHash rest,
    messages = chunks.map Delivery.message ++ .transferComplete manifestHash :: rest ∧
      (∀ chunk ∈ chunks, Deliverable manifest chunk) ∧
      (∀ i entry, manifest.files[i]? = some entry →
        ∀ k < chunksOf entry.size.toNat manifest.chunkSize.toNat,
          k ∈ offsetsOf (pre ++ chunks) i) ∧
      PublishedAll receiver manifest d (pre ++ chunks) world

/-- One more chunk in front. -/
theorem Delivers.cons {d : Disk} {pre : List Delivery} {chunk : Delivery}
    {messages : List Message} {world : World}
    (h : Delivers receiver manifest d (pre ++ [chunk]) messages world)
    (hchunk : Deliverable manifest chunk) :
    Delivers receiver manifest d pre (chunk.message :: messages) world := by
  obtain ⟨chunks, manifestHash, rest, rfl, hdeliverable, hcovered, hpublished⟩ := h
  rw [List.append_assoc, List.singleton_append] at hcovered hpublished
  exact ⟨chunk :: chunks, manifestHash, rest, rfl, List.forall_mem_cons.mpr ⟨hchunk, hdeliverable⟩,
    hcovered, hpublished⟩

/-- A completion that is answered positively has finished every file. -/
theorem delivers_of_complete (hdistinct : TempsDistinct receiver manifest) {d : Disk}
    {before : ℕ} {pre : List Delivery} {state : RecvState} {world : World}
    (hstate : Assembling receiver manifest d before pre state world)
    (hpre : ∀ chunk ∈ pre, Deliverable manifest chunk) (hun : Unanswered world.codec)
    (manifestHash : Sha256Hash) (shutdownFault : Bool) (rest : List Message)
    (hans : ¬Unanswered
      (complete receiver manifest state manifestHash shutdownFault world).2.codec) :
    Delivers receiver manifest d pre (.transferComplete manifestHash :: rest)
      (complete receiver manifest state manifestHash shutdownFault world).2 := by
  obtain ⟨world₁, world₂, hdisk₁, hpub₁, hfinish, hdisk₂, hpub₂⟩ := complete_answered hun hans
  have hstate₁ : Assembling receiver manifest d before pre state world₁ :=
    ⟨hstate.writers, hdisk₁ ▸ hstate.temps, hstate.bytes, hpub₁.trans hstate.published⟩
  obtain ⟨hpublished, hcomplete⟩ := hstate₁.finish hdistinct hfinish
  refine ⟨[], manifestHash, rest, rfl, fun _ h => absurd h List.not_mem_nil,
    fun i entry hi => ?_, ?_, ?_⟩
  · rw [List.append_nil]
    exact (isComplete_writerAfter_iff hpre hi).mp (hcomplete i entry hi)
  · rw [hdisk₂, hpub₂, List.append_nil]
    exact hpublished.bytes
  · rw [hpub₂]
    exact hpublished.all

theorem keeps_saveResumeState {J : ProtocolCodec → Prop} (state : RecvState) :
    Task.Keeps (fun world => J world.codec) (saveResumeState manifest state) :=
  Task.Keeps.bind (Task.Keeps.ofChecked _) fun _ => fun _ h => h

/-- A loop that ends in a positive answer was handed the chunks and the completion. -/
theorem delivers_of_answered (hdistinct : TempsDistinct receiver manifest) {d : Disk}
    {before : ℕ} {turns : List Turn} {pre : List Delivery} {state : RecvState} {world : World}
    (hstate : Assembling receiver manifest d before pre state world)
    (hpre : ∀ chunk ∈ pre, Deliverable manifest chunk) (hun : Unanswered world.codec)
    (hans : ¬Unanswered (receiveLoop receiver manifest turns state world).2.codec) :
    Delivers receiver manifest d pre (handed turns)
      (receiveLoop receiver manifest turns state world).2 := by
  have hclosed : ∀ state : RecvState, Task.Keeps (fun world => Unanswered world.codec)
      (do
        warn "connection closed"
        saveResumeState manifest state
        Task.fail (.cancelled "connection closed") : Task World ProtocolError Unit) := fun state =>
    Task.Keeps.bind (keeps_warn _) fun _ =>
      Task.Keeps.bind (keeps_saveResumeState state) fun _ => Task.Keeps.fail _
  induction turns generalizing pre state world with
  | nil => exact absurd (hclosed state world hun) hans
  | cons turn turns ih =>
    unfold receiveLoop at hans ⊢
    obtain ⟨_, world₁, hturn, hun₁, hans₁⟩ := Task.Keeps.lost_by_rest
      (I := fun world : World => Unanswered world.codec)
      (keeps_beginTurn fun _ h => h) hun hans
    rw [Task.bind_of_ok hturn]
    have hstate₁ := hstate.beginTurn hturn
    have hfailed : ∀ e, Unanswered ((Task.fail e : Task World ProtocolError Unit) world₁).2.codec :=
      fun _ => hun₁
    cases hrecv : turn.recv with
    | error e => exact absurd (hfailed e) (by simpa only [hrecv] using hans₁)
    | ok reply =>
      rcases reply with _ | message
      · simp only [hrecv] at hans₁
        exact absurd (hclosed state world₁ hun₁) hans₁
      · cases message with
        | chunkData id data =>
          simp only [hrecv] at hans₁ ⊢
          obtain ⟨state₂, world₂, hchunk, hun₂, hans₂⟩ := Task.Keeps.lost_by_rest
            (I := fun world : World => Unanswered world.codec)
            (keeps_handleChunk (fun _ => keeps_sentAll (by simp)) _ _ _) hun₁ hans₁
          have hpair : handleChunk receiver manifest state (id, data).1 (id, data).2 world₁ =
              (.ok state₂, world₂) := hchunk
          obtain ⟨hstate₂, hdeliverable, -⟩ := hstate₁.step hdistinct hpair
          have hall : ∀ chunk ∈ pre ++ [(id, data)], Deliverable manifest chunk := by
            rw [List.forall_mem_append, List.forall_mem_singleton]
            exact ⟨hpre, hdeliverable⟩
          have hrest := (ih hstate₂ hall hun₂ hans₂).cons hdeliverable
          have hhanded : handed (turn :: turns) =
              Delivery.message (id, data) :: handed turns := by
            simp [handed, hrecv, Except.toOption, Delivery.message]
          rw [hhanded, Task.bind_of_ok hchunk]
          exact hrest
        | transferComplete manifestHash =>
          simp only [hrecv] at hans₁ ⊢
          have hhanded : handed (turn :: turns) =
              .transferComplete manifestHash :: handed turns := by
            simp [handed, hrecv, Except.toOption]
          rw [hhanded]
          exact delivers_of_complete hdistinct hstate₁ hpre hun₁ _ _ _ hans₁
        | cancel reason =>
          refine absurd ?_ hans₁
          simp only [hrecv]
          refine (Task.Keeps.bind (keeps_warn _) fun _ => ?_) world₁ hun₁
          refine Task.Keeps.bind (keeps_saveResumeState state) fun _ => ?_
          exact Task.Keeps.bind (keeps_emit _) fun _ => Task.Keeps.fail _
        | _ => exact absurd (hfailed _) (by simpa only [hrecv] using hans₁)

/-- From the response to the completion. -/
theorem delivers_of_receiveFiles (hdistinct : TempsDistinct receiver manifest)
    {stored : Option TransferResumeState} {turns : List Turn} {world : World}
    (hun : Unanswered world.codec) (hpub : world.published = [])
    (hans : ¬Unanswered (receiveFiles receiver manifest stored turns world).2.codec) :
    Delivers receiver manifest world.disk [] (handed turns)
      (receiveFiles receiver manifest stored turns world).2 := by
  unfold receiveFiles at hans ⊢
  obtain ⟨response, world₁, hresponse, hun₁, hans₁⟩ := Task.Keeps.lost_by_rest
    (I := fun world : World => Unanswered world.codec) (Task.Keeps.ofChecked _) hun hans
  obtain ⟨_, world₂, hsend, hun₂, hans₂⟩ := Task.Keeps.lost_by_rest
    (I := fun world : World => Unanswered world.codec)
    (keeps_send_unanswered (by simp)) hun₁ hans₁
  obtain ⟨writers, world₃, hopen, hun₃, hans₃⟩ := Task.Keeps.lost_by_rest
    (I := fun world : World => Unanswered world.codec)
    (keeps_openWriters (fun _ _ h => h) _) hun₂ hans₂
  obtain ⟨-, rfl⟩ := Task.ofChecked_eq_ok.mp hresponse
  obtain ⟨-, -, hworld₂⟩ := send_eq_ok hsend
  have hdisk₂ : world₂.disk = world₁.disk := by rw [hworld₂]
  have hpub₂ : world₂.published = [] := by rw [hworld₂, hpub]
  have hstate := Assembling.start (bytesBefore stored) hdistinct hpub₂ hopen
  rw [hdisk₂] at hstate
  rw [Task.bind_of_ok hresponse, Task.bind_of_ok hsend, Task.bind_of_ok hopen]
  exact delivers_of_answered hdistinct hstate (fun _ h => absurd h List.not_mem_nil) hun₃ hans₃

/-- Without a request there is no answer. -/
theorem unanswered_of_no_request {script : Script} {world : World} {remoteStatic : PublicKey}
    (hhandshake : script.handshake = .ok remoteStatic)
    (hrequest : ¬∃ manifest, script.request.recv = .ok (some (.transferRequest manifest))) :
    Unanswered (handleIncoming receiver script world).2.codec := by
  have hcodec : (handleIncoming receiver script world).2.codec =
      (ProtocolCodec.new (SecureTransport.new ⟨0, 0, remoteStatic⟩ [])).withWriteFault
        script.request.sendFault := by
    simp only [handleIncoming, hhandshake, connect, beginTurn, Task.modify_bind_run]
    cases hrecv : script.request.recv with
    | error e => rfl
    | ok reply =>
      rcases reply with _ | message
      · rfl
      · cases message <;> first | rfl | exact absurd ⟨_, hrecv⟩ hrequest
  rw [hcodec]
  simp [Unanswered, SentAll, ProtocolCodec.withWriteFault, ProtocolCodec.new]

/-- A positive answer: the request was accepted, and the chunks that were handed over up to
the completion are published. -/
theorem delivers_of_handleIncoming {script : Script} {world : World}
    (hdistinct : ∀ manifest, script.request.recv = .ok (some (.transferRequest manifest)) →
      TempsDistinct receiver manifest) (hworld : world.codec.sent = [])
    (hans : Answered (handleIncoming receiver script world).2) :
    ∃ manifest messages, script.received = .transferRequest manifest :: messages ∧
      receiver.decisionOf script.decision = .accept ∧
      Delivers receiver manifest world.disk [] messages
        (handleIncoming receiver script world).2 := by
  rw [answered_iff] at hans
  cases hhandshake : script.handshake with
  | error e =>
    refine absurd ?_ hans
    simp [handleIncoming, hhandshake, Unanswered, SentAll, hworld]
  | ok remoteStatic =>
    by_cases hrequest : ∃ manifest, script.request.recv = .ok (some (.transferRequest manifest))
    · obtain ⟨manifest, hrequest⟩ := hrequest
      have hstart : Unanswered (started script.request remoteStatic manifest world).codec := by
        simp [Unanswered, SentAll, started, ProtocolCodec.new]
      cases hdecision : receiver.decisionOf script.decision with
      | reject reason =>
        refine absurd ?_ hans
        rw [handleIncoming_of_reject hhandshake hrequest hdecision]
        exact (Task.Keeps.bind (keeps_send_unanswered (by simp)) fun _ => Task.Keeps.fail _) _
          hstart
      | accept =>
        refine ⟨manifest, handed script.turns, ?_, rfl, ?_⟩
        · simp [Script.received, hrequest, Except.toOption, handed]
        · rw [handleIncoming_of_accept hhandshake hrequest hdecision] at hans ⊢
          obtain ⟨chunks, manifestHash, rest, hmessages, hdeliverable, hcovered, hpublished⟩ :=
            delivers_of_receiveFiles (hdistinct manifest hrequest) hstart rfl hans
          exact ⟨chunks, manifestHash, rest, hmessages, hdeliverable, hcovered,
            hpublished.bytes, hpublished.all⟩
    · refine absurd ?_ hans
      exact unanswered_of_no_request hhandshake hrequest

/-- Deliveries that are slots of a file, with none left out, assemble the file. -/
theorem assembled_of_slots {d : Disk} {chunks : List Delivery} {i : ℕ} {entry : FileEntry}
    {file : Bytes} (hlength : entry.size.toNat = file.length)
    (hslots : ∀ chunk ∈ chunks, chunk.1.fileIndex.toNat = i →
      chunk.2 = slot file manifest.chunkSize.toNat chunk.1.chunkOffset.toNat ∧
        chunk.1.chunkOffset.toNat < chunksOf file.length manifest.chunkSize.toNat)
    (hcovered : ∀ k < chunksOf file.length manifest.chunkSize.toNat, k ∈ offsetsOf chunks i)
    (hdivisible : Divisible file.length manifest.chunkSize.toNat) :
    assembled receiver manifest d chunks i entry = file := by
  have hmem : ∀ chunk ∈ deliveredTo chunks i, chunk ∈ chunks ∧ chunk.1.fileIndex.toNat = i := by
    intro chunk hchunk
    simpa [deliveredTo] using hchunk
  have hwrites : (deliveredTo chunks i).map (fun chunk =>
      (chunk.1.chunkOffset.toNat * manifest.chunkSize.toNat, chunk.2)) =
      ((deliveredTo chunks i).map fun chunk => chunk.1.chunkOffset.toNat).map fun k =>
        (k * manifest.chunkSize.toNat, slot file manifest.chunkSize.toNat k) := by
    rw [List.map_map]
    refine List.map_congr_left fun chunk hchunk => ?_
    obtain ⟨hin, hindex⟩ := hmem chunk hchunk
    exact congrArg (Prod.mk _) (hslots chunk hin hindex).1
  rw [assembled, hwrites]
  have himage : (receiver.preallocated d entry).length = file.length := by
    rw [preallocated, length_resize, hlength]
  refine writeSlots_of_divisible hdivisible himage fun k => ⟨fun hk => ?_, fun hk => ?_⟩
  · obtain ⟨chunk, hchunk, rfl⟩ := List.mem_map.mp hk
    obtain ⟨hin, hindex⟩ := hmem chunk hchunk
    exact (hslots chunk hin hindex).2
  · have := hcovered k hk
    rwa [offsetsOf, List.mem_toFinset] at this

end RecvTransfer

/-! ### The chunks of the sender -/

namespace SendTransfer
open SendWorld

variable {sender : SendTransfer} {peer : DeviceInfo} {paths : List Path} {script : SendScript}
  {manifest : TransferManifest} {skip : Finset ℕ}

/-- While its chunks are sent the file has the length of its entry, and they are as long as
the receiver takes them to be. -/
structure Stable (sender : SendTransfer) (script : SendScript) (manifest : TransferManifest)
    (entry : FileEntry) (path : Path) (file : Bytes) : Prop where
  streamed : script.streamed path = some file
  length : entry.size.toNat = file.length
  chunkSize : effectiveChunkSize entry.size.toNat sender.config.transfer.chunkSize.toNat =
    manifest.chunkSize.toNat

theorem Stable.chunkerOf_eq {entry : FileEntry} {path : Path} {file : Bytes}
    (h : Stable sender script manifest entry path file) (i : ℕ) :
    chunkerOf sender script i (entry, path) =
      .ok { path, fileIndex := UInt32.ofNat i, chunkSize := manifest.chunkSize.toNat,
            fileSize := file.length } := by
  rw [chunkerOf, h.streamed, h.chunkSize]
  rfl

theorem exists_chunker_of_plannedFrom {i : ℕ} {files : List (FileEntry × Path)}
    {chunks : List ReadChunk}
    (h : plannedFrom sender script manifest skip i files = some chunks) {p : ℕ}
    {file : FileEntry × Path} (hp : files[p]? = some file) :
    ∃ chunker count, chunkerOf sender script (i + p) file = .ok chunker ∧
      chunker.chunkCount = some count := by
  induction files generalizing i p chunks with
  | nil => simp at hp
  | cons head files ih =>
    obtain ⟨chunker, count, first, rest, hchunker, hcount, -, hrest, -⟩ :=
      plannedFrom_cons_eq_some h
    cases p with
    | zero =>
      obtain rfl : head = file := Option.some.inj hp
      exact ⟨chunker, count, hchunker, hcount⟩
    | succ p =>
      obtain ⟨other, otherCount, hother, hotherCount⟩ := ih hrest hp
      rw [Nat.add_assoc, Nat.add_comm 1 p] at hother
      exact ⟨other, otherCount, hother, hotherCount⟩

/-- A planned chunk is read from the file whose position it bears. -/
theorem file_of_planned (hpaths : paths.length ≤ 2 ^ 32) {chunks : List ReadChunk}
    (hplanned : plannedFrom sender script manifest skip 0 (manifest.files.zip paths) = some chunks)
    {chunk : ReadChunk} (hchunk : chunk ∈ chunks) :
    ∃ file chunker count, (manifest.files.zip paths)[chunk.id.fileIndex.toNat]? = some file ∧
      chunkerOf sender script chunk.id.fileIndex.toNat file = .ok chunker ∧
      chunker.chunkCount = some count ∧
      ∃ k < count,
        chunker.readChunk sender.host ((script.streamed file.2).getD []) k = some chunk := by
  obtain ⟨p, file, chunker, count, hp, hchunker, hcount, k, hk, hread, -⟩ :=
    of_mem_plannedFrom hplanned hchunk
  rw [Nat.zero_add] at hchunker
  have hplt : p < 2 ^ 32 := by
    have hlt := (List.getElem?_eq_some_iff.mp hp).1
    rw [List.length_zip] at hlt
    omega
  have hindex : chunk.id.fileIndex.toNat = p := by
    rw [FileChunker.id_readChunk hread, fileIndex_chunkerOf hchunker]
    simpa using Nat.mod_eq_of_lt hplt
  exact ⟨file, chunker, count, hindex ▸ hp, hindex ▸ hchunker, hcount, k, hk, hread⟩

/-- A planned chunk that bears the index of a stable file is its slot of this file. -/
theorem slot_of_planned (hbits : sender.host.usizeBits = 64) (hpaths : paths.length ≤ 2 ^ 32)
    {chunks : List ReadChunk}
    (hplanned : plannedFrom sender script manifest skip 0 (manifest.files.zip paths) = some chunks)
    {chunk : ReadChunk} (hchunk : chunk ∈ chunks) {entry : FileEntry} {path : Path} {file : Bytes}
    (hi : (manifest.files.zip paths)[chunk.id.fileIndex.toNat]? = some (entry, path))
    (hstable : Stable sender script manifest entry path file) :
    chunk.data = slot file manifest.chunkSize.toNat chunk.id.chunkOffset.toNat ∧
      chunk.id.chunkOffset.toNat < chunksOf file.length manifest.chunkSize.toNat := by
  obtain ⟨other, chunker, count, hp, hchunker, hcount, k, hk, hread⟩ :=
    file_of_planned hpaths hplanned hchunk
  rw [hi] at hp
  obtain rfl := Option.some.inj hp
  rw [hstable.chunkerOf_eq] at hchunker
  obtain rfl := Except.ok.inj hchunker
  have hsize : file.length < 2 ^ 64 := by
    rw [← hstable.length]
    exact entry.size.toNat_lt
  obtain rfl := (count_eq_some.mp hcount).2
  have hk : k < chunksOf file.length manifest.chunkSize.toNat := hk
  have hk64 : k < 2 ^ 64 := by
    have hle := chunksOf_le file.length manifest.chunkSize.toNat
    omega
  have hoffset : chunk.id.chunkOffset.toNat = k := by
    rw [FileChunker.id_readChunk hread]
    simpa using Nat.mod_eq_of_lt hk64
  have hstreamed : (script.streamed path).getD [] = file := by rw [hstable.streamed]; rfl
  have hroom : manifest.chunkSize.toNat < 2 ^ 63 := lt_trans manifest.chunkSize.toNat_lt (by decide)
  rw [hstreamed, FileChunker.readChunk_eq hbits rfl hsize hroom
    (mul_lt_of_lt_chunksOf hsize hk)] at hread
  rw [hoffset, ← Option.some.inj hread]
  exact ⟨rfl, hk⟩

end SendTransfer

/-! ### Both ends -/

/-- Of two lists that end in something else, the shorter one is the whole. -/
theorem map_eq_of_prefix {α β : Type} {f : α → β} {l : List β} {m : List α} {last last' : β}
    {rest : List β} (hlast : ∀ a, f a ≠ last)
    (h : l ++ last :: rest <+: m.map f ++ [last']) : l = m.map f := by
  obtain ⟨tail, htail⟩ := h
  rw [List.append_assoc] at htail
  rcases List.append_eq_append_iff.mp htail with ⟨more, hmore, hrest⟩ | ⟨more, hmore, hrest⟩
  · cases more with
    | nil => rw [hmore, List.append_nil]
    | cons b more =>
      obtain ⟨rfl, -⟩ := List.cons.inj hrest
      have hmem : last ∈ m.map f := hmore ▸ List.mem_append_right _ List.mem_cons_self
      obtain ⟨a, -, ha⟩ := List.mem_map.mp hmem
      exact absurd ha (hlast a)
  · have hlength := congrArg List.length hrest
    simp only [List.length_cons, List.length_nil, List.length_append] at hlength
    have hnil : more = [] := List.eq_nil_of_length_eq_zero (by omega)
    rw [hmore, hnil, List.append_nil]

section Agreement
variable {sender : SendTransfer} {peer : DeviceInfo} {paths : List Path} {sendScript : SendScript}
  {receiver : RecvTransfer} {script : Script} {world : World} {manifest : TransferManifest}
  {transferId : TransferId}

/-- The receiver has answered positively when the sender returns. -/
theorem HonestRun.answered (hrun : HonestRun sender peer paths sendScript receiver script world)
    {chunks : List ReadChunk}
    (hsmooth : SendTransfer.Smooth sender sendScript manifest paths chunks) :
    RecvTransfer.Answered (receiver.handleIncoming script world).2 := by
  obtain ⟨turn, hturn, hverifies⟩ := hsmooth.verified
  obtain ⟨error, hrecv⟩ := hverifies.verified
  have hreceived : .transferVerified true error ∈ sendScript.received :=
    List.mem_filterMap.mpr ⟨turn, List.mem_of_mem_tail (List.mem_of_getElem? hturn), by
      rw [hrecv]
      rfl⟩
  have hsent := hrun.toSender.subset hreceived
  have hnone : ProtocolCodec.SentAll (fun m => ∀ error, m = .transferVerified true error →
      error = none) (receiver.handleIncoming script world).2.codec := by
    refine RecvTransfer.codec_handleIncoming (fun _ _ h => h)
      (fun _ _ hm => absurd hm List.not_mem_nil) (by simp [ProtocolCodec.SentAll, hrun.unsent])
      (fun _ hm => ProtocolCodec.keeps_sentAll hm) (by simp) fun _ _ _ => ⟨by simp, by simp,
        fun allOk => ?_⟩
    rintro error ⟨⟩
    rfl
  rw [RecvTransfer.Answered, ← hnone _ hsent error rfl]
  exact hsent

/-- What the receiver of a successful send was handed are the chunks that were sent. -/
theorem HonestRun.deliveries (hrun : HonestRun sender peer paths sendScript receiver script world)
    (hmanifest : sender.buildManifest sendScript paths = .ok manifest)
    (hok : (sender.sendFiles peer paths sendScript .idle).1 = .ok transferId)
    (hdistinct : RecvTransfer.TempsDistinct receiver manifest) :
    ∃ chunks, SendTransfer.planned sender sendScript manifest paths = some chunks ∧
      (∀ i entry, manifest.files[i]? = some entry →
        ∀ k < chunksOf entry.size.toNat manifest.chunkSize.toNat,
          k ∈ RecvTransfer.offsetsOf (chunks.map fun chunk => (chunk.id, chunk.data)) i) ∧
      RecvTransfer.PublishedAll receiver manifest world.disk
        (chunks.map fun chunk => (chunk.id, chunk.data))
        (receiver.handleIncoming script world).2 := by
  have hpair : sender.sendFiles peer paths sendScript .idle =
      (.ok transferId, (sender.sendFiles peer paths sendScript .idle).2) := Prod.ext hok rfl
  obtain ⟨chunks, hsmooth, hsent⟩ := SendTransfer.sendFiles_eq_ok hmanifest hpair
  have hsame : ∀ other, script.request.recv = .ok (some (.transferRequest other)) →
      other = manifest := fun other hrequest =>
    Outcome.ok.inj ((hrun.buildManifest hrequest).symm.trans hmanifest)
  obtain ⟨other, messages, hreceived, -, deliveries, manifestHash, rest, rfl, -, hcovered,
    hpublished⟩ := RecvTransfer.delivers_of_handleIncoming
      (fun other hrequest => hsame other hrequest ▸ hdistinct) hrun.unsent (hrun.answered hsmooth)
  have hprefix := hrun.toReceiver
  rw [hreceived, hsent, List.cons_prefix_cons] at hprefix
  obtain ⟨hrequest, hprefix⟩ := hprefix
  obtain rfl := Message.transferRequest.inj hrequest
  have hmessages := map_eq_of_prefix (fun chunk => by simp [ReadChunk.message]) hprefix
  have hdeliveries : deliveries = chunks.map fun chunk => (chunk.id, chunk.data) := by
    have hinjective : Function.Injective RecvTransfer.Delivery.message := by
      rintro ⟨id, data⟩ ⟨id', data'⟩ heq
      obtain ⟨rfl, rfl⟩ := Message.chunkData.inj heq
      rfl
    refine List.map_injective_iff.mpr hinjective ?_
    rw [hmessages, List.map_map]
    rfl
  rw [List.nil_append, hdeliveries] at hpublished
  rw [hdeliveries] at hcovered
  exact ⟨chunks, hsmooth.planned, hcovered, hpublished⟩

/-- When the sender returns, what is published for a file are the bytes that were read for it. -/
theorem HonestRun.lookup_of_published
    (hrun : HonestRun sender peer paths sendScript receiver script world)
    (hmanifest : sender.buildManifest sendScript paths = .ok manifest)
    (hok : (sender.sendFiles peer paths sendScript .idle).1 = .ok transferId)
    (hdistinct : RecvTransfer.TempsDistinct receiver manifest)
    (hbits : sender.host.usizeBits = 64) (hpaths : paths.length ≤ 2 ^ 32)
    {i : ℕ} {entry : FileEntry} {path : Path} {file : Bytes}
    (hi : (manifest.files.zip paths)[i]? = some (entry, path))
    (hstable : SendTransfer.Stable sender sendScript manifest entry path file) {dest : Path}
    (hdest : (i, dest) ∈ (receiver.handleIncoming script world).2.published) :
    (receiver.handleIncoming script world).2.disk.lookup (receiver.host.locate dest) =
      some (.file file) := by
  obtain ⟨chunks, hplanned, hcovered, hpublished⟩ := hrun.deliveries hmanifest hok hdistinct
  have hentry : manifest.files[i]? = some entry := (List.getElem?_zip_eq_some.mp hi).1
  obtain ⟨chunker, count, hchunker, hcount⟩ :=
    SendTransfer.exists_chunker_of_plannedFrom hplanned hi
  rw [hstable.chunkerOf_eq] at hchunker
  obtain rfl := Except.ok.inj hchunker
  rw [hpublished.bytes _ hdest, RecvTransfer.assembledAt, hentry, Option.map_some,
    Option.getD_some]
  refine congrArg (fun bytes => some (Node.file bytes)) ?_
  refine RecvTransfer.assembled_of_slots hstable.length ?_ (hstable.length ▸ hcovered i entry hentry)
    (count_eq_some.mp hcount).1
  intro delivery hdelivery hindex
  obtain ⟨chunk, hchunk, rfl⟩ := List.mem_map.mp hdelivery
  have hindex : chunk.id.fileIndex.toNat = i := hindex
  rw [← hindex] at hi
  exact SendTransfer.slot_of_planned hbits hpaths hplanned hchunk hi hstable

end Agreement
end JustDrop

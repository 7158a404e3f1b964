import JustDrop.Receive

/-!
# What the steps of a receive do

For every step of the receiver: what it has done when it returned, and which
predicates on the connection it keeps however it ends.
-/
namespace JustDrop

namespace World
variable {ε α : Type}

theorem onDisk_eq_ok {t : Task Disk ε α} {world world' : World} {a : α} :
    onDisk t world = (.ok a, world') ↔
      ∃ disk, t world.disk = (.ok a, disk) ∧ world' = { world with disk } :=
  Task.zoom_eq_ok

theorem onDisk_of_ok {ε' : Type} {f : ε → ε'} {t : Task Disk ε α} {world : World} {a : α}
    {disk : Disk} (h : t world.disk = (.ok a, disk)) :
    onDisk (Task.mapErr f t) world = (.ok a, { world with disk }) :=
  Task.zoom_of_ok (Task.mapErr_of_ok h)

theorem onDisk_of_err {ε' : Type} {f : ε → ε'} {t : Task Disk ε α} {world : World} {e : ε}
    {disk : Disk} (h : t world.disk = (.err e, disk)) :
    onDisk (Task.mapErr f t) world = (.err (f e), { world with disk }) := by
  simp only [onDisk, Task.zoom, Task.mapErr_of_err h]

theorem onDisk_of_panic {ε' : Type} {f : ε → ε'} {t : Task Disk ε α} {world : World}
    {disk : Disk} (h : t world.disk = (.panic, disk)) :
    onDisk (Task.mapErr f t) world = (.panic, { world with disk }) := by
  simp only [onDisk, Task.zoom, Task.mapErr, h]

theorem onDisk_bind (t : Task Disk ε α) {β : Type} (f : α → Task Disk ε β) :
    onDisk (t >>= f) = onDisk t >>= fun a => onDisk (f a) := by
  refine Task.zoom_bind ?_ ?_ t f
  · exact fun _ _ => rfl
  · exact fun _ _ _ => rfl

theorem onDisk_pure (a : α) : onDisk (pure a : Task Disk ε α) = pure a := by
  refine Task.zoom_pure ?_ a
  exact fun _ => rfl

/-- Only the codec changes, and the message is the last one written. -/
theorem send_eq_ok {noise : Noise} {message : Message} {world world' : World}
    (h : send noise message world = (.ok (), world')) :
    message.Fits ∧ world'.codec.sent = world.codec.sent ++ [message] ∧
      world' = { world with codec := world'.codec } := by
  obtain ⟨codec, hsend, rfl⟩ := Task.zoom_eq_ok.mp h
  have hcases := (ProtocolCodec.send_cases noise message world.codec).2
  rw [hsend] at hcases
  rcases hcases with ⟨-, hfit, hsent⟩ | ⟨⟨source, herr⟩, -⟩
  · exact ⟨hfit, hsent, rfl⟩
  · simp at herr

theorem send_of_fits (noise : Noise) (world : World) {message : Message} (hfit : message.Fits)
    (hwrite : world.codec.transport.writeFault = false) :
    ∃ codec, send noise message world = (.ok (), { world with codec }) ∧
      codec.transport.writeFault = false ∧ codec.sent = world.codec.sent ++ [message] := by
  obtain ⟨codec, h, hfault, -, hsent⟩ := ProtocolCodec.send_of_fits noise world.codec hfit hwrite
  exact ⟨codec, Task.zoom_of_ok h, hfault, hsent⟩

theorem send_of_writeFault (noise : Noise) (world : World) {message : Message}
    (hfit : message.Fits) (hwrite : world.codec.transport.writeFault = true) :
    ∃ e codec, send noise message world = (.err e, { world with codec }) := by
  obtain ⟨codec, hsend, -, -⟩ := ProtocolCodec.send_of_fault noise world.codec hfit hwrite
  exact ⟨.serialization "transport send failed" (.network .io), codec, by
    simp only [send, Task.zoom, hsend]⟩

/-! ### Predicates on the codec -/

section Keeps
variable {J : ProtocolCodec → Prop} {noise : Noise}

theorem keeps_onDisk (t : Task Disk ε α) : Task.Keeps (fun world => J world.codec) (onDisk t) :=
  fun _ h => h

theorem keeps_emit (event : TransferEvent) :
    Task.Keeps (fun world => J world.codec) (emit event) := fun _ h => h

theorem keeps_warn (text : String) : Task.Keeps (fun world => J world.codec) (warn text) :=
  fun _ h => h

theorem keeps_beginTurn {turn : Turn}
    (hturn : ∀ codec, J codec → J (codec.withWriteFault turn.sendFault)) :
    Task.Keeps (fun world => J world.codec) (beginTurn turn) := fun _ h => hturn _ h

theorem keeps_send {message : Message} (h : Task.Keeps J (ProtocolCodec.send noise message)) :
    Task.Keeps (fun world => J world.codec) (send noise message) :=
  Task.Keeps.zoom h (fun _ hw => hw) fun _ _ _ hc => hc

end Keeps

end World

namespace RecvTransfer
open World

section Keeps
variable {I : World → Prop} {J : ProtocolCodec → Prop} {receiver : RecvTransfer}
  {manifest : TransferManifest}

/-- Opening writers keeps what does not depend on the disk. -/
theorem keeps_openWriters (hI : ∀ world disk, I world → I { world with disk })
    (entries : List FileEntry) : Task.Keeps I (openWriters receiver manifest entries) := by
  induction entries with
  | nil => exact Task.Keeps.pure _
  | cons entry entries ih =>
    refine Task.Keeps.bind (fun world h => hI world _ h) fun _ => ?_
    exact Task.Keeps.bind ih fun _ => Task.Keeps.pure _

/-- Taking a chunk keeps what the write, the acknowledgement and the progress keep. -/
theorem keeps_handleChunk_of {state : RecvState}
    (hwrite : ∀ writer : ChunkWriter, some writer ∈ state.writers → ∀ chunkOffset data,
      Task.Keeps I (onDisk (Task.mapErr (fun e => ProtocolError.serialization "write" (.storage e))
        (writer.writeChunk receiver.host chunkOffset data))))
    (hack : ∀ ack, Task.Keeps I (send receiver.noise (.chunkAck ack)))
    (hprogress : ∀ progress, Task.Keeps I (emit (.progress progress)))
    (id : ChunkId) (data : Bytes) :
    Task.Keeps I (handleChunk receiver manifest state id data) := by
  unfold handleChunk
  split
  · exact Task.Keeps.fail _
  · rename_i writer hwriter
    have hmem := List.mem_of_getElem? (Option.join_eq_some_iff.mp hwriter)
    refine Task.Keeps.bind (hwrite writer hmem _ _) fun _ => ?_
    refine Task.Keeps.bind (hack _) fun _ => ?_
    refine Task.Keeps.bind (Task.Keeps.ofChecked _) fun _ => ?_
    exact Task.Keeps.bind (hprogress _) fun _ => Task.Keeps.pure _

theorem keeps_handleChunk
    (hack : ∀ ack, Task.Keeps J (ProtocolCodec.send receiver.noise (.chunkAck ack)))
    (state : RecvState) (id : ChunkId) (data : Bytes) :
    Task.Keeps (fun world => J world.codec) (handleChunk receiver manifest state id data) := by
  apply keeps_handleChunk_of
  · exact fun _ _ _ _ => keeps_onDisk _
  · exact fun ack => keeps_send (hack ack)
  · exact fun _ => keeps_emit _

/-- Finishing files keeps what finalizing and the logs keep. -/
theorem keeps_finishFiles_of {writers : List (Option ChunkWriter)}
    (hfinalize : ∀ writer : ChunkWriter, some writer ∈ writers →
      Task.Keeps I (onDisk (Task.mapErr
        (fun e => ProtocolError.serialization "finalize" (.storage e))
        (writer.finalize receiver.host))))
    (hlogs : ∀ world published warnings, I world → I { world with published, warnings })
    (entries : List FileEntry) (i : ℕ) :
    Task.Keeps I (finishFiles receiver writers i entries) := by
  induction entries generalizing i with
  | nil => exact Task.Keeps.pure _
  | cons entry entries ih =>
    unfold finishFiles
    split
    · exact Task.Keeps.panic
    · exact ih (i + 1)
    · rename_i writer hwriter
      split_ifs
      · refine Task.Keeps.bind (hfinalize writer (List.mem_of_getElem? hwriter)) fun _ => ?_
        refine Task.Keeps.bind (Task.Keeps.modify fun world h => hlogs world _ _ h) fun _ => ?_
        exact ih (i + 1)
      · refine Task.Keeps.bind (fun world h => hlogs world _ _ h) fun _ => ?_
        exact Task.Keeps.bind (ih (i + 1)) fun _ => Task.Keeps.pure _

/-- Finishing files keeps what depends on neither the disk nor the logs. -/
theorem keeps_finishFiles (hI : ∀ world disk published warnings,
    I world → I { world with disk, published, warnings })
    (writers : List (Option ChunkWriter)) (entries : List FileEntry) (i : ℕ) :
    Task.Keeps I (finishFiles receiver writers i entries) := by
  apply keeps_finishFiles_of
  · exact fun _ _ world h => hI world _ world.published world.warnings h
  · exact fun world published warnings h => hI world world.disk published warnings h

theorem keeps_complete_of {state : RecvState}
    (hlogs : ∀ world resume events warnings, I world → I { world with resume, events, warnings })
    (hfinish : ∀ entries i, Task.Keeps I (finishFiles receiver state.writers i entries))
    (hverified : ∀ allOk, Task.Keeps I (send receiver.noise
      (.transferVerified allOk (if allOk then none else some "some files incomplete"))))
    (manifestHash : Sha256Hash) (shutdownFault : Bool) :
    Task.Keeps I (complete receiver manifest state manifestHash shutdownFault) := by
  refine Task.Keeps.bind (Task.Keeps.when _ fun world h => hlogs world _ _ _ h) fun _ => ?_
  refine Task.Keeps.bind (hfinish _ _) fun allOk => ?_
  refine Task.Keeps.bind (hverified allOk) fun _ => ?_
  refine Task.Keeps.bind (Task.Keeps.when _ (Task.Keeps.modify fun world h =>
    hlogs world _ _ _ h)) fun _ => ?_
  exact Task.Keeps.when _ (Task.Keeps.fail _)

theorem keeps_complete
    (hverified : ∀ allOk, Task.Keeps J (ProtocolCodec.send receiver.noise
      (.transferVerified allOk (if allOk then none else some "some files incomplete"))))
    (state : RecvState) (manifestHash : Sha256Hash) (shutdownFault : Bool) :
    Task.Keeps (fun world => J world.codec)
      (complete receiver manifest state manifestHash shutdownFault) := by
  apply keeps_complete_of
  · exact fun _ _ _ _ h => h
  · exact keeps_finishFiles (fun _ _ _ _ h => h) state.writers
  · exact fun allOk => keeps_send (hverified allOk)

/-- The loop keeps what its steps keep; `S` is what the steps need of the state. -/
theorem keeps_receiveLoop_of {S : RecvState → Prop}
    (hlogs : ∀ world resume events warnings, I world → I { world with resume, events, warnings })
    (hchunk : ∀ state id data, S state →
      Task.Keeps I (handleChunk receiver manifest state id data))
    (hstep : ∀ state id data world state' world', S state →
      handleChunk receiver manifest state id data world = (.ok state', world') → S state')
    (hcomplete : ∀ state manifestHash shutdownFault, S state →
      Task.Keeps I (complete receiver manifest state manifestHash shutdownFault))
    {turns : List Turn} (hbegin : ∀ turn ∈ turns, Task.Keeps I (beginTurn turn))
    {state : RecvState} (hstate : S state) :
    Task.Keeps I (receiveLoop receiver manifest turns state) := by
  have hwarn : ∀ text, Task.Keeps I (warn text) := fun _ world h => hlogs world _ _ _ h
  have hsave : ∀ state, Task.Keeps I (saveResumeState manifest state) := fun _ =>
    Task.Keeps.bind (Task.Keeps.ofChecked _) fun _ => fun world h => hlogs world _ _ _ h
  induction turns generalizing state with
  | nil =>
    refine Task.Keeps.bind (hwarn _) fun _ => ?_
    exact Task.Keeps.bind (hsave state) fun _ => Task.Keeps.fail _
  | cons turn turns ih =>
    rw [List.forall_mem_cons] at hbegin
    refine Task.Keeps.bind hbegin.1 fun _ => ?_
    split
    · exact Task.Keeps.fail _
    · rename_i id data _
      intro world h
      have hkeep := hchunk state id data hstate world h
      rcases hrun : handleChunk receiver manifest state id data world with
        ⟨state' | e | _, world'⟩ <;> rw [hrun] at hkeep
      · rw [Task.bind_of_ok hrun]
        exact ih hbegin.2 (hstep state id data world state' world' hstate hrun) world' hkeep
      · rw [Task.bind_of_err hrun]
        exact hkeep
      · rw [Task.bind_of_panic hrun]
        exact hkeep
    · exact hcomplete state _ _ hstate
    · refine Task.Keeps.bind (hwarn _) fun _ => ?_
      refine Task.Keeps.bind (hsave state) fun _ => ?_
      exact Task.Keeps.bind (fun world h => hlogs world _ _ _ h) fun _ => Task.Keeps.fail _
    · refine Task.Keeps.bind (hwarn _) fun _ => ?_
      exact Task.Keeps.bind (hsave state) fun _ => Task.Keeps.fail _
    · exact Task.Keeps.fail _

theorem keeps_receiveLoop {turns : List Turn}
    (hturns : ∀ turn ∈ turns, ∀ codec, J codec → J (codec.withWriteFault turn.sendFault))
    (hack : ∀ ack, Task.Keeps J (ProtocolCodec.send receiver.noise (.chunkAck ack)))
    (hverified : ∀ allOk, Task.Keeps J (ProtocolCodec.send receiver.noise
      (.transferVerified allOk (if allOk then none else some "some files incomplete"))))
    (state : RecvState) :
    Task.Keeps (fun world => J world.codec) (receiveLoop receiver manifest turns state) := by
  refine keeps_receiveLoop_of (S := fun _ => True) ?_ ?_ ?_ ?_ ?_ ?_
  · exact fun _ _ _ _ h => h
  · exact fun state id data _ => keeps_handleChunk hack state id data
  · exact fun _ _ _ _ _ _ _ _ => trivial
  · exact fun state manifestHash shutdownFault _ =>
      keeps_complete hverified state manifestHash shutdownFault
  · exact fun turn hturn => keeps_beginTurn (hturns turn hturn)
  · trivial

end Keeps

/-! ### The start of a run -/

/-- The world after the handshake and the request. -/
def started (turn : Turn) (remoteStatic : PublicKey) (manifest : TransferManifest)
    (world : World) : World :=
  { world with
    disk := { world.disk with faults := turn.diskFaults }
    codec := ProtocolCodec.new { SecureTransport.new ⟨0, 0, remoteStatic⟩ [] with
      writeFault := turn.sendFault }
    published := []
    events := world.events ++
      [.incomingRequest manifest.transferId manifest manifest.senderName] }

theorem handleIncoming_of_reject {receiver : RecvTransfer} {manifest : TransferManifest}
    {script : Script} {remoteStatic : PublicKey} {reason : String}
    (hhandshake : script.handshake = .ok remoteStatic)
    (hrequest : script.request.recv = .ok (some (.transferRequest manifest)))
    (hdecision : receiver.decisionOf script.decision = .reject reason) (world : World) :
    handleIncoming receiver script world =
      (do
        send receiver.noise (.transferResponse (.reject reason))
        Task.fail (.rejected reason) : Task World ProtocolError Unit)
        (started script.request remoteStatic manifest world) := by
  simp only [handleIncoming, hhandshake, connect, beginTurn, hrequest, emit, hdecision,
    Task.modify_bind_run, Task.get_bind_run]
  rfl

theorem handleIncoming_of_accept {receiver : RecvTransfer} {manifest : TransferManifest}
    {script : Script} {remoteStatic : PublicKey}
    (hhandshake : script.handshake = .ok remoteStatic)
    (hrequest : script.request.recv = .ok (some (.transferRequest manifest)))
    (hdecision : receiver.decisionOf script.decision = .accept) (world : World) :
    handleIncoming receiver script world =
      receiveFiles receiver manifest (world.resume manifest.transferId) script.turns
        (started script.request remoteStatic manifest world) := by
  simp only [handleIncoming, hhandshake, connect, beginTurn, hrequest, emit, hdecision,
    Task.modify_bind_run, Task.get_bind_run]
  rfl

/-- The answer has no value, or it is not sent, or the writers and the turns follow. -/
theorem receiveFiles_started (receiver : RecvTransfer) (manifest : TransferManifest)
    (stored : Option TransferResumeState) (turns : List Turn) (turn : Turn)
    (remoteStatic : PublicKey) (world : World) :
    let start := started turn remoteStatic manifest world
    let run := receiveFiles receiver manifest stored turns start
    (acceptResponse receiver manifest stored = none ∧ run = (.panic, start)) ∨
      ∃ response, acceptResponse receiver manifest stored = some response ∧
        ((¬((Message.transferResponse response).Fits ∧ turn.sendFault = false) ∧
            ∃ e codec, run = (.err e, { start with codec })) ∨
          ((Message.transferResponse response).Fits ∧ turn.sendFault = false ∧ ∃ codec,
            send receiver.noise (.transferResponse response) start =
              (.ok (), { start with codec }) ∧
            run = (openWriters receiver manifest manifest.files >>= fun writers =>
              receiveLoop receiver manifest turns
                { writers, bytesReceived := bytesBefore stored }) { start with codec })) := by
  intro start run
  cases hresponse : acceptResponse receiver manifest stored with
  | none =>
    left
    refine ⟨rfl, ?_⟩
    show receiveFiles receiver manifest stored turns start = _
    rw [receiveFiles, hresponse]
    rfl
  | some response =>
    right
    refine ⟨response, rfl, ?_⟩
    have hrun : run = (send receiver.noise (.transferResponse response) >>= fun _ =>
        openWriters receiver manifest manifest.files >>= fun writers =>
          receiveLoop receiver manifest turns
            { writers, bytesReceived := bytesBefore stored }) start := by
      show receiveFiles receiver manifest stored turns start = _
      rw [receiveFiles, hresponse]
      rfl
    rw [hrun]
    by_cases hfit : (Message.transferResponse response).Fits
    · cases hfault : turn.sendFault with
      | true =>
        left
        obtain ⟨e, codec, hsend⟩ := send_of_writeFault receiver.noise start hfit hfault
        exact ⟨by simp, e, codec, Task.bind_of_err hsend _⟩
      | false =>
        right
        obtain ⟨codec, hsend, -, -⟩ := send_of_fits receiver.noise start hfit hfault
        exact ⟨hfit, rfl, codec, hsend, Task.bind_of_ok hsend _⟩
    · left
      obtain ⟨codec, hsend⟩ : ∃ codec, send receiver.noise (.transferResponse response) start =
          (.err (.serialization "transport send failed"
            (.network (.security (.encryptionFailed "input error")))), { start with codec }) := by
        simp only [send, Task.zoom, ProtocolCodec.send_of_not_fits receiver.noise start.codec hfit]
        exact ⟨_, rfl⟩
      exact ⟨fun h => hfit h.1, _, codec, Task.bind_of_err hsend _⟩

/-- What a new connection has and every message of the run keeps holds at its end. -/
theorem codec_handleIncoming {receiver : RecvTransfer} {J : ProtocolCodec → Prop}
    {P : Message → Prop} {script : Script} {world : World}
    (hfault : ∀ b codec, J codec → J (codec.withWriteFault b))
    (hnew : ∀ transport, J (ProtocolCodec.new transport)) (hworld : J world.codec)
    (hsend : ∀ message, P message → Task.Keeps J (ProtocolCodec.send receiver.noise message))
    (hreject : ∀ manifest reason, script.request.recv = .ok (some (.transferRequest manifest)) →
      receiver.decisionOf script.decision = .reject reason →
        P (.transferResponse (.reject reason)))
    (haccept : ∀ manifest, script.request.recv = .ok (some (.transferRequest manifest)) →
      receiver.decisionOf script.decision = .accept →
        (∀ response, acceptResponse receiver manifest (world.resume manifest.transferId) =
          some response → P (.transferResponse response)) ∧
        (∀ ack, P (.chunkAck ack)) ∧
        ∀ allOk, P (.transferVerified allOk
          (if allOk then none else some "some files incomplete"))) :
    J (handleIncoming receiver script world).2.codec := by
  cases hhandshake : script.handshake with
  | error e => simpa [handleIncoming, hhandshake] using hworld
  | ok remoteStatic =>
    by_cases hrequest : ∃ manifest, script.request.recv = .ok (some (.transferRequest manifest))
    · obtain ⟨manifest, hrequest⟩ := hrequest
      cases hdecision : receiver.decisionOf script.decision with
      | reject reason =>
        rw [handleIncoming_of_reject hhandshake hrequest hdecision]
        exact (Task.Keeps.bind (keeps_send (hsend _ (hreject manifest reason hrequest hdecision)))
          fun _ => Task.Keeps.fail _) _ (hnew _)
      | accept =>
        obtain ⟨hresponse, hack, hverified⟩ := haccept manifest hrequest hdecision
        rw [handleIncoming_of_accept hhandshake hrequest hdecision]
        refine (Task.Keeps.ofChecked_bind (I := fun world : World => J world.codec)
          fun response hsome => ?_) _ (hnew _)
        refine Task.Keeps.bind (keeps_send (hsend _ (hresponse response hsome))) fun _ => ?_
        refine Task.Keeps.bind (keeps_openWriters (fun _ _ h => h) _) fun _ => ?_
        exact keeps_receiveLoop (fun _ _ codec h => hfault _ codec h)
          (fun ack => hsend _ (hack ack)) (fun allOk => hsend _ (hverified allOk)) _
    · have hcodec : (handleIncoming receiver script world).2.codec =
          (ProtocolCodec.new (SecureTransport.new ⟨0, 0, remoteStatic⟩ [])).withWriteFault
            script.request.sendFault := by
        simp only [handleIncoming, hhandshake, connect, beginTurn, Task.modify_bind_run]
        cases hrecv : script.request.recv with
        | error e => rfl
        | ok reply =>
          rcases reply with _ | message
          · rfl
          · cases message <;> first | rfl | exact absurd ⟨_, hrecv⟩ hrequest
      rw [hcodec]
      exact hfault _ _ (hnew _)

/-! ### The writers of a manifest -/

section Writers
variable (receiver : RecvTransfer) (manifest : TransferManifest)

/-- The location of the temporary file of an entry. -/
def tempLoc (entry : FileEntry) : Loc :=
  receiver.host.locate (ChunkWriter.tempOf (receiver.destOf entry))

/-- The writer of an entry before any chunk. -/
def writerOf (entry : FileEntry) : ChunkWriter :=
  ChunkWriter.fresh manifest.transferId entry.index (receiver.destOf entry)
    manifest.chunkSize.toNat entry.size.toNat

/-- The temporary file of an entry when its writer has been created on the disk `d`. -/
def preallocated (d : Disk) (entry : FileEntry) : Bytes :=
  ByteImage.resize (d.contents (receiver.tempLoc entry)) entry.size.toNat

/-- No two files of the manifest share a temporary file. -/
def TempsDistinct : Prop := (manifest.files.map receiver.tempLoc).Nodup

instance : Decidable (TempsDistinct receiver manifest) :=
  inferInstanceAs (Decidable (List.Nodup _))

end Writers

variable {receiver : RecvTransfer} {manifest : TransferManifest}

theorem openWriters_eq_ok {entries : List FileEntry} {world world' : World}
    {writers : List (Option ChunkWriter)}
    (h : openWriters receiver manifest entries world = (.ok writers, world')) :
    writers = entries.map (fun entry => some (writerOf receiver manifest entry)) ∧
      (∀ entry ∈ entries, Divisible entry.size.toNat manifest.chunkSize.toNat) ∧
      world' = { world with disk := world'.disk } ∧
      (∀ l, (∀ entry ∈ entries, l ≠ receiver.tempLoc entry) →
        world'.disk.lookup l = world.disk.lookup l ∨
          world.disk.lookup l = none ∧ world'.disk.lookup l = some .dir) ∧
      ((entries.map receiver.tempLoc).Nodup → ∀ entry ∈ entries,
        world'.disk.lookup (receiver.tempLoc entry) =
          some (.file (receiver.preallocated world.disk entry))) := by
  induction entries generalizing world writers with
  | nil =>
    obtain ⟨rfl, rfl⟩ : writers = [] ∧ world' = world := by
      simpa [openWriters, eq_comm] using h
    simp
  | cons entry entries ih =>
    simp only [openWriters, Task.bind_eq_ok, onDisk_eq_ok, Task.mapErr_eq_ok] at h
    obtain ⟨writer, _, ⟨d₁, hnew, rfl⟩, rest, w₂, hrest, hpure⟩ := h
    simp only [Task.pure_run, Prod.mk.injEq, Outcome.ok.injEq] at hpure
    obtain ⟨rfl, rfl⟩ := hpure
    obtain ⟨rfl, hdiv, htemp, hother⟩ := ChunkWriter.new_eq_ok hnew
    obtain ⟨rfl, hdivs, hworld, hothers, htemps⟩ := ih hrest
    refine ⟨rfl, List.forall_mem_cons.mpr ⟨hdiv, hdivs⟩, hworld, fun l hl => ?_,
      fun hnodup e he => ?_⟩
    · rw [List.forall_mem_cons] at hl
      rcases hothers l hl.2 with h₂ | ⟨hn₂, h₂⟩ <;> rcases hother l hl.1 with h₁ | ⟨hn₁, h₁⟩
      · exact Or.inl (h₂.trans h₁)
      · exact Or.inr ⟨hn₁, h₂.trans h₁⟩
      · exact Or.inr ⟨h₁ ▸ hn₂, h₂⟩
      · exact absurd (h₁.symm.trans hn₂) (by simp)
    · rw [List.map_cons, List.nodup_cons] at hnodup
      have hne : ∀ e' ∈ entries, receiver.tempLoc entry ≠ receiver.tempLoc e' :=
        fun e' he' heq => hnodup.1 (heq ▸ List.mem_map_of_mem he')
      rcases List.mem_cons.mp he with rfl | he
      · rcases hothers _ hne with h₂ | ⟨hn, -⟩
        · exact h₂.trans htemp
        · exact absurd (htemp.symm.trans hn) (by simp)
      · have hcontents : d₁.contents (receiver.tempLoc e) =
            world.disk.contents (receiver.tempLoc e) := by
          rcases hother (receiver.tempLoc e) (hne e he).symm with h₁ | ⟨hn, hd⟩
          · exact Disk.contents_congr h₁
          · simp [Disk.contents, hn, hd]
        rw [htemps hnodup.2 e he, preallocated, preallocated, hcontents]

/-- A chunk that was taken has been written, recorded, acknowledged and counted. -/
theorem handleChunk_eq_ok {state state' : RecvState} {id : ChunkId} {data : Bytes}
    {world world' : World}
    (h : handleChunk receiver manifest state id data world = (.ok state', world')) :
    ∃ writer, state.writers[id.fileIndex.toNat]? = some (some writer) ∧
      id.chunkOffset.toNat < writer.totalChunks ∧
      state'.writers = state.writers.set id.fileIndex.toNat (some { writer with
        completedChunks := insert id.chunkOffset.toNat writer.completedChunks }) ∧
      state'.bytesReceived = state.bytesReceived + data.length ∧
      state'.bytesReceived < 2 ^ 64 ∧ world'.published = world.published ∧
      world'.resume = world.resume ∧
      world'.codec.sent =
        world.codec.sent ++ [.chunkAck { id, sha256 := receiver.host.sha256 data }] ∧
      ∀ l, world'.disk.lookup l =
        if l = receiver.host.locate writer.tempPath then
          some (.file (ByteImage.writeAt (world.disk.contents l)
            (id.chunkOffset.toNat * writer.chunkSize) data))
        else world.disk.lookup l := by
  unfold handleChunk at h
  cases hw : state.writers[id.fileIndex.toNat]?.join with
  | none => simp [hw] at h
  | some writer =>
    simp only [hw, Task.bind_eq_ok, onDisk_eq_ok, Task.mapErr_eq_ok] at h
    obtain ⟨⟨hash, writer'⟩, _, ⟨d, hwrite, rfl⟩, _, w₂, hsend, bytes, w₃, hbytes, _, w₄, hemit,
      hpure⟩ := h
    obtain ⟨hlt, rfl, rfl, hdisk⟩ := ChunkWriter.writeChunk_eq_ok hwrite
    obtain ⟨-, hsent, hw₂⟩ := send_eq_ok hsend
    obtain ⟨hcount, rfl⟩ := Task.ofChecked_eq_ok.mp hbytes
    obtain ⟨hbound, rfl⟩ := checkedAdd_eq_some.mp hcount
    simp only [emit, Task.modify_run, Prod.mk.injEq, true_and] at hemit
    simp only [Task.pure_run, Prod.mk.injEq, Outcome.ok.injEq] at hpure
    obtain ⟨rfl, rfl⟩ := hpure
    subst hemit
    refine ⟨writer, by simpa [Option.join_eq_some_iff] using hw, hlt, rfl, rfl, hbound, ?_, ?_,
      hsent, ?_⟩
    · rw [hw₂]
    · rw [hw₂]
    · rw [hw₂]
      exact hdisk

/-- The files from position `i` on are still at their temporary places, the
published ones at their destinations, each with its bytes. -/
structure Finishing (receiver : RecvTransfer) (bytes : ℕ → Bytes) (i : ℕ)
    (entries : List FileEntry) (world : World) : Prop where
  pending : ∀ j entry, entries[j]? = some entry →
    world.disk.lookup (receiver.tempLoc entry) = some (.file (bytes (i + j)))
  published : ∀ file ∈ world.published,
    world.disk.lookup (receiver.host.locate file.2) = some (.file (bytes file.1)) ∧
      ∀ entry ∈ entries, receiver.host.locate file.2 ≠ receiver.tempLoc entry

/-- One file moves from its temporary place to a free one. -/
theorem Finishing.step {bytes : ℕ → Bytes} {i : ℕ} {entry : FileEntry} {entries : List FileEntry}
    {world : World} {disk : Disk} {dest : Path}
    (h : Finishing receiver bytes i (entry :: entries) world)
    (hnodup : receiver.tempLoc entry ∉ entries.map receiver.tempLoc)
    (hfree : world.disk.lookup (receiver.host.locate dest) = none)
    (hdisk : ∀ l, disk.lookup l =
      if l = receiver.host.locate dest then some (.file (bytes i))
      else if l = receiver.tempLoc entry then none else world.disk.lookup l) :
    Finishing receiver bytes (i + 1) entries
      { world with disk, published := world.published ++ [(i, dest)] } := by
  have hne : ∀ e ∈ entries, receiver.tempLoc e ≠ receiver.tempLoc entry :=
    fun e he heq => hnodup (heq ▸ List.mem_map_of_mem he)
  have hold : ∀ l node, world.disk.lookup l = some node → l ≠ receiver.host.locate dest := by
    rintro l node hl rfl
    simp [hfree] at hl
  constructor
  · intro j e hj
    have hl := h.pending (j + 1) e (by simpa using hj)
    rw [hdisk, if_neg (hold _ _ hl), if_neg (hne e (List.mem_of_getElem? hj)), hl]
    congr 3
    omega
  · intro file hfile
    rcases List.mem_append.mp hfile with hfile | hfile
    · obtain ⟨hl, hpending⟩ := h.published file hfile
      refine ⟨?_, fun e he => hpending e (List.mem_cons_of_mem _ he)⟩
      rw [hdisk, if_neg (hold _ _ hl), if_neg (hpending entry (List.mem_cons_self ..)), hl]
    · obtain rfl := List.mem_singleton.mp hfile
      refine ⟨by rw [hdisk, if_pos rfl], fun e he => ?_⟩
      obtain ⟨j, hj, rfl⟩ := List.getElem_of_mem he
      exact (hold _ _ (h.pending (j + 1) _ (by simp [hj]))).symm

theorem finishFiles_eq_ok {bytes : ℕ → Bytes} {writers : List (Option ChunkWriter)}
    {entries : List FileEntry} {i : ℕ} {world world' : World}
    (hwriters : ∀ j entry, entries[j]? = some entry → ∃ writer,
      writers[i + j]? = some (some writer) ∧
        receiver.host.locate writer.tempPath = receiver.tempLoc entry)
    (hnodup : (entries.map receiver.tempLoc).Nodup)
    (hfinishing : Finishing receiver bytes i entries world)
    (h : finishFiles receiver writers i entries world = (.ok true, world')) :
    Finishing receiver bytes (i + entries.length) [] world' ∧
      (∀ file ∈ world.published, file ∈ world'.published) ∧
      ∀ j entry, entries[j]? = some entry →
        (∃ writer, writers[i + j]? = some (some writer) ∧ writer.isComplete = true) ∧
          ∃ dest, (i + j, dest) ∈ world'.published := by
  induction entries generalizing i world with
  | nil =>
    obtain rfl : world = world' := by simpa [finishFiles] using h
    exact ⟨hfinishing, fun _ hf => hf, by simp⟩
  | cons entry entries ih =>
    obtain ⟨writer, hwriter, htemp⟩ := hwriters 0 entry rfl
    rw [Nat.add_zero] at hwriter
    simp only [finishFiles, hwriter] at h
    split_ifs at h with hcomplete
    · simp only [Task.bind_eq_ok, onDisk_eq_ok, Task.mapErr_eq_ok] at h
      obtain ⟨dest, _, ⟨d, hfinal, rfl⟩, _, w₂, hmod, hrest⟩ := h
      simp only [Task.modify_run, Prod.mk.injEq, true_and] at hmod
      subst hmod
      obtain ⟨hfree, node, hnode, hdisk⟩ := ChunkWriter.finalize_eq_ok hfinal
      rw [htemp] at hnode hdisk
      obtain rfl : node = .file (bytes i) :=
        Option.some.inj (hnode.symm.trans (hfinishing.pending 0 entry rfl))
      rw [List.map_cons, List.nodup_cons] at hnodup
      obtain ⟨hdone, hkeep, hall⟩ := ih (i := i + 1)
        (fun j e hj => by
          have := hwriters (j + 1) e (by simpa using hj)
          rwa [show i + (j + 1) = i + 1 + j by omega] at this)
        hnodup.2 (hfinishing.step hnodup.1 hfree hdisk) hrest
      refine ⟨by rwa [List.length_cons, show i + (entries.length + 1) = i + 1 + entries.length
        by omega], fun f hf => hkeep f (List.mem_append_left _ hf), fun j e hj => ?_⟩
      cases j with
      | zero =>
        exact ⟨⟨writer, hwriter, hcomplete⟩, dest, hkeep _ (List.mem_append_right _ (by simp))⟩
      | succ j =>
        have := hall j e (by simpa using hj)
        rwa [show i + 1 + j = i + (j + 1) by omega] at this
    · simp [Task.bind_eq_ok] at h

end RecvTransfer
end JustDrop

import JustDrop.Acknowledgement
import JustDrop.Interruption

/-!
# The outcome that a transfer reports

Each end is to report one terminal event, a completion exactly when it returns.
The receiver does so when the peer cancels, and when everything up to the shutdown
of a completed transfer succeeds; the sender only in the second case.
-/
namespace JustDrop

/-- An event that ends the transfer. -/
def TransferEvent.isTerminal (transferId : TransferId) : TransferEvent → Bool
  | .completed id _ => id = transferId
  | .failed id _ => id = transferId
  | .cancelled id => id = transferId
  | _ => false

def TransferEvent.isCompleted : TransferEvent → Bool
  | .completed _ _ => true
  | _ => false

/-- The terminal events of a transfer among the events so far. -/
def terminals (transferId : TransferId) (events : List TransferEvent) : List TransferEvent :=
  events.filter (TransferEvent.isTerminal transferId)

theorem terminals_append_of_quiet {transferId : TransferId} {events : List TransferEvent}
    {event : TransferEvent} (h : event.isTerminal transferId = false) :
    terminals transferId (events ++ [event]) = terminals transferId events := by
  simp [terminals, h]

theorem terminals_append_of_terminal {transferId : TransferId} {events : List TransferEvent}
    {event : TransferEvent} (h : event.isTerminal transferId = true) :
    terminals transferId (events ++ [event]) = terminals transferId events ++ [event] := by
  simp [terminals, h]

/-- Exactly one terminal event has been added, a completion exactly if a value is returned. -/
def ReportsOne {α : Type} (transferId : TransferId) (before after : List TransferEvent)
    (outcome : Outcome ProtocolError α) : Prop :=
  ∃ event, terminals transferId after = terminals transferId before ++ [event] ∧
    ((∃ a, outcome = .ok a) ↔ event.isCompleted = true)

theorem not_reportsOne_of_silent {α : Type} {transferId : TransferId}
    {before after : List TransferEvent} {outcome : Outcome ProtocolError α}
    (h : terminals transferId after = terminals transferId before) :
    ¬ReportsOne transferId before after outcome := by
  rintro ⟨event, hadded, -⟩
  rw [h] at hadded
  simpa using congrArg List.length hadded

/-- After a completion, returning is all that is left to do. -/
theorem reportsOne_completed_iff {α : Type} {transferId : TransferId}
    {direction : TransferDirection} {before after : List TransferEvent}
    {outcome : Outcome ProtocolError α}
    (h : terminals transferId after = terminals transferId before) :
    ReportsOne transferId before (after ++ [.completed transferId direction]) outcome ↔
      ∃ a, outcome = .ok a := by
  have hadded : terminals transferId (after ++ [.completed transferId direction]) =
      terminals transferId before ++ [.completed transferId direction] := by
    rw [terminals_append_of_terminal (by simp [TransferEvent.isTerminal]), h]
  constructor
  · rintro ⟨event, hevent, hiff⟩
    obtain rfl : TransferEvent.completed transferId direction = event := by
      simpa using hadded.symm.trans hevent
    exact hiff.mpr rfl
  · intro hok
    exact ⟨_, hadded, iff_of_true hok rfl⟩

namespace RecvTransfer
open World

variable {receiver : RecvTransfer} {manifest : TransferManifest}

/-- All files are complete, and each can be moved to its destination. -/
def Finalizes (host : Host) : List (Option ChunkWriter) → Disk → Prop
  | [], _ => True
  | none :: writers, disk => Finalizes host writers disk
  | some writer :: writers, disk => writer.isComplete = true ∧
    match writer.finalize host disk with
    | (.ok _, after) => Finalizes host writers after
    | _ => False

theorem finishFiles_ok_true_iff (receiver : RecvTransfer) {writers : List (Option ChunkWriter)}
    {entries : List FileEntry} {i : ℕ} (hlength : writers.length = i + entries.length)
    (world : World) :
    (finishFiles receiver writers i entries world).1 = .ok true ↔
      Finalizes receiver.host (writers.drop i) world.disk := by
  induction entries generalizing i world with
  | nil =>
    have hnil : writers.drop i = [] := List.drop_eq_nil_of_le (by simp [hlength])
    rw [hnil]
    exact iff_of_true rfl trivial
  | cons entry entries ih =>
    have hlt : i < writers.length := by
      rw [hlength, List.length_cons]
      omega
    have hrest : writers.length = i + 1 + entries.length := by
      rw [hlength, List.length_cons]
      omega
    rw [List.drop_eq_getElem_cons hlt, finishFiles, List.getElem?_eq_getElem hlt]
    cases hwriter : writers[i] with
    | none => exact ih hrest world
    | some writer =>
      simp only [Finalizes]
      by_cases hcomplete : writer.isComplete = true
      · rw [if_pos hcomplete]
        rcases hfinal : writer.finalize receiver.host world.disk with ⟨dest | e | _, disk⟩
        · rw [Task.bind_of_ok (onDisk_of_ok hfinal), Task.modify_bind_run, ih hrest]
          simp [hcomplete]
        · rw [Task.bind_of_err (onDisk_of_err hfinal)]
          simp
        · rw [Task.bind_of_panic (onDisk_of_panic hfinal)]
          simp
      · rw [if_neg hcomplete]
        refine iff_of_false (fun hok => ?_) fun hall => hcomplete hall.1
        obtain ⟨_, _, _, hincomplete⟩ := Task.bind_eq_ok.mp (Prod.ext hok rfl)
        obtain ⟨_, _, _, hfalse⟩ := Task.bind_eq_ok.mp hincomplete
        simp at hfalse

/-! ### Steps that report nothing -/

/-- No terminal event has been added. -/
def Silent (transferId : TransferId) (before : List TransferEvent) (world : World) : Prop :=
  terminals transferId world.events = terminals transferId before

variable {transferId : TransferId} {before : List TransferEvent}

theorem keeps_handleChunk_silent (state : RecvState) (id : ChunkId) (data : Bytes) :
    Task.Keeps (Silent transferId before) (handleChunk receiver manifest state id data) := by
  apply keeps_handleChunk_of
  · exact fun _ _ _ _ _ h => h
  · exact fun _ _ h => h
  · exact fun _ _ h => (terminals_append_of_quiet rfl).trans h

theorem keeps_finishFiles_silent (writers : List (Option ChunkWriter)) (entries : List FileEntry)
    (i : ℕ) : Task.Keeps (Silent transferId before) (finishFiles receiver writers i entries) :=
  keeps_finishFiles (fun _ _ _ _ h => h) writers entries i

/-- A task that keeps silent reports nothing, however it ends. -/
theorem not_reportsOne_of_keeps {α : Type} {t : Task World ProtocolError α} {world : World}
    (ht : Task.Keeps (Silent transferId before) t) (h : Silent transferId before world) :
    ¬ReportsOne transferId before (t world).2.events (t world).1 :=
  not_reportsOne_of_silent (ht world h)

/-! ### The turns of a receiver -/

/-- Chunks are taken until the peer cancels, or until it completes the transfer and
finalizing, verifying and shutting down succeed. -/
def Concludes (receiver : RecvTransfer) (manifest : TransferManifest) :
    List Turn → RecvState → World → Prop
  | [], _, _ => False
  | turn :: turns, state, world =>
    match turn.recv with
    | .ok (some (.chunkData id data)) =>
      Takes manifest turn (id, data) ∧ state.bytesReceived + data.length < 2 ^ 64 ∧
        ∀ state' world', handleChunk receiver manifest state id data (beginTurn turn world).2 =
          (.ok state', world') → Concludes receiver manifest turns state' world'
    | .ok (some (.transferComplete _)) =>
      turn.sendFault = false ∧ turn.shutdownFault = false ∧
        Finalizes receiver.host state.writers { world.disk with faults := turn.diskFaults }
    | .ok (some (.cancel _)) => True
    | _ => False

/-- What remains of a completion after the files have been looked at. -/
def conclude (receiver : RecvTransfer) (manifest : TransferManifest) (shutdownFault allOk : Bool) :
    Task World ProtocolError Unit := do
  send receiver.noise (.transferVerified allOk
    (if allOk then none else some "some files incomplete"))
  Task.when allOk (Task.modify fun world => { world with
    resume := world.resume.remove manifest.transferId
    events := world.events ++ [.completed manifest.transferId .receiving] })
  Task.when shutdownFault (Task.fail (.serialization "shutdown failed" (.network .io)))

theorem conclude_reportsOne_iff (shutdownFault allOk : Bool) {world : World}
    (h : Silent manifest.transferId before world) :
    ReportsOne manifest.transferId before
        (conclude receiver manifest shutdownFault allOk world).2.events
        (conclude receiver manifest shutdownFault allOk world).1 ↔
      world.codec.transport.writeFault = false ∧ shutdownFault = false ∧ allOk = true := by
  cases hfault : world.codec.transport.writeFault with
  | true =>
    obtain ⟨e, codec, hsend⟩ := send_of_writeFault receiver.noise world
      (fits_transferVerified allOk) hfault
    rw [conclude, Task.bind_of_err hsend]
    exact iff_of_false (not_reportsOne_of_silent h) (by simp)
  | false =>
    obtain ⟨codec, hsend, -, -⟩ := send_of_fits receiver.noise world
      (fits_transferVerified allOk) hfault
    rw [conclude, Task.bind_of_ok hsend]
    cases allOk with
    | false =>
      cases shutdownFault <;> exact iff_of_false (not_reportsOne_of_silent h) (by simp)
    | true =>
      cases shutdownFault with
      | false =>
        show ReportsOne manifest.transferId before
          (world.events ++ [.completed manifest.transferId .receiving])
          (.ok () : Outcome ProtocolError Unit) ↔ _
        rw [reportsOne_completed_iff h]
        simp
      | true =>
        show ReportsOne manifest.transferId before
          (world.events ++ [.completed manifest.transferId .receiving])
          (.err (.serialization "shutdown failed" (.network .io)) : Outcome ProtocolError Unit) ↔ _
        rw [reportsOne_completed_iff h]
        simp

theorem complete_reportsOne_iff {state : RecvState}
    (hlength : state.writers.length = manifest.files.length) (manifestHash : Sha256Hash)
    (shutdownFault : Bool) {world : World} (h : Silent manifest.transferId before world) :
    ReportsOne manifest.transferId before
        (complete receiver manifest state manifestHash shutdownFault world).2.events
        (complete receiver manifest state manifestHash shutdownFault world).1 ↔
      world.codec.transport.writeFault = false ∧ shutdownFault = false ∧
        Finalizes receiver.host state.writers world.disk := by
  obtain ⟨world₁, hwarn, hdisk, hcodec, hsilent⟩ : ∃ world₁, Task.when
      (manifestHash ≠ computeManifestHash receiver.host.sha256 manifest)
      (warn "manifest hash mismatch") world = (.ok (), world₁) ∧ world₁.disk = world.disk ∧
      world₁.codec = world.codec ∧ Silent manifest.transferId before world₁ := by
    by_cases hmismatch : manifestHash ≠ computeManifestHash receiver.host.sha256 manifest
    · rw [decide_eq_true hmismatch]
      exact ⟨_, rfl, rfl, rfl, h⟩
    · rw [decide_eq_false hmismatch]
      exact ⟨world, rfl, rfl, rfl, h⟩
  have hcomplete : complete receiver manifest state manifestHash shutdownFault world =
      (finishFiles receiver state.writers 0 manifest.files >>=
        conclude receiver manifest shutdownFault) world₁ := by
    rw [complete, Task.bind_of_ok hwarn]
    rfl
  have hfinish := finishFiles_ok_true_iff receiver
    (hlength.trans (Nat.zero_add _).symm) world₁
  rw [List.drop_zero, hdisk] at hfinish
  have hkeep : (finishFiles receiver state.writers 0 manifest.files world₁).2.codec =
      world₁.codec :=
    keeps_finishFiles (I := fun world => world.codec = world₁.codec) (fun _ _ _ _ h => h)
      state.writers manifest.files 0 world₁ rfl
  have hquiet : Silent manifest.transferId before
      (finishFiles receiver state.writers 0 manifest.files world₁).2 :=
    keeps_finishFiles_silent state.writers manifest.files 0 world₁ hsilent
  rw [hcomplete, ← hfinish]
  rcases hresult : finishFiles receiver state.writers 0 manifest.files world₁ with
    ⟨allOk | e | _, world₂⟩ <;> rw [hresult] at hkeep hquiet
  · rw [Task.bind_of_ok hresult, conclude_reportsOne_iff shutdownFault allOk hquiet, hkeep, hcodec]
    simp
  · rw [Task.bind_of_err hresult]
    exact iff_of_false (not_reportsOne_of_silent hquiet) (by simp)
  · rw [Task.bind_of_panic hresult]
    exact iff_of_false (not_reportsOne_of_silent hquiet) (by simp)

theorem closed_not_reportsOne {chunks : List Delivery} {state : RecvState} {world : World}
    (h : WritersAfter receiver manifest chunks state)
    (hsilent : Silent manifest.transferId before world) :
    ¬ReportsOne manifest.transferId before
      (receiveLoop receiver manifest [] state world).2.events
      (receiveLoop receiver manifest [] state world).1 := by
  obtain ⟨world', hevents, hrun⟩ := saving_run h "connection closed"
    (Task.fail (.cancelled "connection closed")) world
  rw [receiveLoop, hrun]
  refine not_reportsOne_of_silent ?_
  rw [Task.fail_run, hevents]
  exact hsilent

theorem cancel_reportsOne {chunks : List Delivery} {state : RecvState} {world : World}
    {reason : String} (h : WritersAfter receiver manifest chunks state)
    (hsilent : Silent manifest.transferId before world) {turn : Turn} {turns : List Turn}
    (hrecv : turn.recv = .ok (some (.cancel reason))) :
    ReportsOne manifest.transferId before
      (receiveLoop receiver manifest (turn :: turns) state world).2.events
      (receiveLoop receiver manifest (turn :: turns) state world).1 := by
  have hbegin : World.beginTurn turn world = (.ok (), (World.beginTurn turn world).2) := rfl
  obtain ⟨world', hevents, hrun⟩ := saving_run h "cancelled by sender"
    (do
      emit (.cancelled manifest.transferId)
      Task.fail (.cancelled reason)) (World.beginTurn turn world).2
  rw [receiveLoop, Task.bind_of_ok hbegin, hrecv]
  simp only [hrun]
  refine ⟨.cancelled manifest.transferId, ?_, ?_⟩
  · show terminals manifest.transferId (world'.events ++ [_]) = _
    rw [terminals_append_of_terminal (by simp [TransferEvent.isTerminal]), hevents]
    exact congrArg (· ++ [_]) hsilent
  · simp [emit, TransferEvent.isCompleted]

/-- The loop reports one outcome exactly when its turns conclude. -/
theorem receiveLoop_reportsOne_iff {turns : List Turn} {chunks : List Delivery} {state : RecvState}
    {world : World} (h : Receiving receiver manifest chunks state world)
    (hsilent : Silent manifest.transferId before world) :
    ReportsOne manifest.transferId before
        (receiveLoop receiver manifest turns state world).2.events
        (receiveLoop receiver manifest turns state world).1 ↔
      Concludes receiver manifest turns state world := by
  induction turns generalizing chunks state world with
  | nil => exact iff_of_false (closed_not_reportsOne h.writers hsilent) not_false
  | cons turn turns ih =>
    have hbegin : World.beginTurn turn world = (.ok (), (World.beginTurn turn world).2) := rfl
    have hturn := h.beginTurn turn
    have hquiet : Silent manifest.transferId before (World.beginTurn turn world).2 := hsilent
    rcases hrecv : turn.recv with e | _ | message
    · rw [receiveLoop, Concludes, Task.bind_of_ok hbegin, hrecv]
      exact iff_of_false (not_reportsOne_of_silent hquiet) not_false
    · rw [receiveLoop, Concludes, Task.bind_of_ok hbegin, hrecv]
      exact iff_of_false (closed_not_reportsOne hturn.writers hquiet) not_false
    · cases message with
      | chunkData id data =>
        have hkeep : Silent manifest.transferId before
            (handleChunk receiver manifest state id data (World.beginTurn turn world).2).2 :=
          keeps_handleChunk_silent state id data _ hquiet
        rw [receiveLoop, Concludes, Task.bind_of_ok hbegin, hrecv]
        by_cases htakes : Takes manifest turn (id, data)
        · rcases hturn.handleChunk_of_takes htakes rfl rfl with
            ⟨hbytes, state₂, world₂, hchunk⟩ | ⟨hover, world₂, -, hchunk, -⟩
          · have hrest := ih (Receiving.step hturn hchunk) (by rwa [hchunk] at hkeep)
            simp only [Task.bind_of_ok hchunk, hrest]
            constructor
            · intro hconcludes
              refine ⟨htakes, hbytes, fun state' world' hsame => ?_⟩
              obtain ⟨rfl, rfl⟩ : state₂ = state' ∧ world₂ = world' := by
                simpa using hchunk.symm.trans hsame
              exact hconcludes
            · rintro ⟨-, -, hafter⟩
              exact hafter state₂ world₂ hchunk
          · rw [hchunk] at hkeep
            simp only [Task.bind_of_panic hchunk]
            exact iff_of_false (not_reportsOne_of_silent hkeep) fun hall => hover hall.2.1
        · obtain ⟨e, world₂, hchunk, -, -⟩ := hturn.handleChunk_of_not_takes htakes rfl rfl
          rw [hchunk] at hkeep
          simp only [Task.bind_of_err hchunk]
          exact iff_of_false (not_reportsOne_of_silent hkeep) fun hall => htakes hall.1
      | transferComplete manifestHash =>
        rw [receiveLoop, Concludes, Task.bind_of_ok hbegin, hrecv]
        exact complete_reportsOne_iff hturn.writers.length_eq manifestHash turn.shutdownFault hquiet
      | cancel reason =>
        refine iff_of_true (cancel_reportsOne h.writers hsilent hrecv) ?_
        rw [Concludes, hrecv]
        trivial
      | _ =>
        rw [receiveLoop, Concludes, Task.bind_of_ok hbegin, hrecv]
        exact iff_of_false (not_reportsOne_of_silent hquiet) not_false

/-! ### The runs of a receiver -/

/-- The request is accepted, the response goes out, every writer can be created and
the turns conclude. -/
structure Concluding (receiver : RecvTransfer) (manifest : TransferManifest) (script : Script)
    (remoteStatic : PublicKey) (world : World) : Prop where
  decision : receiver.decisionOf script.decision = .accept
  opens : Opens receiver manifest script world
  concludes : ∀ response world₁ writers world₂,
    acceptResponse receiver manifest (world.resume manifest.transferId) = some response →
    send receiver.noise (.transferResponse response)
      (started script.request remoteStatic manifest world) = (.ok (), world₁) →
    openWriters receiver manifest manifest.files world₁ = (.ok writers, world₂) →
    Concludes receiver manifest script.turns
      { writers, bytesReceived := bytesBefore (world.resume manifest.transferId) } world₂

theorem keeps_openWriters_silent (receiver : RecvTransfer) (manifest : TransferManifest)
    (entries : List FileEntry) :
    Task.Keeps (Silent transferId before) (openWriters receiver manifest entries) :=
  keeps_openWriters (fun _ _ h => h) entries

/-- Once the response is out, the writers and the turns decide. -/
theorem receiveFiles_reportsOne_iff {script : Script} {remoteStatic : PublicKey}
    (hdecision : receiver.decisionOf script.decision = .accept) {world world₁ : World}
    {response : TransferResponse}
    (hresponse : acceptResponse receiver manifest (world.resume manifest.transferId) =
      some response) (hfit : (Message.transferResponse response).Fits)
    (hfault : script.request.sendFault = false)
    (hsend : send receiver.noise (.transferResponse response)
      (started script.request remoteStatic manifest world) = (.ok (), world₁)) :
    let run := (openWriters receiver manifest manifest.files >>= fun writers =>
      receiveLoop receiver manifest script.turns
        { writers, bytesReceived := bytesBefore (world.resume manifest.transferId) }) world₁
    ReportsOne manifest.transferId world.events run.2.events run.1 ↔
      Concluding receiver manifest script remoteStatic world := by
  intro run
  have hsilent : Silent manifest.transferId world.events world₁ := by
    rw [(send_eq_ok hsend).2.2]
    exact terminals_append_of_quiet rfl
  have hkeep := keeps_openWriters_silent receiver manifest manifest.files world₁ hsilent
  have hdisk : world₁.disk = (World.beginTurn script.request world).2.disk := by
    rw [(send_eq_ok hsend).2.2]
    rfl
  have hopened : (openWriters receiver manifest manifest.files world₁).1 =
      (openWriters receiver manifest manifest.files (World.beginTurn script.request world).2).1 :=
    openWriters_congr hdisk
  rcases hopen : openWriters receiver manifest manifest.files world₁ with
    ⟨writers | e | _, world₂⟩ <;> rw [hopen] at hkeep hopened
  · have hrun : run = receiveLoop receiver manifest script.turns
        { writers, bytesReceived := bytesBefore (world.resume manifest.transferId) } world₂ :=
      Task.bind_of_ok hopen _
    rw [hrun, receiveLoop_reportsOne_iff (Receiving.start hopen _) hkeep]
    constructor
    · intro hconcludes
      refine ⟨hdecision, ⟨⟨response, hresponse, hfit⟩, hfault, writers, hopened.symm⟩, ?_⟩
      intro response' world₁' writers' world₂' hresponse' hsend' hopen'
      obtain rfl := Option.some.inj (hresponse.symm.trans hresponse')
      obtain rfl : world₁ = world₁' := congrArg Prod.snd (hsend.symm.trans hsend')
      obtain ⟨rfl, rfl⟩ : writers = writers' ∧ world₂ = world₂' := by
        simpa using hopen.symm.trans hopen'
      exact hconcludes
    · intro hconcluding
      exact hconcluding.concludes response world₁ writers world₂ hresponse hsend hopen
  · have hrun : run = (.err e, world₂) := Task.bind_of_err hopen _
    rw [hrun]
    refine iff_of_false (not_reportsOne_of_silent hkeep) fun h => ?_
    obtain ⟨writers, hwriters⟩ := h.opens.opened
    simp [← hopened] at hwriters
  · have hrun : run = (.panic, world₂) := Task.bind_of_panic hopen _
    rw [hrun]
    refine iff_of_false (not_reportsOne_of_silent hkeep) fun h => ?_
    obtain ⟨writers, hwriters⟩ := h.opens.opened
    simp [← hopened] at hwriters

theorem handleIncoming_reportsOne_iff {script : Script} {remoteStatic : PublicKey}
    (hhandshake : script.handshake = .ok remoteStatic)
    (hrequest : script.request.recv = .ok (some (.transferRequest manifest))) (world : World) :
    ReportsOne manifest.transferId world.events (handleIncoming receiver script world).2.events
        (handleIncoming receiver script world).1 ↔
      Concluding receiver manifest script remoteStatic world := by
  have hstart : Silent manifest.transferId world.events
      (started script.request remoteStatic manifest world) := terminals_append_of_quiet rfl
  have hsilent : ∀ message, Task.Keeps (Silent manifest.transferId world.events)
      (send receiver.noise message) := fun _ _ h => h
  cases hdecision : receiver.decisionOf script.decision with
  | reject reason =>
    rw [handleIncoming_of_reject hhandshake hrequest hdecision]
    refine iff_of_false (not_reportsOne_of_keeps ?_ hstart) fun h => ?_
    · exact Task.Keeps.bind (hsilent _) fun _ => Task.Keeps.fail _
    · simpa using hdecision.symm.trans h.decision
  | accept =>
    rw [handleIncoming_of_accept hhandshake hrequest hdecision]
    rcases receiveFiles_started receiver manifest (world.resume manifest.transferId)
      script.turns script.request remoteStatic world with
      ⟨hnone, hrun⟩ | ⟨response, hresponse, ⟨hunsent, e, codec, hrun⟩ | hopened⟩
    · rw [hrun]
      refine iff_of_false (not_reportsOne_of_silent hstart) fun h => ?_
      obtain ⟨response, hsome, -⟩ := h.opens.response
      simp [hnone] at hsome
    · rw [hrun]
      refine iff_of_false (not_reportsOne_of_silent hstart) fun h => ?_
      obtain ⟨response', hsome, hfit⟩ := h.opens.response
      obtain rfl := Option.some.inj (hresponse.symm.trans hsome)
      exact hunsent ⟨hfit, h.opens.sent⟩
    · obtain ⟨hfit, hfault, codec, hsend, hrun⟩ := hopened
      rw [hrun]
      exact receiveFiles_reportsOne_iff hdecision hresponse hfit hfault hsend

end RecvTransfer

namespace SendTransfer
open SendWorld

variable {sender : SendTransfer} {peer : DeviceInfo} {paths : List Path} {script : SendScript}
  {manifest : TransferManifest} {transferId : TransferId} {before : List TransferEvent}

/-! ### The runs of a sender -/

/-- No terminal event has been added. -/
def Silent (transferId : TransferId) (before : List TransferEvent) (world : SendWorld) : Prop :=
  terminals transferId world.events = terminals transferId before

theorem keeps_exchange_silent (noise : Noise) (turn : SendTurn) (message : Message) :
    Task.Keeps (Silent transferId before) (exchange noise turn message) :=
  keeps_exchange_of (fun _ _ h => h) noise turn message

theorem keeps_sendChunk_silent {skip : Finset ℕ} {chunker : FileChunker} {file : Bytes}
    (bytesSent k : ℕ) : Task.Keeps (Silent transferId before)
      (sendChunk sender manifest skip chunker file bytesSent k) := by
  refine Task.Keeps.bind (Task.Keeps.ofChecked _) fun globalOffset => ?_
  split_ifs
  · exact Task.Keeps.ofChecked _
  · refine Task.Keeps.bind (fun _ h => h) fun turn => ?_
    refine Task.Keeps.bind (Task.Keeps.when _ (Task.Keeps.fail _)) fun _ => ?_
    refine Task.Keeps.bind (Task.Keeps.ofChecked _) fun chunk => ?_
    refine Task.Keeps.bind (keeps_exchange_silent _ _ _) fun reply => ?_
    refine Task.Keeps.bind (keeps_awaitAck_of (fun _ _ h => h) _ _) fun _ => ?_
    refine Task.Keeps.bind (Task.Keeps.ofChecked _) fun _ => ?_
    refine Task.Keeps.bind (fun world h => ?_) fun _ => Task.Keeps.pure _
    exact (terminals_append_of_quiet rfl).trans h

theorem keeps_sendChunks_silent {skip : Finset ℕ} {chunker : FileChunker} {file : Bytes}
    (offsets : List ℕ) (bytesSent : ℕ) : Task.Keeps (Silent transferId before)
      (sendChunks sender manifest skip chunker file offsets bytesSent) := by
  induction offsets generalizing bytesSent with
  | nil => exact Task.Keeps.pure _
  | cons k offsets ih => exact Task.Keeps.bind (keeps_sendChunk_silent _ _) fun _ => ih _

theorem keeps_streamFiles_silent {skip : Finset ℕ} (files : List (FileEntry × Path))
    (i bytesSent : ℕ) : Task.Keeps (Silent transferId before)
      (streamFiles sender script manifest skip i files bytesSent) := by
  induction files generalizing i bytesSent with
  | nil => exact Task.Keeps.pure _
  | cons file files ih =>
    unfold streamFiles
    split
    · exact Task.Keeps.fail _
    · refine Task.Keeps.bind (Task.Keeps.ofChecked _) fun count => ?_
      exact Task.Keeps.bind (keeps_sendChunks_silent _ _) fun _ => ih _ _

/-- What follows the completion. -/
def conclude (transferId : TransferId) (shutdownFault : Bool) (reply : Option Message) :
    Task SendWorld ProtocolError TransferId := do
  awaitVerified transferId reply
  Task.when shutdownFault (Task.fail (.serialization "shutdown failed" (.network .io)))
  pure transferId

/-- Run after nothing has been reported, the task reports one outcome exactly when it returns. -/
def Accounts (transferId : TransferId) (before : List TransferEvent)
    (t : Task SendWorld ProtocolError TransferId) : Prop :=
  ∀ world, Silent transferId before world →
    (ReportsOne transferId before (t world).2.events (t world).1 ↔ ∃ id, (t world).1 = .ok id)

theorem accounts_conclude (shutdownFault : Bool) (reply : Option Message) :
    Accounts transferId before (conclude transferId shutdownFault reply) := by
  intro world h
  by_cases hverified : ∃ error, reply = some (.transferVerified true error)
  · obtain ⟨error, rfl⟩ := hverified
    have hevents : (conclude transferId shutdownFault (some (.transferVerified true error))
        world).2.events = world.events ++ [.completed transferId .sending] := by
      cases shutdownFault <;> rfl
    rw [hevents]
    exact reportsOne_completed_iff h
  · have hfails : ∃ e, awaitVerified transferId reply world = (.err e, world) := by
      unfold awaitVerified
      split
      · next error => exact absurd ⟨error, rfl⟩ hverified
      · exact ⟨_, rfl⟩
      · exact ⟨_, rfl⟩
    obtain ⟨e, herr⟩ := hfails
    rw [conclude, Task.bind_of_err herr]
    exact iff_of_false (not_reportsOne_of_silent h) (by simp)

/-- What keeps silent leaves the account to what follows. -/
theorem Accounts.bind {α : Type} {t : Task SendWorld ProtocolError α}
    {f : α → Task SendWorld ProtocolError TransferId}
    (ht : Task.Keeps (Silent transferId before) t) (hf : ∀ a, Accounts transferId before (f a)) :
    Accounts transferId before (t >>= f) := by
  intro world h
  have hkeep := ht world h
  rcases hrun : t world with ⟨a | e | _, world'⟩ <;> rw [hrun] at hkeep
  · rw [Task.bind_of_ok hrun]
    exact hf a world' hkeep
  · rw [Task.bind_of_err hrun]
    exact iff_of_false (not_reportsOne_of_silent hkeep) (by simp)
  · rw [Task.bind_of_panic hrun]
    exact iff_of_false (not_reportsOne_of_silent hkeep) (by simp)

theorem accounts_finish :
    Accounts manifest.transferId before (finish sender script manifest) := by
  have hfinish : finish sender script manifest = nextTurn >>= fun turn =>
      exchange sender.noise turn
        (.transferComplete (computeManifestHash sender.host.sha256 manifest)) >>=
        conclude manifest.transferId script.shutdownFault := rfl
  rw [hfinish]
  refine Accounts.bind (fun _ h => h) fun turn => ?_
  exact Accounts.bind (keeps_exchange_silent _ _ _) fun reply => accounts_conclude _ reply

theorem accounts_transfer :
    Accounts manifest.transferId before (transfer sender script manifest paths) := by
  unfold transfer
  refine Accounts.bind (keeps_negotiate_of fun _ _ _ h => h) fun skip => ?_
  exact Accounts.bind (keeps_streamFiles_silent _ _ _) fun _ => accounts_finish

theorem sendFiles_reportsOne_iff {session : NoiseSession} (world : SendWorld)
    (hmanifest : sender.buildManifest script paths = .ok manifest)
    (hsession : sender.openSession peer script = .ok session)
    (hfit : (Message.transferRequest manifest).Fits)
    (hcalm : (firstTurn script).sendFault = false) :
    ReportsOne manifest.transferId world.events
        (sendFiles sender peer paths script world).2.events
        (sendFiles sender peer paths script world).1 ↔
      ∃ chunks, Smooth sender script manifest paths chunks := by
  rw [← sendFiles_ok_iff world hmanifest hsession hfit hcalm, sendFiles_eq hmanifest hsession]
  exact accounts_transfer _ rfl

end SendTransfer

/-! ### Both ends -/

/-- A receiver that has taken a request reports one outcome exactly when it comes to
a conclusion, a sender whose request is out exactly when its run is smooth. -/
theorem reportsOne_iff (receiver : RecvTransfer) (script : Script) (world : World)
    (sender : SendTransfer) (peer : DeviceInfo) (paths : List Path) (sendScript : SendScript)
    (sendWorld : SendWorld) :
    (∀ manifest remoteStatic, script.handshake = .ok remoteStatic →
      script.request.recv = .ok (some (.transferRequest manifest)) →
      (ReportsOne manifest.transferId world.events
          (receiver.handleIncoming script world).2.events
          (receiver.handleIncoming script world).1 ↔
        receiver.Concluding manifest script remoteStatic world)) ∧
    ∀ manifest session, sender.buildManifest sendScript paths = .ok manifest →
      sender.openSession peer sendScript = .ok session →
      (Message.transferRequest manifest).Fits →
      (SendTransfer.firstTurn sendScript).sendFault = false →
      (ReportsOne manifest.transferId sendWorld.events
          (sender.sendFiles peer paths sendScript sendWorld).2.events
          (sender.sendFiles peer paths sendScript sendWorld).1 ↔
        ∃ chunks, sender.Smooth sendScript manifest paths chunks) := by
  constructor
  · intro manifest remoteStatic hhandshake hrequest
    exact RecvTransfer.handleIncoming_reportsOne_iff hhandshake hrequest world
  · intro manifest session hmanifest hsession hfit hcalm
    exact SendTransfer.sendFiles_reportsOne_iff sendWorld hmanifest hsession hfit hcalm

open RecvTransfer SendTransfer

/-- The peer cancels at once. -/
def cancelScript : Script := abcScript [] (Turn.calm (.cancel "later"))

theorem opens_cancelScript : Opens (plainReceiver 100) abcManifest cancelScript emptyWorld := by
  constructor
  · exact ⟨.accept, rfl, by decide⟩
  · rfl
  · exact ⟨abcManifest.files.map fun entry => some (writerOf (plainReceiver 100) abcManifest entry),
      by decide +kernel⟩

theorem smooth_rightAck : Smooth plainSender (ackScript rightAck) smallManifest
    [Path.ofString "/tmp/a.txt"]
    [{ id := ⟨0, 0⟩, data := [1, 2, 3], sha256 := sumHash [1, 2, 3] }] := by
  constructor
  · exact Or.inl rfl
  · exact planned_ackScript rightAck (by simp)
  · intro j chunk hj
    obtain ⟨rfl, rfl⟩ : j = 0 ∧ _ = chunk := by
      cases j with
      | zero => exact ⟨rfl, Option.some.inj hj⟩
      | succ j => simp at hj
    exact ⟨_, rfl, rfl, rfl, by decide, rightAck, rfl⟩
  · decide +kernel
  · exact ⟨_, rfl, rfl, none, rfl⟩
  · rfl

theorem reportsOne_cancel_and_rightAck :
    ReportsOne abcManifest.transferId emptyWorld.events
        ((plainReceiver 100).handleIncoming cancelScript emptyWorld).2.events
        ((plainReceiver 100).handleIncoming cancelScript emptyWorld).1 ∧
      ReportsOne smallManifest.transferId SendWorld.idle.events
        (sendAcked rightAck).2.events (sendAcked rightAck).1 := by
  have hboth := reportsOne_iff (plainReceiver 100) cancelScript emptyWorld plainSender
    (plainPeer (sumHash peerKey.toList)) [Path.ofString "/tmp/a.txt"] (ackScript rightAck) .idle
  constructor
  · have hiff := hboth.1 abcManifest _ rfl rfl
    exact hiff.mpr ⟨rfl, opens_cancelScript, fun _ _ _ _ _ _ _ => trivial⟩
  · have hsession : plainSender.openSession (plainPeer (sumHash peerKey.toList))
        (ackScript rightAck) = .ok ⟨0, 0, peerKey⟩ := by decide +kernel
    have hfit : (Message.transferRequest smallManifest).Fits := by decide +kernel
    have hcalm : (firstTurn (ackScript rightAck)).sendFault = false := rfl
    have hiff := hboth.2 smallManifest ⟨0, 0, peerKey⟩ (buildManifest_ackScript rightAck) hsession
      hfit hcalm
    rw [← sendAcked] at hiff
    exact hiff.mpr ⟨_, smooth_rightAck⟩

/-- A connection that breaks, a completion of incomplete files that returns and a
rejection are reported by no event. -/
theorem not_reportsOne_silent_exits :
    (∀ script ∈ [abcScript [] resetTurn, abcScript [] (Turn.calm (.transferComplete (sumHash [])))],
      ¬ReportsOne abcManifest.transferId emptyWorld.events
        ((plainReceiver 100).handleIncoming script emptyWorld).2.events
        ((plainReceiver 100).handleIncoming script emptyWorld).1) ∧
    ((plainReceiver 100).handleIncoming
        (abcScript [] (Turn.calm (.transferComplete (sumHash [])))) emptyWorld).1 = .ok () ∧
    let rejected := sendFiles plainSender (plainPeer (sumHash peerKey.toList))
      [Path.ofString "/tmp/a.txt"] (plainScript [1, 2, 3] peerKey
        [{ readFault := false, sendFault := false,
           recv := .ok (some (.transferResponse (.reject "no"))) }]) .idle
    .transferRequest smallManifest ∈ rejected.2.codec.sent ∧
      ¬ReportsOne smallManifest.transferId SendWorld.idle.events rejected.2.events rejected.1 := by
  refine ⟨fun script hscript => not_reportsOne_of_silent ?_, by decide +kernel, by decide +kernel,
    not_reportsOne_of_silent (by decide +kernel)⟩
  have hsilent : ∀ script ∈ [abcScript [] resetTurn,
      abcScript [] (Turn.calm (.transferComplete (sumHash [])))],
      terminals abcManifest.transferId
        ((plainReceiver 100).handleIncoming script emptyWorld).2.events =
        terminals abcManifest.transferId emptyWorld.events := by
    decide +kernel
  exact hsilent script hscript

end JustDrop

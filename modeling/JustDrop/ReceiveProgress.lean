import JustDrop.Progress
import JustDrop.ReceiveRun

/-!
# What the receiver counts

The receiver starts from the byte count of its stored state and adds the length of
each chunk that it takes. Its reports climb from that count on, and they stay below
it and the data of its turns together.
-/
namespace JustDrop

/-- A turn that delivers a chunk. -/
structure ChunkTurn where
  turn : Turn
  id : ChunkId
  data : Bytes
  delivers : turn.recv = .ok (some (.chunkData id data))

/-- The messages that the turns deliver. -/
def Turn.messages (turns : List Turn) : List Message :=
  turns.filterMap fun turn => turn.recv.toOption.join

namespace RecvTransfer
open World

variable {receiver : RecvTransfer} {manifest : TransferManifest}

/-! ### The byte count -/

/-- The receive loop on turns that deliver chunks, with the state it comes to. -/
def takeChunks (receiver : RecvTransfer) (manifest : TransferManifest) :
    List ChunkTurn → RecvState → Task World ProtocolError RecvState
  | [], state => pure state
  | chunk :: chunks, state => do
    beginTurn chunk.turn
    let state ← handleChunk receiver manifest state chunk.id chunk.data
    takeChunks receiver manifest chunks state

/-- Receiving files up to and including the chunks. -/
def receiveChunks (receiver : RecvTransfer) (manifest : TransferManifest)
    (resumeState : Option TransferResumeState) (chunks : List ChunkTurn) :
    Task World ProtocolError RecvState := do
  let response ← Task.ofChecked (acceptResponse receiver manifest resumeState)
  send receiver.noise (.transferResponse response)
  let writers ← openWriters receiver manifest manifest.files
  takeChunks receiver manifest chunks { writers, bytesReceived := bytesBefore resumeState }

theorem receiveLoop_append (chunks : List ChunkTurn) (rest : List Turn) (state : RecvState) :
    receiveLoop receiver manifest (chunks.map ChunkTurn.turn ++ rest) state =
      (takeChunks receiver manifest chunks state >>= receiveLoop receiver manifest rest) := by
  induction chunks generalizing state with
  | nil => rfl
  | cons chunk chunks ih =>
    rw [List.map_cons, List.cons_append, receiveLoop, takeChunks, chunk.delivers]
    simp only [Task.bind_assoc]
    congr
    funext _
    congr
    funext next
    exact ih next

/-- A run whose first turns deliver chunks goes on from the state these lead to. -/
theorem receiveFiles_append (stored : Option TransferResumeState) (chunks : List ChunkTurn)
    (rest : List Turn) :
    receiveFiles receiver manifest stored (chunks.map ChunkTurn.turn ++ rest) =
      (receiveChunks receiver manifest stored chunks >>=
        receiveLoop receiver manifest rest) := by
  simp only [receiveFiles, receiveChunks, receiveLoop_append, Task.bind_assoc]

theorem takeChunks_eq_ok {chunks : List ChunkTurn} {state state' : RecvState}
    {world world' : World}
    (h : takeChunks receiver manifest chunks state world = (.ok state', world')) :
    state'.bytesReceived =
      state.bytesReceived + (chunks.map fun chunk => chunk.data.length).sum := by
  induction chunks generalizing state world with
  | nil =>
    obtain ⟨hstate, -⟩ := Prod.mk.inj h
    rw [← Outcome.ok.inj hstate]
    rfl
  | cons chunk chunks ih =>
    obtain ⟨_, world₁, -, h₁⟩ := Task.bind_eq_ok.mp h
    obtain ⟨next, world₂, hchunk, h₂⟩ := Task.bind_eq_ok.mp h₁
    obtain ⟨-, -, -, -, hbytes, -⟩ := handleChunk_eq_ok hchunk
    rw [ih h₂, hbytes, List.map_cons, List.sum_cons, Nat.add_assoc]

/-- The count is what was stored and the data of the chunks. -/
theorem receiveChunks_eq_ok {stored : Option TransferResumeState} {chunks : List ChunkTurn}
    {state : RecvState} {world world' : World}
    (h : receiveChunks receiver manifest stored chunks world = (.ok state, world')) :
    state.bytesReceived =
      bytesBefore stored + (chunks.map fun chunk => chunk.data.length).sum := by
  obtain ⟨response, world₁, -, h₁⟩ := Task.bind_eq_ok.mp h
  obtain ⟨_, world₂, -, h₂⟩ := Task.bind_eq_ok.mp h₁
  obtain ⟨writers, world₃, -, h₃⟩ := Task.bind_eq_ok.mp h₂
  exact takeChunks_eq_ok h₃

/-! ### Reports of a run -/

/-- After `before`, the events of the run report up to `bytes` of the manifest's total. -/
def ReportsTo (manifest : TransferManifest) (before : List TransferEvent) (bytes : ℕ)
    (world : World) : Prop :=
  Reported manifest.totalSize.toNat bytes before world.events

variable {before : List TransferEvent} {bytes bytes' : ℕ} {world : World}

theorem ReportsTo.mono (h : ReportsTo manifest before bytes world) (hle : bytes ≤ bytes') :
    ReportsTo manifest before bytes' world := Reported.mono h hle

/-- A chunk that was taken is reported with the count it brings. -/
theorem ensures_handleChunk_reported (receiver : RecvTransfer) (state : RecvState) (id : ChunkId)
    (data : Bytes) :
    Task.Ensures (ReportsTo manifest before state.bytesReceived)
      (handleChunk receiver manifest state id data)
      (fun state' world => state'.bytesReceived = state.bytesReceived + data.length ∧
        ReportsTo manifest before state'.bytesReceived world)
      (ReportsTo manifest before state.bytesReceived) := by
  unfold handleChunk
  split
  · exact Task.Ensures.fail _ fun _ h => h
  · refine Task.Ensures.bind_keeps (fun _ h => h) (fun _ h => h) fun written => ?_
    refine Task.Ensures.bind_keeps (fun _ h => h) (fun _ h => h) fun _ => ?_
    refine Task.Ensures.ofChecked_bind (fun _ h => h) fun n hn => ?_
    obtain ⟨-, rfl⟩ := checkedAdd_eq_some.mp hn
    refine Task.Ensures.bind (Q := fun _ => ReportsTo manifest before
      (state.bytesReceived + data.length)) (Task.Ensures.modify fun world h => ?_)
      fun _ => Task.Ensures.pure fun _ h => ⟨rfl, h⟩
    exact Reported.progress h (Nat.le_add_right _ _) rfl

theorem keeps_saveResumeState_reported (state : RecvState) :
    Task.Keeps (ReportsTo manifest before bytes) (saveResumeState manifest state) :=
  Task.Keeps.bind (Task.Keeps.ofChecked _) fun _ => Task.Keeps.modify fun _ h => h

theorem keeps_complete_reported (state : RecvState) (manifestHash : Sha256Hash)
    (shutdownFault : Bool) :
    Task.Keeps (ReportsTo manifest before bytes)
      (complete receiver manifest state manifestHash shutdownFault) := by
  refine Task.Keeps.bind (Task.Keeps.when _ fun _ h => h) fun _ => ?_
  refine Task.Keeps.bind (keeps_finishFiles (fun _ _ _ _ h => h) _ _ _) fun allOk => ?_
  refine Task.Keeps.bind (fun _ h => h) fun _ => ?_
  refine Task.Keeps.bind (Task.Keeps.when _ (Task.Keeps.modify fun _ h => ?_)) fun _ => ?_
  · exact Reported.quiet h rfl
  · exact Task.Keeps.when _ (Task.Keeps.fail _)

/-- The turns add at most their data to the count. -/
theorem reported_receiveLoop {turns : List Turn} {state : RecvState}
    (h : ReportsTo manifest before state.bytesReceived world) :
    ReportsTo manifest before (state.bytesReceived + dataBytes (Turn.messages turns))
      (receiveLoop receiver manifest turns state world).2 := by
  have hclosed : ∀ (state : RecvState) (bytes : ℕ), Task.Keeps (ReportsTo manifest before bytes)
      (do warn "connection closed"; saveResumeState manifest state
          Task.fail (.cancelled "connection closed") : Task World ProtocolError Unit) := by
    intro state bytes
    refine Task.Keeps.bind (fun _ h => h) fun _ => ?_
    exact Task.Keeps.bind (keeps_saveResumeState_reported state) fun _ => Task.Keeps.fail _
  induction turns generalizing state world with
  | nil => exact hclosed state _ world h
  | cons turn turns ih =>
    unfold receiveLoop
    generalize hbegun : (beginTurn turn world).2 = begun
    have hevents : ReportsTo manifest before state.bytesReceived begun := by
      rw [← hbegun]
      exact h
    have hbegin : beginTurn turn world = (.ok (), begun) := Prod.ext rfl hbegun
    rw [Task.bind_of_ok hbegin]
    have hmore : ∀ {after : World}, ReportsTo manifest before state.bytesReceived after →
        ReportsTo manifest before
          (state.bytesReceived + dataBytes (Turn.messages (turn :: turns))) after :=
      fun h => h.mono (Nat.le_add_right _ _)
    cases hrecv : turn.recv with
    | error e => exact hmore hevents
    | ok reply =>
      rcases reply with _ | message
      · exact hmore (hclosed state _ begun hevents)
      · cases message with
        | chunkData id data =>
          have hdata : dataBytes (Turn.messages (turn :: turns)) =
              data.length + dataBytes (Turn.messages turns) := by
            simp [Turn.messages, hrecv, Except.toOption, Message.dataSize]
          have htaken := ensures_handleChunk_reported receiver state id data begun hevents
          simp only
          rcases hrun : handleChunk receiver manifest state id data begun
            with ⟨next | e | _, world'⟩ <;> rw [hrun] at htaken
          · obtain ⟨hbytes, hreported⟩ := htaken
            rw [Task.bind_of_ok hrun, hdata, ← Nat.add_assoc, ← hbytes]
            exact ih hreported
          · rw [Task.bind_of_err hrun]
            exact hmore htaken
          · rw [Task.bind_of_panic hrun]
            exact hmore htaken
        | transferComplete manifestHash =>
          exact hmore (keeps_complete_reported state manifestHash _ begun hevents)
        | cancel reason =>
          have hcancel : Task.Keeps (ReportsTo manifest before state.bytesReceived)
              (do warn "cancelled by sender"; saveResumeState manifest state
                  emit (.cancelled manifest.transferId)
                  Task.fail (.cancelled reason) : Task World ProtocolError Unit) := by
            refine Task.Keeps.bind (fun _ h => h) fun _ => ?_
            refine Task.Keeps.bind (keeps_saveResumeState_reported state) fun _ => ?_
            refine Task.Keeps.bind (fun _ h => ?_) fun _ => Task.Keeps.fail _
            exact Reported.quiet h rfl
          exact hmore (hcancel begun hevents)
        | _ => exact hmore hevents

/-- The reports of a run climb from the stored count to at most that count and the
data of the turns. -/
theorem reported_handleIncoming {script : Script}
    (hrequest : script.request.recv = .ok (some (.transferRequest manifest))) (world : World) :
    ReportsTo manifest world.events
      (bytesBefore (world.resume manifest.transferId) + dataBytes (Turn.messages script.turns))
      (handleIncoming receiver script world).2 := by
  cases hhandshake : script.handshake with
  | error e =>
    simp only [handleIncoming, hhandshake]
    exact Reported.refl _ _ _
  | ok remoteStatic =>
    have hstart : ∀ bytes, ReportsTo manifest world.events bytes
        (started script.request remoteStatic manifest world) :=
      fun bytes => (Reported.refl _ bytes world.events).quiet rfl
    cases hdecision : receiver.decisionOf script.decision with
    | reject reason =>
      rw [handleIncoming_of_reject hhandshake hrequest hdecision]
      exact Task.Keeps.bind (I := ReportsTo manifest world.events _) (fun _ h => h)
        (fun _ => Task.Keeps.fail _) _ (hstart _)
    | accept =>
      rw [handleIncoming_of_accept hhandshake hrequest hdecision]
      generalize hbefore : bytesBefore (world.resume manifest.transferId) = stored
      have hmore : ∀ after : World, ReportsTo manifest world.events stored after →
          ReportsTo manifest world.events
            (stored + dataBytes (Turn.messages script.turns)) after :=
        fun _ h => h.mono (Nat.le_add_right _ _)
      have hrun : Task.Ensures (ReportsTo manifest world.events stored)
          (receiveFiles receiver manifest (world.resume manifest.transferId) script.turns)
          (fun _ => ReportsTo manifest world.events
            (stored + dataBytes (Turn.messages script.turns)))
          (ReportsTo manifest world.events
            (stored + dataBytes (Turn.messages script.turns))) := by
        refine Task.Ensures.ofChecked_bind hmore fun response _ => ?_
        refine Task.Ensures.bind_keeps (fun _ h => h) hmore fun _ => ?_
        refine Task.Ensures.bind_keeps (keeps_openWriters (fun _ _ h => h) _) hmore
          fun writers => ?_
        rw [← hbefore]
        exact Task.Ensures.of_snd fun after h => reported_receiveLoop h
      exact hrun.leaves (fun _ _ h => h) (hstart _)

/-- Without a request nothing is reported. -/
theorem events_handleIncoming_of_no_request {script : Script}
    (hrequest : ∀ manifest, script.request.recv ≠ .ok (some (.transferRequest manifest)))
    (world : World) : (handleIncoming receiver script world).2.events = world.events := by
  cases hhandshake : script.handshake with
  | error e => simp [handleIncoming, hhandshake]
  | ok remoteStatic =>
    simp only [handleIncoming, hhandshake, connect, beginTurn, Task.modify_bind_run]
    cases hrecv : script.request.recv with
    | error e => rfl
    | ok reply =>
      rcases reply with _ | message
      · rfl
      · cases message with
        | transferRequest manifest => exact absurd hrecv (hrequest manifest)
        | _ => rfl

end RecvTransfer
end JustDrop

import JustDrop.Engine
import JustDrop.LockTrace

/-!
# Callbacks into the engine

The engine keeps its peers, its sessions and whether it runs behind three locks.
Guards live to the end of the statement or of the block they are bound in: the peers
are given back before an event about them goes out, the sessions and the running flag
are not.
-/
namespace JustDrop
open LockTrace

inductive EngineLock where
  | peers
  | sessions
  | running
  deriving DecidableEq, Repr

abbrev EngineTrace := List (LockAction EngineLock EngineEvent)

/-- What a handler may ask the engine. -/
inductive EngineQuery where
  | visiblePeers
  | peerCount
  | activeTransferCount
  | isRunning
  deriving DecidableEq, Repr

def EngineQuery.trace : EngineQuery → EngineTrace
  | visiblePeers => guarded .peers []
  | peerCount => guarded .peers []
  | activeTransferCount => guarded .sessions []
  | isRunning => guarded .running []

/-- Everything that can be done with an engine: start it, call it, ask it, drop it. -/
inductive EngineOperation where
  | new
  | call (call : EngineCall)
  | ask (query : EngineQuery)
  | drop

namespace Engine

/-- The table is given back at the end of the block that enters the report. -/
def traceRegister (engine : Engine) (peer : Peer) : EngineTrace :=
  guarded .peers [] ++
    match engine.peers.lookup peer.deviceId with
    | some _ => [.emit (.peerUpdated peer)]
    | none => [.emit (.peerDiscovered peer)]

def traceOnPeerDiscovered (engine : Engine) (peer : Peer) (fault : Bool) : EngineTrace :=
  match peer.fingerprint with
  | some fingerprint =>
    let trust := if fault then .unknown else engine.db.getTrust fingerprint
    if trust.isBlocked then [] else engine.traceRegister { peer with trust }
  | none => engine.traceRegister peer

def traceOnPeerLost (engine : Engine) (deviceId : Text) : EngineTrace :=
  guarded .peers [] ++
    match engine.peers.lookup deviceId with
    | some _ => [.emit (.peerLost deviceId)]
    | none => []

/-- The table is searched for the row, and again for the entry to remove. -/
def traceSetPeerTrust (engine : Engine) (found : Option (Text × Peer)) (level : TrustLevel)
    (fault : Bool) : EngineTrace :=
  guarded .peers [] ++
    if fault then []
    else if level.isBlocked then
      guarded .peers [] ++
        match found with
        | some entry => engine.traceOnPeerLost entry.1
        | none => []
    else []

def traceSendFiles (engine : Engine) (deviceId : Text) : EngineTrace :=
  guarded .peers [] ++
    match engine.peers.lookup deviceId with
    | none => []
    | some _ => guarded .sessions []

def traceAcceptTransfer : EngineTrace := guarded .sessions []

/-- The guard of the sessions is bound for the whole call. -/
def traceEndTransfer (engine : Engine) (id : TransferId) (reason : Text) : EngineTrace :=
  guarded .sessions
    (if engine.sessions.any (·.id = id) then [.emit (.transferCancelled id reason)] else [])

/-- Both guards are bound when the event goes out. -/
def traceStop (engine : Engine) : EngineTrace :=
  guarded .running (if engine.running then guarded .sessions [.emit .stopped] else [])

/-- The flag is read and given back before the engine is stopped. -/
def traceDrop (engine : Engine) : EngineTrace :=
  guarded .running [] ++ if engine.running then engine.traceStop else []

end Engine

namespace EngineOperation
open Engine

/-- The trace of an operation; `found` is the entry that a search for a fingerprint gives. -/
def trace (engine : Engine) (found : Option (Text × Peer)) : EngineOperation → EngineTrace
  | new => [.emit .started]
  | call (.onPeerDiscovered peer fault) => engine.traceOnPeerDiscovered peer fault
  | call (.onPeerLost deviceId) => engine.traceOnPeerLost deviceId
  | call (.setPeerTrust _ level fault) => engine.traceSetPeerTrust found level fault
  | call (.sendFiles deviceId _ _) => engine.traceSendFiles deviceId
  | call (.acceptTransfer _) => traceAcceptTransfer
  | call (.rejectTransfer id reason) => engine.traceEndTransfer id reason
  | call (.cancelTransfer id) => engine.traceEndTransfer id "user cancelled".toList
  | call .stop => engine.traceStop
  | ask query => query.trace
  | drop => engine.traceDrop

/-- No session is found to reject or cancel, and no running engine is stopped. -/
def EndsNothing (engine : Engine) : EngineOperation → Prop
  | call (.rejectTransfer id _) | call (.cancelTransfer id) =>
    ∀ session ∈ engine.sessions, session.id ≠ id
  | call .stop | drop => engine.running = false
  | _ => True

variable {engine engine' : Engine}

/-! ### The events of a trace -/

theorem emitted_traceRegister (peer : Peer) : (engine.register peer).events =
    engine.events ++ emitted (engine.traceRegister peer) := by
  unfold register traceRegister
  cases engine.peers.lookup peer.deviceId <;> rfl

theorem emitted_traceOnPeerLost (deviceId : Text) : (engine.onPeerLost deviceId).events =
    engine.events ++ emitted (engine.traceOnPeerLost deviceId) := by
  unfold onPeerLost traceOnPeerLost
  cases engine.peers.lookup deviceId with
  | none => exact (List.append_nil _).symm
  | some => rfl

theorem emitted_traceEndTransfer (id : TransferId) (reason : Text) :
    (engine.endTransfer id reason).2.events =
      engine.events ++ emitted (engine.traceEndTransfer id reason) := by
  unfold endTransfer traceEndTransfer
  split_ifs
  · rfl
  · exact (List.append_nil _).symm

theorem emitted_traceSetPeerTrust (found : Option (Text × Peer)) (fingerprint : Text)
    (level : TrustLevel) (fault : Bool) :
    (engine.setPeerTrust found fingerprint level fault).2.events =
      engine.events ++ emitted (engine.traceSetPeerTrust found level fault) := by
  unfold setPeerTrust traceSetPeerTrust
  split_ifs
  · exact (List.append_nil _).symm
  · cases found with
    | none => exact (List.append_nil _).symm
    | some entry =>
      simp only [emitted_append, emitted_guarded]
      exact emitted_traceOnPeerLost entry.1
  · exact (List.append_nil _).symm

theorem traceOnPeerDiscovered_of_ignores {peer : Peer} {fault : Bool}
    (h : engine.Ignores peer fault) : engine.traceOnPeerDiscovered peer fault = [] := by
  obtain ⟨rfl, fingerprint, hfingerprint, hblocked⟩ := h
  simp [traceOnPeerDiscovered, hfingerprint, hblocked]

theorem traceOnPeerDiscovered_of_not_ignores {peer : Peer} {fault : Bool}
    (h : ¬engine.Ignores peer fault) : engine.traceOnPeerDiscovered peer fault =
      engine.traceRegister { peer with trust := engine.trustFor peer fault } := by
  obtain ⟨deviceId, name, fingerprint, platform, presence, trust, addr, rssi, battery, seen,
    source⟩ := peer
  cases fingerprint with
  | none => rfl
  | some fingerprint =>
    cases fault with
    | true => rfl
    | false =>
      have hfree : engine.db.getTrust fingerprint ≠ .blocked := fun hblocked =>
        h ⟨rfl, fingerprint, rfl, hblocked⟩
      simp [traceOnPeerDiscovered, trustFor, hfree]

/-- The calls to the handler in the trace of a call are the events that it adds. -/
theorem events_step {operand : EngineCall} (h : Step engine operand engine') :
    ∃ found, engine'.events = engine.events ++ emitted ((call operand).trace engine found) := by
  cases h with
  | onPeerDiscovered peer fault =>
    refine ⟨none, ?_⟩
    rw [trace]
    by_cases hignores : engine.Ignores peer fault
    · rw [onPeerDiscovered_of_ignores hignores, traceOnPeerDiscovered_of_ignores hignores]
      exact (List.append_nil _).symm
    · rw [onPeerDiscovered_of_not_ignores hignores, traceOnPeerDiscovered_of_not_ignores hignores]
      exact emitted_traceRegister _
  | onPeerLost deviceId => exact ⟨none, emitted_traceOnPeerLost deviceId⟩
  | setPeerTrust found fingerprint level fault _ =>
    exact ⟨found, emitted_traceSetPeerTrust found fingerprint level fault⟩
  | sendFiles deviceId paths id =>
    refine ⟨none, ?_⟩
    simp only [trace]
    unfold sendFiles traceSendFiles
    cases engine.peers.lookup deviceId <;> exact (List.append_nil _).symm
  | acceptTransfer id =>
    refine ⟨none, ?_⟩
    unfold acceptTransfer
    split_ifs <;> exact (List.append_nil _).symm
  | rejectTransfer id reason => exact ⟨none, emitted_traceEndTransfer id reason⟩
  | cancelTransfer id => exact ⟨none, emitted_traceEndTransfer id _⟩
  | stop =>
    refine ⟨none, ?_⟩
    simp only [trace]
    unfold Engine.stop traceStop
    split_ifs
    · rfl
    · exact (List.append_nil _).symm

/-! ### Locks at the events -/

theorem trace_query (query : EngineQuery) :
    NeverBlocks [] query.trace ∧ heldAfter [] query.trace = [] := by
  cases query <;> exact ⟨by simp [EngineQuery.trace, guarded, NeverBlocks, Throughout], rfl⟩

/-- A handler that asks the engine some questions at each event. -/
def asking (queries : EngineEvent → List EngineQuery) (event : EngineEvent) : EngineTrace :=
  (queries event).flatMap EngineQuery.trace

theorem trace_asking (queries : EngineEvent → List EngineQuery) (event : EngineEvent) :
    NeverBlocks [] (asking queries event) ∧ heldAfter [] (asking queries event) = [] := by
  unfold asking
  induction queries event with
  | nil => exact ⟨trivial, rfl⟩
  | cons query rest ih =>
    obtain ⟨hblocks, hheld⟩ := trace_query query
    rw [List.flatMap_cons, NeverBlocks, throughout_append, heldAfter_append, hheld]
    exact ⟨⟨hblocks, ih.1⟩, ih.2⟩

theorem orderly_traceRegister (peer : Peer) : Orderly [] (engine.traceRegister peer) := by
  unfold traceRegister
  apply orderly_guarded_append
  cases engine.peers.lookup peer.deviceId <;> exact orderly_emit _

theorem orderly_traceOnPeerDiscovered (peer : Peer) (fault : Bool) :
    Orderly [] (engine.traceOnPeerDiscovered peer fault) := by
  by_cases hignores : engine.Ignores peer fault
  · rw [traceOnPeerDiscovered_of_ignores hignores]
    exact orderly_nil
  · rw [traceOnPeerDiscovered_of_not_ignores hignores]
    exact orderly_traceRegister _

theorem orderly_traceOnPeerLost (deviceId : Text) :
    Orderly [] (engine.traceOnPeerLost deviceId) := by
  unfold traceOnPeerLost
  apply orderly_guarded_append
  cases engine.peers.lookup deviceId with
  | none => exact orderly_nil
  | some => exact orderly_emit _

theorem orderly_traceSetPeerTrust (found : Option (Text × Peer)) (level : TrustLevel)
    (fault : Bool) : Orderly [] (engine.traceSetPeerTrust found level fault) := by
  unfold traceSetPeerTrust
  apply orderly_guarded_append
  split_ifs
  · exact orderly_nil
  · apply orderly_guarded_append
    cases found with
    | none => exact orderly_nil
    | some entry => exact orderly_traceOnPeerLost entry.1
  · exact orderly_nil

theorem orderly_traceSendFiles (deviceId : Text) :
    Orderly [] (engine.traceSendFiles deviceId) := by
  unfold traceSendFiles
  apply orderly_guarded_append
  cases engine.peers.lookup deviceId with
  | none => exact orderly_nil
  | some => exact orderly_guarded _

theorem orderly_trace_query (query : EngineQuery) : Orderly [] query.trace := by
  cases query <;> exact orderly_guarded _

theorem orderly_traceEndTransfer {id : TransferId}
    (h : ∀ session ∈ engine.sessions, session.id ≠ id) (reason : Text) :
    Orderly [] (engine.traceEndTransfer id reason) := by
  have hany : ¬engine.sessions.any (·.id = id) = true := by simpa using h
  rw [traceEndTransfer, if_neg hany]
  exact orderly_guarded _

theorem not_emitsFree_traceEndTransfer {id : TransferId}
    (h : ∃ session ∈ engine.sessions, session.id = id) (reason : Text) :
    ¬EmitsFree [] (engine.traceEndTransfer id reason) := by
  have hany : engine.sessions.any (·.id = id) = true := by simpa using h
  rw [traceEndTransfer, if_pos hany]
  simp [EmitsFree, Throughout, guarded, hold]

theorem orderly_traceStop (h : engine.running = false) : Orderly [] engine.traceStop := by
  rw [traceStop, if_neg (by rw [h]; exact Bool.false_ne_true)]
  exact orderly_guarded _

theorem not_emitsFree_traceStop (h : engine.running = true) : ¬EmitsFree [] engine.traceStop := by
  rw [traceStop, if_pos h]
  simp [EmitsFree, Throughout, guarded, hold]

/-- An operation that ends nothing gives back its locks before its events. -/
theorem orderly_of_endsNothing (found : Option (Text × Peer)) {operation : EngineOperation}
    (h : operation.EndsNothing engine) : Orderly [] (operation.trace engine found) := by
  cases operation with
  | new => exact orderly_emit _
  | call operand =>
    cases operand with
    | onPeerDiscovered peer fault => exact orderly_traceOnPeerDiscovered peer fault
    | onPeerLost deviceId => exact orderly_traceOnPeerLost deviceId
    | setPeerTrust fingerprint level fault => exact orderly_traceSetPeerTrust found level fault
    | sendFiles deviceId paths id => exact orderly_traceSendFiles deviceId
    | acceptTransfer id => exact orderly_guarded _
    | rejectTransfer id reason => exact orderly_traceEndTransfer h reason
    | cancelTransfer id => exact orderly_traceEndTransfer h _
    | stop => exact orderly_traceStop h
  | ask query => exact orderly_trace_query query
  | drop =>
    have hstopped : ¬engine.running = true := by
      rw [show engine.running = false from h]
      exact Bool.false_ne_true
    rw [trace, traceDrop, if_neg hstopped]
    exact orderly_guarded_append orderly_nil

/-- An operation that ends a transfer or the engine holds a lock at its event. -/
theorem endsNothing_of_emitsFree {found : Option (Text × Peer)} {operation : EngineOperation}
    (h : EmitsFree [] (operation.trace engine found)) : operation.EndsNothing engine := by
  have hend : ∀ id reason, EmitsFree [] (engine.traceEndTransfer id reason) →
      ∀ session ∈ engine.sessions, session.id ≠ id := fun id reason hfree session hsession hid =>
    not_emitsFree_traceEndTransfer ⟨session, hsession, hid⟩ reason hfree
  have hstop : EmitsFree [] engine.traceStop → engine.running = false := fun hfree =>
    Bool.eq_false_iff.mpr fun hrunning => not_emitsFree_traceStop hrunning hfree
  cases operation with
  | new => trivial
  | call operand =>
    cases operand with
    | rejectTransfer id reason => exact hend id reason h
    | cancelTransfer id => exact hend id _ h
    | stop => exact hstop h
    | _ => trivial
  | ask query => trivial
  | drop =>
    cases hrunning : engine.running with
    | false => exact hrunning
    | true =>
      rw [trace, traceDrop, if_pos hrunning, EmitsFree, throughout_append, heldAfter_guarded] at h
      exact absurd h.2 (not_emitsFree_traceStop hrunning)

/-- At every event of an operation all locks have been given back, so that a handler
may ask the engine, exactly when the operation ends no transfer and no engine. -/
theorem emitsFree_iff_endsNothing (engine : Engine) (found : Option (Text × Peer))
    (operation : EngineOperation) :
    (EmitsFree [] (operation.trace engine found) ∧ ∀ queries,
      NeverBlocks [] (expand (asking queries) (operation.trace engine found))) ↔
        operation.EndsNothing engine := by
  constructor
  · rintro ⟨hfree, -⟩
    exact endsNothing_of_emitsFree hfree
  · intro h
    have horderly := orderly_of_endsNothing found h
    exact ⟨horderly.1, fun queries => horderly.expand (trace_asking queries)⟩

/-- A handler that asks for the transfers when the engine stops waits for itself. -/
theorem not_emitsFree : ¬∀ (engine : Engine) (found : Option (Text × Peer))
    (operation : EngineOperation), EmitsFree [] (operation.trace engine found) ∧
      ∀ queries, NeverBlocks [] (expand (asking queries) (operation.trace engine found)) := by
  intro h
  exact not_emitsFree_traceStop rfl (h (Engine.new ∅) none (call .stop)).1

end EngineOperation
end JustDrop

import JustDrop.EventLog

/-!
# How sessions end

A session ends when it is rejected or cancelled or when the engine stops. Rejecting
and cancelling announce it each time they are called, stopping does not announce it,
and a stopped engine still starts sessions.
-/
namespace JustDrop

/-- The event announces the end of the transfer. -/
def EngineEvent.cancels (id : TransferId) : EngineEvent → Bool
  | .transferCancelled transferId _ => transferId = id
  | _ => false

theorem EngineEvent.cancels_of_not_aboutTransfers {event : EngineEvent}
    (h : ¬event.AboutTransfers) (id : TransferId) : event.cancels id = false := by
  cases event with
  | peerDiscovered => rfl
  | peerLost => rfl
  | peerUpdated => rfl
  | transferCancelled => exact absurd trivial h
  | started => exact absurd trivial h
  | stopped => exact absurd trivial h

namespace Engine
variable {engine engine' : Engine}

def isRunning (engine : Engine) : Bool := engine.running

/-- The transfers that have not ended. -/
def activeTransferCount (engine : Engine) : ℕ :=
  engine.sessions.countP fun session => !session.isTerminal

/-- How often the end of a transfer has been announced. -/
def cancelledEvents (engine : Engine) (id : TransferId) : ℕ :=
  engine.events.countP (EngineEvent.cancels id)

theorem activeTransferCount_eq_zero_iff : engine.activeTransferCount = 0 ↔
    ∀ session ∈ engine.sessions, session.isTerminal = true := by
  simp [activeTransferCount]

/-! ### What the calls do to the sessions -/

/-- The sessions are not concerned. -/
structure SessionsKept (engine engine' : Engine) : Prop where
  sessions : engine'.sessions = engine.sessions
  running : engine'.running = engine.running
  cancelledEvents : ∀ id, engine'.cancelledEvents id = engine.cancelledEvents id

theorem SessionsKept.refl (engine : Engine) : SessionsKept engine engine :=
  ⟨rfl, rfl, fun _ => rfl⟩

/-- A report about a peer, whatever the table holds after it. -/
theorem sessionsKept_emit (engine : Engine) (peers : PeerTable) {event : EngineEvent}
    (h : ¬event.AboutTransfers) : SessionsKept engine ({ engine with peers }.emit event) :=
  ⟨rfl, rfl, fun id => by
    simp [Engine.cancelledEvents, emit, event.cancels_of_not_aboutTransfers h]⟩

theorem sessionsKept_register (engine : Engine) (peer : Peer) :
    SessionsKept engine (engine.register peer) := by
  unfold register
  split
  · exact sessionsKept_emit engine _ fun h => h
  · exact sessionsKept_emit engine _ fun h => h

theorem sessionsKept_onPeerLost (engine : Engine) (deviceId : Text) :
    SessionsKept engine (engine.onPeerLost deviceId) := by
  unfold Engine.onPeerLost
  split
  · exact sessionsKept_emit engine _ fun h => h
  · exact SessionsKept.refl engine

theorem sessionsKept_setPeerTrust (engine : Engine) (found : Option (Text × Peer))
    (fingerprint : Text) (level : TrustLevel) (fault : Bool) :
    SessionsKept engine (engine.setPeerTrust found fingerprint level fault).2 := by
  have hstored : ∀ db, SessionsKept engine { engine with db } := fun _ => ⟨rfl, rfl, fun _ => rfl⟩
  unfold Engine.setPeerTrust
  split_ifs
  · exact SessionsKept.refl engine
  · cases found with
    | none => exact hstored _
    | some entry =>
      obtain ⟨hsessions, hrunning, hevents⟩ := sessionsKept_onPeerLost { engine with
        db := engine.db.setTrust fingerprint entry.2.name (platformText entry.2.platform) level }
        entry.1
      exact ⟨hsessions, hrunning, hevents⟩
  · exact hstored _

/-- Calls about peers leave the sessions as they are. -/
theorem Step.sessionsKept {call : EngineCall} (h : Step engine call engine')
    (hcall : ¬call.AboutTransfers) : SessionsKept engine engine' := by
  cases h with
  | onPeerDiscovered peer fault =>
    by_cases hignores : engine.Ignores peer fault
    · rw [onPeerDiscovered_of_ignores hignores]
      exact SessionsKept.refl engine
    · rw [onPeerDiscovered_of_not_ignores hignores]
      exact sessionsKept_register engine _
  | onPeerLost deviceId => exact sessionsKept_onPeerLost engine deviceId
  | setPeerTrust found fingerprint level fault _ =>
    exact sessionsKept_setPeerTrust engine found fingerprint level fault
  | sendFiles => exact absurd trivial hcall
  | acceptTransfer => exact absurd trivial hcall
  | rejectTransfer => exact absurd trivial hcall
  | cancelTransfer => exact absurd trivial hcall
  | stop => exact absurd trivial hcall

theorem acceptTransfer_snd (id : TransferId) : (engine.acceptTransfer id).2 = engine := by
  unfold acceptTransfer
  split_ifs <;> rfl

theorem mem_sessions_sendFiles {deviceId : Text} {paths : List Path} {id : TransferId}
    {peer : Peer} (h : engine.peers.lookup deviceId = some peer) {session : TransferSession} :
    session ∈ (engine.sendFiles deviceId paths id).2.sessions ↔
      session = TransferSession.newSend id (peer.fingerprint.getD []) peer.name paths ∨
        session ∈ engine.sessions ∧ session.id ≠ id := by
  simp [sendFiles, h]

theorem sendFiles_of_none {deviceId : Text} (h : engine.peers.lookup deviceId = none)
    (paths : List Path) (id : TransferId) : (engine.sendFiles deviceId paths id).2 = engine := by
  simp [sendFiles, h]

theorem running_sendFiles (deviceId : Text) (paths : List Path) (id : TransferId) :
    (engine.sendFiles deviceId paths id).2.running = engine.running := by
  unfold sendFiles
  split <;> rfl

theorem events_sendFiles (deviceId : Text) (paths : List Path) (id : TransferId) :
    (engine.sendFiles deviceId paths id).2.events = engine.events := by
  unfold sendFiles
  split <;> rfl

/-- What ending a transfer leaves of a session. -/
def ended (id : TransferId) (session : TransferSession) : TransferSession :=
  if session.id = id then session.cancel else session

@[simp] theorem id_ended (id : TransferId) (session : TransferSession) :
    (ended id session).id = session.id := by
  unfold ended
  split_ifs <;> rfl

theorem endTransfer_of_mem {id : TransferId} (h : ∃ session ∈ engine.sessions, session.id = id)
    (reason : Text) : (engine.endTransfer id reason).2 =
      { engine with sessions := engine.sessions.map (ended id) }.emit
        (.transferCancelled id reason) := by
  have hany : engine.sessions.any (·.id = id) = true := by simpa using h
  rw [endTransfer, if_pos hany]
  rfl

theorem endTransfer_of_not_mem {id : TransferId}
    (h : ¬∃ session ∈ engine.sessions, session.id = id) (reason : Text) :
    engine.endTransfer id reason = (.error (.sessionNotFound id), engine) := by
  have hany : ¬engine.sessions.any (·.id = id) = true := by simpa using h
  rw [endTransfer, if_neg hany]

theorem cancelledEvents_endTransfer {id : TransferId}
    (h : ∃ session ∈ engine.sessions, session.id = id) (reason : Text) (other : TransferId) :
    (engine.endTransfer id reason).2.cancelledEvents other =
      engine.cancelledEvents other + if id = other then 1 else 0 := by
  rw [endTransfer_of_mem h]
  simp [cancelledEvents, emit, EngineEvent.cancels]

/-- What stopping leaves of a session. -/
def stopped (session : TransferSession) : TransferSession :=
  if session.isTerminal then session else session.cancel

@[simp] theorem id_stopped (session : TransferSession) : (stopped session).id = session.id := by
  unfold stopped
  split_ifs <;> rfl

theorem isTerminal_stopped (session : TransferSession) : (stopped session).isTerminal = true := by
  unfold stopped
  split_ifs with h
  · exact h
  · rfl

theorem stop_of_running (h : engine.running = true) : engine.stop =
    { engine with running := false, sessions := engine.sessions.map stopped }.emit .stopped := by
  rw [stop, if_pos h]
  rfl

theorem stop_of_not_running (h : engine.running = false) : engine.stop = engine := by
  rw [stop, if_neg (by rw [h]; exact Bool.false_ne_true)]

/-! ### Transfers of a stopped engine -/

/-- A stopped engine has no live transfers. -/
def Settled (engine : Engine) : Prop :=
  engine.isRunning = false → engine.activeTransferCount = 0

/-- Sending starts a session on a running engine only. -/
def StartsRunning (engine : Engine) : EngineCall → Prop
  | .sendFiles deviceId _ _ =>
    engine.running = true ∨ engine.peers.lookup deviceId = none
  | _ => True

theorem settled_iff : engine.Settled ↔
    (engine.running = false → ∀ session ∈ engine.sessions, session.isTerminal = true) := by
  rw [Settled, activeTransferCount_eq_zero_iff, isRunning]

theorem settled_endTransfer (h : engine.Settled) (id : TransferId) (reason : Text) :
    (engine.endTransfer id reason).2.Settled := by
  by_cases hmem : ∃ session ∈ engine.sessions, session.id = id
  · rw [endTransfer_of_mem hmem, settled_iff]
    intro hstopped session hsession
    obtain ⟨old, hold, rfl⟩ := List.mem_map.mp hsession
    unfold ended
    split_ifs
    · rfl
    · exact settled_iff.mp h hstopped old hold
  · rw [endTransfer_of_not_mem hmem]
    exact h

theorem settled_stop (h : engine.Settled) : engine.stop.Settled := by
  cases hrunning : engine.running with
  | false =>
    rw [stop_of_not_running hrunning]
    exact h
  | true =>
    rw [stop_of_running hrunning, settled_iff]
    intro _ session hsession
    obtain ⟨old, -, rfl⟩ := List.mem_map.mp hsession
    exact isTerminal_stopped old

theorem settled_sendFiles_iff (h : engine.Settled) (deviceId : Text) (paths : List Path)
    (id : TransferId) : (engine.sendFiles deviceId paths id).2.Settled ↔
      engine.StartsRunning (.sendFiles deviceId paths id) := by
  cases hpeer : engine.peers.lookup deviceId with
  | none =>
    rw [sendFiles_of_none hpeer]
    exact iff_of_true h (Or.inr hpeer)
  | some peer =>
    rw [settled_iff, running_sendFiles, StartsRunning, hpeer]
    cases hrunning : engine.running with
    | true => simp
    | false =>
      refine iff_of_false (fun hall => ?_) (by simp)
      have hnew := hall rfl
        (TransferSession.newSend id (peer.fingerprint.getD []) peer.name paths)
        ((mem_sessions_sendFiles hpeer).mpr (Or.inl rfl))
      simp [TransferSession.isTerminal, TransferSession.newSend] at hnew

theorem settled_step_iff {call : EngineCall} (h : engine.Settled)
    (hstep : Step engine call engine') : engine'.Settled ↔ engine.StartsRunning call := by
  have hkept : ¬call.AboutTransfers → engine'.Settled := by
    intro hcall
    have hsame := hstep.sessionsKept hcall
    rw [settled_iff, hsame.sessions, hsame.running]
    exact settled_iff.mp h
  cases hstep with
  | onPeerDiscovered => exact iff_of_true (hkept fun h => h) trivial
  | onPeerLost => exact iff_of_true (hkept fun h => h) trivial
  | setPeerTrust => exact iff_of_true (hkept fun h => h) trivial
  | sendFiles deviceId paths id => exact settled_sendFiles_iff h deviceId paths id
  | acceptTransfer id =>
    rw [acceptTransfer_snd]
    exact iff_of_true h trivial
  | rejectTransfer id reason => exact iff_of_true (settled_endTransfer h id reason) trivial
  | cancelTransfer id => exact iff_of_true (settled_endTransfer h id _) trivial
  | stop => exact iff_of_true (settled_stop h) trivial

/-- A stopped engine has no live transfers in any state of a run exactly when no call
of the run starts one on a stopped engine. -/
theorem always_settled_iff (db : Database) {taken : List (Engine × EngineCall)} {final : Engine}
    (run : Run Step (new db) taken final) :
    Run.Always Settled taken final ↔ ∀ t ∈ taken, t.1.StartsRunning t.2 :=
  Run.always_iff (J := fun _ => True) (P := fun _ => True) trivial
    (fun _ _ _ _ _ _ => trivial) (fun hstopped => Bool.noConfusion hstopped)
    (fun _ _ _ _ _ hsettled hstep => settled_step_iff hsettled hstep) run fun _ _ => trivial

/-- An engine that has found the phone and is stopped. -/
def phoneStopped : Engine := phoneFound.stop

/-- A call that sends nothing to the phone. -/
def sampleSend : EngineCall := .sendFiles samplePhone.deviceId [] (Vector.replicate 16 0)

def phoneSent : Engine :=
  (phoneStopped.sendFiles samplePhone.deviceId [] (Vector.replicate 16 0)).2

/-- The phone is found, the engine is stopped, and files are sent to the phone. -/
def stoppedSend : List (Engine × EngineCall) :=
  [(new ∅, .onPeerDiscovered samplePhone false), (phoneFound, .stop), (phoneStopped, sampleSend)]

theorem run_stoppedSend : Run Step (new ∅) stoppedSend phoneSent :=
  .snoc (.snoc run_phoneFound .stop) (.sendFiles samplePhone.deviceId [] _)

theorem running_phoneFound : phoneFound.running = true := by
  rw [phoneFound, (Step.sessionsKept (.onPeerDiscovered samplePhone false) fun h => h).running]
  rfl

theorem not_startsRunning_phoneStopped : ¬phoneStopped.StartsRunning sampleSend := by
  have hstop := stop_of_running running_phoneFound
  rintro (hrunning | hnone)
  · rw [phoneStopped, hstop] at hrunning
    exact Bool.noConfusion hrunning
  · rw [phoneStopped, hstop] at hnone
    have hsome : phoneFound.peers.lookup samplePhone.deviceId = none := hnone
    simp [lookup_phoneFound] at hsome

theorem always_settled_iff_phone : ¬Run.Always Settled stoppedSend phoneSent :=
  (always_settled_iff ∅ run_stoppedSend).not.mpr fun h =>
    not_startsRunning_phoneStopped (h (phoneStopped, sampleSend) (by simp [stoppedSend]))

/-- A transfer that is started after the engine was stopped is live. -/
theorem not_always_settled : ¬∀ (db : Database) (taken : List (Engine × EngineCall))
    (final : Engine), Run Step (new db) taken final → Run.Always Settled taken final := by
  intro h
  have hsettled := h ∅ _ _ run_stoppedSend
  have hbefore : phoneStopped.Settled := hsettled.1 (phoneStopped, sampleSend)
    (by simp [stoppedSend])
  exact not_startsRunning_phoneStopped ((settled_step_iff hbefore
    (.sendFiles samplePhone.deviceId [] _)).mp hsettled.2)

/-! ### Announcements -/

/-- A new identifier is that of no session so far. -/
def Fresh (engine : Engine) : EngineCall → Prop
  | .sendFiles _ _ id => ∀ session ∈ engine.sessions, session.id ≠ id
  | _ => True

/-- A call, with a fresh identifier if it starts a session. -/
def FreshStep (engine : Engine) (call : EngineCall) (engine' : Engine) : Prop :=
  Step engine call engine' ∧ engine.Fresh call

/-- A session that has ended stays as it is. -/
def KeepsEnded (engine : Engine) (_ : EngineCall) (engine' : Engine) : Prop :=
  ∀ session ∈ engine.sessions, session.isTerminal = true →
    ∀ session' ∈ engine'.sessions, session'.id = session.id → session'.state = session.state

/-- The end of every cancelled session has been announced once, that of the others not. -/
def EndedOnce (engine : Engine) : Prop :=
  ∀ session ∈ engine.sessions,
    engine.cancelledEvents session.id = if session.state = .cancelled then 1 else 0

/-- A transfer is not rejected or cancelled again, and none is live when a running
engine stops. -/
def EndsAnew (engine : Engine) : EngineCall → Prop
  | .rejectTransfer id _ | .cancelTransfer id =>
    ∀ session ∈ engine.sessions, session.id = id → session.state ≠ .cancelled
  | .stop => engine.running = true → engine.activeTransferCount = 0
  | _ => True

/-- The sessions lie under their identifiers, are negotiating or cancelled, and only
theirs are the ends announced. -/
structure Registered (engine : Engine) : Prop where
  unique : (engine.sessions.map TransferSession.id).Nodup
  state : ∀ session ∈ engine.sessions, session.state = .negotiating ∨ session.state = .cancelled
  unannounced : ∀ id, (∀ session ∈ engine.sessions, session.id ≠ id) →
    engine.cancelledEvents id = 0

theorem registered_new (db : Database) : (new db).Registered :=
  ⟨List.nodup_nil, fun _ h => absurd h List.not_mem_nil, fun _ _ => rfl⟩

theorem Registered.kept (h : engine.Registered) (hkept : SessionsKept engine engine') :
    engine'.Registered := by
  obtain ⟨hsessions, -, hevents⟩ := hkept
  refine ⟨?_, ?_, fun id hnone => ?_⟩
  · rw [hsessions]
    exact h.unique
  · rw [hsessions]
    exact h.state
  · rw [hsessions] at hnone
    rw [hevents, h.unannounced id hnone]

theorem Registered.eq_of_id (h : engine.Registered) {session other : TransferSession}
    (hsession : session ∈ engine.sessions) (hother : other ∈ engine.sessions)
    (hid : session.id = other.id) : session = other :=
  List.inj_on_of_nodup_map h.unique hsession hother hid

theorem Registered.sendFiles (h : engine.Registered) (deviceId : Text) (paths : List Path)
    (id : TransferId) : (engine.sendFiles deviceId paths id).2.Registered := by
  cases hpeer : engine.peers.lookup deviceId with
  | none =>
    rw [sendFiles_of_none hpeer]
    exact h
  | some peer =>
    refine ⟨?_, fun session hsession => ?_, fun other hnone => ?_⟩
    · simp only [Engine.sendFiles, hpeer, List.map_cons, List.nodup_cons]
      refine ⟨?_, h.unique.sublist (List.filter_sublist.map _)⟩
      simp [TransferSession.newSend]
    · rcases (mem_sessions_sendFiles hpeer).mp hsession with rfl | ⟨hold, -⟩
      · exact Or.inl rfl
      · exact h.state session hold
    · have hne : other ≠ id := fun heq =>
        hnone _ ((mem_sessions_sendFiles hpeer).mpr (Or.inl rfl)) heq.symm
      rw [cancelledEvents, events_sendFiles]
      refine h.unannounced other fun session hsession heq => ?_
      refine hnone session ((mem_sessions_sendFiles hpeer).mpr (Or.inr ⟨hsession, ?_⟩)) heq
      rw [heq]
      exact hne

/-- Sessions that are changed one by one stay under their identifiers. -/
theorem unique_map (h : (engine.sessions.map TransferSession.id).Nodup)
    {change : TransferSession → TransferSession}
    (hid : ∀ session, (change session).id = session.id) :
    ((engine.sessions.map change).map TransferSession.id).Nodup := by
  have hsame : TransferSession.id ∘ change = TransferSession.id := funext hid
  rwa [List.map_map, hsame]

theorem Registered.endTransfer (h : engine.Registered) (id : TransferId) (reason : Text) :
    (engine.endTransfer id reason).2.Registered := by
  by_cases hmem : ∃ session ∈ engine.sessions, session.id = id
  · refine ⟨?_, fun session hsession => ?_, fun other hnone => ?_⟩
    · rw [endTransfer_of_mem hmem]
      exact unique_map h.unique (id_ended id)
    · rw [endTransfer_of_mem hmem] at hsession
      obtain ⟨old, hold, rfl⟩ := List.mem_map.mp hsession
      unfold ended
      split_ifs
      · exact Or.inr rfl
      · exact h.state old hold
    · rw [cancelledEvents_endTransfer hmem]
      rw [endTransfer_of_mem hmem] at hnone
      have hold : ∀ session ∈ engine.sessions, session.id ≠ other := fun session hsession => by
        simpa using hnone _ (List.mem_map_of_mem hsession)
      obtain ⟨session, hsession, hid⟩ := hmem
      rw [h.unannounced other hold, if_neg (hid ▸ hold session hsession)]
  · rw [endTransfer_of_not_mem hmem]
    exact h

theorem Registered.stop (h : engine.Registered) : engine.stop.Registered := by
  cases hrunning : engine.running with
  | false =>
    rw [stop_of_not_running hrunning]
    exact h
  | true =>
    rw [stop_of_running hrunning]
    refine ⟨unique_map h.unique id_stopped, fun session hsession => ?_, fun other hnone => ?_⟩
    · obtain ⟨old, hold, rfl⟩ := List.mem_map.mp hsession
      unfold stopped
      split_ifs
      · exact h.state old hold
      · exact Or.inr rfl
    · have hold : ∀ session ∈ engine.sessions, session.id ≠ other := fun session hsession => by
        simpa using hnone _ (List.mem_map_of_mem hsession)
      rw [← h.unannounced other hold]
      simp [cancelledEvents, emit, EngineEvent.cancels]

theorem Registered.step {call : EngineCall} (h : engine.Registered)
    (hstep : Step engine call engine') : engine'.Registered := by
  have hkept : ¬call.AboutTransfers → engine'.Registered := fun hcall =>
    h.kept (hstep.sessionsKept hcall)
  cases hstep with
  | onPeerDiscovered => exact hkept fun h => h
  | onPeerLost => exact hkept fun h => h
  | setPeerTrust => exact hkept fun h => h
  | sendFiles deviceId paths id => exact h.sendFiles deviceId paths id
  | acceptTransfer id =>
    rw [acceptTransfer_snd]
    exact h
  | rejectTransfer id reason => exact h.endTransfer id reason
  | cancelTransfer id => exact h.endTransfer id _
  | stop => exact h.stop

/-- Where the sessions are changed one by one and ended ones are left alone. -/
theorem keepsEnded_map (h : engine.Registered) {call : EngineCall}
    {change : TransferSession → TransferSession} (hid : ∀ session, (change session).id = session.id)
    (hchange : ∀ session, session.state = .cancelled → (change session).state = .cancelled)
    (hsessions : engine'.sessions = engine.sessions.map change) :
    KeepsEnded engine call engine' := by
  intro session hsession hterminal session' hsession' hsame
  rw [hsessions] at hsession'
  obtain ⟨old, hold, rfl⟩ := List.mem_map.mp hsession'
  rw [hid] at hsame
  obtain rfl := h.eq_of_id hold hsession hsame
  have hcancelled : old.state = .cancelled := by
    rcases h.state old hold with hstate | hstate
    · simp [TransferSession.isTerminal, hstate] at hterminal
    · exact hstate
  rw [hchange old hcancelled, hcancelled]

theorem keepsEnded_of_sessions_eq (h : engine.Registered) {call : EngineCall}
    (hsessions : engine'.sessions = engine.sessions) : KeepsEnded engine call engine' := by
  have hmap : engine'.sessions = engine.sessions.map id := by rw [hsessions, List.map_id]
  exact keepsEnded_map h (fun _ => rfl) (fun _ hstate => hstate) hmap

theorem keepsEnded_endTransfer (h : engine.Registered) {call : EngineCall} (id : TransferId)
    (reason : Text) : KeepsEnded engine call (engine.endTransfer id reason).2 := by
  by_cases hmem : ∃ session ∈ engine.sessions, session.id = id
  · refine keepsEnded_map h (id_ended id) (fun session hstate => ?_)
      (by rw [endTransfer_of_mem hmem]; rfl)
    unfold ended
    split_ifs
    · rfl
    · exact hstate
  · rw [endTransfer_of_not_mem hmem]
    exact keepsEnded_of_sessions_eq h rfl

theorem keepsEnded_step {call : EngineCall} (h : engine.Registered)
    (hstep : FreshStep engine call engine') : KeepsEnded engine call engine' := by
  obtain ⟨hstep, hfresh⟩ := hstep
  have hkept : ¬call.AboutTransfers → KeepsEnded engine call engine' := fun hcall =>
    keepsEnded_of_sessions_eq h (hstep.sessionsKept hcall).sessions
  cases hstep with
  | onPeerDiscovered => exact hkept fun h => h
  | onPeerLost => exact hkept fun h => h
  | setPeerTrust => exact hkept fun h => h
  | sendFiles deviceId paths id =>
    cases hpeer : engine.peers.lookup deviceId with
    | none =>
      rw [sendFiles_of_none hpeer]
      exact keepsEnded_of_sessions_eq h rfl
    | some peer =>
      intro session hsession _ session' hsession' hsame
      rcases (mem_sessions_sendFiles hpeer).mp hsession' with rfl | ⟨hold, -⟩
      · exact absurd hsame.symm (hfresh session hsession)
      · rw [h.eq_of_id hold hsession hsame]
  | acceptTransfer id =>
    rw [acceptTransfer_snd]
    exact keepsEnded_of_sessions_eq h rfl
  | rejectTransfer id reason => exact keepsEnded_endTransfer h id reason
  | cancelTransfer id => exact keepsEnded_endTransfer h id _
  | stop =>
    cases hrunning : engine.running with
    | false =>
      rw [stop_of_not_running hrunning]
      exact keepsEnded_of_sessions_eq h rfl
    | true =>
      refine keepsEnded_map h id_stopped (fun session hstate => ?_)
        (by rw [stop_of_running hrunning]; rfl)
      simp [stopped, TransferSession.isTerminal, hstate]

theorem endedOnce_endTransfer_iff (h : engine.EndedOnce) (id : TransferId) (reason : Text) :
    (engine.endTransfer id reason).2.EndedOnce ↔
      ∀ session ∈ engine.sessions, session.id = id → session.state ≠ .cancelled := by
  by_cases hmem : ∃ session ∈ engine.sessions, session.id = id
  · have hcount := cancelledEvents_endTransfer hmem reason
    have hsessions : (engine.endTransfer id reason).2.sessions =
        engine.sessions.map (ended id) := by
      rw [endTransfer_of_mem hmem]
      rfl
    rw [EndedOnce, hsessions, List.forall_mem_map]
    refine forall₂_congr fun session hsession => ?_
    rw [id_ended, hcount, h session hsession]
    by_cases hid : session.id = id
    · by_cases hstate : session.state = .cancelled
      · simp [ended, hid, hstate, TransferSession.cancel]
      · simp [ended, hid, hstate, TransferSession.cancel]
    · simp [ended, hid, Ne.symm hid]
  · rw [endTransfer_of_not_mem hmem]
    exact iff_of_true h fun session hsession hid => absurd ⟨session, hsession, hid⟩ hmem

theorem endedOnce_stop_iff (h : engine.EndedOnce) : engine.stop.EndedOnce ↔
    (engine.running = true → engine.activeTransferCount = 0) := by
  cases hrunning : engine.running with
  | false =>
    rw [stop_of_not_running hrunning]
    exact iff_of_true h fun hfalse => Bool.noConfusion hfalse
  | true =>
    have hcount : ∀ id, engine.stop.cancelledEvents id = engine.cancelledEvents id := fun id => by
      simp [stop_of_running hrunning, cancelledEvents, emit, EngineEvent.cancels]
    have hsessions : engine.stop.sessions = engine.sessions.map stopped := by
      rw [stop_of_running hrunning]
      rfl
    rw [EndedOnce, hsessions, List.forall_mem_map, activeTransferCount_eq_zero_iff,
      forall_prop_of_true rfl]
    refine forall₂_congr fun session hsession => ?_
    rw [id_stopped, hcount, h session hsession]
    cases hterminal : session.isTerminal with
    | true => simp [stopped, hterminal]
    | false =>
      have hstate : session.state ≠ .cancelled := fun hstate => by
        simp [TransferSession.isTerminal, hstate] at hterminal
      simp [stopped, hterminal, hstate, TransferSession.cancel]

theorem endedOnce_sendFiles (h : engine.EndedOnce) (hregistered : engine.Registered)
    (deviceId : Text) (paths : List Path) {id : TransferId}
    (hfresh : ∀ session ∈ engine.sessions, session.id ≠ id) :
    (engine.sendFiles deviceId paths id).2.EndedOnce := by
  cases hpeer : engine.peers.lookup deviceId with
  | none =>
    rw [sendFiles_of_none hpeer]
    exact h
  | some peer =>
    intro session hsession
    rw [cancelledEvents, events_sendFiles]
    rcases (mem_sessions_sendFiles hpeer).mp hsession with rfl | ⟨hold, -⟩
    · exact hregistered.unannounced id hfresh
    · exact h session hold

theorem endedOnce_step_iff {call : EngineCall} (hregistered : engine.Registered)
    (h : engine.EndedOnce) (hstep : FreshStep engine call engine') :
    engine'.EndedOnce ↔ engine.EndsAnew call := by
  obtain ⟨hstep, hfresh⟩ := hstep
  have hkept : ¬call.AboutTransfers → engine'.EndedOnce := by
    intro hcall
    obtain ⟨hsessions, -, hevents⟩ := hstep.sessionsKept hcall
    rw [EndedOnce, hsessions]
    intro session hsession
    rw [hevents]
    exact h session hsession
  cases hstep with
  | onPeerDiscovered => exact iff_of_true (hkept fun h => h) trivial
  | onPeerLost => exact iff_of_true (hkept fun h => h) trivial
  | setPeerTrust => exact iff_of_true (hkept fun h => h) trivial
  | sendFiles deviceId paths id =>
    exact iff_of_true (endedOnce_sendFiles h hregistered deviceId paths hfresh) trivial
  | acceptTransfer id =>
    rw [acceptTransfer_snd]
    exact iff_of_true h trivial
  | rejectTransfer id reason => exact endedOnce_endTransfer_iff h id reason
  | cancelTransfer id => exact endedOnce_endTransfer_iff h id _
  | stop => exact endedOnce_stop_iff h

/-- Ended sessions stay as they are in every run; each end has been announced exactly
once in every state of it exactly when no call ends a session again or ends live ones
by stopping. -/
theorem always_endedOnce_iff (db : Database) {taken : List (Engine × EngineCall)}
    {final : Engine} (run : Run FreshStep (new db) taken final) :
    (Run.Each KeepsEnded final taken ∧ Run.Always EndedOnce taken final) ↔
      ∀ t ∈ taken, t.1.EndsAnew t.2 := by
  have hregistered : ∀ s a s', s.Registered → True → FreshStep s a s' → s'.Registered :=
    fun _ _ _ h _ hstep => h.step hstep.1
  have hkeeps : Run.Each KeepsEnded final taken :=
    (Run.each_iff (P := fun _ => True) (C := fun _ _ => True) (registered_new db) hregistered
      (fun _ _ _ h _ hstep => iff_of_true (keepsEnded_step h hstep) trivial) run
      fun _ _ => trivial).mpr fun _ _ => trivial
  rw [and_iff_right hkeeps]
  exact Run.always_iff (registered_new db) hregistered
    (fun _ h => absurd h List.not_mem_nil)
    (fun _ _ _ hregistered _ hended hstep => endedOnce_step_iff hregistered hended hstep)
    run fun _ _ => trivial

/-- The engine that has found the phone sends to it. -/
def phoneSending : Engine :=
  (phoneFound.sendFiles samplePhone.deviceId [] (Vector.replicate 16 0)).2

/-- The phone is found, files are sent to it, and the engine is stopped. -/
def sendThenStop : List (Engine × EngineCall) :=
  [(new ∅, .onPeerDiscovered samplePhone false), (phoneFound, sampleSend), (phoneSending, .stop)]

theorem fresh_sampleSend : phoneFound.Fresh sampleSend := by
  have hsessions : phoneFound.sessions = [] :=
    (Step.sessionsKept (.onPeerDiscovered samplePhone false) fun h => h).sessions
  intro session hsession
  rw [hsessions] at hsession
  exact absurd hsession List.not_mem_nil

theorem run_sendThenStop : Run FreshStep (new ∅) sendThenStop phoneSending.stop :=
  .snoc (.snoc (.snoc .refl ⟨.onPeerDiscovered samplePhone false, trivial⟩)
    ⟨.sendFiles samplePhone.deviceId [] _, fresh_sampleSend⟩) ⟨.stop, trivial⟩

theorem not_endsAnew_phoneSending : ¬phoneSending.EndsAnew .stop := by
  intro h
  have hrunning : phoneSending.running = true := by
    rw [phoneSending, running_sendFiles, running_phoneFound]
  have hlive := activeTransferCount_eq_zero_iff.mp (h hrunning) _
    ((mem_sessions_sendFiles lookup_phoneFound).mpr (Or.inl rfl))
  simp [TransferSession.isTerminal, TransferSession.newSend] at hlive

theorem always_endedOnce_iff_phone : ¬(Run.Each KeepsEnded phoneSending.stop sendThenStop ∧
    Run.Always EndedOnce sendThenStop phoneSending.stop) :=
  (always_endedOnce_iff ∅ run_sendThenStop).not.mpr fun h =>
    not_endsAnew_phoneSending (h (phoneSending, .stop) (by simp [sendThenStop]))

/-- Stopping the engine cancels a transfer without announcing it. -/
theorem not_always_endedOnce : ¬∀ (db : Database) (taken : List (Engine × EngineCall))
    (final : Engine), Run FreshStep (new db) taken final →
      Run.Each KeepsEnded final taken ∧ Run.Always EndedOnce taken final := by
  intro h
  have hended := (h ∅ _ _ run_sendThenStop).2
  have hbefore : phoneSending.EndedOnce := hended.1 (phoneSending, .stop)
    (by simp [sendThenStop])
  exact not_endsAnew_phoneSending ((endedOnce_stop_iff hbefore).mp hended.2)

end Engine
end JustDrop

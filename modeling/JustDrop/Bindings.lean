import JustDrop.EventLog
import JustDrop.Lifecycle
import JustDrop.ResumeDirectory

/-!
# The engine behind its bindings

The platform holds texts: identifiers of transfers as it was told them, peers as records of
plain fields. Its calls are those of the engine, with errors made coarser and texts that are
no identifiers refused, and a handler that keeps a table of what it is told holds the image
of what the engine announces. None of these calls enters a peer: a platform that has nothing
else sees no peer, sends nothing and has no transfers.
-/
namespace JustDrop

/-- A peer as the platform sees it. -/
structure PeerInfo where
  deviceId : Text
  name : Text
  fingerprint : Option Text
  platform : Platform
  presence : PresenceState
  trust : TrustLevel
  address : Option Text
  rssi : Option Int16
  battery : Option UInt8
  deriving DecidableEq

inductive JustDropError where
  | peerNotFound
  | transferFailed
  | invalidArgument
  | databaseError
  deriving DecidableEq, Repr

def JustDropError.ofEngine : EngineError → JustDropError
  | .database => databaseError
  | .peerNotFound _ => peerNotFound
  | .sessionNotFound _ => transferFailed

/-- The calls of the handler for the events of the engine. -/
inductive Callback where
  | onPeerDiscovered (peer : PeerInfo)
  | onPeerLost (deviceId : Text)
  | onPeerUpdated (peer : PeerInfo)
  | onTransferCancelled (transferId reason : Text)
  | onEngineStarted
  | onEngineStopped
  deriving DecidableEq

/-- Texts of addresses and identifiers. What is printed of an identifier is read back. -/
structure BindingHost where
  showAddr : SocketAddr → Text
  parseUuid : Text → Option TransferId
  parseUuid_uuidText : ∀ id, parseUuid (uuidText id) = some id

def Peer.info (host : BindingHost) (peer : Peer) : PeerInfo :=
  { deviceId := peer.deviceId, name := peer.name, fingerprint := peer.fingerprint
    platform := peer.platform, presence := peer.presence, trust := peer.trust
    address := peer.addr.map host.showAddr, rssi := peer.rssi, battery := peer.battery }

/-- `EventBridge::on_event`. -/
def EngineEvent.bridge (host : BindingHost) : EngineEvent → Callback
  | .peerDiscovered peer => .onPeerDiscovered (peer.info host)
  | .peerLost deviceId => .onPeerLost deviceId
  | .peerUpdated peer => .onPeerUpdated (peer.info host)
  | .transferCancelled transferId reason => .onTransferCancelled (uuidText transferId) reason
  | .started => .onEngineStarted
  | .stopped => .onEngineStopped

/-- What a handler does that keeps a table of the peers it is told of. -/
def Callback.apply (table : Finmap fun _ : Text => PeerInfo) :
    Callback → Finmap fun _ : Text => PeerInfo
  | .onPeerDiscovered peer => table.insert peer.deviceId peer
  | .onPeerUpdated peer => table.insert peer.deviceId peer
  | .onPeerLost deviceId => table.erase deviceId
  | _ => table

/-! ### Calls of the platform -/

namespace JustDropEngine

/-- The result of a call of the engine. -/
def lift {α β : Type} (f : α → β) (result : Except EngineError α × Engine) :
    Except JustDropError β × Engine :=
  ((result.1.mapError JustDropError.ofEngine).map f, result.2)

/-- A call about a transfer, whose text has to be an identifier. -/
def withTransfer (host : BindingHost) (transferId : Text)
    (call : TransferId → Except EngineError Unit × Engine) (engine : Engine) :
    Except JustDropError Unit × Engine :=
  match host.parseUuid transferId with
  | none => (.error .invalidArgument, engine)
  | some id => lift (fun _ => ()) (call id)

def setPeerTrust (found : Option (Text × Peer)) (fingerprint : Text) (level : TrustLevel)
    (fault : Bool) (engine : Engine) : Except JustDropError Unit × Engine :=
  lift (fun _ => ()) (engine.setPeerTrust found fingerprint level fault)

/-- The identifier of the session is given back as a text. -/
def sendFiles (deviceId : Text) (filePaths : List Text) (id : TransferId) (engine : Engine) :
    Except JustDropError Text × Engine :=
  lift uuidText (engine.sendFiles deviceId (filePaths.map Path.ofChars) id)

def acceptTransfer (host : BindingHost) (transferId : Text) (engine : Engine) :
    Except JustDropError Unit × Engine :=
  withTransfer host transferId engine.acceptTransfer engine

def rejectTransfer (host : BindingHost) (transferId reason : Text) (engine : Engine) :
    Except JustDropError Unit × Engine :=
  withTransfer host transferId (engine.rejectTransfer · reason) engine

def cancelTransfer (host : BindingHost) (transferId : Text) (engine : Engine) :
    Except JustDropError Unit × Engine :=
  withTransfer host transferId engine.cancelTransfer engine

def visiblePeers (host : BindingHost) (engine : Engine) : Multiset PeerInfo :=
  engine.visiblePeers.map (Peer.info host)

end JustDropEngine

inductive BindingCall where
  | startDiscovery
  | stopDiscovery
  | setPeerTrust (fingerprint : Text) (level : TrustLevel) (fault : Bool)
  | sendFiles (deviceId : Text) (filePaths : List Text) (id : TransferId)
  | acceptTransfer (transferId : Text)
  | rejectTransfer (transferId reason : Text)
  | cancelTransfer (transferId : Text)
  | stop

/-- The call of the engine that a call of the platform comes to. -/
def BindingCall.engineCall (host : BindingHost) : BindingCall → Option EngineCall
  | .startDiscovery => none
  | .stopDiscovery => none
  | .setPeerTrust fingerprint level fault => some (.setPeerTrust fingerprint level fault)
  | .sendFiles deviceId filePaths id => some (.sendFiles deviceId (filePaths.map Path.ofChars) id)
  | .acceptTransfer transferId => (host.parseUuid transferId).map .acceptTransfer
  | .rejectTransfer transferId reason =>
    (host.parseUuid transferId).map (.rejectTransfer · reason)
  | .cancelTransfer transferId => (host.parseUuid transferId).map .cancelTransfer
  | .stop => some .stop

namespace JustDropEngine

/-- What a call returns, as a text where it returns one, and the engine after it. Only the
search for a fingerprint leaves a choice. -/
inductive Returns (host : BindingHost) (engine : Engine) :
    BindingCall → Except JustDropError Text → Engine → Prop
  | startDiscovery : Returns host engine .startDiscovery (.ok []) engine
  | stopDiscovery : Returns host engine .stopDiscovery (.ok []) engine
  | setPeerTrust (found fingerprint level fault) (h : Engine.Finds engine.peers fingerprint found) :
      Returns host engine (.setPeerTrust fingerprint level fault)
        ((setPeerTrust found fingerprint level fault engine).1.map fun _ => [])
        (setPeerTrust found fingerprint level fault engine).2
  | sendFiles (deviceId filePaths id) :
      Returns host engine (.sendFiles deviceId filePaths id)
        (sendFiles deviceId filePaths id engine).1 (sendFiles deviceId filePaths id engine).2
  | acceptTransfer (transferId) :
      Returns host engine (.acceptTransfer transferId)
        ((acceptTransfer host transferId engine).1.map fun _ => [])
        (acceptTransfer host transferId engine).2
  | rejectTransfer (transferId reason) :
      Returns host engine (.rejectTransfer transferId reason)
        ((rejectTransfer host transferId reason engine).1.map fun _ => [])
        (rejectTransfer host transferId reason engine).2
  | cancelTransfer (transferId) :
      Returns host engine (.cancelTransfer transferId)
        ((cancelTransfer host transferId engine).1.map fun _ => [])
        (cancelTransfer host transferId engine).2
  | stop : Returns host engine .stop (.ok []) engine.stop

end JustDropEngine

/-- What happens to an engine with bindings: a report of the discovery, or a call of the
platform with its result. -/
inductive BindingEvent where
  | report (call : EngineCall)
  | call (call : BindingCall) (result : Except JustDropError Text)

/-- Reports of the discovery. -/
def EngineCall.IsReport : EngineCall → Prop
  | .onPeerDiscovered _ _ | .onPeerLost _ => True
  | _ => False

def BindingEvent.engineCalls (host : BindingHost) : BindingEvent → List EngineCall
  | .report reported => [reported]
  | .call made _ => (made.engineCall host).toList

namespace JustDropEngine
variable {host : BindingHost} {engine engine' : Engine}

inductive Step (host : BindingHost) (engine : Engine) : BindingEvent → Engine → Prop
  | report {call engine'} (report : call.IsReport) (step : Engine.Step engine call engine') :
      Step host engine (.report call) engine'
  | call {call result engine'} (returns : Returns host engine call result engine') :
      Step host engine (.call call result) engine'

/-! ### The calls are those of the engine -/

/-- A call about a transfer that is no identifier changes nothing. -/
theorem withTransfer_snd (transferId : Text) (call : TransferId → Except EngineError Unit × Engine) :
    (withTransfer host transferId call engine).2 =
      ((host.parseUuid transferId).map fun id => (call id).2).getD engine := by
  unfold withTransfer
  cases host.parseUuid transferId <;> rfl

/-- A call of the platform comes to its call of the engine, or to none. -/
theorem Returns.engineStep {call : BindingCall} {result : Except JustDropError Text}
    (h : Returns host engine call result engine') :
    (call.engineCall host = none ∧ engine' = engine) ∨
      ∃ called, call.engineCall host = some called ∧ Engine.Step engine called engine' := by
  have htransfer : ∀ (transferId : Text) (step : TransferId → EngineCall)
      (run : TransferId → Except EngineError Unit × Engine),
      (∀ id, Engine.Step engine (step id) (run id).2) →
      ((host.parseUuid transferId).map step = none ∧
        (withTransfer host transferId run engine).2 = engine) ∨
      ∃ called, (host.parseUuid transferId).map step = some called ∧
        Engine.Step engine called (withTransfer host transferId run engine).2 := by
    intro transferId step run hrun
    rw [withTransfer_snd]
    cases host.parseUuid transferId with
    | none => exact Or.inl ⟨rfl, rfl⟩
    | some id => exact Or.inr ⟨step id, rfl, hrun id⟩
  cases h with
  | startDiscovery => exact Or.inl ⟨rfl, rfl⟩
  | stopDiscovery => exact Or.inl ⟨rfl, rfl⟩
  | setPeerTrust found fingerprint level fault hfinds =>
    exact Or.inr ⟨_, rfl, .setPeerTrust found fingerprint level fault hfinds⟩
  | sendFiles deviceId filePaths id => exact Or.inr ⟨_, rfl, .sendFiles _ _ _⟩
  | acceptTransfer transferId => exact htransfer transferId _ _ fun id => .acceptTransfer id
  | rejectTransfer transferId reason =>
    exact htransfer transferId _ _ fun id => .rejectTransfer id reason
  | cancelTransfer transferId => exact htransfer transferId _ _ fun id => .cancelTransfer id
  | stop => exact Or.inr ⟨_, rfl, .stop⟩

theorem Step.simulated {event : BindingEvent} (h : Step host engine event engine') :
    ∃ calls final, Run Engine.Step engine calls final ∧
      calls.map (fun c => c.2) = event.engineCalls host ∧ engine' = final := by
  cases h with
  | report report step => exact ⟨_, _, .snoc .refl step, rfl, rfl⟩
  | call returns =>
    rcases returns.engineStep with ⟨hcall, rfl⟩ | ⟨called, hcall, hstep⟩
    · exact ⟨[], _, .refl, by simp [BindingEvent.engineCalls, hcall], rfl⟩
    · exact ⟨_, _, .snoc .refl hstep, by simp [BindingEvent.engineCalls, hcall], rfl⟩

/-! ### What a handler holds -/

/-- The table of a handler that has been called for all events. -/
def heard (host : BindingHost) (engine : Engine) : Finmap fun _ : Text => PeerInfo :=
  (engine.events.map (EngineEvent.bridge host)).foldl Callback.apply ∅

/-- The handler holds the image of what the engine has announced. -/
theorem lookup_heard (host : BindingHost) (engine : Engine) (deviceId : Text) :
    (heard host engine).lookup deviceId =
      (engine.shown.lookup deviceId).map (Peer.info host) := by
  have hfold : ∀ (events : List EngineEvent) (table : Finmap fun _ : Text => PeerInfo)
      (shown : PeerTable), (∀ id, table.lookup id = (shown.lookup id).map (Peer.info host)) →
      ((events.map (EngineEvent.bridge host)).foldl Callback.apply table).lookup deviceId =
        ((events.foldl EngineEvent.apply shown).lookup deviceId).map (Peer.info host) := by
    intro events
    induction events with
    | nil => exact fun _ _ h => h deviceId
    | cons event events ih =>
      intro table shown h
      refine ih _ _ fun id => ?_
      have hinsert : ∀ peer : Peer,
          (table.insert (peer.info host).deviceId (peer.info host)).lookup id =
            ((shown.insert peer.deviceId peer).lookup id).map (Peer.info host) := by
        intro peer
        have hid : (peer.info host).deviceId = peer.deviceId := rfl
        by_cases hsame : id = peer.deviceId
        · rw [hid, hsame, Finmap.lookup_insert, Finmap.lookup_insert]
          rfl
        · rw [hid, Finmap.lookup_insert_of_ne _ hsame, Finmap.lookup_insert_of_ne _ hsame, h id]
      cases event with
      | peerDiscovered peer => exact hinsert peer
      | peerUpdated peer => exact hinsert peer
      | peerLost lost =>
        simp only [EngineEvent.bridge, Callback.apply, EngineEvent.apply]
        by_cases hsame : id = lost
        · rw [hsame, Finmap.lookup_erase, Finmap.lookup_erase]
          rfl
        · rw [Finmap.lookup_erase_ne hsame, Finmap.lookup_erase_ne hsame, h id]
      | _ => exact h id
  exact hfold _ _ _ fun id => by simp

/-- Whatever the discovery reports and the platform calls: the engine makes a run of its own
calls, those that the platform's calls come to, and the handler holds the image of what that
run has announced. -/
theorem engine_run_of_run (db : Database) {taken : List (Engine × BindingEvent)} {final : Engine}
    (run : Run (Step host) (Engine.new db) taken final) :
    (∃ calls, Run Engine.Step (Engine.new db) calls final ∧
      calls.map (fun c => c.2) = taken.flatMap fun c => c.2.engineCalls host) ∧
    ∀ deviceId, (heard host final).lookup deviceId =
      (final.shown.lookup deviceId).map (Peer.info host) := by
  refine ⟨?_, lookup_heard host final⟩
  obtain ⟨calls, final', hrun, hcalls, rfl⟩ := run.simulated (fun s t => s = t)
    (BindingEvent.engineCalls host) id rfl fun s event s' t hst hstep => by
      subst hst
      exact hstep.simulated
  exact ⟨calls, hrun, hcalls⟩

/-- Identifiers are read from their digits, wherever the hyphens are. -/
def digitHost : BindingHost where
  showAddr addr := hexEncode addr.ip ++ ':' :: Peer.hex 1 addr.port.toNat
  parseUuid text :=
    match hexDecode (text.filter (· ≠ '-')) with
    | some (some bytes) => if h : bytes.length = 16 then some ⟨bytes.toArray, by simpa⟩ else none
    | _ => none
  parseUuid_uuidText id := by
    rw [filter_uuidText, hexDecode_of_hexEncode]
    dsimp only
    rw [dif_pos (by simp)]
    exact congrArg some (Vector.toArray_inj.mp Array.toArray_toList)

/-- A phone is found, and the platform accepts a transfer by a text that is none. -/
def phoneBound : List (Engine × BindingEvent) :=
  [(Engine.new ∅, .report (.onPeerDiscovered Engine.samplePhone false)),
    (Engine.phoneFound, .call (.acceptTransfer "first".toList) (.error .invalidArgument))]

theorem run_phoneBound : Run (Step digitHost) (Engine.new ∅) phoneBound Engine.phoneFound :=
  .snoc (.snoc .refl (.report trivial (.onPeerDiscovered _ _)))
    (.call (.acceptTransfer "first".toList))

theorem engine_run_of_run_phone :
    (∃ calls, Run Engine.Step (Engine.new ∅) calls Engine.phoneFound ∧
      calls.map (fun c => c.2) = phoneBound.flatMap fun c => c.2.engineCalls digitHost) ∧
    ∀ deviceId, (heard digitHost Engine.phoneFound).lookup deviceId =
      (Engine.phoneFound.shown.lookup deviceId).map (Peer.info digitHost) :=
  engine_run_of_run ∅ run_phoneBound

/-! ### A platform with nothing else -/

/-- No peer has been entered and no session begun, and only the start and the stop of the
engine were announced. -/
structure Idle (engine : Engine) : Prop where
  peers : engine.peers = ∅
  sessions : engine.sessions = []
  events : engine.events = [.started] ∧ engine.running = true ∨
    engine.events = [.started, .stopped] ∧ engine.running = false

theorem idle_new (db : Database) : Idle (Engine.new db) := ⟨rfl, rfl, Or.inl ⟨rfl, rfl⟩⟩

/-- What a call returns where there are no peers and no sessions. -/
def Refused : BindingCall → Except JustDropError Text → Prop
  | .sendFiles _ _ _, result => result = .error .peerNotFound
  | .acceptTransfer _, result | .rejectTransfer _ _, result | .cancelTransfer _, result =>
    result = .error .invalidArgument ∨ result = .error .transferFailed
  | _, _ => True

theorem Idle.withTransfer (h : Idle engine) (transferId : Text)
    {call : TransferId → Except EngineError Unit × Engine}
    (hcall : ∀ id, call id = (.error (.sessionNotFound id), engine)) :
    Idle (withTransfer host transferId call engine).2 ∧
      (((withTransfer host transferId call engine).1.map fun _ => ([] : Text)) =
          .error .invalidArgument ∨
        ((withTransfer host transferId call engine).1.map fun _ => ([] : Text)) =
          .error .transferFailed) := by
  unfold JustDropEngine.withTransfer
  cases host.parseUuid transferId with
  | none => exact ⟨h, Or.inl rfl⟩
  | some id =>
    simp only [hcall]
    exact ⟨h, Or.inr rfl⟩

theorem Idle.step (h : Idle engine) {call : BindingCall} {result : Except JustDropError Text}
    (hreturns : Returns host engine call result engine') :
    Idle engine' ∧ Refused call result := by
  have hsession : ∀ id, engine.sessions.any (fun session => decide (session.id = id)) = false := by
    simp [h.sessions]
  cases hreturns with
  | startDiscovery => exact ⟨h, trivial⟩
  | stopDiscovery => exact ⟨h, trivial⟩
  | setPeerTrust found fingerprint level fault hfinds =>
    refine ⟨?_, trivial⟩
    -- the search finds nothing in an empty table
    have hfound : found = none := by
      cases found with
      | none => rfl
      | some entry => simp [Engine.Finds, h.peers] at hfinds
    subst hfound
    simp only [setPeerTrust, lift, Engine.setPeerTrust]
    split_ifs <;> exact ⟨h.peers, h.sessions, h.events⟩
  | sendFiles deviceId filePaths id =>
    simp only [sendFiles, lift, Engine.sendFiles, h.peers, Finmap.lookup_empty]
    exact ⟨h, rfl⟩
  | acceptTransfer transferId =>
    exact h.withTransfer transferId fun id => by simp [Engine.acceptTransfer, hsession]
  | rejectTransfer transferId reason =>
    exact h.withTransfer transferId fun id => by
      simp [Engine.rejectTransfer, Engine.endTransfer, hsession]
  | cancelTransfer transferId =>
    exact h.withTransfer transferId fun id => by
      simp [Engine.cancelTransfer, Engine.endTransfer, hsession]
  | stop =>
    refine ⟨?_, trivial⟩
    rcases h.events with ⟨hevents, hrunning⟩ | ⟨hevents, hrunning⟩
    · rw [Engine.stop_of_running hrunning]
      exact ⟨h.peers, by simp [h.sessions, Engine.emit], Or.inr ⟨by simp [Engine.emit, hevents],
        rfl⟩⟩
    · rw [Engine.stop_of_not_running hrunning]
      exact h

/-- A platform without reports of a discovery: in every run no peer is seen, nothing is sent, no
transfer is known, and the handler is told of the start and the stop of the engine only. -/
theorem idle_of_platform_run (db : Database) {taken : List (Engine × BindingEvent)}
    {final : Engine} (run : Run (Step host) (Engine.new db) taken final)
    (hplatform : ∀ t ∈ taken, ∃ call result, t.2 = .call call result) :
    (∀ t ∈ taken, ∀ call result, t.2 = .call call result → Refused call result) ∧
      visiblePeers host final = 0 ∧ final.activeTransferCount = 0 ∧
      final.events.map (EngineEvent.bridge host) <+: [.onEngineStarted, .onEngineStopped] := by
  have hidle : (∀ t ∈ taken, ∀ call result, t.2 = .call call result → Refused call result) ∧
      Idle final := by
    induction run with
    | refl => exact ⟨fun _ h => absurd h List.not_mem_nil, idle_new db⟩
    | snoc run last ih =>
      rw [List.forall_mem_append, List.forall_mem_singleton] at hplatform ⊢
      obtain ⟨hrefused, hidle⟩ := ih hplatform.1
      obtain ⟨call, result, rfl⟩ := hplatform.2
      cases last with
      | call returns =>
        obtain ⟨hidle', hcall⟩ := hidle.step returns
        refine ⟨⟨hrefused, ?_⟩, hidle'⟩
        rintro call' result' heq
        obtain ⟨rfl, rfl⟩ := BindingEvent.call.inj heq
        exact hcall
  obtain ⟨hrefused, hidle⟩ := hidle
  refine ⟨hrefused, ?_, ?_, ?_⟩
  · have hentries : (∅ : PeerTable).entries = 0 := rfl
    simp [visiblePeers, Engine.visiblePeers, hidle.peers, hentries]
  · simp [Engine.activeTransferCount, hidle.sessions]
  · rcases hidle.events with ⟨hevents, -⟩ | ⟨hevents, -⟩
    · rw [hevents]
      exact ⟨[.onEngineStopped], rfl⟩
    · rw [hevents]
      exact List.prefix_rfl

/-- Files are sent to a device, and the engine is stopped. -/
def unreachable : List (Engine × BindingEvent) :=
  [(Engine.new ∅, .call (.sendFiles "aa".toList [] (Vector.replicate 16 0))
      (.error .peerNotFound)),
    (Engine.new ∅, .call .stop (.ok []))]

theorem run_unreachable :
    Run (Step digitHost) (Engine.new ∅) unreachable (Engine.new ∅).stop :=
  .snoc (.snoc .refl (.call (.sendFiles "aa".toList [] (Vector.replicate 16 0)))) (.call .stop)

theorem idle_of_platform_run_unreachable :
    visiblePeers digitHost (Engine.new ∅).stop = 0 ∧
      (Engine.new ∅).stop.activeTransferCount = 0 := by
  have hplatform : ∀ t ∈ unreachable, ∃ call result, t.2 = .call call result := by
    simp [unreachable]
  have h := idle_of_platform_run ∅ run_unreachable hplatform
  exact ⟨h.2.1, h.2.2.1⟩

end JustDropEngine
end JustDrop

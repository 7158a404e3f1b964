import JustDrop.Session
import Mathlib.Data.Finmap

/-!
# The engine

The engine keeps a table of discovered peers, a database of trust levels and the
transfer sessions, and reports changes to the platform as events. Calls come one
after the other; whether the database fails in a call is the environment's choice.
-/
namespace JustDrop

/-- A row of the peer table; the key is the fingerprint. -/
structure PeerRow where
  name : Text
  platform : Text
  trustLevel : Text
  deriving DecidableEq

/-- The persisted trust relationships. -/
abbrev Database := Finmap (fun _ : Text => PeerRow)

namespace Database

/-- The stored level; a fingerprint without a row is unknown. -/
def getTrust (db : Database) (fingerprint : Text) : TrustLevel :=
  ((db.lookup fingerprint).map fun row => TrustLevel.parseStr row.trustLevel).getD .unknown

def setTrust (db : Database) (fingerprint name platform : Text) (level : TrustLevel) : Database :=
  db.insert fingerprint { name, platform, trustLevel := level.asStr }

theorem getTrust_setTrust (db : Database) (fingerprint name platform other : Text)
    (level : TrustLevel) : (db.setTrust fingerprint name platform level).getTrust other =
      if other = fingerprint then level else db.getTrust other := by
  unfold getTrust setTrust
  split_ifs with h
  · rw [h, Finmap.lookup_insert]
    simp
  · rw [Finmap.lookup_insert_of_ne _ h]

end Database

inductive EngineEvent where
  | peerDiscovered (peer : Peer)
  | peerLost (deviceId : Text)
  | peerUpdated (peer : Peer)
  | transferCancelled (transferId : TransferId) (reason : Text)
  | started
  | stopped
  deriving DecidableEq

inductive EngineError where
  | database
  | peerNotFound (deviceId : Text)
  | sessionNotFound (transferId : TransferId)
  deriving DecidableEq, Repr

/-- The discovered peers by their identifiers, in no particular order. -/
abbrev PeerTable := Finmap (fun _ : Text => Peer)

structure Engine where
  db : Database
  peers : PeerTable
  sessions : List TransferSession
  running : Bool
  events : List EngineEvent

/-- The text of a platform in a row. -/
def platformText : Platform → Text
  | .android => "Android".toList
  | .macOS => "MacOS".toList
  | .linux => "Linux".toList
  | .windows => "Windows".toList
  | .unknown => "Unknown".toList

namespace Engine

/-- An engine started over a database. -/
def new (db : Database) : Engine :=
  { db, peers := ∅, sessions := [], running := true, events := [.started] }

def emit (engine : Engine) (event : EngineEvent) : Engine :=
  { engine with events := engine.events ++ [event] }

/-- Enter a report in the table, over the entry with its identifier if there is one. -/
def register (engine : Engine) (peer : Peer) : Engine :=
  match engine.peers.lookup peer.deviceId with
  | some existing =>
    { engine with peers := engine.peers.insert peer.deviceId (Peer.merge existing peer) }.emit
      (.peerUpdated peer)
  | none =>
    { engine with peers := engine.peers.insert peer.deviceId peer }.emit (.peerDiscovered peer)

/-- When the lookup fails the peer counts as unknown. -/
def onPeerDiscovered (engine : Engine) (peer : Peer) (fault : Bool) : Engine :=
  match peer.fingerprint with
  | some fingerprint =>
    let trust := if fault then .unknown else engine.db.getTrust fingerprint
    if trust.isBlocked then engine else engine.register { peer with trust }
  | none => engine.register peer

def onPeerLost (engine : Engine) (deviceId : Text) : Engine :=
  match engine.peers.lookup deviceId with
  | some _ => { engine with peers := engine.peers.erase deviceId }.emit (.peerLost deviceId)
  | none => engine

/-- The peers shown to the user. -/
def visiblePeers (engine : Engine) : Multiset Peer :=
  (engine.peers.entries.map Sigma.snd).filter fun peer => peer.isVisible

/-- The first entry with a fingerprint, in the order the table happens to be
searched: any entry that has it, or none when no entry does. -/
def Finds (peers : PeerTable) (fingerprint : Text) : Option (Text × Peer) → Prop
  | some (deviceId, peer) =>
    peers.lookup deviceId = some peer ∧ peer.fingerprint = some fingerprint
  | none => ∀ deviceId peer, peers.lookup deviceId = some peer →
    peer.fingerprint ≠ some fingerprint

/-- `found` is the entry with the fingerprint that the search of the table gives. -/
def setPeerTrust (engine : Engine) (found : Option (Text × Peer)) (fingerprint : Text)
    (level : TrustLevel) (fault : Bool) : Except EngineError Unit × Engine :=
  let row := (found.map fun entry => (entry.2.name, platformText entry.2.platform)).getD
    ("Unknown".toList, "Unknown".toList)
  if fault then (.error .database, engine)
  else
    let stored := { engine with db := engine.db.setTrust fingerprint row.1 row.2 level }
    if level.isBlocked then
      match found with
      | some entry => (.ok (), stored.onPeerLost entry.1)
      | none => (.ok (), stored)
    else (.ok (), stored)

/-- A session under a fresh identifier; nothing is sent. -/
def sendFiles (engine : Engine) (deviceId : Text) (paths : List Path) (id : TransferId) :
    Except EngineError TransferId × Engine :=
  match engine.peers.lookup deviceId with
  | none => (.error (.peerNotFound deviceId), engine)
  | some peer =>
    let session := TransferSession.newSend id (peer.fingerprint.getD []) peer.name paths
    (.ok id, { engine with sessions := session :: engine.sessions.filter (·.id ≠ id) })

def acceptTransfer (engine : Engine) (id : TransferId) : Except EngineError Unit × Engine :=
  if engine.sessions.any (·.id = id) then (.ok (), engine)
  else (.error (.sessionNotFound id), engine)

/-- Rejecting and cancelling differ in the reason only. -/
def endTransfer (engine : Engine) (id : TransferId) (reason : Text) :
    Except EngineError Unit × Engine :=
  if engine.sessions.any (·.id = id) then
    (.ok (), { engine with
      sessions := engine.sessions.map fun session : TransferSession =>
        if session.id = id then session.cancel else session }.emit
      (.transferCancelled id reason))
  else (.error (.sessionNotFound id), engine)

def rejectTransfer (engine : Engine) (id : TransferId) (reason : Text) :
    Except EngineError Unit × Engine := engine.endTransfer id reason

def cancelTransfer (engine : Engine) (id : TransferId) : Except EngineError Unit × Engine :=
  engine.endTransfer id "user cancelled".toList

def stop (engine : Engine) : Engine :=
  if engine.running then
    { engine with
      running := false
      sessions := engine.sessions.map fun session : TransferSession =>
        if session.isTerminal then session else session.cancel }.emit .stopped
  else engine

end Engine

inductive EngineCall where
  | onPeerDiscovered (peer : Peer) (fault : Bool)
  | onPeerLost (deviceId : Text)
  | setPeerTrust (fingerprint : Text) (level : TrustLevel) (fault : Bool)
  | sendFiles (deviceId : Text) (paths : List Path) (id : TransferId)
  | acceptTransfer (id : TransferId)
  | rejectTransfer (id : TransferId) (reason : Text)
  | cancelTransfer (id : TransferId)
  | stop

namespace Engine

/-- One call. Only the search for a fingerprint leaves a choice. -/
inductive Step (engine : Engine) : EngineCall → Engine → Prop
  | onPeerDiscovered (peer fault) :
      Step engine (.onPeerDiscovered peer fault) (engine.onPeerDiscovered peer fault)
  | onPeerLost (deviceId) : Step engine (.onPeerLost deviceId) (engine.onPeerLost deviceId)
  | setPeerTrust (found fingerprint level fault) (h : Finds engine.peers fingerprint found) :
      Step engine (.setPeerTrust fingerprint level fault)
        (engine.setPeerTrust found fingerprint level fault).2
  | sendFiles (deviceId paths id) :
      Step engine (.sendFiles deviceId paths id) (engine.sendFiles deviceId paths id).2
  | acceptTransfer (id) : Step engine (.acceptTransfer id) (engine.acceptTransfer id).2
  | rejectTransfer (id reason) :
      Step engine (.rejectTransfer id reason) (engine.rejectTransfer id reason).2
  | cancelTransfer (id) : Step engine (.cancelTransfer id) (engine.cancelTransfer id).2
  | stop : Step engine .stop engine.stop

/-! ### What a call does to the table -/

variable {engine engine' : Engine}

/-- The report is dropped: the database answers that its fingerprint is blocked. -/
def Ignores (engine : Engine) (peer : Peer) (fault : Bool) : Prop :=
  fault = false ∧ ∃ fingerprint, peer.fingerprint = some fingerprint ∧
    engine.db.getTrust fingerprint = .blocked

/-- The level a report is entered with. -/
def trustFor (engine : Engine) (peer : Peer) (fault : Bool) : TrustLevel :=
  match peer.fingerprint with
  | some fingerprint => if fault then .unknown else engine.db.getTrust fingerprint
  | none => peer.trust

/-- The entry that a report leaves in the table. -/
def entryFor (engine : Engine) (peer : Peer) : Peer :=
  match engine.peers.lookup peer.deviceId with
  | some existing => Peer.merge existing peer
  | none => peer

theorem onPeerDiscovered_of_ignores {peer : Peer} {fault : Bool}
    (h : engine.Ignores peer fault) : engine.onPeerDiscovered peer fault = engine := by
  obtain ⟨rfl, fingerprint, hfingerprint, hblocked⟩ := h
  simp [onPeerDiscovered, hfingerprint, hblocked]

theorem onPeerDiscovered_of_not_ignores {peer : Peer} {fault : Bool}
    (h : ¬engine.Ignores peer fault) : engine.onPeerDiscovered peer fault =
      engine.register { peer with trust := engine.trustFor peer fault } := by
  obtain ⟨deviceId, name, fingerprint, platform, presence, trust, addr, rssi, battery, seen,
    source⟩ := peer
  cases fingerprint with
  | none => rfl
  | some fingerprint =>
    cases fault with
    | true => rfl
    | false =>
      have hfree : engine.db.getTrust fingerprint ≠ .blocked := fun hblocked =>
        h ⟨rfl, fingerprint, rfl, hblocked⟩
      simp [onPeerDiscovered, trustFor, hfree]

@[simp] theorem db_register (peer : Peer) : (engine.register peer).db = engine.db := by
  unfold register
  split <;> rfl

theorem lookup_register (peer : Peer) (id : Text) : (engine.register peer).peers.lookup id =
    if id = peer.deviceId then some (engine.entryFor peer) else engine.peers.lookup id := by
  have hpeers : (engine.register peer).peers =
      engine.peers.insert peer.deviceId (engine.entryFor peer) := by
    unfold register entryFor
    split <;> rfl
  rw [hpeers]
  split_ifs with h
  · rw [h, Finmap.lookup_insert]
  · rw [Finmap.lookup_insert_of_ne _ h]

@[simp] theorem db_onPeerLost (id : Text) : (engine.onPeerLost id).db = engine.db := by
  unfold onPeerLost
  split <;> rfl

theorem lookup_onPeerLost (deviceId id : Text) : (engine.onPeerLost deviceId).peers.lookup id =
    if id = deviceId then none else engine.peers.lookup id := by
  unfold onPeerLost
  split
  · split_ifs with h
    · rw [h]
      exact Finmap.lookup_erase _ _
    · exact Finmap.lookup_erase_ne h
  · rename_i hnone
    split_ifs with h
    · rw [h, hnone]
    · rfl

theorem getTrust_setPeerTrust (found : Option (Text × Peer)) (fingerprint other : Text)
    (level : TrustLevel) :
    (engine.setPeerTrust found fingerprint level false).2.db.getTrust other =
      if other = fingerprint then level else engine.db.getTrust other := by
  unfold setPeerTrust
  rw [if_neg Bool.false_ne_true]
  by_cases hblocked : level.isBlocked = true
  · cases found with
    | none => simpa only [if_pos hblocked] using Database.getTrust_setTrust _ _ _ _ _ _
    | some entry =>
      simpa only [if_pos hblocked, db_onPeerLost] using Database.getTrust_setTrust _ _ _ _ _ _
  · simpa only [if_neg hblocked] using Database.getTrust_setTrust _ _ _ _ _ _

theorem lookup_setPeerTrust (found : Option (Text × Peer)) (fingerprint id : Text)
    (level : TrustLevel) :
    (engine.setPeerTrust found fingerprint level false).2.peers.lookup id =
      if level = .blocked ∧ found.map Prod.fst = some id then none
      else engine.peers.lookup id := by
  unfold setPeerTrust
  rw [if_neg Bool.false_ne_true]
  by_cases hblocked : level = .blocked
  · have htrue : level.isBlocked = true := TrustLevel.isBlocked_iff.mpr hblocked
    rw [if_pos htrue]
    cases found with
    | none => simp
    | some entry =>
      simp only [lookup_onPeerLost, Option.map_some, Option.some.injEq, eq_comm, hblocked,
        true_and]
  · have hfalse : ¬level.isBlocked = true := fun h => hblocked (TrustLevel.isBlocked_iff.mp h)
    simp only [if_neg hfalse, hblocked, false_and, if_false]

/-- A database that fails leaves everything as it was. -/
theorem setPeerTrust_of_fault (found : Option (Text × Peer)) (fingerprint : Text)
    (level : TrustLevel) :
    engine.setPeerTrust found fingerprint level true = (.error .database, engine) := rfl

end Engine

/-- Calls about transfers. -/
def EngineCall.AboutTransfers : EngineCall → Prop
  | .onPeerDiscovered _ _ | .onPeerLost _ | .setPeerTrust _ _ _ => False
  | _ => True

/-- Events about transfers and the engine itself. -/
def EngineEvent.AboutTransfers : EngineEvent → Prop
  | .peerDiscovered _ | .peerLost _ | .peerUpdated _ => False
  | _ => True

namespace Engine

/-- The peers are not concerned. -/
structure Quiet (engine engine' : Engine) : Prop where
  db : engine'.db = engine.db
  peers : engine'.peers = engine.peers
  events : ∃ more, engine'.events = engine.events ++ more ∧
    ∀ event ∈ more, event.AboutTransfers

theorem Quiet.refl (engine : Engine) : Quiet engine engine :=
  ⟨rfl, rfl, [], (List.append_nil _).symm, fun _ h => absurd h List.not_mem_nil⟩

theorem quiet_endTransfer (engine : Engine) (id : TransferId) (reason : Text) :
    Quiet engine (engine.endTransfer id reason).2 := by
  unfold endTransfer
  split_ifs
  · exact ⟨rfl, rfl, [.transferCancelled id reason], rfl, by simp [EngineEvent.AboutTransfers]⟩
  · exact Quiet.refl engine

/-- Calls about transfers leave the peers and their levels as they are. -/
theorem Step.quiet {engine engine' : Engine} {call : EngineCall} (h : Step engine call engine')
    (hcall : call.AboutTransfers) : Quiet engine engine' := by
  cases h with
  | onPeerDiscovered => exact hcall.elim
  | onPeerLost => exact hcall.elim
  | setPeerTrust => exact hcall.elim
  | sendFiles deviceId paths id =>
    unfold Engine.sendFiles
    split
    · exact Quiet.refl engine
    · exact ⟨rfl, rfl, [], (List.append_nil _).symm, fun _ h => absurd h List.not_mem_nil⟩
  | acceptTransfer id =>
    unfold Engine.acceptTransfer
    split_ifs <;> exact Quiet.refl engine
  | rejectTransfer id reason => exact quiet_endTransfer engine id reason
  | cancelTransfer id => exact quiet_endTransfer engine id _
  | stop =>
    unfold Engine.stop
    split_ifs
    · exact ⟨rfl, rfl, [.stopped], rfl, by simp [EngineEvent.AboutTransfers]⟩
    · exact Quiet.refl engine

end Engine
end JustDrop

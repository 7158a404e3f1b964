import JustDrop.Engine

/-!
# The event stream as a log of the table

A listener that starts from an empty table and applies the events in order holds
what the engine has told the platform. A report that completes itself from an
earlier entry is stored completed but announced as it came.
-/
namespace JustDrop

/-- What a listener does with an event. -/
def EngineEvent.apply (shown : PeerTable) : EngineEvent → PeerTable
  | .peerDiscovered peer => shown.insert peer.deviceId peer
  | .peerUpdated peer => shown.insert peer.deviceId peer
  | .peerLost deviceId => shown.erase deviceId
  | _ => shown

theorem EngineEvent.apply_of_aboutTransfers (shown : PeerTable) {event : EngineEvent}
    (h : event.AboutTransfers) : event.apply shown = shown := by
  cases event with
  | peerDiscovered => exact h.elim
  | peerLost => exact h.elim
  | peerUpdated => exact h.elim
  | _ => rfl

namespace Engine
variable {engine engine' : Engine}

/-- The table of a listener that has applied all events. -/
def shown (engine : Engine) : PeerTable := engine.events.foldl EngineEvent.apply ∅

/-- The listener holds the engine's table. -/
def Mirrors (engine : Engine) : Prop := engine.shown = engine.peers

/-- A report that is entered completes nothing from an earlier entry. -/
def Tells (engine : Engine) : EngineCall → Prop
  | .onPeerDiscovered peer fault => ¬engine.Ignores peer fault →
    ∀ existing, engine.peers.lookup peer.deviceId = some existing → peer.Covers existing
  | _ => True

theorem shown_emit (event : EngineEvent) :
    (engine.emit event).shown = event.apply engine.shown := by
  simp only [shown, emit, List.foldl_append, List.foldl_cons, List.foldl_nil]

theorem mirrors_new (db : Database) : (new db).Mirrors := rfl

theorem Mirrors.quiet (h : engine.Mirrors) (hquiet : Quiet engine engine') :
    engine'.Mirrors := by
  obtain ⟨more, hevents, habout⟩ := hquiet.events
  have hkeep : ∀ events : List EngineEvent, (∀ event ∈ events, event.AboutTransfers) →
      ∀ shown, events.foldl EngineEvent.apply shown = shown := by
    intro events hall
    induction events with
    | nil => exact fun _ => rfl
    | cons event events ih =>
      rw [List.forall_mem_cons] at hall
      intro shown
      rw [List.foldl_cons, event.apply_of_aboutTransfers shown hall.1, ih hall.2]
  rw [Mirrors, shown, hevents, List.foldl_append, hkeep more habout, hquiet.peers]
  exact h

theorem Mirrors.onPeerLost (h : engine.Mirrors) (deviceId : Text) :
    (engine.onPeerLost deviceId).Mirrors := by
  unfold Engine.onPeerLost
  split
  · rw [Mirrors, shown_emit]
    exact congrArg (Finmap.erase deviceId) h
  · exact h

/-- The listener enters the report, the engine its completion. -/
theorem Mirrors.register_iff (h : engine.Mirrors) (peer : Peer) :
    (engine.register peer).Mirrors ↔
      ∀ existing, engine.peers.lookup peer.deviceId = some existing → peer.Covers existing := by
  have hshown : engine.shown = engine.peers := h
  unfold register
  cases hlookup : engine.peers.lookup peer.deviceId with
  | none =>
    refine iff_of_true ?_ fun _ h => absurd h (by simp)
    rw [Mirrors, shown_emit]
    exact congrArg (Finmap.insert peer.deviceId peer) h
  | some existing =>
    simp only [Option.some.injEq, forall_eq']
    rw [← Peer.merge_eq_self_iff, Mirrors, shown_emit]
    constructor
    · intro heq
      have hentry := congrArg (Finmap.lookup peer.deviceId) heq
      simp only [EngineEvent.apply, emit, Finmap.lookup_insert, Option.some.injEq] at hentry
      exact hentry.symm
    · intro hmerge
      rw [hmerge]
      exact congrArg (Finmap.insert peer.deviceId peer) hshown

theorem Mirrors.setPeerTrust (h : engine.Mirrors) (found : Option (Text × Peer))
    (fingerprint : Text) (level : TrustLevel) (fault : Bool) :
    (engine.setPeerTrust found fingerprint level fault).2.Mirrors := by
  unfold Engine.setPeerTrust
  split_ifs
  · exact h
  · cases found with
    | none => exact h
    | some entry =>
      have hstored : { engine with
          db := engine.db.setTrust fingerprint entry.2.name (platformText entry.2.platform)
            level }.Mirrors := h
      exact hstored.onPeerLost entry.1
  · exact h

/-- A call keeps the listener's table right exactly when it tells all it enters. -/
theorem mirrors_step_iff {call : EngineCall} (h : engine.Mirrors)
    (hstep : Step engine call engine') : engine'.Mirrors ↔ engine.Tells call := by
  cases hstep with
  | onPeerDiscovered peer fault =>
    by_cases hignores : engine.Ignores peer fault
    · rw [onPeerDiscovered_of_ignores hignores]
      exact iff_of_true h fun hnot => absurd hignores hnot
    · rw [onPeerDiscovered_of_not_ignores hignores, h.register_iff]
      simp only [Peer.covers_trust]
      exact ⟨fun hall _ => hall, fun hall => hall hignores⟩
  | onPeerLost deviceId => exact iff_of_true (h.onPeerLost deviceId) trivial
  | setPeerTrust found fingerprint level fault _ =>
    exact iff_of_true (h.setPeerTrust found fingerprint level fault) trivial
  | sendFiles deviceId paths id =>
    exact iff_of_true (h.quiet (Step.quiet (.sendFiles deviceId paths id) trivial)) trivial
  | acceptTransfer id =>
    exact iff_of_true (h.quiet (Step.quiet (.acceptTransfer id) trivial)) trivial
  | rejectTransfer id reason =>
    exact iff_of_true (h.quiet (Step.quiet (.rejectTransfer id reason) trivial)) trivial
  | cancelTransfer id =>
    exact iff_of_true (h.quiet (Step.quiet (.cancelTransfer id) trivial)) trivial
  | stop => exact iff_of_true (h.quiet (Step.quiet .stop trivial)) trivial

/-- The listener holds the engine's table after every call of a run exactly when
no report of the run completes itself from an earlier entry. -/
theorem always_mirrors_iff (db : Database) {taken : List (Engine × EngineCall)} {final : Engine}
    (run : Run Step (new db) taken final) :
    Run.Always Mirrors taken final ↔ ∀ t ∈ taken, t.1.Tells t.2 :=
  Run.always_iff (J := fun _ => True) (P := fun _ => True) trivial
    (fun _ _ _ _ _ _ => trivial) (mirrors_new db)
    (fun _ _ _ _ _ hmirrors hstep => mirrors_step_iff hmirrors hstep) run fun _ _ => trivial

/-! ### A device seen by mDNS and then by Bluetooth -/

/-- A phone whose identifier is the first eight bytes of its fingerprint. -/
def samplePhone : Peer :=
  Peer.fromMdns "Phone".toList { ip := [192, 168, 1, 5], port := 42420 }
    (List.replicate 64 'a') .android 0

/-- The same phone in a later advertisement. -/
def sampleSighting : Peer := Peer.fromBle (Vector.replicate 8 0xaa) 0x1234 .available (-65) 1

theorem deviceId_sampleSighting : sampleSighting.deviceId = samplePhone.deviceId := by
  decide +kernel

def phoneFound : Engine := (new ∅).onPeerDiscovered samplePhone false

def phoneSeen : Engine := phoneFound.onPeerDiscovered sampleSighting false

theorem run_phoneFound : Run Step (new ∅) [(new ∅, .onPeerDiscovered samplePhone false)]
    phoneFound := .snoc .refl (.onPeerDiscovered samplePhone false)

theorem run_phoneSeen : Run Step (new ∅) [(new ∅, .onPeerDiscovered samplePhone false),
    (phoneFound, .onPeerDiscovered sampleSighting false)] phoneSeen :=
  .snoc run_phoneFound (.onPeerDiscovered sampleSighting false)

theorem lookup_phoneFound : phoneFound.peers.lookup samplePhone.deviceId = some samplePhone := by
  decide +kernel

theorem not_tells_phoneFound : ¬phoneFound.Tells (.onPeerDiscovered sampleSighting false) := by
  intro h
  have hignores : ¬phoneFound.Ignores sampleSighting false := by
    rintro ⟨-, _, hfingerprint, -⟩
    simp [sampleSighting, Peer.fromBle] at hfingerprint
  have hcovers := h hignores samplePhone (deviceId_sampleSighting ▸ lookup_phoneFound)
  exact absurd (hcovers.addr rfl) (by simp [samplePhone, Peer.fromMdns])

/-- The two reports, each with the engine that receives it. -/
def phoneReports : List (Engine × EngineCall) :=
  [(new ∅, .onPeerDiscovered samplePhone false),
    (phoneFound, .onPeerDiscovered sampleSighting false)]

theorem always_mirrors_iff_phone : ¬Run.Always Mirrors phoneReports phoneSeen :=
  (always_mirrors_iff ∅ run_phoneSeen).not.mpr fun h =>
    not_tells_phoneFound (h _ (List.mem_cons_of_mem _ List.mem_cons_self))

/-- After the advertisement the listener shows the phone without its address. -/
theorem not_always_mirrors : ¬∀ (db : Database) (taken : List (Engine × EngineCall))
    (final : Engine), Run Step (new db) taken final → Run.Always Mirrors taken final := by
  intro h
  have hmirrors := h ∅ _ _ run_phoneSeen
  have hfound : phoneFound.Mirrors :=
    hmirrors.1 _ (List.mem_cons_of_mem _ List.mem_cons_self)
  exact not_tells_phoneFound
    ((mirrors_step_iff hfound (.onPeerDiscovered sampleSighting false)).mp hmirrors.2)

end Engine
end JustDrop

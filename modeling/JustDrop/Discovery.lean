import JustDrop.EventLog

/-!
# Who is shown, and with which level

With reports made by the two constructors an entry lies under its identifier, which
its fingerprint begins with when it has one. Bluetooth reports carry no fingerprint,
so the database is not asked about them: they enter a blocked device under its
identifier, and they give an entry its old fingerprint with no level. A level that
is set is written to the database only.
-/
namespace JustDrop

/-- The report is made by a constructor and the database works. -/
def EngineCall.Working : EngineCall → Prop
  | .onPeerDiscovered peer fault => peer.Built ∧ fault = false
  | .setPeerTrust _ _ fault => fault = false
  | _ => True

namespace Engine
variable {engine engine' : Engine}

/-! ### Entries and their identifiers -/

/-- An entry lies under its identifier, and none is entered as blocked. -/
structure Keyed (engine : Engine) : Prop where
  deviceId : ∀ id peer, engine.peers.lookup id = some peer → peer.deviceId = id
  idOf : ∀ id peer fingerprint, engine.peers.lookup id = some peer →
    peer.fingerprint = some fingerprint → Peer.idOf fingerprint = id
  trust : ∀ id peer, engine.peers.lookup id = some peer → peer.trust ≠ .blocked

theorem keyed_new (db : Database) : (new db).Keyed := by
  have hnone : ∀ id peer, (new db).peers.lookup id ≠ some peer := fun id peer h => by
    simp [new] at h
  exact ⟨fun id peer h => absurd h (hnone id peer), fun id peer _ h => absurd h (hnone id peer),
    fun id peer h => absurd h (hnone id peer)⟩

theorem Keyed.mono (h : engine.Keyed)
    (hsub : ∀ id peer, engine'.peers.lookup id = some peer →
      engine.peers.lookup id = some peer) : engine'.Keyed :=
  ⟨fun id peer hpeer => h.deviceId id peer (hsub id peer hpeer),
    fun id peer fingerprint hpeer => h.idOf id peer fingerprint (hsub id peer hpeer),
    fun id peer hpeer => h.trust id peer (hsub id peer hpeer)⟩

@[simp] theorem deviceId_entryFor (peer : Peer) :
    (engine.entryFor peer).deviceId = peer.deviceId := by
  unfold entryFor
  split <;> rfl

@[simp] theorem presence_entryFor (peer : Peer) :
    (engine.entryFor peer).presence = peer.presence := by
  unfold entryFor
  split <;> rfl

@[simp] theorem trust_entryFor (peer : Peer) : (engine.entryFor peer).trust = peer.trust := by
  unfold entryFor
  split <;> rfl

/-- The fingerprint of a completed report is its own or that of the entry before it. -/
theorem fingerprint_entryFor_iff {peer : Peer} {fingerprint : Text} :
    (engine.entryFor peer).fingerprint = some fingerprint ↔
      peer.fingerprint = some fingerprint ∨ peer.fingerprint = none ∧
        ∃ existing, engine.peers.lookup peer.deviceId = some existing ∧
          existing.fingerprint = some fingerprint := by
  unfold entryFor
  cases engine.peers.lookup peer.deviceId with
  | none => simp
  | some existing =>
    cases hfingerprint : peer.fingerprint with
    | none => simp [Peer.merge, hfingerprint]
    | some own => simp [Peer.merge, hfingerprint]

theorem trustFor_ne_blocked {peer : Peer} (hbuilt : peer.Built)
    (hignores : ¬engine.Ignores peer false) : engine.trustFor peer false ≠ .blocked := by
  unfold trustFor
  cases hfingerprint : peer.fingerprint with
  | none => simp [hbuilt.trust]
  | some fingerprint =>
    intro hblocked
    exact hignores ⟨rfl, fingerprint, hfingerprint, hblocked⟩

theorem Keyed.register (h : engine.Keyed) {peer : Peer} (hbuilt : peer.Built)
    {trust : TrustLevel} (htrust : trust ≠ .blocked) :
    (engine.register { peer with trust }).Keyed := by
  have hentry : ∀ id entered, (engine.register { peer with trust }).peers.lookup id =
      some entered → (id = peer.deviceId ∧ entered = engine.entryFor { peer with trust }) ∨
        engine.peers.lookup id = some entered := by
    intro id entered hlookup
    rw [lookup_register] at hlookup
    split_ifs at hlookup with hid
    · exact Or.inl ⟨hid, (Option.some.inj hlookup).symm⟩
    · exact Or.inr hlookup
  constructor
  · intro id entered hlookup
    rcases hentry id entered hlookup with ⟨rfl, rfl⟩ | hold
    · exact deviceId_entryFor _
    · exact h.deviceId id entered hold
  · intro id entered fingerprint hlookup hfingerprint
    rcases hentry id entered hlookup with ⟨rfl, rfl⟩ | hold
    · rcases fingerprint_entryFor_iff.mp hfingerprint with hown | ⟨-, existing, hex, hfp⟩
      · exact (hbuilt.deviceId hown).symm
      · exact h.idOf _ existing fingerprint hex hfp
    · exact h.idOf id entered fingerprint hold hfingerprint
  · intro id entered hlookup
    rcases hentry id entered hlookup with ⟨rfl, rfl⟩ | hold
    · rw [trust_entryFor]
      exact htrust
    · exact h.trust id entered hold

/-- Setting a level to blocked removes the entry with the fingerprint; there is only one. -/
theorem Keyed.lookup_setPeerTrust_iff (h : engine.Keyed) {found : Option (Text × Peer)}
    {fingerprint : Text} (hfound : Finds engine.peers fingerprint found) (level : TrustLevel)
    (id : Text) (peer : Peer) :
    (engine.setPeerTrust found fingerprint level false).2.peers.lookup id = some peer ↔
      engine.peers.lookup id = some peer ∧
        ¬(level = .blocked ∧ peer.fingerprint = some fingerprint) := by
  rw [lookup_setPeerTrust]
  by_cases hlevel : level = .blocked
  · cases found with
    | none =>
      simp only [Option.map_none, reduceCtorEq, and_false, if_false]
      exact ⟨fun hpeer => ⟨hpeer, fun hboth => hfound id peer hpeer hboth.2⟩, fun hpeer => hpeer.1⟩
    | some entry =>
      obtain ⟨foundId, foundPeer⟩ := entry
      obtain ⟨hlookup, hfingerprint⟩ := hfound
      simp only [Option.map_some, Option.some.injEq, hlevel, true_and]
      by_cases hid : foundId = id
      · rw [if_pos hid, ← hid, hlookup]
        constructor
        · intro hnone
          simp at hnone
        · rintro ⟨hsame, hne⟩
          exact absurd (Option.some.inj hsame ▸ hfingerprint) hne
      · rw [if_neg hid]
        refine ⟨fun hpeer => ⟨hpeer, fun hfp => hid ?_⟩, fun hpeer => hpeer.1⟩
        rw [← h.idOf foundId foundPeer fingerprint hlookup hfingerprint,
          h.idOf id peer fingerprint hpeer hfp]
  · simp [hlevel]

theorem Keyed.step {call : EngineCall} (h : engine.Keyed) (hworking : call.Working)
    (hstep : Step engine call engine') : engine'.Keyed := by
  have hquiet : call.AboutTransfers → engine'.Keyed := fun habout =>
    h.mono fun id peer hpeer => (hstep.quiet habout).peers ▸ hpeer
  cases hstep with
  | onPeerDiscovered peer fault =>
    obtain ⟨hbuilt, rfl⟩ := hworking
    by_cases hignores : engine.Ignores peer false
    · rwa [onPeerDiscovered_of_ignores hignores]
    · rw [onPeerDiscovered_of_not_ignores hignores]
      exact h.register hbuilt (trustFor_ne_blocked hbuilt hignores)
  | onPeerLost deviceId =>
    refine h.mono fun id peer hpeer => ?_
    rw [lookup_onPeerLost] at hpeer
    split_ifs at hpeer with hid
    exact hpeer
  | setPeerTrust found fingerprint level fault hfound =>
    obtain rfl : fault = false := hworking
    exact h.mono fun id peer hpeer => ((h.lookup_setPeerTrust_iff hfound level id peer).mp hpeer).1
  | sendFiles => exact hquiet trivial
  | acceptTransfer => exact hquiet trivial
  | rejectTransfer => exact hquiet trivial
  | cancelTransfer => exact hquiet trivial
  | stop => exact hquiet trivial

/-! ### Blocked devices -/

theorem mem_visiblePeers {peer : Peer} : peer ∈ engine.visiblePeers ↔
    (∃ id, engine.peers.lookup id = some peer) ∧ peer.isVisible = true := by
  simp only [visiblePeers, Multiset.mem_filter, Multiset.mem_map, Sigma.exists,
    exists_eq_right, Finmap.lookup_eq_some_iff]

/-- No peer that is shown has a blocked fingerprint or the identifier of one. -/
def HidesBlocked (engine : Engine) : Prop :=
  ∀ peer ∈ engine.visiblePeers, ∀ fingerprint, engine.db.getTrust fingerprint = .blocked →
    peer.fingerprint ≠ some fingerprint ∧ peer.deviceId ≠ Peer.idOf fingerprint

/-- A report under the identifier of a blocked fingerprint is ignored or invisible;
where a fingerprint is blocked, the entry under its identifier is the one with the
fingerprint or invisible. -/
def Shuns (engine : Engine) : EngineCall → Prop
  | .onPeerDiscovered peer fault => engine.Ignores peer fault ∨ peer.presence = .invisible ∨
    ∀ fingerprint, engine.db.getTrust fingerprint = .blocked →
      peer.deviceId ≠ Peer.idOf fingerprint
  | .setPeerTrust fingerprint level _ => level = .blocked →
    ∀ peer, engine.peers.lookup (Peer.idOf fingerprint) = some peer →
      peer.fingerprint = some fingerprint ∨ peer.presence = .invisible
  | _ => True

/-- It is enough to look at the identifiers. -/
theorem Keyed.hidesBlocked_iff (h : engine.Keyed) : engine.HidesBlocked ↔
    ∀ id peer, engine.peers.lookup id = some peer → peer.presence ≠ .invisible →
      ∀ fingerprint, engine.db.getTrust fingerprint = .blocked → id ≠ Peer.idOf fingerprint := by
  constructor
  · intro hhides id peer hpeer hpresence fingerprint hblocked
    have hvisible : peer.isVisible = true := by
      have := h.trust id peer hpeer
      simp [Peer.isVisible, TrustLevel.isBlocked, this, hpresence]
    have := (hhides peer (mem_visiblePeers.mpr ⟨⟨id, hpeer⟩, hvisible⟩) fingerprint hblocked).2
    rwa [h.deviceId id peer hpeer] at this
  · intro hall peer hmem fingerprint hblocked
    obtain ⟨⟨id, hpeer⟩, hvisible⟩ := mem_visiblePeers.mp hmem
    have hpresence : peer.presence ≠ .invisible := by
      intro hinvisible
      simp [Peer.isVisible, hinvisible] at hvisible
    have hid := hall id peer hpeer hpresence fingerprint hblocked
    constructor
    · intro hfingerprint
      exact hid (h.idOf id peer fingerprint hpeer hfingerprint).symm
    · rwa [h.deviceId id peer hpeer]

theorem HidesBlocked.register_iff (h : engine.Keyed) (hhides : engine.HidesBlocked)
    {peer : Peer} (hbuilt : peer.Built) {trust : TrustLevel} (htrust : trust ≠ .blocked) :
    (engine.register { peer with trust }).HidesBlocked ↔ peer.presence = .invisible ∨
      ∀ fingerprint, engine.db.getTrust fingerprint = .blocked →
        peer.deviceId ≠ Peer.idOf fingerprint := by
  rw [(h.register hbuilt htrust).hidesBlocked_iff]
  have hold := h.hidesBlocked_iff.mp hhides
  constructor
  · intro hnew
    by_cases hpresence : peer.presence = .invisible
    · exact Or.inl hpresence
    · refine Or.inr fun fingerprint hblocked => ?_
      refine hnew peer.deviceId (engine.entryFor { peer with trust }) ?_ ?_ fingerprint ?_
      · rw [lookup_register, if_pos rfl]
      · rw [presence_entryFor]
        exact hpresence
      · rwa [db_register]
  · intro hcond id entered hlookup hpresence fingerprint hblocked
    rw [db_register] at hblocked
    rw [lookup_register] at hlookup
    split_ifs at hlookup with hid
    · obtain rfl := Option.some.inj hlookup
      rw [presence_entryFor] at hpresence
      rcases hcond with hinvisible | hfree
      · exact absurd hinvisible hpresence
      · exact hid ▸ hfree fingerprint hblocked
    · exact hold id entered hlookup hpresence fingerprint hblocked

theorem HidesBlocked.setPeerTrust_iff (h : engine.Keyed) (hhides : engine.HidesBlocked)
    {found : Option (Text × Peer)} {fingerprint : Text}
    (hfound : Finds engine.peers fingerprint found) (level : TrustLevel)
    (hkeyed : (engine.setPeerTrust found fingerprint level false).2.Keyed) :
    (engine.setPeerTrust found fingerprint level false).2.HidesBlocked ↔
      (level = .blocked → ∀ peer, engine.peers.lookup (Peer.idOf fingerprint) = some peer →
        peer.fingerprint = some fingerprint ∨ peer.presence = .invisible) := by
  rw [hkeyed.hidesBlocked_iff]
  have hold := h.hidesBlocked_iff.mp hhides
  constructor
  · rintro hnew rfl peer hlookup
    by_contra hneither
    rw [not_or] at hneither
    refine hnew _ peer ?_ hneither.2 fingerprint ?_ rfl
    · exact (h.lookup_setPeerTrust_iff hfound _ _ peer).mpr
        ⟨hlookup, fun hboth => hneither.1 hboth.2⟩
    · rw [getTrust_setPeerTrust, if_pos rfl]
  · intro hcond id peer hlookup hpresence other hblocked hid
    obtain ⟨hbefore, hkept⟩ := (h.lookup_setPeerTrust_iff hfound level id peer).mp hlookup
    rw [getTrust_setPeerTrust] at hblocked
    split_ifs at hblocked with hother
    · subst hother
      subst hid
      rcases hcond hblocked peer hbefore with hfingerprint | hinvisible
      · exact hkept ⟨hblocked, hfingerprint⟩
      · exact hpresence hinvisible
    · exact hold id peer hbefore hpresence other hblocked hid

theorem hidesBlocked_step_iff {call : EngineCall} (h : engine.Keyed) (hworking : call.Working)
    (hhides : engine.HidesBlocked) (hstep : Step engine call engine') :
    engine'.HidesBlocked ↔ engine.Shuns call := by
  have hkeyed := h.step hworking hstep
  have hold := h.hidesBlocked_iff.mp hhides
  have hquiet : call.AboutTransfers → engine'.HidesBlocked := by
    intro habout
    obtain ⟨hdb, hpeers, -⟩ := hstep.quiet habout
    rw [hkeyed.hidesBlocked_iff, hdb, hpeers]
    exact hold
  cases hstep with
  | onPeerDiscovered peer fault =>
    obtain ⟨hbuilt, rfl⟩ := hworking
    by_cases hignores : engine.Ignores peer false
    · rw [onPeerDiscovered_of_ignores hignores]
      exact iff_of_true hhides (Or.inl hignores)
    · rw [onPeerDiscovered_of_not_ignores hignores,
        hhides.register_iff h hbuilt (trustFor_ne_blocked hbuilt hignores)]
      exact (or_iff_right hignores).symm
  | onPeerLost deviceId =>
    refine iff_of_true ?_ trivial
    rw [hkeyed.hidesBlocked_iff, db_onPeerLost]
    intro id peer hlookup
    rw [lookup_onPeerLost] at hlookup
    split_ifs at hlookup
    exact hold id peer hlookup
  | setPeerTrust found fingerprint level fault hfound =>
    obtain rfl : fault = false := hworking
    exact hhides.setPeerTrust_iff h hfound level hkeyed
  | sendFiles => exact iff_of_true (hquiet trivial) trivial
  | acceptTransfer => exact iff_of_true (hquiet trivial) trivial
  | rejectTransfer => exact iff_of_true (hquiet trivial) trivial
  | cancelTransfer => exact iff_of_true (hquiet trivial) trivial
  | stop => exact iff_of_true (hquiet trivial) trivial

theorem hidesBlocked_new (db : Database) : (new db).HidesBlocked := by
  rw [(keyed_new db).hidesBlocked_iff]
  intro id peer hlookup
  simp [new] at hlookup

/-- Blocked devices stay hidden throughout a run exactly when every report and
every blocking in it shuns them. -/
theorem always_hidesBlocked_iff (db : Database) {taken : List (Engine × EngineCall)}
    {final : Engine} (run : Run Step (new db) taken final)
    (hworking : ∀ t ∈ taken, t.2.Working) :
    Run.Always HidesBlocked taken final ↔ ∀ t ∈ taken, t.1.Shuns t.2 :=
  Run.always_iff (keyed_new db) (fun _ _ _ hkeyed hcall hstep => hkeyed.step hcall hstep)
    (hidesBlocked_new db)
    (fun _ _ _ hkeyed hcall hhides hstep => hidesBlocked_step_iff hkeyed hcall hhides hstep)
    run hworking

/-- A database that blocks the phone. -/
def blockingDb : Database :=
  Database.setTrust ∅ (List.replicate 64 'a') "Phone".toList "Android".toList .blocked

def blockedSeen : Engine := (new blockingDb).onPeerDiscovered sampleSighting false

theorem run_blockedSeen : Run Step (new blockingDb)
    [(new blockingDb, .onPeerDiscovered sampleSighting false)] blockedSeen :=
  .snoc .refl (.onPeerDiscovered sampleSighting false)

theorem working_sampleSighting : (EngineCall.onPeerDiscovered sampleSighting false).Working :=
  ⟨.ble _ _ _ _ _, rfl⟩

theorem getTrust_blockingDb : blockingDb.getTrust (List.replicate 64 'a') = .blocked := by
  rw [blockingDb, Database.getTrust_setTrust, if_pos rfl]

theorem not_shuns_sampleSighting :
    ¬(new blockingDb).Shuns (.onPeerDiscovered sampleSighting false) := by
  rintro (⟨-, _, hfingerprint, -⟩ | hinvisible | hfree)
  · simp [sampleSighting, Peer.fromBle] at hfingerprint
  · simp [sampleSighting, Peer.fromBle] at hinvisible
  · exact hfree _ getTrust_blockingDb deviceId_sampleSighting

theorem always_hidesBlocked_iff_phone : ¬Run.Always HidesBlocked
    [(new blockingDb, EngineCall.onPeerDiscovered sampleSighting false)] blockedSeen :=
  (always_hidesBlocked_iff blockingDb run_blockedSeen
    (List.forall_mem_singleton.mpr working_sampleSighting)).not.mpr fun h =>
      not_shuns_sampleSighting (h _ List.mem_cons_self)

/-- A blocked phone that advertises itself is shown. -/
theorem not_always_hidesBlocked : ¬∀ (db : Database) (taken : List (Engine × EngineCall))
    (final : Engine), Run Step (new db) taken final → (∀ t ∈ taken, t.2.Working) →
    Run.Always HidesBlocked taken final := by
  intro h
  have hhides := h blockingDb _ _ run_blockedSeen
    (List.forall_mem_singleton.mpr working_sampleSighting)
  exact not_shuns_sampleSighting ((hidesBlocked_step_iff (keyed_new blockingDb)
    working_sampleSighting (hidesBlocked_new blockingDb)
    (.onPeerDiscovered sampleSighting false)).mp hhides.2)

/-! ### Cached levels -/

/-- An entry with a fingerprint carries the stored level. -/
def Synced (engine : Engine) : Prop :=
  ∀ id peer fingerprint, engine.peers.lookup id = some peer →
    peer.fingerprint = some fingerprint → peer.trust = engine.db.getTrust fingerprint

/-- A report without a fingerprint does not enter over a fingerprint with a level;
a level other than blocked is set only to what an entry with the fingerprint carries. -/
def Refreshes (engine : Engine) : EngineCall → Prop
  | .onPeerDiscovered peer _ => peer.fingerprint = none →
    ∀ existing fingerprint, engine.peers.lookup peer.deviceId = some existing →
      existing.fingerprint = some fingerprint → engine.db.getTrust fingerprint = .unknown
  | .setPeerTrust fingerprint level _ => level ≠ .blocked →
    ∀ id peer, engine.peers.lookup id = some peer → peer.fingerprint = some fingerprint →
      peer.trust = level
  | _ => True

theorem Synced.register_iff (hsynced : engine.Synced) {peer : Peer} (hbuilt : peer.Built) :
    (engine.register { peer with trust := engine.trustFor peer false }).Synced ↔
      engine.Refreshes (.onPeerDiscovered peer false) := by
  have hlevel : ∀ fingerprint, peer.fingerprint = some fingerprint →
      engine.trustFor peer false = engine.db.getTrust fingerprint := by
    intro fingerprint hfingerprint
    simp [trustFor, hfingerprint]
  have hunknown : peer.fingerprint = none → engine.trustFor peer false = .unknown := by
    intro hnone
    rw [trustFor, hnone]
    exact hbuilt.trust
  constructor
  · intro hnew hnone existing fingerprint hexisting hfingerprint
    have hentry := hnew peer.deviceId
      (engine.entryFor { peer with trust := engine.trustFor peer false }) fingerprint
      (by rw [lookup_register, if_pos rfl])
      (fingerprint_entryFor_iff.mpr (Or.inr ⟨hnone, existing, hexisting, hfingerprint⟩))
    rw [trust_entryFor, db_register] at hentry
    exact hentry.symm.trans (hunknown hnone)
  · intro hcond id entered fingerprint hlookup hfingerprint
    rw [db_register]
    rw [lookup_register] at hlookup
    split_ifs at hlookup with hid
    · obtain rfl := Option.some.inj hlookup
      rw [trust_entryFor]
      rcases fingerprint_entryFor_iff.mp hfingerprint with hown | ⟨hnone, existing, hex, hfp⟩
      · exact hlevel fingerprint hown
      · exact (hunknown hnone).trans (hcond hnone existing fingerprint hex hfp).symm
    · exact hsynced id entered fingerprint hlookup hfingerprint

theorem Synced.setPeerTrust_iff (h : engine.Keyed) (hsynced : engine.Synced)
    {found : Option (Text × Peer)} {fingerprint : Text}
    (hfound : Finds engine.peers fingerprint found) (level : TrustLevel) :
    (engine.setPeerTrust found fingerprint level false).2.Synced ↔
      engine.Refreshes (.setPeerTrust fingerprint level false) := by
  constructor
  · intro hnew hlevel id peer hlookup hfingerprint
    have hentry := hnew id peer fingerprint ((h.lookup_setPeerTrust_iff hfound level id peer).mpr
      ⟨hlookup, fun hboth => hlevel hboth.1⟩) hfingerprint
    rwa [getTrust_setPeerTrust, if_pos rfl] at hentry
  · intro hcond id peer other hlookup hother
    obtain ⟨hbefore, hkept⟩ := (h.lookup_setPeerTrust_iff hfound level id peer).mp hlookup
    rw [getTrust_setPeerTrust]
    split_ifs with hsame
    · subst hsame
      exact hcond (fun hlevel => hkept ⟨hlevel, hother⟩) id peer hbefore hother
    · exact hsynced id peer other hbefore hother

theorem synced_step_iff {call : EngineCall} (h : engine.Keyed) (hworking : call.Working)
    (hsynced : engine.Synced) (hstep : Step engine call engine') :
    engine'.Synced ↔ engine.Refreshes call := by
  have hquiet : call.AboutTransfers → engine'.Synced := by
    intro habout
    obtain ⟨hdb, hpeers, -⟩ := hstep.quiet habout
    rwa [Synced, hdb, hpeers]
  cases hstep with
  | onPeerDiscovered peer fault =>
    obtain ⟨hbuilt, rfl⟩ := hworking
    by_cases hignores : engine.Ignores peer false
    · rw [onPeerDiscovered_of_ignores hignores]
      refine iff_of_true hsynced fun hnone => ?_
      obtain ⟨-, _, hsome, -⟩ := hignores
      simp [hnone] at hsome
    · rw [onPeerDiscovered_of_not_ignores hignores]
      exact hsynced.register_iff hbuilt
  | onPeerLost deviceId =>
    refine iff_of_true ?_ trivial
    intro id peer fingerprint hlookup hfingerprint
    rw [lookup_onPeerLost] at hlookup
    split_ifs at hlookup
    rw [db_onPeerLost]
    exact hsynced id peer fingerprint hlookup hfingerprint
  | setPeerTrust found fingerprint level fault hfound =>
    obtain rfl : fault = false := hworking
    exact hsynced.setPeerTrust_iff h hfound level
  | sendFiles => exact iff_of_true (hquiet trivial) trivial
  | acceptTransfer => exact iff_of_true (hquiet trivial) trivial
  | rejectTransfer => exact iff_of_true (hquiet trivial) trivial
  | cancelTransfer => exact iff_of_true (hquiet trivial) trivial
  | stop => exact iff_of_true (hquiet trivial) trivial

theorem synced_new (db : Database) : (new db).Synced := by
  intro id peer fingerprint hlookup
  simp [new] at hlookup

/-- Cached and stored levels agree throughout a run exactly when every call of it
refreshes what it leaves. -/
theorem always_synced_iff (db : Database) {taken : List (Engine × EngineCall)} {final : Engine}
    (run : Run Step (new db) taken final) (hworking : ∀ t ∈ taken, t.2.Working) :
    Run.Always Synced taken final ↔ ∀ t ∈ taken, t.1.Refreshes t.2 :=
  Run.always_iff (keyed_new db) (fun _ _ _ hkeyed hcall hstep => hkeyed.step hcall hstep)
    (synced_new db)
    (fun _ _ _ hkeyed hcall hsynced hstep => synced_step_iff hkeyed hcall hsynced hstep)
    run hworking

/-- The found phone is made a favorite. -/
def phoneFavored : Engine :=
  (phoneFound.setPeerTrust (some (samplePhone.deviceId, samplePhone)) (List.replicate 64 'a')
    .favorite false).2

/-- The report and the call that sets the level. -/
def favoring : List (Engine × EngineCall) :=
  [(new ∅, .onPeerDiscovered samplePhone false),
    (phoneFound, .setPeerTrust (List.replicate 64 'a') .favorite false)]

theorem step_favoring : Step phoneFound (.setPeerTrust (List.replicate 64 'a') .favorite false)
    phoneFavored :=
  .setPeerTrust (some (samplePhone.deviceId, samplePhone)) _ _ _ ⟨lookup_phoneFound, rfl⟩

theorem run_favoring : Run Step (new ∅) favoring phoneFavored := .snoc run_phoneFound step_favoring

theorem working_samplePhone : (EngineCall.onPeerDiscovered samplePhone false).Working :=
  ⟨.mdns _ _ _ _ _, rfl⟩

theorem working_favoring : ∀ t ∈ favoring, t.2.Working :=
  List.forall_mem_cons.mpr ⟨working_samplePhone, List.forall_mem_singleton.mpr rfl⟩

theorem not_refreshes_phoneFound :
    ¬phoneFound.Refreshes (.setPeerTrust (List.replicate 64 'a') .favorite false) := by
  intro h
  have htrust := h (by decide) samplePhone.deviceId samplePhone lookup_phoneFound rfl
  simp [samplePhone, Peer.fromMdns] at htrust

theorem always_synced_iff_phone : ¬Run.Always Synced favoring phoneFavored :=
  (always_synced_iff ∅ run_favoring working_favoring).not.mpr fun h =>
    not_refreshes_phoneFound (h _ (List.mem_cons_of_mem _ List.mem_cons_self))

/-- The entry of a peer that is made a favorite keeps its old level. -/
theorem not_always_synced : ¬∀ (db : Database) (taken : List (Engine × EngineCall))
    (final : Engine), Run Step (new db) taken final → (∀ t ∈ taken, t.2.Working) →
    Run.Always Synced taken final := by
  intro h
  have hsynced := h ∅ _ _ run_favoring working_favoring
  have hfound : phoneFound.Synced := hsynced.1 _ (List.mem_cons_of_mem _ List.mem_cons_self)
  have hkeyed : phoneFound.Keyed := (keyed_new ∅).step working_samplePhone
    (.onPeerDiscovered samplePhone false)
  have hworking := working_favoring _ (List.mem_cons_of_mem _ List.mem_cons_self)
  exact not_refreshes_phoneFound
    ((synced_step_iff hkeyed hworking hfound step_favoring).mp hsynced.2)

end Engine
end JustDrop

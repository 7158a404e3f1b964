import JustDrop.EventLog

/-!
# What an entry knows of a device

Reports of one device are merged over the entry before them. The fingerprint, the
address and the name outlive a report without them; the signal strength and the
platform are those of the last report.
-/
namespace JustDrop

/-- The fields that a report may leave unknown. -/
inductive PeerField where
  | fingerprint
  | addr
  | rssi
  | platform
  | name
  deriving DecidableEq

/-- The fields that a new report takes from the entry before it. -/
def PeerField.Merged : PeerField → Prop
  | fingerprint => True
  | addr => True
  | name => True
  | rssi => False
  | platform => False

namespace Peer

/-- A field has a known value. A name that is made up from a hash is none. -/
def Knows (peer : Peer) : PeerField → Prop
  | .fingerprint => peer.fingerprint ≠ none
  | .addr => peer.addr ≠ none
  | .rssi => peer.rssi ≠ none
  | .platform => peer.platform ≠ .unknown
  | .name => ¬Unnamed peer.name

@[simp] theorem knows_trust {peer : Peer} {trust : TrustLevel} {field : PeerField} :
    { peer with trust }.Knows field ↔ peer.Knows field := by
  cases field <;> exact Iff.rfl

/-- A merged report knows what it knew itself, and of the merged fields what the entry knew. -/
theorem knows_merge_iff {existing peer : Peer} {field : PeerField} :
    (merge existing peer).Knows field ↔
      peer.Knows field ∨ field.Merged ∧ existing.Knows field := by
  cases field with
  | fingerprint =>
    by_cases h : peer.fingerprint = none <;> simp [merge, Knows, PeerField.Merged, h]
  | addr =>
    by_cases h : peer.addr = none <;> simp [merge, Knows, PeerField.Merged, h]
  | rssi => simp [merge, Knows, PeerField.Merged]
  | platform => simp [merge, Knows, PeerField.Merged]
  | name =>
    by_cases hnew : Unnamed peer.name
    · by_cases hold : Unnamed existing.name <;>
        simp [merge, Knows, PeerField.Merged, hnew, hold]
    · simp [merge, Knows, PeerField.Merged, hnew]

end Peer

/-- A report, and whether the database fails in it. -/
structure Sighting where
  peer : Peer
  fault : Bool

namespace Engine
variable {engine : Engine} {id : Text}

/-- The reports come in one after the other. -/
def sight (engine : Engine) (sightings : List Sighting) : Engine :=
  sightings.foldl (fun engine sighting => engine.onPeerDiscovered sighting.peer sighting.fault)
    engine

/-- What some report has supplied is known of the device. -/
def KeepsAll (engine : Engine) (id : Text) (sightings : List Sighting) : Prop :=
  ∀ field, ∀ sighting ∈ sightings, sighting.peer.Knows field →
    ∃ entry, engine.peers.lookup id = some entry ∧ entry.Knows field

/-- The last report has what an earlier one had of the fields that are not merged. -/
def EndsKnowing (sightings : List Sighting) : Prop :=
  ∀ field, ¬field.Merged → ∀ sighting ∈ sightings, sighting.peer.Knows field →
    ∀ last, sightings.getLast? = some last → last.peer.Knows field

@[simp] theorem sight_concat (sightings : List Sighting) (last : Sighting) :
    engine.sight (sightings ++ [last]) =
      (engine.sight sightings).onPeerDiscovered last.peer last.fault := by
  simp [sight]

@[simp] theorem db_sight (sightings : List Sighting) : (engine.sight sightings).db = engine.db := by
  induction sightings using List.reverseRecOn with
  | nil => rfl
  | append_singleton sightings last ih =>
    rw [sight_concat]
    by_cases hignores : (engine.sight sightings).Ignores last.peer last.fault
    · rw [onPeerDiscovered_of_ignores hignores, ih]
    · rw [onPeerDiscovered_of_not_ignores hignores, db_register, ih]

/-- A completed report knows what it knew itself, and of the merged fields what the entry
before it knew. -/
theorem knows_entryFor_iff {peer : Peer} {field : PeerField} :
    (engine.entryFor peer).Knows field ↔ peer.Knows field ∨ field.Merged ∧
      ∃ existing, engine.peers.lookup peer.deviceId = some existing ∧ existing.Knows field := by
  unfold entryFor
  cases engine.peers.lookup peer.deviceId with
  | none => simp
  | some existing => simp [Peer.knows_merge_iff]

/-- A report that is not ignored leaves an entry under its identifier. -/
theorem exists_entry_concat (sightings : List Sighting) {last : Sighting}
    (hfree : ¬engine.Ignores last.peer last.fault) :
    ∃ entry, (engine.sight (sightings ++ [last])).peers.lookup last.peer.deviceId = some entry ∧
      ∀ field, entry.Knows field ↔ last.peer.Knows field ∨ field.Merged ∧ ∃ existing,
        (engine.sight sightings).peers.lookup last.peer.deviceId = some existing ∧
          existing.Knows field := by
  have hnot : ¬(engine.sight sightings).Ignores last.peer last.fault := by
    rw [Ignores, db_sight]
    exact hfree
  rw [sight_concat, onPeerDiscovered_of_not_ignores hnot, lookup_register, if_pos rfl]
  exact ⟨_, rfl, fun field => knows_entryFor_iff.trans (or_congr_left Peer.knows_trust)⟩

/-- The entry knows what the last report knew, and what any report knew of the merged fields. -/
theorem exists_entry_sight (habsent : engine.peers.lookup id = none) (earlier : List Sighting)
    (last : Sighting) (hid : ∀ sighting ∈ earlier ++ [last], sighting.peer.deviceId = id)
    (hfree : ∀ sighting ∈ earlier ++ [last], ¬engine.Ignores sighting.peer sighting.fault) :
    ∃ entry, (engine.sight (earlier ++ [last])).peers.lookup id = some entry ∧
      ∀ field, entry.Knows field ↔ last.peer.Knows field ∨
        field.Merged ∧ ∃ sighting ∈ earlier, sighting.peer.Knows field := by
  obtain ⟨entry, hentry, hknows⟩ := exists_entry_concat earlier (hfree last (by simp))
  rw [hid last (by simp)] at hentry hknows
  refine ⟨entry, hentry, fun field => (hknows field).trans (or_congr_right ?_)⟩
  refine and_congr_right fun hmerged => ?_
  induction earlier using List.reverseRecOn generalizing last entry with
  | nil => simp [sight, habsent]
  | append_singleton earlier previous ih =>
    have hmem : ∀ sighting ∈ earlier ++ [previous],
        sighting ∈ earlier ++ [previous] ++ [last] := fun _ => List.mem_append_left _
    obtain ⟨existing, hexisting, hknown⟩ := exists_entry_concat earlier
      (hfree previous (hmem _ (by simp)))
    rw [hid previous (hmem _ (by simp))] at hexisting hknown
    have hearlier := ih previous (fun s hs => hid s (hmem s hs))
      (fun s hs => hfree s (hmem s hs)) existing hexisting hknown
    simp only [hexisting, Option.some.injEq, exists_eq_left', hknown field, hearlier, hmerged,
      true_and, List.mem_append, List.mem_singleton, or_and_right, exists_or, exists_eq_left,
      or_comm]

/-- The entry of a device keeps all that was reported of it exactly when the last report
has a signal strength if any had one, and a platform if any had one. -/
theorem keepsAll_iff (habsent : engine.peers.lookup id = none) (sightings : List Sighting)
    (hid : ∀ sighting ∈ sightings, sighting.peer.deviceId = id)
    (hfree : ∀ sighting ∈ sightings, ¬engine.Ignores sighting.peer sighting.fault) :
    (engine.sight sightings).KeepsAll id sightings ↔ EndsKnowing sightings := by
  rcases List.eq_nil_or_concat' sightings with rfl | ⟨earlier, last, rfl⟩
  · exact iff_of_true (fun _ s hs => absurd hs List.not_mem_nil)
      fun _ _ s hs => absurd hs List.not_mem_nil
  · obtain ⟨entry, hentry, hknows⟩ := exists_entry_sight habsent earlier last hid hfree
    constructor
    · intro hkeeps field hmerged sighting hmem hknown other hother
      obtain ⟨stored, hstored, hfield⟩ := hkeeps field sighting hmem hknown
      rw [hentry, Option.some.injEq] at hstored
      subst hstored
      obtain rfl : last = other := by simpa using hother
      exact ((hknows field).mp hfield).resolve_right fun h => hmerged h.1
    · intro hends field sighting hmem hknown
      refine ⟨entry, hentry, (hknows field).mpr ?_⟩
      by_cases hmerged : field.Merged
      · rcases List.mem_append.mp hmem with hmem | hmem
        · exact Or.inr ⟨hmerged, sighting, hmem, hknown⟩
        · obtain rfl := List.mem_singleton.mp hmem
          exact Or.inl hknown
      · exact Or.inl (hends field hmerged sighting hmem hknown last (by simp))

/-! ### A phone seen by mDNS and then by Bluetooth -/

def phoneSightings : List Sighting :=
  [{ peer := samplePhone, fault := false }, { peer := sampleSighting, fault := false }]

theorem deviceId_phoneSightings :
    ∀ sighting ∈ phoneSightings, sighting.peer.deviceId = samplePhone.deviceId :=
  List.forall_mem_cons.mpr ⟨rfl, List.forall_mem_singleton.mpr deviceId_sampleSighting⟩

theorem built_phoneSightings : ∀ sighting ∈ phoneSightings, sighting.peer.Built :=
  List.forall_mem_cons.mpr ⟨.mdns _ _ _ _ _, List.forall_mem_singleton.mpr (.ble _ _ _ _ _)⟩

/-- An empty database blocks nobody. -/
theorem not_ignores_new (peer : Peer) (fault : Bool) : ¬(new ∅).Ignores peer fault := by
  rintro ⟨-, fingerprint, -, hblocked⟩
  simp [new, Database.getTrust] at hblocked

theorem not_endsKnowing_phoneSightings : ¬EndsKnowing phoneSightings := by
  intro h
  have hplatform := h .platform id _ List.mem_cons_self
    (by simp [Peer.Knows, samplePhone, Peer.fromMdns]) _ rfl
  exact hplatform rfl

theorem lookup_new (id : Text) : (new ∅).peers.lookup id = none := by
  simp [new]

theorem keepsAll_iff_phone :
    ¬((new ∅).sight phoneSightings).KeepsAll samplePhone.deviceId phoneSightings :=
  (keepsAll_iff (lookup_new _) phoneSightings deviceId_phoneSightings
    fun _ _ => not_ignores_new _ _).not.mpr not_endsKnowing_phoneSightings

/-- The advertisement makes the engine forget the platform. -/
theorem not_keepsAll : ¬∀ (engine : Engine) (id : Text) (sightings : List Sighting),
    engine.peers.lookup id = none → (∀ sighting ∈ sightings, sighting.peer.deviceId = id) →
    (∀ sighting ∈ sightings, sighting.peer.Built) →
    (∀ sighting ∈ sightings, ¬engine.Ignores sighting.peer sighting.fault) →
    (engine.sight sightings).KeepsAll id sightings := by
  intro h
  have hkeeps := h (new ∅) samplePhone.deviceId phoneSightings (lookup_new _)
    deviceId_phoneSightings built_phoneSightings fun _ _ => not_ignores_new _ _
  obtain ⟨entry, hentry, hplatform⟩ := hkeeps .platform _ List.mem_cons_self
    (by simp [Peer.Knows, samplePhone, Peer.fromMdns])
  obtain ⟨stored, hstored, hknows⟩ := exists_entry_sight
    (lookup_new samplePhone.deviceId) [{ peer := samplePhone, fault := false }]
    { peer := sampleSighting, fault := false } deviceId_phoneSightings
    fun _ _ => not_ignores_new _ _
  have hsame : stored = entry := Option.some.inj (hstored.symm.trans hentry)
  rw [← hsame, hknows] at hplatform
  rcases hplatform with hown | ⟨hmerged, -⟩
  · exact hown rfl
  · exact hmerged

end Engine
end JustDrop

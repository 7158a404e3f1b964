import JustDrop.TrustChanges

/-!
# The rows of the peers

Setting a level writes the whole row. The name and the platform come from the entry
that has the fingerprint, and where there is none they are overwritten as unknown,
whatever the row said.
-/
namespace JustDrop

namespace PeerRow

/-- The row describes the peer. -/
def Describes (row : PeerRow) (peer : Peer) : Prop :=
  row.name = peer.name ∧ row.platform = platformText peer.platform

/-- The row describes nothing. -/
def Blank (row : PeerRow) : Prop :=
  row.name = "Unknown".toList ∧ row.platform = "Unknown".toList

end PeerRow

namespace Engine
variable {engine engine' : Engine} {fingerprint : Text}

/-- Some entry of the table has the fingerprint. -/
def Present (engine : Engine) (fingerprint : Text) : Prop :=
  ∃ id peer, engine.peers.lookup id = some peer ∧ peer.fingerprint = some fingerprint

/-- A level that is set for a known fingerprint leaves the name and the platform of its row,
or takes them from an entry with the fingerprint, and leaves the other rows. -/
def KeepsRows (engine : Engine) (call : EngineCall) (engine' : Engine) : Prop :=
  ∀ fingerprint level, call = .setPeerTrust fingerprint level false →
    ∀ row, engine.db.lookup fingerprint = some row →
      (∃ row', engine'.db.lookup fingerprint = some row' ∧
        (row'.name = row.name ∧ row'.platform = row.platform ∨
          ∃ id peer, engine.peers.lookup id = some peer ∧
            peer.fingerprint = some fingerprint ∧ row'.Describes peer)) ∧
      ∀ other ≠ fingerprint, engine'.db.lookup other = engine.db.lookup other

/-- The peer is in the table, or its row has nothing to lose. -/
def KnowsPeer (engine : Engine) (call : EngineCall) : Prop :=
  ∀ fingerprint level, call = .setPeerTrust fingerprint level false →
    ∀ row, engine.db.lookup fingerprint = some row → engine.Present fingerprint ∨ row.Blank

/-- Block a peer that is not in the table, and give it a level again. -/
def blockAndSet (engine : Engine) (fingerprint : Text) (level : TrustLevel) : Engine :=
  ((engine.setPeerTrust none fingerprint .blocked false).2.setPeerTrust none fingerprint level
    false).2

/-- What a row says of the entry that was found. -/
def rowOf (found : Option (Text × Peer)) : Text × Text :=
  (found.map fun entry => (entry.2.name, platformText entry.2.platform)).getD
    ("Unknown".toList, "Unknown".toList)

theorem db_setPeerTrust (found : Option (Text × Peer)) (fingerprint : Text) (level : TrustLevel) :
    (engine.setPeerTrust found fingerprint level false).2.db =
      engine.db.setTrust fingerprint (rowOf found).1 (rowOf found).2 level := by
  unfold setPeerTrust
  rw [if_neg Bool.false_ne_true]
  by_cases hblocked : level.isBlocked = true
  · cases found with
    | none =>
      rw [if_pos hblocked]
      rfl
    | some entry =>
      simp only [if_pos hblocked, db_onPeerLost]
      rfl
  · rw [if_neg hblocked]
    rfl

/-- Exactly one row is written. -/
theorem lookup_setPeerTrust_db (found : Option (Text × Peer)) (fingerprint other : Text)
    (level : TrustLevel) :
    (engine.setPeerTrust found fingerprint level false).2.db.lookup other =
      if other = fingerprint then
        some { name := (rowOf found).1, platform := (rowOf found).2, trustLevel := level.asStr }
      else engine.db.lookup other := by
  rw [db_setPeerTrust, Database.setTrust]
  split_ifs with hsame
  · rw [hsame, Finmap.lookup_insert]
  · rw [Finmap.lookup_insert_of_ne _ hsame]

/-- A level that is set keeps the row exactly when the peer is in the table or the row is blank. -/
theorem keepsRows_iff_knowsPeer {call : EngineCall} (hstep : Step engine call engine') :
    engine.KeepsRows call engine' ↔ engine.KnowsPeer call := by
  cases hstep with
  | setPeerTrust found fingerprint level fault hfound =>
    cases fault with
    | true => exact iff_of_true (fun _ _ h => by simp at h) fun _ _ h => by simp at h
    | false =>
      have hcall : ∀ other level', EngineCall.setPeerTrust fingerprint level false =
          .setPeerTrust other level' false → other = fingerprint := by
        intro other level' h
        exact (EngineCall.setPeerTrust.inj h).1.symm
      constructor
      · intro hkeeps other level' heq row hrow
        obtain rfl := hcall other level' heq
        obtain ⟨⟨row', hrow', hdescribes⟩, -⟩ := hkeeps _ _ heq row hrow
        rcases hdescribes with hsame | ⟨id, peer, hpeer, hfingerprint, -⟩
        · cases found with
          | some entry => exact Or.inl ⟨entry.1, entry.2, hfound⟩
          | none =>
            rw [lookup_setPeerTrust_db, if_pos rfl, Option.some.injEq] at hrow'
            subst hrow'
            exact Or.inr ⟨hsame.1.symm, hsame.2.symm⟩
        · exact Or.inl ⟨id, peer, hpeer, hfingerprint⟩
      · intro hknows other level' heq row hrow
        obtain rfl := hcall other level' heq
        refine ⟨⟨_, by rw [lookup_setPeerTrust_db, if_pos rfl], ?_⟩, fun other hne => ?_⟩
        · cases found with
          | some entry => exact Or.inr ⟨entry.1, entry.2, hfound.1, hfound.2, rfl, rfl⟩
          | none =>
            rcases hknows _ _ heq row hrow with ⟨id, peer, hpeer, hfingerprint⟩ | hblank
            · exact absurd hfingerprint (hfound id peer hpeer)
            · exact Or.inl ⟨hblank.1.symm, hblank.2.symm⟩
        · rw [lookup_setPeerTrust_db, if_neg hne]
  | _ => exact iff_of_true (fun _ _ h => by simp at h) fun _ _ h => by simp at h

/-- Blocking a peer that is not in the table and setting its level again restores its row
exactly when the row is blank. -/
theorem blockAndSet_restores_iff {row : PeerRow} {level : TrustLevel}
    (hlevel : row.trustLevel = level.asStr) :
    (engine.blockAndSet fingerprint level).db.lookup fingerprint = some row ↔ row.Blank := by
  rw [blockAndSet, lookup_setPeerTrust_db, if_pos rfl, Option.some.injEq]
  obtain ⟨name, platform, stored⟩ := row
  obtain rfl : stored = level.asStr := hlevel
  simp only [PeerRow.mk.injEq, and_true, PeerRow.Blank]
  exact ⟨fun h => ⟨h.1.symm, h.2.symm⟩, fun h => ⟨h.1.symm, h.2.symm⟩⟩

/-- All calls of a run keep the rows exactly when every level is set for a peer in the
table or over a blank row; and an absent peer that is blocked and set to its level again
has its row back exactly when that is blank. -/
theorem each_keepsRows_iff (start : Engine) {taken : List (Engine × EngineCall)} {final : Engine}
    (run : Run Step start taken final) :
    (Run.Each KeepsRows final taken ↔ ∀ t ∈ taken, t.1.KnowsPeer t.2) ∧
      ∀ fingerprint row level, final.db.lookup fingerprint = some row →
        ¬final.Present fingerprint → row.trustLevel = level.asStr →
        ((final.blockAndSet fingerprint level).db.lookup fingerprint = some row ↔ row.Blank) :=
  ⟨Run.each_iff (J := fun _ => True) (P := fun _ => True) trivial (fun _ _ _ _ _ _ => trivial)
      (fun _ _ _ _ _ hstep => keepsRows_iff_knowsPeer hstep) run fun _ _ => trivial,
    fun _ _ _ _ _ hlevel => blockAndSet_restores_iff hlevel⟩

/-! ### A trusted phone is blocked while it is away -/

/-- The row of a trusted phone. -/
def phoneRow : PeerRow :=
  { name := "Phone".toList, platform := "Android".toList, trustLevel := "trusted".toList }

def phoneDb : Database := Finmap.insert (List.replicate 64 'a') phoneRow ∅

/-- The phone is blocked before it was seen. -/
def phoneBlocked : Engine :=
  ((new phoneDb).setPeerTrust none (List.replicate 64 'a') .blocked false).2

/-- The one call of the run. -/
def phoneBlocking : List (Engine × EngineCall) :=
  [(new phoneDb, .setPeerTrust (List.replicate 64 'a') .blocked false)]

theorem run_phoneBlocked : Run Step (new phoneDb) phoneBlocking phoneBlocked :=
  .snoc .refl (.setPeerTrust none _ _ _ (finds_none rfl _))

theorem lookup_phoneDb : phoneDb.lookup (List.replicate 64 'a') = some phoneRow :=
  Finmap.lookup_insert _

theorem not_knowsPeer_phone :
    ¬(new phoneDb).KnowsPeer (.setPeerTrust (List.replicate 64 'a') .blocked false) := by
  intro h
  rcases h _ _ rfl _ lookup_phoneDb with ⟨id, peer, hlookup, -⟩ | hblank
  · simp [new] at hlookup
  · exact absurd hblank.1 (by decide)

theorem each_keepsRows_iff_phone : ¬Run.Each KeepsRows phoneBlocked phoneBlocking :=
  (each_keepsRows_iff (new phoneDb) run_phoneBlocked).1.not.mpr fun h =>
    not_knowsPeer_phone (h _ List.mem_cons_self)

/-- Blocking the phone overwrites its name. -/
theorem not_each_keepsRows : ¬∀ (db : Database) (taken : List (Engine × EngineCall))
    (final : Engine), Run Step (new db) taken final → Run.Each KeepsRows final taken := by
  intro h
  have hkeeps : (new phoneDb).KeepsRows (.setPeerTrust (List.replicate 64 'a') .blocked false)
      phoneBlocked := (h phoneDb _ _ run_phoneBlocked).1
  exact not_knowsPeer_phone ((keepsRows_iff_knowsPeer
    (.setPeerTrust none _ _ _ (finds_none rfl _))).mp hkeeps)

end Engine
end JustDrop

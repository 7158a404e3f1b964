import JustDrop.Engine

/-!
# Changes of stored levels

The levels have transitions of their own, with a reset as the only way out of
`blocked`. Setting a level writes whatever it is given over the stored one, so a
sequence of calls follows the transitions exactly when its callers do.
-/
namespace JustDrop

/-- A call that sets a level, whether the database fails in it, and what it returns. -/
structure TrustCall where
  fingerprint : Text
  level : TrustLevel
  fault : Bool
  outcome : Except EngineError Unit

namespace Engine
variable {engine engine' : Engine} {call : TrustCall}

/-- A call on an engine, for any entry that the search of the table gives. -/
def Sets (engine : Engine) (call : TrustCall) (engine' : Engine) : Prop :=
  ∃ found, Finds engine.peers call.fingerprint found ∧
    engine.setPeerTrust found call.fingerprint call.level call.fault = (call.outcome, engine')

/-- What a call does that follows the transitions: every stored level it changes takes
a valid one, and where the one asked for is invalid it fails and leaves all as it was. -/
structure Follows (engine : Engine) (call : TrustCall) (engine' : Engine) : Prop where
  valid : call.outcome = .ok () → ∀ fingerprint,
    engine.db.getTrust fingerprint ≠ engine'.db.getTrust fingerprint →
    (engine.db.getTrust fingerprint).transitionTo (engine'.db.getTrust fingerprint) =
      some (engine'.db.getTrust fingerprint)
  refused : (engine.db.getTrust call.fingerprint).transitionTo call.level = none →
    (∃ e, call.outcome = .error e) ∧ engine'.db = engine.db ∧ engine'.peers = engine.peers

/-- The caller asks for a valid transition, or the database fails. -/
def Asks (engine : Engine) (call : TrustCall) : Prop :=
  (engine.db.getTrust call.fingerprint).transitionTo call.level = none → call.fault = true

theorem setPeerTrust_of_working (found : Option (Text × Peer)) (fingerprint : Text)
    (level : TrustLevel) : (engine.setPeerTrust found fingerprint level false).1 = .ok () := by
  unfold setPeerTrust
  rw [if_neg Bool.false_ne_true]
  split_ifs
  · cases found <;> rfl
  · rfl

/-- A call fails with the database and changes nothing, or it stores the level. -/
theorem Sets.cases (h : Sets engine call engine') :
    (call.fault = true ∧ call.outcome = .error .database ∧ engine' = engine) ∨
      (call.fault = false ∧ call.outcome = .ok () ∧ ∀ fingerprint,
        engine'.db.getTrust fingerprint = if fingerprint = call.fingerprint then call.level
          else engine.db.getTrust fingerprint) := by
  obtain ⟨found, -, heq⟩ := h
  cases hfault : call.fault with
  | true =>
    rw [hfault, setPeerTrust_of_fault] at heq
    exact Or.inl ⟨rfl, (congrArg Prod.fst heq).symm, (congrArg Prod.snd heq).symm⟩
  | false =>
    rw [hfault] at heq
    have houtcome : (engine.setPeerTrust found call.fingerprint call.level false).1 = .ok () :=
      setPeerTrust_of_working found call.fingerprint call.level
    rw [heq] at houtcome
    refine Or.inr ⟨rfl, houtcome, fun fingerprint => ?_⟩
    rw [← getTrust_setPeerTrust found call.fingerprint fingerprint call.level, heq]

/-- A call follows the transitions exactly when its caller asks for one. -/
theorem follows_iff_asks (h : Sets engine call engine') :
    Follows engine call engine' ↔ engine.Asks call := by
  rcases h.cases with ⟨hfault, hfailed, rfl⟩ | ⟨hworking, hstored, hdb⟩
  · have hne : call.outcome ≠ .ok () := by
      rw [hfailed]
      simp
    exact iff_of_true ⟨fun hok => absurd hok hne, fun _ => ⟨⟨_, hfailed⟩, rfl, rfl⟩⟩
      fun _ => hfault
  · have hasks : engine.Asks call ↔
        (engine.db.getTrust call.fingerprint).transitionTo call.level ≠ none := by
      rw [Asks, hworking, Bool.false_eq_true, imp_false]
    rw [hasks]
    constructor
    · intro hfollows hnone
      obtain ⟨⟨e, herror⟩, -⟩ := hfollows.refused hnone
      rw [hstored] at herror
      simp at herror
    · intro hvalid
      refine ⟨fun _ fingerprint hchanged => ?_, fun hnone => absurd hnone hvalid⟩
      rw [hdb] at hchanged ⊢
      split_ifs at hchanged ⊢ with hsame
      · rw [hsame]
        exact TrustLevel.transitionTo_eq_some_iff.mpr hvalid
      · exact absurd rfl hchanged

/-- All calls of a sequence follow the transitions exactly when each of them asks
for a valid one or fails. -/
theorem each_follows_iff (start : Engine) {taken : List (Engine × TrustCall)} {final : Engine}
    (run : Run Sets start taken final) :
    Run.Each Follows final taken ↔ ∀ t ∈ taken, t.1.Asks t.2 :=
  Run.each_iff (J := fun _ => True) (P := fun _ => True) trivial (fun _ _ _ _ _ _ => trivial)
    (fun _ _ _ _ _ hsets => follows_iff_asks hsets) run fun _ _ => trivial

/-! ### A blocked device becomes trusted -/

/-- A working call for the device whose fingerprint is all `a`. -/
def sampleTrustCall (level : TrustLevel) : TrustCall :=
  { fingerprint := List.replicate 64 'a', level, fault := false, outcome := .ok () }

/-- The engine after the device, which was never seen, is blocked. -/
def deviceBlocked : Engine :=
  ((new ∅).setPeerTrust none (List.replicate 64 'a') .blocked false).2

def deviceTrusted : Engine :=
  (deviceBlocked.setPeerTrust none (List.replicate 64 'a') .trusted false).2

theorem finds_none {engine : Engine} (h : engine.peers = ∅) (fingerprint : Text) :
    Finds engine.peers fingerprint none := by
  intro deviceId peer hlookup
  simp [h] at hlookup

theorem run_deviceTrusted : Run Sets (new ∅)
    [(new ∅, sampleTrustCall .blocked), (deviceBlocked, sampleTrustCall .trusted)]
    deviceTrusted :=
  .snoc (.snoc .refl ⟨none, finds_none rfl _, rfl⟩) ⟨none, finds_none rfl _, rfl⟩

theorem not_asks_deviceBlocked : ¬deviceBlocked.Asks (sampleTrustCall .trusted) := by
  intro h
  have hstored : deviceBlocked.db.getTrust (List.replicate 64 'a') = .blocked := by
    rw [deviceBlocked, getTrust_setPeerTrust, if_pos rfl]
  have hfault := h (by rw [sampleTrustCall, hstored, TrustLevel.transitionTo_eq_none_iff]; decide)
  simp [sampleTrustCall] at hfault

theorem each_follows_iff_device : ¬Run.Each Follows deviceTrusted
    [(new ∅, sampleTrustCall .blocked), (deviceBlocked, sampleTrustCall .trusted)] :=
  (each_follows_iff (new ∅) run_deviceTrusted).not.mpr fun h =>
    not_asks_deviceBlocked (h _ (List.mem_cons_of_mem _ List.mem_cons_self))

/-- A device that is blocked and then trusted goes from one level to the other. -/
theorem not_each_follows : ¬∀ (start : Engine) (taken : List (Engine × TrustCall))
    (final : Engine), Run Sets start taken final → Run.Each Follows final taken := by
  intro h
  have hlast : Follows deviceBlocked (sampleTrustCall .trusted) deviceTrusted :=
    (h (new ∅) _ _ run_deviceTrusted).2.1
  exact not_asks_deviceBlocked
    ((follows_iff_asks ⟨none, finds_none rfl _, rfl⟩).mp hlast)

end Engine
end JustDrop

import JustDrop.Ledger
import JustDrop.PeerRows
import JustDrop.Runs

/-!
# Runs over a database file

Whatever fails, and however often a process ends and opens the file again, the file holds
the ledger of the calls that were made. The history only grows, and the engine acts on
the levels that the file has.
-/
namespace JustDrop
open DatabaseFile

/-- The file, and whether a process has opened it. -/
structure DatabaseSession where
  file : DatabaseFile
  opened : Bool

namespace DatabaseSession

/-- No file is there and no process runs. -/
def new : DatabaseSession := { file := DatabaseFile.new, opened := false }

/-- What a call returns, and the session after it. -/
def call (session : DatabaseSession) :
    DatabaseCall → Except DatabaseError Unit × DatabaseSession
  | .open stop =>
    let run := session.file.open stop
    (run.1, { file := run.2, opened := session.opened || run.1.toBool })
  | .setTrust fingerprint name platform level now fault =>
    let run := session.file.setTrust fingerprint name platform level now fault
    (run.1, { session with file := run.2 })
  | .recordTransfer entry now fault =>
    let run := session.file.recordTransfer entry now fault
    (run.1, { session with file := run.2 })
  | .saveResumeState transferId peerFingerprint stateBlob now fault =>
    let run := session.file.saveResumeState transferId peerFingerprint stateBlob now fault
    (run.1, { session with file := run.2 })
  | .clearResumeState transferId fault =>
    let run := session.file.clearResumeState transferId fault
    (run.1, { session with file := run.2 })
  | .close => (.ok (), { session with opened := false })

/-- Calls other than opening need a process that has opened the file. -/
def Step (session : DatabaseSession) (call : DatabaseCall) (session' : DatabaseSession) : Prop :=
  ((∃ stop, call = .open stop) ∨ session.opened = true) ∧ session' = (session.call call).2

/-- What holds of a session at any time. -/
structure Sound (session : DatabaseSession) : Prop where
  migrated : session.file.Migrated
  complete : session.opened = true → session.file.Complete
  levelled : session.file.Levelled

variable {session session' : DatabaseSession}

theorem sound_new : new.Sound := by
  refine ⟨migrated_new, fun h => absurd h Bool.false_ne_true, fun fingerprint row hrow => ?_⟩
  simp [new, DatabaseFile.new] at hrow

/-- A write on an open file follows the ledger. -/
theorem follows_call (hcomplete : session.file.Complete) (call : DatabaseCall)
    (hcall : ¬∃ stop, call = .open stop) :
    Follows session.file call ((session.call call).1, (session.call call).2.file) := by
  cases call with
  | «open» stop => exact absurd ⟨stop, rfl⟩ hcall
  | setTrust => exact follows_setTrust hcomplete _ _ _ _ _ _
  | recordTransfer => exact follows_recordTransfer hcomplete _ _ _
  | saveResumeState => exact follows_saveResumeState hcomplete _ _ _ _ _
  | clearResumeState => exact follows_clearResumeState hcomplete _ _
  | close => exact ⟨iff_of_true rfl trivial, rfl, fun h => h, hcomplete, rfl⟩

/-- A step keeps a session sound, and applies its call to the ledger. -/
theorem Step.spec {call : DatabaseCall} (hsound : session.Sound)
    (hstep : Step session call session') :
    session'.Sound ∧ session'.file.ledger = session.file.ledger.apply call := by
  obtain ⟨hcall, rfl⟩ := hstep
  by_cases hopen : ∃ stop, call = .open stop
  · obtain ⟨stop, rfl⟩ := hopen
    obtain ⟨hrows, hmigrated, hcomplete⟩ := open_spec hsound.migrated stop
    refine ⟨⟨hmigrated, fun hopened => ?_, hrows.levelled hsound.levelled⟩, hrows.ledger⟩
    rcases Bool.or_eq_true_iff.mp hopened with hbefore | hok
    · exact hcomplete (Or.inr (hsound.complete hbefore))
    · refine hcomplete (Or.inl ?_)
      cases hresult : (session.file.open stop).1 with
      | ok _ => rfl
      | error e =>
        rw [hresult] at hok
        exact absurd hok (by simp [Except.toBool])
  · have hcomplete := hsound.complete (hcall.resolve_left hopen)
    have hfollows := follows_call hcomplete call hopen
    refine ⟨⟨fun _ => hfollows.complete, fun _ => hfollows.complete,
      hfollows.levelled hsound.levelled⟩, hfollows.ledger⟩

/-- The ledger of the calls that a run has made. -/
def remembered (taken : List (DatabaseSession × DatabaseCall)) : Ledger :=
  (taken.map Prod.snd).foldl Ledger.apply Ledger.empty

/-- A session answers from a ledger. -/
structure Answers (session : DatabaseSession) (ledger : Ledger) : Prop where
  accepted : ∀ call, (¬∃ stop, call = .open stop) →
    ((session.call call).1 = .ok () ↔ ledger.Accepts call)
  trust : ∀ fingerprint, session.file.getTrust fingerprint false = ledger.trust fingerprint
  blocked : ∀ fingerprint, session.file.isBlocked fingerprint false = true ↔
    ledger.trust fingerprint = .blocked
  resume : ∀ transferId, session.file.loadResumeState transferId false = ledger.resume transferId
  listed : ∀ level scan, session.file.Scans scan →
    Lists ledger level (peersWithTrust scan level none)

theorem Sound.answers (h : session.Sound) (hopened : session.opened = true) :
    session.Answers session.file.ledger where
  accepted call hcall := (follows_call (h.complete hopened) call hcall).accepted
  trust fingerprint := getTrust_eq session.file fingerprint
  blocked fingerprint := by rw [isBlocked, decide_eq_true_eq, getTrust_eq]
  resume transferId := loadResumeState_eq session.file transferId
  listed level _ hscan := lists_peersWithTrust h.levelled hscan level

theorem sound_of_run {taken : List (DatabaseSession × DatabaseCall)} {final : DatabaseSession}
    (run : Run Step new taken final) : final.Sound ∧ final.file.ledger = remembered taken := by
  have h := run.replays (fun session => session.file.ledger) Ledger.apply sound_new
    fun _ _ _ hsound hstep => hstep.spec hsound
  refine ⟨h.1, h.2.trans ?_⟩
  rw [show new.file.ledger = Ledger.empty from ledger_new]
  rfl

/-- After any calls, failures, crashes while the file is opened and restarts, an open file
answers from the ledger of the calls. -/
theorem answers_of_run {taken : List (DatabaseSession × DatabaseCall)} {final : DatabaseSession}
    (run : Run Step new taken final) (hopened : final.opened = true) :
    final.Answers (remembered taken) := by
  obtain ⟨hsound, hledger⟩ := sound_of_run run
  rw [← hledger]
  exact hsound.answers hopened

end DatabaseSession

/-! ### The history -/

namespace Ledger
variable {ledger ledger' : Ledger}

/-- The recorded transfers are numbered, distinct, within the constraints of the table, and
of peers that are known. -/
structure Consistent (ledger : Ledger) : Prop where
  numbered : ∀ i row, ledger.transfers[i]? = some row → row.id = i + 1
  distinct : (ledger.transfers.map HistoryRow.transferId).Nodup
  valid : ∀ row ∈ ledger.transfers, row.totalBytes.toNat < 2 ^ 63 ∧ row.direction ∈ directions ∧
    row.status ∈ statuses
  known : ∀ row ∈ ledger.transfers, ledger.peers row.peerFingerprint ≠ none

/-- Recorded transfers stay as they are; peers stay known, and first seen when they were. -/
structure Extends (ledger ledger' : Ledger) : Prop where
  transfers : ledger.transfers <+: ledger'.transfers
  peers : ∀ fingerprint peer, ledger.peers fingerprint = some peer →
    ∃ peer', ledger'.peers fingerprint = some peer' ∧ peer'.firstSeen = peer.firstSeen

theorem consistent_empty : empty.Consistent := by
  constructor <;> simp [empty]

theorem Extends.refl (ledger : Ledger) : ledger.Extends ledger :=
  ⟨List.prefix_rfl, fun _ peer h => ⟨peer, h, rfl⟩⟩

theorem Extends.trans {ledger'' : Ledger} (h : ledger.Extends ledger')
    (h' : ledger'.Extends ledger'') : ledger.Extends ledger'' := by
  refine ⟨h.transfers.trans h'.transfers, fun fingerprint peer hpeer => ?_⟩
  obtain ⟨peer', hpeer', hfirst⟩ := h.peers fingerprint peer hpeer
  obtain ⟨peer'', hpeer'', hfirst'⟩ := h'.peers fingerprint peer' hpeer'
  exact ⟨peer'', hpeer'', hfirst'.trans hfirst⟩

/-- No call takes anything from the history or forgets a peer. -/
theorem extends_apply (ledger : Ledger) (call : DatabaseCall) :
    ledger.Extends (ledger.apply call) := by
  unfold apply
  split_ifs
  · cases call with
    | setTrust fingerprint name platform level now fault =>
      refine ⟨List.prefix_rfl, fun other peer hpeer => ?_⟩
      simp only [write]
      by_cases hother : other = fingerprint
      · rw [hother] at hpeer ⊢
        rw [Function.update_self, hpeer]
        exact ⟨_, rfl, rfl⟩
      · rw [Function.update_of_ne hother]
        exact ⟨peer, hpeer, rfl⟩
    | recordTransfer entry now fault =>
      exact ⟨List.prefix_append _ _, fun _ peer hpeer => ⟨peer, hpeer, rfl⟩⟩
    | saveResumeState => exact ⟨List.prefix_rfl, fun _ peer hpeer => ⟨peer, hpeer, rfl⟩⟩
    | clearResumeState => exact ⟨List.prefix_rfl, fun _ peer hpeer => ⟨peer, hpeer, rfl⟩⟩
    | «open» => exact Extends.refl ledger
    | close => exact Extends.refl ledger
  · exact Extends.refl ledger

/-- A ledger with the same history stays consistent while the peers stay known. -/
theorem Consistent.of_transfers (h : ledger.Consistent) (hextends : ledger.Extends ledger')
    (htransfers : ledger'.transfers = ledger.transfers) : ledger'.Consistent := by
  refine ⟨htransfers ▸ h.numbered, htransfers ▸ h.distinct, htransfers ▸ h.valid, ?_⟩
  intro row hrow
  rw [htransfers] at hrow
  obtain ⟨peer, hpeer⟩ := Option.ne_none_iff_exists'.mp (h.known row hrow)
  obtain ⟨peer', hpeer', -⟩ := hextends.peers _ _ hpeer
  simp [hpeer']

theorem Consistent.record (h : ledger.Consistent) {entry : TransferEntry} (now : ℕ) (fault : Bool)
    (hdemands : ledger.Demands entry) :
    (ledger.write (.recordTransfer entry now fault)).Consistent := by
  constructor
  · intro i row hi
    simp only [write] at hi
    by_cases hlt : i < ledger.transfers.length
    · rw [List.getElem?_append_left hlt] at hi
      exact h.numbered i row hi
    · rw [List.getElem?_append_right (not_lt.mp hlt), List.getElem?_singleton] at hi
      split_ifs at hi with hlast
      obtain rfl := Option.some.inj hi
      simp only [historyRow]
      omega
  · simp only [write, List.map_append, List.map_singleton]
    rw [List.nodup_append]
    refine ⟨h.distinct, List.nodup_singleton _, fun a ha b hb heq => ?_⟩
    rw [List.mem_singleton.mp hb] at heq
    obtain rfl : a = entry.transferId := heq
    exact hdemands.fresh ha
  · intro row hrow
    rcases List.mem_append.mp hrow with hold | hnew
    · exact h.valid row hold
    · obtain rfl := List.mem_singleton.mp hnew
      exact ⟨hdemands.total, hdemands.direction, hdemands.status⟩
  · intro row hrow
    rcases List.mem_append.mp hrow with hold | hnew
    · exact h.known row hold
    · obtain rfl := List.mem_singleton.mp hnew
      exact hdemands.known

theorem Consistent.apply (h : ledger.Consistent) (call : DatabaseCall) :
    (ledger.apply call).Consistent := by
  have hextends := extends_apply ledger call
  unfold Ledger.apply at hextends ⊢
  split_ifs at hextends ⊢ with haccepts
  · cases call with
    | recordTransfer entry now fault => exact h.record now fault haccepts.2
    | _ => exact h.of_transfers hextends rfl
  · exact h

end Ledger

namespace DatabaseSession

/-- At any time the history is consistent, and nothing that happens later takes anything from
it or forgets when a peer was first seen. -/
theorem history_of_runs {taken taken' : List (DatabaseSession × DatabaseCall)}
    {session final : DatabaseSession} (run : Run Step new taken session)
    (later : Run Step session taken' final) :
    session.file.ledger.Consistent ∧ session.file.ledger.Extends final.file.ledger := by
  obtain ⟨hsound, hledger⟩ := sound_of_run run
  constructor
  · rw [hledger, remembered]
    generalize taken.map Prod.snd = calls
    have hfold : ∀ ledger : Ledger, ledger.Consistent →
        (calls.foldl Ledger.apply ledger).Consistent := by
      induction calls with
      | nil => exact fun _ h => h
      | cons call calls ih => exact fun ledger h => ih _ (h.apply call)
    exact hfold _ Ledger.consistent_empty
  · have hkept := later.always_of (I := fun s => s.Sound ∧
        session.file.ledger.Extends s.file.ledger) (C := fun _ _ => True)
      ⟨hsound, Ledger.Extends.refl _⟩ ?_ fun _ _ => trivial
    · exact hkept.2.2
    · rintro s call s' ⟨hs, hextends⟩ - hstep
      obtain ⟨hs', happly⟩ := hstep.spec hs
      exact ⟨hs', hextends.trans (happly ▸ Ledger.extends_apply _ _)⟩

/-! ### A peer is met after an interrupted opening -/

/-- The process ends before the second table is there. -/
def interrupted : DatabaseSession := (new.call (.open (some 5))).2

def restarted : DatabaseSession := (interrupted.call (.open none)).2

def phoneMet : DatabaseCall :=
  .setTrust "aa".toList "Phone".toList "Android".toList .trusted 7 false

def trusting : DatabaseSession := (restarted.call phoneMet).2

def meeting : List (DatabaseSession × DatabaseCall) :=
  [(new, .open (some 5)), (interrupted, .open none), (restarted, phoneMet)]

theorem run_meeting : Run Step new meeting trusting :=
  .snoc (.snoc (.snoc .refl ⟨Or.inl ⟨_, rfl⟩, rfl⟩) ⟨Or.inl ⟨_, rfl⟩, rfl⟩) ⟨Or.inr rfl, rfl⟩

theorem answers_of_run_meeting : trusting.Answers (remembered meeting) :=
  answers_of_run run_meeting rfl

/-- The transfer of a known peer. -/
def phoneSent : DatabaseCall :=
  .recordTransfer { transferId := "tx-1".toList, peerFingerprint := "aa".toList
                    direction := "send".toList, fileCount := 3, totalBytes := 1024
                    status := "completed".toList } 8 false

theorem history_of_runs_meeting : trusting.file.ledger.Consistent ∧
    trusting.file.ledger.Extends (trusting.call phoneSent).2.file.ledger :=
  history_of_runs run_meeting (.snoc .refl ⟨Or.inr rfl, rfl⟩)

end DatabaseSession

/-! ### The database of the engine -/

namespace DatabaseFile
variable {file : DatabaseFile} {db : Database}

/-- The engine sees the rows of `peers` without their dates. -/
def Agrees (file : DatabaseFile) (db : Database) : Prop :=
  ∀ fingerprint, db.lookup fingerprint = ((file.peers.getD ∅).lookup fingerprint).map fun row =>
    { name := row.name, platform := row.platform, trustLevel := row.trustLevel }

theorem Agrees.getTrust_eq (h : file.Agrees db) (fingerprint : Text) :
    db.getTrust fingerprint = file.getTrust fingerprint false := by
  unfold Database.getTrust DatabaseFile.getTrust
  rw [h fingerprint]
  cases file.peers with
  | none => simp
  | some peers => simp [Function.comp_def]

theorem Agrees.setTrust (h : file.Agrees db) (hcomplete : file.Complete)
    (fingerprint name platform : Text) (level : TrustLevel) (now : ℕ) :
    (file.setTrust fingerprint name platform level now false).2.Agrees
      (db.setTrust fingerprint name platform level) := by
  obtain ⟨peers, -, -, hpeers, -, -⟩ := hcomplete.tables
  rw [DatabaseFile.setTrust, execute_of_table hpeers]
  intro other
  have hrow := h other
  rw [hpeers] at hrow
  simp only [Option.getD_some] at hrow
  simp only [Database.setTrust, Bool.false_eq_true, if_false, Option.getD_some]
  by_cases hother : other = fingerprint
  · rw [hother, Finmap.lookup_insert, Finmap.lookup_insert]
    cases peers.lookup fingerprint <;> rfl
  · rw [Finmap.lookup_insert_of_ne _ hother, Finmap.lookup_insert_of_ne _ hother, hrow]

end DatabaseFile

/-- The level that a call asks the database to set, and whether this fails. -/
def EngineCall.setting : EngineCall → Option (Text × TrustLevel × Bool)
  | .setPeerTrust fingerprint level fault => some (fingerprint, level, fault)
  | _ => none

def DatabaseCall.setting : DatabaseCall → Option (Text × TrustLevel × Bool)
  | .setTrust fingerprint _ _ level _ fault => some (fingerprint, level, fault)
  | _ => none

namespace Engine
variable {engine engine' : Engine} {session : DatabaseSession}

/-- A call that sets no level leaves the database. -/
theorem Step.db_eq {call : EngineCall} (h : Step engine call engine')
    (hcall : call.setting = none) : engine'.db = engine.db := by
  cases call with
  | setPeerTrust => simp [EngineCall.setting] at hcall
  | onPeerDiscovered peer fault =>
    cases h
    by_cases hignores : engine.Ignores peer fault
    · rw [onPeerDiscovered_of_ignores hignores]
    · rw [onPeerDiscovered_of_not_ignores hignores, db_register]
  | onPeerLost deviceId =>
    cases h
    exact db_onPeerLost deviceId
  | _ => exact (h.quiet trivial).db

/-- A call of the engine is matched by at most one call of the database. -/
theorem Step.matched {call : EngineCall} (h : Step engine call engine')
    (hsound : session.Sound) (hopened : session.opened = true)
    (hagrees : session.file.Agrees engine.db) (now : ℕ) :
    ∃ calls session', Run DatabaseSession.Step session calls session' ∧ session'.Sound ∧
      session'.opened = true ∧ session'.file.Agrees engine'.db ∧
      calls.map (fun t => t.2.setting) = (call.setting.map some).toList := by
  by_cases hcall : call.setting = none
  · refine ⟨[], session, .refl, hsound, hopened, ?_, by rw [hcall]; rfl⟩
    rwa [h.db_eq hcall]
  · cases h with
    | setPeerTrust found fingerprint level fault hfinds =>
      have hstep : DatabaseSession.Step session (.setTrust fingerprint (rowOf found).1
          (rowOf found).2 level now fault) _ := ⟨Or.inr hopened, rfl⟩
      refine ⟨_, _, .snoc .refl hstep, (hstep.spec hsound).1, hopened, ?_, rfl⟩
      cases fault with
      | true =>
        have hsame : (session.file.setTrust fingerprint (rowOf found).1 (rowOf found).2 level now
            true).2 = session.file := by
          refine DatabaseFile.execute_of_error fun hok => ?_
          have hcalm := (DatabaseFile.execute_eq_ok.mp (Prod.ext hok rfl)).1
          exact absurd hcalm (by simp)
        simp only [DatabaseSession.call, hsame, setPeerTrust_of_fault]
        exact hagrees
      | false =>
        rw [db_setPeerTrust]
        exact hagrees.setTrust (hsound.complete hopened) _ _ _ _ _
    | _ => simp [EngineCall.setting] at hcall

/-- Every run of the engine is matched by a run of the calls of the database with the same
settings, after which the file has the levels that the engine acts on. -/
theorem matched_by_database {db : Database} (hsound : session.Sound)
    (hopened : session.opened = true) (hagrees : session.file.Agrees db) (now : ℕ)
    {taken : List (Engine × EngineCall)} {final : Engine} (run : Run Step (new db) taken final) :
    ∃ calls session', Run DatabaseSession.Step session calls session' ∧
      session'.file.Agrees final.db ∧
      calls.map (fun t => t.2.setting) =
        (taken.map fun t => t.2.setting).filter Option.isSome ∧
      ∀ fingerprint, final.db.getTrust fingerprint = session'.file.getTrust fingerprint false := by
  have hsettings : ∀ taken : List (Engine × EngineCall),
      taken.flatMap (fun t => (t.2.setting.map some).toList) =
        (taken.map fun t => t.2.setting).filter Option.isSome := by
    intro taken
    induction taken with
    | nil => rfl
    | cons t taken ih =>
      rw [List.flatMap_cons, List.map_cons, List.filter_cons, ih]
      cases t.2.setting <;> rfl
  obtain ⟨calls, session', hrun, hcalls, -, -, hsame⟩ := run.simulated
    (fun (engine : Engine) (session : DatabaseSession) =>
      session.Sound ∧ session.opened = true ∧ session.file.Agrees engine.db)
    (fun call => (call.setting.map some).toList) DatabaseCall.setting
    (show _ ∧ _ from ⟨hsound, hopened, hagrees⟩) (by
      rintro engine call engine' session ⟨hsound, hopened, hagrees⟩ hstep
      obtain ⟨calls, session', hrun, hsound', hopened', hagrees', hshown⟩ :=
        hstep.matched hsound hopened hagrees now
      exact ⟨calls, session', hrun, hshown, hsound', hopened', hagrees'⟩)
  exact ⟨calls, session', hrun, hsame, hcalls.trans (hsettings taken), hsame.getTrust_eq⟩

/-! ### A phone is trusted and then blocked -/

def aPhone : Peer :=
  Peer.fromMdns "Phone".toList { ip := [192, 168, 1, 5], port := 42420 } "aa".toList .android 7

def aPhoneSeen : Engine := (new ∅).onPeerDiscovered aPhone false

def aPhoneTrusted : Engine :=
  (aPhoneSeen.setPeerTrust (some (aPhone.deviceId, aPhone)) "aa".toList .trusted false).2

def aPhoneBlocked : Engine :=
  (aPhoneTrusted.setPeerTrust (some (aPhone.deviceId, aPhone)) "aa".toList .blocked false).2

/-- The phone is seen and trusted; of two attempts to block it the first fails. -/
def blocking : List (Engine × EngineCall) :=
  [(new ∅, .onPeerDiscovered aPhone false),
    (aPhoneSeen, .setPeerTrust "aa".toList .trusted false),
    (aPhoneTrusted, .setPeerTrust "aa".toList .blocked true),
    (aPhoneTrusted, .setPeerTrust "aa".toList .blocked false)]

theorem run_blocking : Run Step (new ∅) blocking aPhoneBlocked := by
  have hlisted : Finds aPhoneSeen.peers "aa".toList (some (aPhone.deviceId, aPhone)) :=
    ⟨Finmap.lookup_insert _, rfl⟩
  have htrusted : Finds aPhoneTrusted.peers "aa".toList (some (aPhone.deviceId, aPhone)) := hlisted
  exact (((Run.refl.snoc (.onPeerDiscovered aPhone false)).snoc
    (.setPeerTrust _ _ _ _ hlisted)).snoc (.setPeerTrust _ _ _ true htrusted)).snoc
      (.setPeerTrust _ _ _ _ htrusted)

theorem matched_by_database_blocked : ∃ calls session',
    Run DatabaseSession.Step DatabaseSession.restarted calls session' ∧
      session'.file.Agrees aPhoneBlocked.db ∧
      calls.map (fun t => t.2.setting) = [some ("aa".toList, .trusted, false),
        some ("aa".toList, .blocked, true), some ("aa".toList, .blocked, false)] ∧
      ∀ fingerprint, aPhoneBlocked.db.getTrust fingerprint =
        session'.file.getTrust fingerprint false := by
  have hopened : Run DatabaseSession.Step .new _ DatabaseSession.restarted :=
    .snoc (.snoc .refl ⟨Or.inl ⟨some 5, rfl⟩, rfl⟩) ⟨Or.inl ⟨none, rfl⟩, rfl⟩
  exact matched_by_database (DatabaseSession.sound_of_run hopened).1 rfl (fun _ => rfl) 7
    run_blocking

end Engine
end JustDrop

import JustDrop.DatabaseFile

/-!
# The database as a ledger

What the database is for: it remembers which peers are known and with which level, which
transfers have been recorded, and what is kept to resume a transfer. Every call changes
a complete file as it changes the ledger, and every query is answered from it.
-/
namespace JustDrop
open DatabaseFile

structure KnownPeer where
  name : Text
  platform : Text
  level : TrustLevel
  firstSeen : ℕ
  updatedAt : ℕ
  deriving DecidableEq

@[ext]
structure Ledger where
  peers : Text → Option KnownPeer
  transfers : List HistoryRow
  resume : Text → Option Bytes

/-- A call of the database, or the end of the process; what fails is part of it. -/
inductive DatabaseCall where
  | «open» (stop : Option ℕ)
  | setTrust (fingerprint name platform : Text) (level : TrustLevel) (now : ℕ) (fault : Bool)
  | recordTransfer (entry : TransferEntry) (now : ℕ) (fault : Bool)
  | saveResumeState (transferId peerFingerprint : Text) (stateBlob : Bytes) (now : ℕ)
      (fault : Bool)
  | clearResumeState (transferId : Text) (fault : Bool)
  | close

namespace Ledger

def empty : Ledger := { peers := fun _ => none, transfers := [], resume := fun _ => none }

def trust (ledger : Ledger) (fingerprint : Text) : TrustLevel :=
  ((ledger.peers fingerprint).map KnownPeer.level).getD .unknown

/-- The peer as it is now, first seen when it was. -/
def meet (name platform : Text) (level : TrustLevel) (now : ℕ) (old : Option KnownPeer) :
    KnownPeer :=
  { name, platform, level, firstSeen := (old.map KnownPeer.firstSeen).getD now, updatedAt := now }

/-- What the ledger demands of a transfer. -/
abbrev Demands (ledger : Ledger) (entry : TransferEntry) : Prop :=
  Recordable (fun fingerprint => ledger.peers fingerprint ≠ none)
    (ledger.transfers.map HistoryRow.transferId) entry

/-- The call has an effect. -/
def Accepts (ledger : Ledger) : DatabaseCall → Prop
  | .open _ => True
  | .setTrust _ _ _ _ _ fault => fault = false
  | .recordTransfer entry _ fault => fault = false ∧ ledger.Demands entry
  | .saveResumeState _ _ _ _ fault => fault = false
  | .clearResumeState _ fault => fault = false
  | .close => True

instance (ledger : Ledger) (call : DatabaseCall) : Decidable (ledger.Accepts call) := by
  cases call <;> unfold Accepts <;> infer_instance

/-- The effect of a call that is accepted. -/
def write (ledger : Ledger) : DatabaseCall → Ledger
  | .open _ => ledger
  | .setTrust fingerprint name platform level now _ =>
    { ledger with
      peers := Function.update ledger.peers fingerprint
        (some (meet name platform level now (ledger.peers fingerprint))) }
  | .recordTransfer entry now _ =>
    { ledger with
      transfers := ledger.transfers ++ [historyRow entry now (ledger.transfers.length + 1)] }
  | .saveResumeState transferId _ stateBlob _ _ =>
    { ledger with resume := Function.update ledger.resume transferId (some stateBlob) }
  | .clearResumeState transferId _ =>
    { ledger with resume := Function.update ledger.resume transferId none }
  | .close => ledger

def apply (ledger : Ledger) (call : DatabaseCall) : Ledger :=
  if ledger.Accepts call then ledger.write call else ledger

end Ledger

/-! ### The file holds a ledger -/

def PeersRow.known (row : PeersRow) : KnownPeer :=
  { name := row.name, platform := row.platform, level := TrustLevel.parseStr row.trustLevel,
    firstSeen := row.firstSeen, updatedAt := row.updatedAt }

/-- The level in a row is one that can be read back. -/
def PeersRow.Levelled (row : PeersRow) : Prop :=
  (TrustLevel.parseStr row.trustLevel).asStr = row.trustLevel

namespace DatabaseFile
variable {file file' : DatabaseFile}

/-- What the file says; a table that is missing has no rows. -/
def ledger (file : DatabaseFile) : Ledger where
  peers fingerprint := ((file.peers.getD ∅).lookup fingerprint).map PeersRow.known
  transfers := file.transferHistory.getD []
  resume transferId := ((file.resumeState.getD ∅).lookup transferId).map ResumeRow.stateBlob

/-- All levels can be read back. -/
def Levelled (file : DatabaseFile) : Prop :=
  ∀ fingerprint row, (file.peers.getD ∅).lookup fingerprint = some row → row.Levelled

theorem SameRows.ledger (h : SameRows file file') : file'.ledger = file.ledger := by
  unfold DatabaseFile.ledger
  rw [h.peers, h.transferHistory, h.resumeState]

theorem SameRows.levelled (h : SameRows file file') (hlevelled : file.Levelled) :
    file'.Levelled := by
  unfold Levelled
  rw [h.peers]
  exact hlevelled

theorem ledger_new : new.ledger = Ledger.empty := by
  refine Ledger.ext (funext fun fingerprint => ?_) rfl (funext fun transferId => ?_)
  · simp [DatabaseFile.ledger, new, Ledger.empty]
  · simp [DatabaseFile.ledger, new, Ledger.empty]

/-- The tables of a complete file. -/
theorem Complete.tables (h : file.Complete) : ∃ peers history resume,
    file.peers = some peers ∧ file.transferHistory = some history ∧
      file.resumeState = some resume := by
  obtain ⟨peers, hpeers⟩ := Option.isSome_iff_exists.mp h.peers
  obtain ⟨history, hhistory⟩ := Option.isSome_iff_exists.mp h.transferHistory
  obtain ⟨resume, hresume⟩ := Option.isSome_iff_exists.mp h.resumeState
  exact ⟨peers, history, resume, hpeers, hhistory, hresume⟩

theorem execute_of_table {τ : Type} {operation : String} {table : DatabaseFile → Option τ}
    {put : τ → DatabaseFile → DatabaseFile} {statement : τ → Except SqlError τ} {rows : τ}
    (h : table file = some rows) (fault : Bool) :
    execute operation table put statement fault file =
      if fault then (.error ⟨operation, .failed⟩, file)
      else
        match statement rows with
        | .error cause => (.error ⟨operation, cause⟩, file)
        | .ok rows => (.ok (), put rows file) := by
  cases fault with
  | true => simp [execute, h]
  | false => cases hstatement : statement rows <;> simp [execute, h, hstatement]

theorem known_upsertPeer (name platform : Text) (level : TrustLevel) (now : ℕ)
    (old : Option PeersRow) : (upsertPeer name platform level now old).known =
      Ledger.meet name platform level now (old.map PeersRow.known) := by
  cases old <;> simp [upsertPeer, PeersRow.known, Ledger.meet]

theorem levelled_upsertPeer (name platform : Text) (level : TrustLevel) (now : ℕ)
    (old : Option PeersRow) : (upsertPeer name platform level now old).Levelled := by
  cases old <;> simp [upsertPeer, PeersRow.Levelled]

/-- What a call does to a file: it answers as the ledger accepts, changes what the ledger
changes, and creates and drops no table. -/
structure Follows (file : DatabaseFile) (call : DatabaseCall)
    (run : Except DatabaseError Unit × DatabaseFile) : Prop where
  accepted : run.1 = .ok () ↔ file.ledger.Accepts call
  ledger : run.2.ledger = file.ledger.apply call
  levelled : file.Levelled → run.2.Levelled
  complete : run.2.Complete
  version : run.2.currentVersion = file.currentVersion

/-- A call that is refused. -/
theorem Follows.refused (hcomplete : file.Complete) {call : DatabaseCall} {e : DatabaseError}
    (h : ¬file.ledger.Accepts call) : Follows file call (.error e, file) := by
  refine ⟨iff_of_false (by simp) h, ?_, fun hlevelled => hlevelled, hcomplete, rfl⟩
  rw [Ledger.apply, if_neg h]

theorem follows_setTrust (hcomplete : file.Complete) (fingerprint name platform : Text)
    (level : TrustLevel) (now : ℕ) (fault : Bool) :
    Follows file (.setTrust fingerprint name platform level now fault)
      (file.setTrust fingerprint name platform level now fault) := by
  obtain ⟨peers, history, resume, hpeers, -, -⟩ := hcomplete.tables
  rw [setTrust, execute_of_table hpeers]
  cases fault with
  | true => exact Follows.refused hcomplete (by simp [Ledger.Accepts])
  | false =>
    have haccepts : file.ledger.Accepts
        (.setTrust fingerprint name platform level now false) := rfl
    rw [if_neg Bool.false_ne_true]
    refine ⟨iff_of_true rfl haccepts, ?_, fun hlevelled other row hrow => ?_,
      ⟨rfl, hcomplete.transferHistory, hcomplete.resumeState⟩, rfl⟩
    · rw [Ledger.apply, if_pos haccepts]
      refine Ledger.ext (funext fun other => ?_) rfl rfl
      simp only [DatabaseFile.ledger, Ledger.write, hpeers, Option.getD_some]
      by_cases hother : other = fingerprint
      · rw [hother, Finmap.lookup_insert, Function.update_self, Option.map_some, known_upsertPeer]
      · rw [Finmap.lookup_insert_of_ne _ hother, Function.update_of_ne hother]
    · simp only [Option.getD_some] at hrow
      by_cases hother : other = fingerprint
      · rw [hother, Finmap.lookup_insert] at hrow
        obtain rfl := Option.some.inj hrow
        exact levelled_upsertPeer _ _ _ _ _
      · rw [Finmap.lookup_insert_of_ne _ hother] at hrow
        exact hlevelled other row (by rw [hpeers]; exact hrow)

theorem follows_recordTransfer (hcomplete : file.Complete) (entry : TransferEntry) (now : ℕ)
    (fault : Bool) : Follows file (.recordTransfer entry now fault)
      (file.recordTransfer entry now fault) := by
  obtain ⟨peers, history, resume, hpeers, hhistory, -⟩ := hcomplete.tables
  have hdemands : file.ledger.Demands entry ↔
      Recordable (fun fingerprint => peers.lookup fingerprint ≠ none)
        (history.map HistoryRow.transferId) entry := by
    simp [Ledger.Demands, DatabaseFile.ledger, hpeers, hhistory]
  have hrows : file.peers.getD ∅ = peers := by
    rw [hpeers]
    rfl
  rw [recordTransfer, hrows, execute_of_table hhistory]
  cases fault with
  | true => exact Follows.refused hcomplete (by simp [Ledger.Accepts])
  | false =>
    rw [if_neg Bool.false_ne_true]
    cases hinsert : insertHistory peers entry now history with
    | error cause =>
      refine Follows.refused hcomplete fun haccepts => ?_
      have hok : insertHistory peers entry now history = .ok _ :=
        insertHistory_eq_ok.mpr ⟨hdemands.mp haccepts.2, rfl⟩
      rw [hinsert] at hok
      simp at hok
    | ok rows =>
      obtain ⟨hrecordable, rfl⟩ := insertHistory_eq_ok.mp hinsert
      have haccepts : file.ledger.Accepts (.recordTransfer entry now false) :=
        ⟨rfl, hdemands.mpr hrecordable⟩
      refine ⟨iff_of_true rfl haccepts, ?_, fun hlevelled => hlevelled,
        ⟨hcomplete.peers, rfl, hcomplete.resumeState⟩, rfl⟩
      rw [Ledger.apply, if_pos haccepts]
      refine Ledger.ext rfl ?_ rfl
      simp [DatabaseFile.ledger, Ledger.write, hhistory]

theorem follows_saveResumeState (hcomplete : file.Complete) (transferId peerFingerprint : Text)
    (stateBlob : Bytes) (now : ℕ) (fault : Bool) :
    Follows file (.saveResumeState transferId peerFingerprint stateBlob now fault)
      (file.saveResumeState transferId peerFingerprint stateBlob now fault) := by
  obtain ⟨peers, history, resume, -, -, hresume⟩ := hcomplete.tables
  rw [saveResumeState, execute_of_table hresume]
  cases fault with
  | true => exact Follows.refused hcomplete (by simp [Ledger.Accepts])
  | false =>
    have haccepts : file.ledger.Accepts
        (.saveResumeState transferId peerFingerprint stateBlob now false) := rfl
    rw [if_neg Bool.false_ne_true]
    refine ⟨iff_of_true rfl haccepts, ?_, fun hlevelled => hlevelled,
      ⟨hcomplete.peers, hcomplete.transferHistory, rfl⟩, rfl⟩
    rw [Ledger.apply, if_pos haccepts]
    refine Ledger.ext rfl rfl (funext fun other => ?_)
    simp only [DatabaseFile.ledger, Ledger.write, hresume, Option.getD_some]
    by_cases hother : other = transferId
    · rw [hother, Finmap.lookup_insert, Function.update_self, Option.map_some]
    · rw [Finmap.lookup_insert_of_ne _ hother, Function.update_of_ne hother]

theorem follows_clearResumeState (hcomplete : file.Complete) (transferId : Text) (fault : Bool) :
    Follows file (.clearResumeState transferId fault)
      (file.clearResumeState transferId fault) := by
  obtain ⟨peers, history, resume, -, -, hresume⟩ := hcomplete.tables
  rw [clearResumeState, execute_of_table hresume]
  cases fault with
  | true => exact Follows.refused hcomplete (by simp [Ledger.Accepts])
  | false =>
    have haccepts : file.ledger.Accepts (.clearResumeState transferId false) := rfl
    rw [if_neg Bool.false_ne_true]
    refine ⟨iff_of_true rfl haccepts, ?_, fun hlevelled => hlevelled,
      ⟨hcomplete.peers, hcomplete.transferHistory, rfl⟩, rfl⟩
    rw [Ledger.apply, if_pos haccepts]
    refine Ledger.ext rfl rfl (funext fun other => ?_)
    simp only [DatabaseFile.ledger, Ledger.write, hresume, Option.getD_some]
    by_cases hother : other = transferId
    · rw [hother, Finmap.lookup_erase, Function.update_self, Option.map_none]
    · rw [Finmap.lookup_erase_ne hother, Function.update_of_ne hother]

/-! ### Answers -/

theorem getTrust_eq (file : DatabaseFile) (fingerprint : Text) :
    file.getTrust fingerprint false = file.ledger.trust fingerprint := by
  unfold getTrust Ledger.trust DatabaseFile.ledger
  cases file.peers with
  | none => simp
  | some peers => simp [PeersRow.known, Function.comp_def]

theorem loadResumeState_eq (file : DatabaseFile) (transferId : Text) :
    file.loadResumeState transferId false = file.ledger.resume transferId := by
  unfold loadResumeState DatabaseFile.ledger
  cases file.resumeState with
  | none => simp
  | some resume => simp

/-- The list of the peers with a level: each of them once, by name. -/
structure Lists (ledger : Ledger) (level : TrustLevel) (listed : List (Text × Text)) : Prop where
  nodup : listed.Nodup
  byName : listed.Pairwise fun a b => a.2 ≤ b.2
  complete : ∀ fingerprint name, (fingerprint, name) ∈ listed ↔
    ∃ peer, ledger.peers fingerprint = some peer ∧ peer.name = name ∧ peer.level = level

theorem lists_peersWithTrust (hlevelled : file.Levelled) {scan : List (Text × PeersRow)}
    (hscan : file.Scans scan) (level : TrustLevel) :
    Lists file.ledger level (peersWithTrust scan level none) := by
  set rows := (scan.filter fun peer => peer.2.trustLevel = level.asStr).map fun peer =>
    (peer.1, peer.2.name) with hrows
  have hsorted : peersWithTrust scan level none = rows.mergeSort fun a b => a.2 ≤ b.2 := rfl
  rw [hsorted]
  constructor
  · rw [(List.mergeSort_perm _ _).nodup_iff]
    refine List.Nodup.map_on ?_ (hscan.1.filter _)
    rintro ⟨fingerprint, row⟩ h ⟨other, row'⟩ h' heq
    obtain ⟨rfl, -⟩ := Prod.mk.inj heq
    have hrow := (hscan.2 fingerprint row).mp (List.mem_filter.mp h).1
    have hrow' := (hscan.2 fingerprint row').mp (List.mem_filter.mp h').1
    rw [Option.some.inj (hrow.symm.trans hrow')]
  · have htrans : ∀ a b c : Text × Text, decide (a.2 ≤ b.2) = true → decide (b.2 ≤ c.2) = true →
        decide (a.2 ≤ c.2) = true := fun a b c hab hbc =>
      decide_eq_true ((of_decide_eq_true hab).trans (of_decide_eq_true hbc))
    have htotal : ∀ a b : Text × Text, (decide (a.2 ≤ b.2) || decide (b.2 ≤ a.2)) = true :=
      fun a b => by simpa using le_total a.2 b.2
    exact (List.pairwise_mergeSort htrans htotal rows).imp fun hab => of_decide_eq_true hab
  · intro fingerprint name
    rw [List.mem_mergeSort, hrows, List.mem_map]
    simp only [List.mem_filter, decide_eq_true_eq, DatabaseFile.ledger, Option.map_eq_some_iff]
    constructor
    · rintro ⟨⟨other, row⟩, ⟨hmem, hlevel⟩, heq⟩
      obtain ⟨rfl, rfl⟩ := Prod.mk.inj heq
      refine ⟨_, ⟨row, (hscan.2 _ _).mp hmem, rfl⟩, rfl, ?_⟩
      rw [PeersRow.known, hlevel, TrustLevel.parseStr_asStr]
    · rintro ⟨_, ⟨row, hlookup, rfl⟩, rfl, hlevel⟩
      refine ⟨(fingerprint, row), ⟨(hscan.2 _ _).mpr hlookup, ?_⟩, rfl⟩
      rw [← hlevelled fingerprint row hlookup, ← hlevel]
      rfl

end DatabaseFile

end JustDrop

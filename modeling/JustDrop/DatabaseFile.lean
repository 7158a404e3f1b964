import JustDrop.Engine
import Mathlib.Data.Char
import Mathlib.Data.List.Lex

/-!
# The database file

Trust levels, the history of transfers and resume blobs are kept in one SQLite file.
Opening the file creates the tables that are missing, statement by statement; every
other write is a single statement, which takes effect as a whole or not at all. When
a statement fails, and when a process ends, is the environment's choice.
-/
namespace JustDrop

/-- Why a statement fails. -/
inductive SqlError where
  | failed
  | noSuchTable
  | outOfRange
  | check
  | unique
  | foreignKey
  deriving DecidableEq, Repr

/-- The error of an operation, shown as the operation, a colon and the cause. -/
structure DatabaseError where
  operation : String
  cause : SqlError
  deriving DecidableEq, Repr

/-- A row of `peers`; the key is the fingerprint. -/
structure PeersRow where
  name : Text
  platform : Text
  trustLevel : Text
  publicKey : Option Bytes
  firstSeen : ℕ
  updatedAt : ℕ
  deriving DecidableEq

structure HistoryRow where
  id : ℕ
  transferId : Text
  peerFingerprint : Text
  direction : Text
  fileCount : UInt32
  totalBytes : UInt64
  status : Text
  createdAt : ℕ
  deriving DecidableEq

/-- A row of `resume_state`; the key is the transfer. -/
structure ResumeRow where
  peerFingerprint : Text
  stateBlob : Bytes
  updatedAt : ℕ
  deriving DecidableEq

abbrev PeersTable := Finmap (fun _ : Text => PeersRow)
abbrev ResumeTable := Finmap (fun _ : Text => ResumeRow)

/-- The tables that exist. `schemaVersion` has at most one row. -/
structure DatabaseFile where
  schemaVersion : Option (Option UInt32)
  peers : Option PeersTable
  transferHistory : Option (List HistoryRow)
  resumeState : Option ResumeTable

namespace DatabaseFile

def SCHEMA_VERSION : UInt32 := 1

/-- A file without tables. -/
def new : DatabaseFile :=
  { schemaVersion := none, peers := none, transferHistory := none, resumeState := none }

/-! ### Opening -/

def createSchemaVersion (file : DatabaseFile) : DatabaseFile :=
  { file with schemaVersion := some (file.schemaVersion.getD none) }

def createPeers (file : DatabaseFile) : DatabaseFile :=
  { file with peers := some (file.peers.getD ∅) }

def createTransferHistory (file : DatabaseFile) : DatabaseFile :=
  { file with transferHistory := some (file.transferHistory.getD []) }

def createResumeState (file : DatabaseFile) : DatabaseFile :=
  { file with resumeState := some (file.resumeState.getD ∅) }

def writeVersion (file : DatabaseFile) : DatabaseFile :=
  { file with schemaVersion := some (some SCHEMA_VERSION) }

/-- A statement with the operation that its failure is reported under. -/
abbrev Statement := String × (DatabaseFile → DatabaseFile)

/-- `migrations/v001.sql`; the indexes change no result. -/
def v001 : List Statement :=
  [("migration v1 failed", createPeers), ("migration v1 failed", createTransferHistory),
    ("migration v1 failed", createResumeState), ("migration v1 failed", id),
    ("migration v1 failed", id), ("migration v1 failed", id)]

/-- The version in the file; without one it is 0. -/
def currentVersion (file : DatabaseFile) : UInt32 := file.schemaVersion.join.getD 0

def migrate (file : DatabaseFile) : List Statement :=
  [("migrate init", createSchemaVersion), ("migrate query", id)] ++
    ((if file.currentVersion < 1 then v001 else []) ++ [("version update", writeVersion)])

def openStatements (file : DatabaseFile) : List Statement :=
  [("sqlite open", id), ("sqlite pragma", id)] ++ file.migrate

def after (statements : List Statement) (file : DatabaseFile) : DatabaseFile :=
  statements.foldl (fun file statement => statement.2 file) file

/-- Opening, up to the statement that fails. -/
def «open» (stop : Option ℕ) (file : DatabaseFile) : Except DatabaseError Unit × DatabaseFile :=
  match stop.bind (file.openStatements[·]?) with
  | none => (.ok (), after file.openStatements file)
  | some statement =>
    (.error ⟨statement.1, .failed⟩, after (file.openStatements.take (stop.getD 0)) file)

/-! ### Writing -/

/-- One writing statement on one table. -/
def execute {τ : Type} (operation : String) (table : DatabaseFile → Option τ)
    (put : τ → DatabaseFile → DatabaseFile) (statement : τ → Except SqlError τ) (fault : Bool)
    (file : DatabaseFile) : Except DatabaseError Unit × DatabaseFile :=
  match table file with
  | none => (.error ⟨operation, .noSuchTable⟩, file)
  | some rows =>
    if fault then (.error ⟨operation, .failed⟩, file)
    else
      match statement rows with
      | .error cause => (.error ⟨operation, cause⟩, file)
      | .ok rows => (.ok (), put rows file)

/-- A new row, or the old one with everything but its key and its first sighting replaced. -/
def upsertPeer (name platform : Text) (level : TrustLevel) (now : ℕ) :
    Option PeersRow → PeersRow
  | none =>
    { name, platform, trustLevel := level.asStr, publicKey := none, firstSeen := now,
      updatedAt := now }
  | some row => { row with name, platform, trustLevel := level.asStr, updatedAt := now }

def setTrust (fingerprint name platform : Text) (level : TrustLevel) (now : ℕ) :
    Bool → DatabaseFile → Except DatabaseError Unit × DatabaseFile :=
  execute "set_trust" peers (fun rows file => { file with peers := some rows }) fun rows =>
    .ok (rows.insert fingerprint (upsertPeer name platform level now (rows.lookup fingerprint)))

/-- What is recorded of a transfer. -/
structure TransferEntry where
  transferId : Text
  peerFingerprint : Text
  direction : Text
  fileCount : UInt32
  totalBytes : UInt64
  status : Text
  deriving DecidableEq

/-- The values that a column may have. -/
def directions : List Text := ["send".toList, "receive".toList]
def statuses : List Text := ["completed".toList, "failed".toList, "cancelled".toList]

/-- The column of the total is a signed integer. Rows are numbered without gaps: none is ever
deleted, and an insertion that fails uses up no number. The latter is what SQLite does, not what
it promises of AUTOINCREMENT. -/
def insertHistory (peers : PeersTable) (entry : TransferEntry) (now : ℕ)
    (rows : List HistoryRow) : Except SqlError (List HistoryRow) :=
  if 2 ^ 63 ≤ entry.totalBytes.toNat then .error .outOfRange
  else if entry.direction ∉ directions then .error .check
  else if entry.status ∉ statuses then .error .check
  else if entry.transferId ∈ rows.map HistoryRow.transferId then .error .unique
  else if peers.lookup entry.peerFingerprint = none then .error .foreignKey
  else .ok (rows ++ [{
    id := rows.length + 1, transferId := entry.transferId,
    peerFingerprint := entry.peerFingerprint, direction := entry.direction,
    fileCount := entry.fileCount, totalBytes := entry.totalBytes, status := entry.status,
    createdAt := now }])

def recordTransfer (entry : TransferEntry) (now : ℕ) (fault : Bool) (file : DatabaseFile) :
    Except DatabaseError Unit × DatabaseFile :=
  execute "record_transfer" transferHistory
    (fun rows file => { file with transferHistory := some rows })
    (insertHistory (file.peers.getD ∅) entry now) fault file

def saveResumeState (transferId peerFingerprint : Text) (stateBlob : Bytes) (now : ℕ) :
    Bool → DatabaseFile → Except DatabaseError Unit × DatabaseFile :=
  execute "save_resume" resumeState (fun rows file => { file with resumeState := some rows })
    fun rows => .ok (rows.insert transferId { peerFingerprint, stateBlob, updatedAt := now })

def clearResumeState (transferId : Text) :
    Bool → DatabaseFile → Except DatabaseError Unit × DatabaseFile :=
  execute "clear_resume" resumeState (fun rows file => { file with resumeState := some rows })
    fun rows => .ok (rows.erase transferId)

/-! ### Reading -/

/-- A failing query is a peer that is not known. -/
def getTrust (file : DatabaseFile) (fingerprint : Text) (fault : Bool) : TrustLevel :=
  let row := if fault then none else file.peers.bind (Finmap.lookup fingerprint)
  (row.map fun row => TrustLevel.parseStr row.trustLevel).getD .unknown

def isBlocked (file : DatabaseFile) (fingerprint : Text) (fault : Bool) : Bool :=
  file.getTrust fingerprint fault = .blocked

/-- The rows of `peers` in some order. -/
def Scans (file : DatabaseFile) (scan : List (Text × PeersRow)) : Prop :=
  scan.Nodup ∧ ∀ fingerprint row,
    (fingerprint, row) ∈ scan ↔ (file.peers.getD ∅).lookup fingerprint = some row

/-- Peers of one name come in the order in which the table was scanned; a query that fails
after some rows has listed these. -/
def peersWithTrust (scan : List (Text × PeersRow)) (level : TrustLevel) (stop : Option ℕ) :
    List (Text × Text) :=
  let rows := (scan.filter fun peer => peer.2.trustLevel = level.asStr).map fun peer =>
    (peer.1, peer.2.name)
  let sorted := rows.mergeSort fun a b => a.2 ≤ b.2
  stop.elim sorted sorted.take

def loadResumeState (file : DatabaseFile) (transferId : Text) (fault : Bool) : Option Bytes :=
  if fault then none
  else (file.resumeState.bind (Finmap.lookup transferId)).map ResumeRow.stateBlob

/-! ### What a statement does -/

variable {file file' : DatabaseFile}

/-- A statement that succeeds has changed its table as it says. -/
theorem execute_eq_ok {τ : Type} {operation : String} {table : DatabaseFile → Option τ}
    {put : τ → DatabaseFile → DatabaseFile} {statement : τ → Except SqlError τ} {fault : Bool} :
    execute operation table put statement fault file = (.ok (), file') ↔
      fault = false ∧ ∃ rows rows', table file = some rows ∧ statement rows = .ok rows' ∧
        file' = put rows' file := by
  unfold execute
  cases htable : table file with
  | none => simp
  | some rows =>
    cases fault with
    | true => simp
    | false =>
      cases hstatement : statement rows with
      | error cause => simp [hstatement]
      | ok rows' => simp [hstatement, eq_comm]

/-- A statement that does not succeed has changed nothing. -/
theorem execute_of_error {τ : Type} {operation : String} {table : DatabaseFile → Option τ}
    {put : τ → DatabaseFile → DatabaseFile} {statement : τ → Except SqlError τ} {fault : Bool}
    (h : (execute operation table put statement fault file).1 ≠ .ok ()) :
    (execute operation table put statement fault file).2 = file := by
  unfold execute at h ⊢
  cases htable : table file with
  | none => rfl
  | some rows =>
    cases fault with
    | true => rfl
    | false =>
      cases hstatement : statement rows with
      | error cause => simp [hstatement]
      | ok rows' => simp [htable, hstatement] at h

/-- A transfer is recorded when all constraints of the table hold. -/
structure Recordable (known : Text → Prop) (recorded : List Text) (entry : TransferEntry) :
    Prop where
  total : entry.totalBytes.toNat < 2 ^ 63
  direction : entry.direction ∈ directions
  status : entry.status ∈ statuses
  fresh : entry.transferId ∉ recorded
  known : known entry.peerFingerprint

theorem recordable_iff {known : Text → Prop} {recorded : List Text} {entry : TransferEntry} :
    Recordable known recorded entry ↔ entry.totalBytes.toNat < 2 ^ 63 ∧
      entry.direction ∈ directions ∧ entry.status ∈ statuses ∧ entry.transferId ∉ recorded ∧
      known entry.peerFingerprint :=
  ⟨fun h => ⟨h.total, h.direction, h.status, h.fresh, h.known⟩,
    fun h => ⟨h.1, h.2.1, h.2.2.1, h.2.2.2.1, h.2.2.2.2⟩⟩

instance (known : Text → Prop) [DecidablePred known] (recorded : List Text)
    (entry : TransferEntry) : Decidable (Recordable known recorded entry) :=
  decidable_of_iff' _ recordable_iff

/-- The row of a transfer. -/
def historyRow (entry : TransferEntry) (now id : ℕ) : HistoryRow :=
  { id, transferId := entry.transferId, peerFingerprint := entry.peerFingerprint,
    direction := entry.direction, fileCount := entry.fileCount, totalBytes := entry.totalBytes,
    status := entry.status, createdAt := now }

theorem insertHistory_eq_ok {peers : PeersTable} {entry : TransferEntry} {now : ℕ}
    {rows rows' : List HistoryRow} :
    insertHistory peers entry now rows = .ok rows' ↔
      Recordable (fun fingerprint => peers.lookup fingerprint ≠ none)
          (rows.map HistoryRow.transferId) entry ∧
        rows' = rows ++ [historyRow entry now (rows.length + 1)] := by
  unfold insertHistory
  constructor
  · intro h
    split_ifs at h with htotal hdirection hstatus hunique hknown
    exact ⟨⟨not_le.mp htotal, hdirection, hstatus, hunique, hknown⟩, (Except.ok.inj h).symm⟩
  · rintro ⟨⟨htotal, hdirection, hstatus, hfresh, hknown⟩, rfl⟩
    rw [if_neg (not_le.mpr htotal), if_neg (not_not_intro hdirection),
      if_neg (not_not_intro hstatus), if_neg hfresh, if_neg hknown]
    rfl

/-! ### Files that are complete -/

/-- All tables exist. -/
structure Complete (file : DatabaseFile) : Prop where
  peers : file.peers.isSome = true
  transferHistory : file.transferHistory.isSome = true
  resumeState : file.resumeState.isSome = true

/-- A file whose tables an opening does not create has them. -/
def Migrated (file : DatabaseFile) : Prop := ¬file.currentVersion < 1 → file.Complete

theorem migrated_new : new.Migrated := fun h => absurd (by decide) h

/-- The rows that two files have are the same. -/
structure SameRows (file file' : DatabaseFile) : Prop where
  peers : file'.peers.getD ∅ = file.peers.getD ∅
  transferHistory : file'.transferHistory.getD [] = file.transferHistory.getD []
  resumeState : file'.resumeState.getD ∅ = file.resumeState.getD ∅

theorem SameRows.refl (file : DatabaseFile) : SameRows file file := ⟨rfl, rfl, rfl⟩

theorem SameRows.trans {file'' : DatabaseFile} (h : SameRows file file')
    (h' : SameRows file' file'') : SameRows file file'' :=
  ⟨h'.peers.trans h.peers, h'.transferHistory.trans h.transferHistory,
    h'.resumeState.trans h.resumeState⟩

/-- What every statement keeps holds after all of them. -/
theorem after_of_keeps {P : DatabaseFile → Prop} {statements : List Statement}
    (hkeeps : ∀ statement ∈ statements, ∀ file, P file → P (statement.2 file)) (h : P file) :
    P (after statements file) := by
  induction statements generalizing file with
  | nil => exact h
  | cons statement statements ih =>
    rw [List.forall_mem_cons] at hkeeps
    exact ih hkeeps.2 (hkeeps.1 file h)

/-- What an opening does before it writes the version. -/
def preparation (file : DatabaseFile) : List Statement :=
  [("sqlite open", id), ("sqlite pragma", id), ("migrate init", createSchemaVersion),
    ("migrate query", id)] ++ if file.currentVersion < 1 then v001 else []

theorem openStatements_eq (file : DatabaseFile) :
    file.openStatements = file.preparation ++ [("version update", writeVersion)] := by
  simp [openStatements, migrate, preparation]

/-- A statement of the preparation keeps the rows, the version and the tables. -/
structure Keeps (statement : DatabaseFile → DatabaseFile) : Prop where
  rows : ∀ file, SameRows file (statement file)
  version : ∀ file, (statement file).currentVersion = file.currentVersion
  complete : ∀ file, Complete file → Complete (statement file)

theorem keeps_preparation {statement : Statement} (h : statement ∈ file.preparation) :
    Keeps statement.2 := by
  have hid : Keeps id := ⟨SameRows.refl, fun _ => rfl, fun _ h => h⟩
  have hversion : Keeps createSchemaVersion := by
    refine ⟨fun _ => ⟨rfl, rfl, rfl⟩, fun file => ?_, fun _ h =>
      ⟨h.peers, h.transferHistory, h.resumeState⟩⟩
    unfold currentVersion createSchemaVersion
    cases file.schemaVersion <;> rfl
  have hpeers : Keeps createPeers := ⟨fun _ => ⟨rfl, rfl, rfl⟩, fun _ => rfl,
    fun _ h => ⟨rfl, h.transferHistory, h.resumeState⟩⟩
  have hhistory : Keeps createTransferHistory := ⟨fun _ => ⟨rfl, rfl, rfl⟩, fun _ => rfl,
    fun _ h => ⟨h.peers, rfl, h.resumeState⟩⟩
  have hresume : Keeps createResumeState := ⟨fun _ => ⟨rfl, rfl, rfl⟩, fun _ => rfl,
    fun _ h => ⟨h.peers, h.transferHistory, rfl⟩⟩
  unfold preparation v001 at h
  rw [List.mem_append] at h
  rcases h with h | h
  · simp only [List.mem_cons, List.not_mem_nil, or_false] at h
    rcases h with rfl | rfl | rfl | rfl
    · exact hid
    · exact hid
    · exact hversion
    · exact hid
  · split_ifs at h
    · simp only [List.mem_cons, List.not_mem_nil, or_false] at h
      rcases h with rfl | rfl | rfl | rfl | rfl | rfl
      · exact hpeers
      · exact hhistory
      · exact hresume
      · exact hid
      · exact hid
      · exact hid
    · exact absurd h List.not_mem_nil

/-- A version is written only after the tables. -/
theorem complete_preparation (h : file.Migrated) : (after file.preparation file).Complete := by
  by_cases hversion : file.currentVersion < 1
  · rw [preparation, if_pos hversion]
    exact ⟨rfl, rfl, rfl⟩
  · refine after_of_keeps (fun statement hstatement => (keeps_preparation hstatement).complete) ?_
    exact h hversion

/-- What an opening leaves of a file, whether it succeeds or not. -/
theorem open_spec (h : file.Migrated) (stop : Option ℕ) :
    SameRows file (file.open stop).2 ∧ (file.open stop).2.Migrated ∧
      ((file.open stop).1 = .ok () ∨ file.Complete → (file.open stop).2.Complete) := by
  unfold «open»
  cases hstop : stop.bind (file.openStatements[·]?) with
  | none =>
    have hafter : after file.openStatements file = writeVersion (after file.preparation file) := by
      rw [openStatements_eq, after, List.foldl_append]
      rfl
    have hrows : SameRows file (after file.preparation file) :=
      after_of_keeps (fun statement hstatement other hother =>
        hother.trans ((keeps_preparation hstatement).rows other)) (SameRows.refl file)
    have hcomplete := complete_preparation h
    have hwritten : (writeVersion (after file.preparation file)).Complete :=
      ⟨hcomplete.peers, hcomplete.transferHistory, hcomplete.resumeState⟩
    simp only [hafter]
    exact ⟨⟨hrows.peers, hrows.transferHistory, hrows.resumeState⟩, fun _ => hwritten,
      fun _ => hwritten⟩
  | some statement =>
    obtain ⟨n, rfl, hn⟩ := Option.bind_eq_some_iff.mp hstop
    have hlt := (List.getElem?_eq_some_iff.mp hn).1
    have htake : file.openStatements.take n = file.preparation.take n := by
      rw [openStatements_eq, List.length_append, List.length_singleton] at hlt
      rw [openStatements_eq, List.take_append_of_le_length (by omega)]
    have hkeeps : ∀ other ∈ file.preparation.take n, Keeps other.2 := fun other hother =>
      keeps_preparation (List.mem_of_mem_take hother)
    have hrows : SameRows file (after (file.preparation.take n) file) :=
      after_of_keeps (fun other hother f hf => hf.trans ((hkeeps other hother).rows f))
        (SameRows.refl file)
    have hversion : (after (file.preparation.take n) file).currentVersion = file.currentVersion :=
      after_of_keeps (P := fun f => f.currentVersion = file.currentVersion)
        (fun other hother f hf => ((hkeeps other hother).version f).trans hf) rfl
    simp only [Option.getD_some, htake]
    have hcomplete : file.Complete → (after (file.preparation.take n) file).Complete :=
      after_of_keeps fun other hother => (hkeeps other hother).complete
    refine ⟨hrows, fun hnot => hcomplete (h (hversion ▸ hnot)), fun hor => ?_⟩
    exact hcomplete (hor.resolve_left (by simp))

end DatabaseFile
end JustDrop

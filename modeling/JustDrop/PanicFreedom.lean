import JustDrop.Interruption

/-!
# When a receiver panics

The counts, the chunk size and the lengths that a receiver computes with come from
its peer and from its store. Of all its arithmetic three places have no value for
some of them: the answer to a stored state, the number of chunks of a file and the
byte count of the turns.
-/
namespace JustDrop

namespace RecvTransfer
open World

variable {receiver : RecvTransfer} {manifest : TransferManifest}

/-! ### The three places -/

/-- The answer to a stored state has a value: no chunk size of zero divides, no sum
leaves 64 bits and the bitmap can be allocated. -/
def Answerable (receiver : RecvTransfer) (manifest : TransferManifest) :
    Option TransferResumeState → Prop
  | none => True
  | some state =>
    (∀ entry ∈ manifest.files, Divisible entry.size.toNat manifest.chunkSize.toNat) ∧
      sumChunks manifest.chunkSize.toNat manifest.files < 2 ^ 64 ∧
      (∀ file ∈ state.files, ∀ chunk ∈ file.completedChunks,
        sumChunks manifest.chunkSize.toNat (filesBefore file.fileIndex manifest.files) + chunk <
          2 ^ 64) ∧
      bitmapLength (sumChunks manifest.chunkSize.toNat manifest.files) ≤ receiver.memory

/-- Every file whose temporary file has been made ready can be divided into chunks. -/
def Sized (receiver : RecvTransfer) (manifest : TransferManifest) : List FileEntry → Disk → Prop
  | [], _ => True
  | entry :: entries, disk => ∀ disk',
    ChunkWriter.prepare receiver.host (receiver.destOf entry) entry.size.toNat disk =
        (.ok (), disk') →
      Divisible entry.size.toNat manifest.chunkSize.toNat ∧ Sized receiver manifest entries disk'

/-- The byte count of the chunks that are taken stays below 64 bits. -/
def Countable (manifest : TransferManifest) : ℕ → List Turn → Prop
  | _, [] => True
  | bytes, turn :: turns =>
    match turn.recv with
    | .ok (some (.chunkData id data)) => Takes manifest turn (id, data) →
      bytes + data.length < 2 ^ 64 ∧ Countable manifest (bytes + data.length) turns
    | _ => True

theorem acceptResponse_isSome_iff {stored : Option TransferResumeState} :
    (acceptResponse receiver manifest stored).isSome ↔ Answerable receiver manifest stored := by
  cases stored with
  | none => exact iff_of_true rfl trivial
  | some state =>
    have hglobals (hdivisible : ∀ entry ∈ manifest.files,
        Divisible entry.size.toNat manifest.chunkSize.toNat) :
        (completedGlobals manifest state.files).isSome ↔
          ∀ file ∈ state.files, ∀ chunk ∈ file.completedChunks,
            sumChunks manifest.chunkSize.toNat (filesBefore file.fileIndex manifest.files) +
              chunk < 2 ^ 64 := by
      rw [completedGlobals_isSome]
      refine forall₄_congr fun file _ chunk _ => ?_
      simp only [Option.isSome_iff_exists, globalChunkOffset_eq_some]
      constructor
      · rintro ⟨_, -, hlt, -⟩
        exact hlt
      · intro hlt
        exact ⟨_, fun entry he => hdivisible entry (List.takeWhile_subset _ he), hlt, rfl⟩
    constructor
    · intro hsome
      obtain ⟨response, hresponse⟩ := Option.isSome_iff_exists.mp hsome
      simp only [acceptResponse, Option.bind_eq_bind, Option.bind_eq_some_iff] at hresponse
      obtain ⟨total, htotal, all, hall, hmemory⟩ := hresponse
      obtain ⟨hdivisible, hsum, rfl⟩ := TransferManifest.totalChunks_eq_some.mp htotal
      split_ifs at hmemory with hlt
      have hnumbers := (hglobals hdivisible).mp (by rw [hall]; rfl)
      exact ⟨hdivisible, hsum, hnumbers, not_lt.mp hlt⟩
    · rintro ⟨hdivisible, hsum, hnumbers, hmemory⟩
      have htotal := TransferManifest.totalChunks_eq_some.mpr ⟨hdivisible, hsum, rfl⟩
      obtain ⟨all, hall⟩ := Option.isSome_iff_exists.mp ((hglobals hdivisible).mpr hnumbers)
      simp only [acceptResponse, htotal, hall, Option.bind_eq_bind, Option.bind_some,
        if_neg (not_lt.mpr hmemory), Option.isSome_some]

theorem openWriters_panic_iff (receiver : RecvTransfer) (manifest : TransferManifest)
    (entries : List FileEntry) (world : World) :
    (openWriters receiver manifest entries world).1 = .panic ↔
      ¬Sized receiver manifest entries world.disk := by
  induction entries generalizing world with
  | nil => simp [openWriters, Sized]
  | cons entry entries ih =>
    have hnew := ChunkWriter.new_eq_prepare receiver.host manifest.transferId entry.index
      (receiver.destOf entry) manifest.chunkSize.toNat entry.size.toNat world.disk
    have hcalls := (ChunkWriter.noPanic_prepare receiver.host (receiver.destOf entry)
      entry.size.toNat).ne_panic (s := world.disk) trivial
    simp only [openWriters, Sized]
    rcases hprepare : ChunkWriter.prepare receiver.host (receiver.destOf entry)
      entry.size.toNat world.disk with ⟨_ | e | _, disk⟩ <;> simp only [hprepare] at hnew
    · split_ifs at hnew with hdivisible
      · rw [Task.bind_of_ok (onDisk_of_ok hnew), Task.bind_eq_panic, ih]
        simp [hdivisible]
      · rw [Task.bind_of_panic (onDisk_of_panic hnew)]
        simp [hdivisible]
    · rw [Task.bind_of_err (onDisk_of_err hnew)]
      simp
    · exact absurd (congrArg Prod.fst hprepare) hcalls

/-! ### What never panics -/

theorem noPanic_onDisk {ε ε' α : Type} {f : ε → ε'} {t : Task Disk ε α} (ht : Task.NoPanic t) :
    Task.NoPanic (onDisk (Task.mapErr f t)) :=
  Task.Ends.zoom (ht.mapErr f) (fun _ _ => trivial) fun _ _ _ _ _ => trivial

theorem noPanic_send (noise : Noise) (message : Message) :
    Task.NoPanic (send noise message) := by
  refine Task.Ends.zoom (J := fun _ => True) (K := fun _ _ => True) ?_ (fun _ _ => trivial)
    fun _ _ _ _ _ => trivial
  intro codec _
  have hcases := (ProtocolCodec.send_cases noise message codec).2
  rcases hsend : ProtocolCodec.send noise message codec with ⟨_ | e | _, codec'⟩
  · trivial
  · trivial
  · simp [hsend] at hcases

theorem noPanic_finalize (host : Host) (writer : ChunkWriter) :
    Task.NoPanic (writer.finalize host) :=
  ChunkWriter.ends_finalize.conseq (fun _ h => h) (fun _ _ h => h) fun _ _ => trivial

theorem noPanic_finishFiles {writers : List (Option ChunkWriter)} {entries : List FileEntry}
    {i : ℕ} (hlength : writers.length = i + entries.length) :
    Task.NoPanic (finishFiles receiver writers i entries) := by
  induction entries generalizing i with
  | nil => exact Task.NoPanic.pure true
  | cons entry entries ih =>
    rw [List.length_cons] at hlength
    have hlt : i < writers.length := by omega
    have hrest := ih (i := i + 1) (by omega)
    rw [finishFiles, List.getElem?_eq_getElem hlt]
    cases hwriter : writers[i] with
    | none => exact hrest
    | some writer =>
      dsimp only
      split_ifs with hcomplete
      · refine Task.NoPanic.bind (noPanic_onDisk (noPanic_finalize _ _)) fun dest => ?_
        exact Task.NoPanic.bind (Task.NoPanic.modify _) fun _ => hrest
      · refine Task.NoPanic.bind (Task.NoPanic.modify _) fun _ => ?_
        exact Task.NoPanic.bind hrest fun _ => Task.NoPanic.pure false

theorem noPanic_complete {state : RecvState}
    (hlength : state.writers.length = manifest.files.length) (manifestHash : Sha256Hash)
    (shutdownFault : Bool) :
    Task.NoPanic (complete receiver manifest state manifestHash shutdownFault) := by
  refine Task.NoPanic.bind (Task.NoPanic.when _ (Task.NoPanic.modify _)) fun _ => ?_
  refine Task.NoPanic.bind (noPanic_finishFiles (by omega)) fun allOk => ?_
  refine Task.NoPanic.bind (noPanic_send _ _) fun _ => ?_
  refine Task.NoPanic.bind (Task.NoPanic.when _ (Task.NoPanic.modify _)) fun _ => ?_
  exact Task.NoPanic.when _ (Task.NoPanic.fail _)

/-! ### The turns -/

theorem receiveLoop_panic_iff {turns : List Turn} {chunks : List Delivery} {state : RecvState}
    {world : World} (h : Receiving receiver manifest chunks state world) :
    (receiveLoop receiver manifest turns state world).1 = .panic ↔
      ¬Countable manifest state.bytesReceived turns := by
  induction turns generalizing chunks state world with
  | nil =>
    obtain ⟨world', -, hrun⟩ := saving_run h.writers "connection closed"
      (Task.fail (.cancelled "connection closed")) world
    rw [receiveLoop, hrun]
    simp [Countable]
  | cons turn turns ih =>
    have hbegin : World.beginTurn turn world = (.ok (), (World.beginTurn turn world).2) := rfl
    have hturn := h.beginTurn turn
    rw [receiveLoop, Task.bind_of_ok hbegin, Countable]
    rcases hrecv : turn.recv with e | _ | message
    · simp
    · obtain ⟨world', -, hrun⟩ := saving_run hturn.writers "connection closed"
        (Task.fail (.cancelled "connection closed")) (World.beginTurn turn world).2
      simp [hrun]
    · cases message with
      | chunkData id data =>
        dsimp only
        by_cases htakes : Takes manifest turn (id, data)
        · rcases hturn.handleChunk_of_takes htakes rfl rfl with
            ⟨hbytes, state₂, world₂, hchunk⟩ | ⟨hover, world₂, -, hchunk, -⟩
          · obtain ⟨-, -, -, -, hcount, -⟩ := handleChunk_eq_ok hchunk
            rw [Task.bind_of_ok hchunk, ih (Receiving.step hturn hchunk), hcount]
            exact not_congr ⟨fun hrest _ => ⟨hbytes, hrest⟩, fun hall => (hall htakes).2⟩
          · rw [Task.bind_of_panic hchunk]
            exact iff_of_true rfl fun hall => hover (hall htakes).1
        · obtain ⟨e, world₂, hchunk, -, -⟩ := hturn.handleChunk_of_not_takes htakes rfl rfl
          rw [Task.bind_of_err hchunk]
          simp [htakes]
      | transferComplete manifestHash =>
        have hends : Task.NoPanic
            (complete receiver manifest state manifestHash turn.shutdownFault) :=
          noPanic_complete hturn.writers.length_eq manifestHash turn.shutdownFault
        exact iff_of_false (hends.ne_panic trivial) (not_not_intro trivial)
      | cancel reason =>
        obtain ⟨world', -, hrun⟩ := saving_run hturn.writers "cancelled by sender"
          (do
            emit (.cancelled manifest.transferId)
            Task.fail (.cancelled reason)) (World.beginTurn turn world).2
        simp only [hrun]
        exact iff_of_false (by simp [emit]) (not_not_intro trivial)
      | _ => simp

/-! ### The run -/

/-- The three places have a value where the run reaches them: the answer at once, the
divisions once the answer is out, the byte count once the writers are open. -/
structure Harmless (receiver : RecvTransfer) (manifest : TransferManifest) (script : Script)
    (world : World) : Prop where
  answerable : Answerable receiver manifest (world.resume manifest.transferId)
  sized : ∀ response,
    acceptResponse receiver manifest (world.resume manifest.transferId) = some response →
    (Message.transferResponse response).Fits → script.request.sendFault = false →
    Sized receiver manifest manifest.files (World.beginTurn script.request world).2.disk
  countable : Opens receiver manifest script world →
    Countable manifest (bytesBefore (world.resume manifest.transferId)) script.turns

/-- Once the answer is out, the divisions and the byte count decide. -/
theorem openWriters_bind_panic_iff {turns : List Turn} {bytes : ℕ} (world : World) :
    ((openWriters receiver manifest manifest.files >>= fun writers =>
      receiveLoop receiver manifest turns { writers, bytesReceived := bytes }) world).1 = .panic ↔
      ¬Sized receiver manifest manifest.files world.disk ∨
        (∃ writers, (openWriters receiver manifest manifest.files world).1 = .ok writers) ∧
          ¬Countable manifest bytes turns := by
  rw [Task.bind_eq_panic, openWriters_panic_iff]
  refine or_congr Iff.rfl ⟨?_, ?_⟩
  · rintro ⟨writers, world', hopen, hpanic⟩
    rw [receiveLoop_panic_iff (Receiving.start hopen _)] at hpanic
    exact ⟨⟨writers, by rw [hopen]⟩, hpanic⟩
  · rintro ⟨⟨writers, hopen⟩, hover⟩
    refine ⟨writers, _, Prod.ext hopen rfl, ?_⟩
    exact (receiveLoop_panic_iff (Receiving.start (Prod.ext hopen rfl) bytes)).mpr hover

theorem receiveFiles_panic_iff (receiver : RecvTransfer) (manifest : TransferManifest)
    (script : Script) (remoteStatic : PublicKey) (world : World) :
    (receiveFiles receiver manifest (world.resume manifest.transferId) script.turns
        (started script.request remoteStatic manifest world)).1 = .panic ↔
      ¬Harmless receiver manifest script world := by
  rcases receiveFiles_started receiver manifest (world.resume manifest.transferId) script.turns
    script.request remoteStatic world with ⟨hnone, hrun⟩ | ⟨response, hresponse, hrest⟩
  · rw [hrun]
    refine iff_of_true rfl fun hharmless => ?_
    have hsome := acceptResponse_isSome_iff.mpr hharmless.answerable
    simp [hnone] at hsome
  · have hanswerable : Answerable receiver manifest (world.resume manifest.transferId) :=
      acceptResponse_isSome_iff.mp (by rw [hresponse]; rfl)
    have hsame : ∀ response', acceptResponse receiver manifest
        (world.resume manifest.transferId) = some response' → response' = response :=
      fun response' hsome => Option.some.inj (hsome.symm.trans hresponse)
    rcases hrest with ⟨hunsent, e, codec, hrun⟩ | ⟨hfit, hfault, codec, -, hrun⟩ <;> rw [hrun]
    · refine iff_of_false (by simp) (not_not_intro ⟨hanswerable, ?_, ?_⟩)
      · intro response' hsome hfit hfault
        obtain rfl := hsame response' hsome
        exact absurd ⟨hfit, hfault⟩ hunsent
      · intro hopens
        obtain ⟨response', hsome, hfit⟩ := hopens.response
        obtain rfl := hsame response' hsome
        exact absurd ⟨hfit, hopens.sent⟩ hunsent
    · have hopened : (openWriters receiver manifest manifest.files
          { started script.request remoteStatic manifest world with codec }).1 =
          (openWriters receiver manifest manifest.files
            (World.beginTurn script.request world).2).1 := openWriters_congr rfl
      rw [openWriters_bind_panic_iff, hopened]
      constructor
      · rintro (hunsized | ⟨hopen, hover⟩) hharmless
        · exact hunsized (hharmless.sized response hresponse hfit hfault)
        · exact hover (hharmless.countable ⟨⟨response, hresponse, hfit⟩, hfault, hopen⟩)
      · intro hharm
        by_contra hcalm
        rw [not_or, not_not, not_and, not_not] at hcalm
        exact hharm ⟨hanswerable, fun _ _ _ _ => hcalm.1, fun hopens => hcalm.2 hopens.opened⟩

/-- A receiver panics exactly when it accepts a manifest that does it harm. -/
theorem ne_panic_iff (receiver : RecvTransfer) (script : Script) (world : World) :
    (handleIncoming receiver script world).1 ≠ .panic ↔
      ∀ remoteStatic manifest, script.handshake = .ok remoteStatic →
        script.request.recv = .ok (some (.transferRequest manifest)) →
        receiver.decisionOf script.decision = .accept →
        Harmless receiver manifest script world := by
  cases hhandshake : script.handshake with
  | error e => simp [handleIncoming, hhandshake]
  | ok remoteStatic =>
    by_cases hrequest : ∃ manifest, script.request.recv = .ok (some (.transferRequest manifest))
    · obtain ⟨manifest, hrequest⟩ := hrequest
      cases hdecision : receiver.decisionOf script.decision with
      | reject reason =>
        rw [handleIncoming_of_reject hhandshake hrequest hdecision]
        have hends := Task.NoPanic.bind
          (noPanic_send receiver.noise (.transferResponse (.reject reason)))
          fun _ => Task.NoPanic.fail (α := Unit) (.rejected reason)
        exact iff_of_true (hends.ne_panic trivial) (by simp)
      | accept =>
        rw [handleIncoming_of_accept hhandshake hrequest hdecision, ne_eq,
          receiveFiles_panic_iff, not_not]
        simp [hrequest]
    · have hnone : ∀ manifest,
          script.request.recv ≠ .ok (some (.transferRequest manifest)) := by
        simpa using hrequest
      refine iff_of_true ?_ fun _ manifest _ h => absurd h (hnone manifest)
      simp only [handleIncoming, hhandshake, connect, beginTurn, Task.modify_bind_run]
      rcases hrecv : script.request.recv with e | _ | message
      · simp
      · simp
      · cases message with
        | transferRequest manifest => exact absurd hrecv (hnone manifest)
        | _ => simp

/-- An accepted offer of one byte in chunks of this size, with this state stored. -/
def offerByte (chunkSize : UInt32) (stored : Option TransferResumeState) :
    Outcome ProtocolError Unit :=
  (handleIncoming (plainReceiver 100)
    (peerScript (Vector.replicate 32 1) (plainManifest chunkSize [plainEntry 0 "a.txt" [1]])
      (some .accept) [(⟨0, 0⟩, [1])] (sumHash []))
    { emptyWorld with resume := fun _ => stored }).1

/-- A state that has counted as many bytes as 64 bits hold. -/
def fullState : TransferResumeState where
  transferId := Vector.replicate 16 7
  files := []
  bytesTransferred := 0 - 1
  totalBytes := 1

/-- A chunk size of zero panics at once, a full byte count at the first chunk. -/
theorem panic_zero_chunkSize_and_full_count :
    offerByte 0 none = .panic ∧ offerByte 1 (some fullState) = .panic := by
  decide +kernel

end RecvTransfer
end JustDrop

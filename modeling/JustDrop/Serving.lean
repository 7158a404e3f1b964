import JustDrop.Containment
import JustDrop.HonestRun
import JustDrop.Runs

/-!
# Serving connections

The daemon and the C interface accept one connection after another and hand each to the
receiver. Over all of them the receiver only adds to the disk: what stands at a place that
is not a temporary file's stays there, and every published file takes a place of its own.
A daemon that does not accept everything asks nobody, and so takes nothing.
-/
namespace JustDrop

/-! ### Accepting -/

/-- Who accepts the connections. -/
inductive FrontEnd where
  | daemon
  | cInterface
  deriving DecidableEq, Repr

/-- What the accept loop leaves in the decision channel of a connection before it drops
its own end. -/
def FrontEnd.decision (front : FrontEnd) (config : Config) : Option IncomingTransferDecision :=
  match front with
  | .daemon => if config.security.autoAcceptAll then some .accept else none
  | .cInterface => some .accept

/-- Every connection has its own codec, channels and log. -/
def World.accepted (world : World) : World :=
  { world with
    codec := ProtocolCodec.new (SecureTransport.new ⟨0, 0, Vector.replicate 32 0⟩ [])
    events := []
    published := []
    warnings := [] }

/-- The places of the files that were published. -/
def Host.placed (host : Host) (published : List (ℕ × Path)) : List Loc :=
  published.map fun file => host.locate file.2

/-- The world between two connections, what all peers were told and where files were
published. -/
structure Reception where
  world : World
  told : List Message
  shelf : List Loc

namespace Reception

def serve (receiver : RecvTransfer) (front : FrontEnd) (script : Script) (s : Reception) :
    Reception :=
  let script := { script with decision := front.decision receiver.config }
  let world := (receiver.handleIncoming script s.world.accepted).2
  { world
    told := s.told ++ world.codec.sent
    shelf := s.shelf ++ receiver.host.placed world.published }

/-- A round of the accept loop; a failed accept is logged. -/
inductive Step (receiver : RecvTransfer) (front : FrontEnd) (s : Reception) :
    Option Script → Reception → Prop where
  | served (script : Script) : Step receiver front s (some script) (s.serve receiver front script)
  | failed : Step receiver front s none s

end Reception

/-! ### Places that no writer uses -/

/-- Not the place of a temporary file. -/
def Settled (loc : Loc) : Prop := ¬".justdrop_partial".toList <:+ loc.getLast?.getD []

instance (loc : Loc) : Decidable (Settled loc) := inferInstanceAs (Decidable (¬_))

namespace ChunkWriter
variable {host : Host} {destPath : Path} {l : Loc} {node : Node}

/-- A temporary path that ends in a name ends in one of its own kind. -/
theorem settled_ne_tempOf (hsettled : Settled l) (hname : (tempOf destPath).dirOnly = false) :
    l ≠ host.locate (tempOf destPath) := by
  rintro rfl
  rw [tempOf, Path.dirOnly_withExtension, Option.isNone_eq_false_iff,
    Option.isSome_iff_exists] at hname
  obtain ⟨cut, hcut⟩ := hname
  refine hsettled ?_
  rw [Host.locate, tempOf, Path.locate_withExtension hcut, List.getLast?_concat]
  exact ⟨stemOf cut, rfl⟩

theorem settled_ne_temp {transferId : TransferId} {fileIndex : UInt32} {chunkSize fileSize : ℕ}
    {d d' : Disk} {writer : ChunkWriter} (hsettled : Settled l)
    (h : new host transferId fileIndex destPath chunkSize fileSize d = (.ok writer, d')) :
    l ≠ host.locate writer.tempPath := by
  rw [(new_eq_ok h).1]
  exact settled_ne_tempOf hsettled (dirOnly_of_new h)

/-- Opening a writer leaves what stands at a settled place. -/
theorem keeps_new_settled {transferId : TransferId} {fileIndex : UInt32} {chunkSize fileSize : ℕ}
    (hsettled : Settled l) : Task.Keeps (fun d => d.lookup l = some node)
      (new host transferId fileIndex destPath chunkSize fileSize) :=
  keeps_new_lookup fun hname => settled_ne_tempOf hsettled hname

end ChunkWriter

/-! ### One connection -/

/-- What stood at settled places before is there, every published file has a settled place
of its own that was free, and something is there. -/
structure Shelved (host : Host) (before : Disk) (shelf : List Loc) (world : World) : Prop where
  kept : ∀ l node, Settled l → before.lookup l = some node →
    world.disk.lookup l = some node
  distinct : ((shelf ++ host.placed world.published).filter (Settled ·)).Nodup
  present : ∀ l ∈ shelf ++ host.placed world.published, Settled l →
    ∃ node, world.disk.lookup l = some node
  free : ∀ l ∈ shelf ++ host.placed world.published, Settled l →
    before.lookup l = none

section Shelved
variable {host : Host} {before : Disk} {shelf : List Loc}

theorem Shelved.of_kept {world world' : World} (h : Shelved host before shelf world)
    (hpublished : world'.published = world.published)
    (hkept : ∀ l node, Settled l → world.disk.lookup l = some node →
      world'.disk.lookup l = some node) : Shelved host before shelf world' where
  kept l node hl hbefore := hkept l node hl (h.kept l node hl hbefore)
  distinct := hpublished ▸ h.distinct
  present l hmem hl := by
    rw [hpublished] at hmem
    obtain ⟨node, hnode⟩ := h.present l hmem hl
    exact ⟨node, hkept l node hl hnode⟩
  free := hpublished ▸ h.free

theorem keeps_shelved_onDisk {ε α : Type} {f : StorageError → ε} {t : Task Disk StorageError α}
    (h : ∀ l node, Settled l → Task.Keeps (fun d => d.lookup l = some node) t) :
    Task.Keeps (Shelved host before shelf) (World.onDisk (Task.mapErr f t)) := by
  intro world hworld
  refine hworld.of_kept rfl fun l node hl hnode => ?_
  exact Task.Keeps.mapErr f (h l node hl) world.disk hnode

/-- A published file goes to a place that was free, in all of the run. -/
theorem Shelved.publish {world : World} (h : Shelved host before shelf world)
    {writer : ChunkWriter} (htemp : ∀ l, Settled l → l ≠ host.locate writer.tempPath)
    {disk : Disk} {dest : Path} (hfinalize : writer.finalize host world.disk = (.ok dest, disk))
    (i : ℕ) : Shelved host before shelf
      { world with
        disk
        published := world.published ++ [(i, dest)] } := by
  have hkeeps : ∀ l node, Settled l → world.disk.lookup l = some node →
      disk.lookup l = some node := by
    intro l node hl hnode
    have hkept := ChunkWriter.keeps_finalize_lookup (htemp l hl) world.disk hnode
    rwa [hfinalize] at hkept
  obtain ⟨hfree, node, -, hlookup⟩ := ChunkWriter.finalize_eq_ok hfinalize
  have hplaced : host.placed (world.published ++ [(i, dest)]) =
      host.placed world.published ++ [host.locate dest] := by
    simp [Host.placed]
  refine ⟨fun l other hl hbefore => hkeeps l other hl (h.kept l other hl hbefore), ?_, ?_, ?_⟩
  · rw [hplaced, ← List.append_assoc, List.filter_append, List.nodup_append]
    refine ⟨h.distinct, (List.nodup_singleton _).filter _, ?_⟩
    rintro l hl _ hdest rfl
    rw [List.mem_filter, decide_eq_true_eq] at hl hdest
    obtain rfl := List.mem_singleton.mp hdest.1
    obtain ⟨other, hother⟩ := h.present _ hl.1 hl.2
    rw [hfree] at hother
    simp at hother
  · intro l hmem hl
    rw [hplaced, ← List.append_assoc, List.mem_append, List.mem_singleton] at hmem
    rcases hmem with hmem | rfl
    · obtain ⟨other, hother⟩ := h.present l hmem hl
      exact ⟨other, hkeeps l other hl hother⟩
    · exact ⟨node, by rw [hlookup, if_pos rfl]⟩
  · intro l hmem hl
    rw [hplaced, ← List.append_assoc, List.mem_append, List.mem_singleton] at hmem
    rcases hmem with hmem | rfl
    · exact h.free l hmem hl
    · cases hbefore : before.lookup (host.locate dest) with
      | none => rfl
      | some other =>
        rw [h.kept _ other hl hbefore] at hfree
        simp at hfree

/-- The files of a connection join the shelf when the next one begins. -/
theorem Shelved.accepted {world : World} (h : Shelved host before shelf world) :
    Shelved host before (shelf ++ host.placed world.published) world.accepted := by
  have hnil : shelf ++ host.placed world.published ++ host.placed world.accepted.published =
      shelf ++ host.placed world.published := List.append_nil _
  refine ⟨h.kept, ?_, ?_, ?_⟩
  · rw [hnil]
    exact h.distinct
  · rw [hnil]
    exact h.present
  · rw [hnil]
    exact h.free

end Shelved

namespace RecvTransfer
open World

variable {receiver : RecvTransfer} {manifest : TransferManifest} {before : Disk}
  {shelf : List Loc}

/-- No writer has its temporary file at a settled place. -/
def Apart (receiver : RecvTransfer) (writers : List (Option ChunkWriter)) : Prop :=
  ∀ writer : ChunkWriter, some writer ∈ writers → ∀ l, Settled l →
    l ≠ receiver.host.locate writer.tempPath

theorem keeps_send_shelved (message : Message) :
    Task.Keeps (Shelved receiver.host before shelf) (send receiver.noise message) :=
  fun _ h => h.of_kept rfl fun _ _ _ hnode => hnode

theorem keeps_openWriters_shelved (entries : List FileEntry) :
    Task.Keeps (Shelved receiver.host before shelf) (openWriters receiver manifest entries) := by
  induction entries with
  | nil => exact Task.Keeps.pure _
  | cons entry entries ih =>
    refine Task.Keeps.bind (keeps_shelved_onDisk fun l node hl => ?_) fun _ => ?_
    · exact ChunkWriter.keeps_new_settled hl
    · exact Task.Keeps.bind ih fun _ => Task.Keeps.pure _

theorem apart_openWriters {entries : List FileEntry} {world world' : World}
    {writers : List (Option ChunkWriter)}
    (h : openWriters receiver manifest entries world = (.ok writers, world')) :
    receiver.Apart writers := by
  induction entries generalizing world writers with
  | nil =>
    obtain rfl : [] = writers := by simpa [openWriters] using congrArg Prod.fst h
    simp [Apart]
  | cons entry entries ih =>
    obtain ⟨writer, world₁, hnew, hrest⟩ := Task.bind_eq_ok.mp h
    obtain ⟨others, world₂, hothers, hwriters⟩ := Task.bind_eq_ok.mp hrest
    obtain ⟨disk, hdisk, -⟩ := onDisk_eq_ok.mp hnew
    obtain rfl : some writer :: others = writers := by
      simpa using congrArg Prod.fst hwriters
    obtain rfl : world₂ = world' := congrArg Prod.snd hwriters
    intro w hw l hl
    rcases List.mem_cons.mp hw with hfirst | hmem
    · obtain rfl := Option.some.inj hfirst
      exact ChunkWriter.settled_ne_temp hl (Task.mapErr_eq_ok.mp hdisk)
    · exact ih hothers w hmem l hl

theorem Apart.step {state state' : RecvState} {id : ChunkId} {data : Bytes}
    {world world' : World} (h : receiver.Apart state.writers)
    (hchunk : handleChunk receiver manifest state id data world = (.ok state', world')) :
    receiver.Apart state'.writers := by
  obtain ⟨writer, hwriter, -, hset, -⟩ := handleChunk_eq_ok hchunk
  intro w hw
  rw [hset] at hw
  rcases List.mem_or_eq_of_mem_set hw with hold | hnew
  · exact h w hold
  · obtain rfl := Option.some.inj hnew
    exact h writer (List.mem_of_getElem? hwriter)

theorem keeps_finishFiles_shelved {writers : List (Option ChunkWriter)}
    (h : receiver.Apart writers) (entries : List FileEntry) (i : ℕ) :
    Task.Keeps (Shelved receiver.host before shelf) (finishFiles receiver writers i entries) := by
  induction entries generalizing i with
  | nil => exact Task.Keeps.pure _
  | cons entry entries ih =>
    unfold finishFiles
    split
    · exact Task.Keeps.panic
    · exact ih (i + 1)
    · rename_i writer hwriter
      have htemp := h writer (List.mem_of_getElem? hwriter)
      split_ifs
      · intro world hworld
        rcases hrun : writer.finalize receiver.host world.disk with ⟨dest | e | _, disk⟩
        · rw [Task.bind_of_ok (onDisk_of_ok hrun), Task.modify_bind_run]
          exact ih (i + 1) _ (hworld.publish htemp hrun i)
        · have hkept := keeps_shelved_onDisk (f := fun e => ProtocolError.serialization
            "finalize" (.storage e)) (fun l _ hl =>
              ChunkWriter.keeps_finalize_lookup (htemp l hl)) world hworld
          rw [onDisk_of_err hrun] at hkept
          rw [Task.bind_of_err (onDisk_of_err hrun)]
          exact hkept
        · have hkept := keeps_shelved_onDisk (f := fun e => ProtocolError.serialization
            "finalize" (.storage e)) (fun l _ hl =>
              ChunkWriter.keeps_finalize_lookup (htemp l hl)) world hworld
          rw [onDisk_of_panic hrun] at hkept
          rw [Task.bind_of_panic (onDisk_of_panic hrun)]
          exact hkept
      · refine Task.Keeps.bind (fun _ hw => hw.of_kept rfl fun _ _ _ hnode => hnode) fun _ => ?_
        exact Task.Keeps.bind (ih (i + 1)) fun _ => Task.Keeps.pure _

theorem keeps_receiveLoop_shelved {turns : List Turn} {state : RecvState}
    (h : receiver.Apart state.writers) :
    Task.Keeps (Shelved receiver.host before shelf)
      (receiveLoop receiver manifest turns state) := by
  have hlogs : ∀ (world : World) resume events warnings,
      Shelved receiver.host before shelf world →
        Shelved receiver.host before shelf { world with resume, events, warnings } :=
    fun _ _ _ _ hworld => hworld.of_kept rfl fun _ _ _ hnode => hnode
  refine keeps_receiveLoop_of (S := fun state => receiver.Apart state.writers)
    hlogs ?_ ?_ ?_ ?_ h
  · intro state id data hapart
    apply keeps_handleChunk_of
    · exact fun writer hwriter _ _ => keeps_shelved_onDisk fun l _ hl =>
        ChunkWriter.keeps_writeChunk_lookup (hapart writer hwriter l hl)
    · exact fun ack => keeps_send_shelved _
    · exact fun progress world hworld => hlogs world _ _ _ hworld
  · exact fun _ _ _ _ _ _ hapart hchunk => hapart.step hchunk
  · intro state manifestHash shutdownFault hapart
    apply keeps_complete_of
    · exact hlogs
    · exact keeps_finishFiles_shelved hapart
    · exact fun _ => keeps_send_shelved _
  · exact fun _ _ _ hworld => hworld.of_kept rfl fun _ _ _ hnode => hnode

theorem keeps_receiveFiles_shelved (resumeState : Option TransferResumeState)
    (turns : List Turn) : Task.Keeps (Shelved receiver.host before shelf)
      (receiveFiles receiver manifest resumeState turns) := by
  refine Task.Keeps.bind (Task.Keeps.ofChecked _) fun response => ?_
  refine Task.Keeps.bind (keeps_send_shelved _) fun _ => ?_
  intro world hworld
  have hopened : Shelved receiver.host before shelf
      (openWriters receiver manifest manifest.files world).2 :=
    keeps_openWriters_shelved manifest.files world hworld
  rcases hopen : openWriters receiver manifest manifest.files world with
    ⟨writers | e | _, world₁⟩ <;> rw [hopen] at hopened
  · rw [Task.bind_of_ok hopen]
    exact keeps_receiveLoop_shelved (apart_openWriters hopen) world₁ hopened
  · rw [Task.bind_of_err hopen]
    exact hopened
  · rw [Task.bind_of_panic hopen]
    exact hopened

/-- A connection ends before the request, with a rejection, or after the receiving. -/
theorem handleIncoming_of {I : World → Prop} {script : Script} {world : World} (hworld : I world)
    (hstart : ∀ codec faults events, I
      { world with
        disk := { world.disk with faults }
        codec
        events
        published := [] })
    (hreject : ∀ reason, receiver.decisionOf script.decision = .reject reason →
      Task.Keeps I (send receiver.noise (.transferResponse (.reject reason))))
    (haccept : ∀ manifest, receiver.decisionOf script.decision = .accept →
      Task.Keeps I (receiveFiles receiver manifest (world.resume manifest.transferId)
        script.turns)) : I (handleIncoming receiver script world).2 := by
  cases hhandshake : script.handshake with
  | error e => simpa [handleIncoming, hhandshake] using hworld
  | ok remoteStatic =>
    by_cases hrequest : ∃ manifest, script.request.recv = .ok (some (.transferRequest manifest))
    · obtain ⟨manifest, hrequest⟩ := hrequest
      cases hdecision : receiver.decisionOf script.decision with
      | reject reason =>
        rw [handleIncoming_of_reject hhandshake hrequest hdecision]
        exact ((hreject reason hdecision).bind fun _ => Task.Keeps.fail _) _ (hstart _ _ _)
      | accept =>
        rw [handleIncoming_of_accept hhandshake hrequest hdecision]
        exact haccept manifest hdecision _ (hstart _ _ _)
    · have hnothing : ∃ codec, (handleIncoming receiver script world).2 = { world with
          disk := { world.disk with faults := script.request.diskFaults }
          codec
          events := world.events
          published := [] } := by
        simp only [handleIncoming, hhandshake, connect, beginTurn, Task.modify_bind_run]
        cases hrecv : script.request.recv with
        | error e => exact ⟨_, rfl⟩
        | ok reply =>
          rcases reply with _ | message
          · exact ⟨_, rfl⟩
          · cases message <;> first | exact ⟨_, rfl⟩ | exact absurd ⟨_, hrecv⟩ hrequest
      obtain ⟨codec, hnothing⟩ := hnothing
      rw [hnothing]
      exact hstart codec _ _

end RecvTransfer

/-! ### All connections -/

namespace Reception
variable {receiver : RecvTransfer} {front : FrontEnd} {start s final : Reception}
  {taken later : List (Reception × Option Script)} {before : Disk}

theorem serve_world (script : Script) : (s.serve receiver front script).world =
    (receiver.handleIncoming { script with decision := front.decision receiver.config }
      s.world.accepted).2 := rfl

variable (front) in
theorem shelved_serve (script : Script)
    (h : Shelved receiver.host before s.shelf s.world.accepted) :
    Shelved receiver.host before s.shelf (s.serve receiver front script).world := by
  refine RecvTransfer.handleIncoming_of h ?_ ?_ ?_
  · exact fun _ _ _ => h.of_kept rfl fun _ _ _ hnode => hnode
  · exact fun _ _ => RecvTransfer.keeps_send_shelved _
  · exact fun _ _ => RecvTransfer.keeps_receiveFiles_shelved _ _

variable (receiver start) in
theorem shelved_start (hshelf : start.shelf = []) :
    Shelved receiver.host start.world.disk start.shelf start.world.accepted := by
  rw [hshelf]
  refine ⟨fun _ _ _ h => h, ?_, ?_, ?_⟩ <;> simp [World.accepted, Host.placed]

theorem lookup_of_run (run : Run (Step receiver front) s later final) {l : Loc} {node : Node}
    (hl : Settled l) (hnode : s.world.disk.lookup l = some node) :
    final.world.disk.lookup l = some node := by
  induction run with
  | refl => exact hnode
  | @snoc _ t _ _ run last ih =>
    cases last with
    | served script =>
      have hstart := shelved_start receiver { t with shelf := [] } rfl
      exact (shelved_serve front script hstart).kept l node hl ih
    | failed => exact ih

theorem shelved_of_run (hshelf : start.shelf = [])
    (run : Run (Step receiver front) start taken s) :
    Shelved receiver.host start.world.disk s.shelf s.world.accepted := by
  induction run with
  | refl => exact shelved_start receiver start hshelf
  | snoc run last ih =>
    cases last with
    | served script => exact (shelved_serve front script ih).accepted
    | failed => exact ih

/-- No connection yet. -/
def opened : Reception :=
  { world := RecvTransfer.emptyWorld
    told := []
    shelf := [] }

/-- One file was received. -/
def once : Reception := opened.serve (RecvTransfer.plainReceiver 100) .cInterface smallScript

/-- A file of the same name followed. -/
def again : Reception := once.serve (RecvTransfer.plainReceiver 100) .cInterface smallScript

def smallPlace : Loc := (RecvTransfer.plainReceiver 100).host.locate
  (Path.ofString "/home/JustDrop/a.txt")

/-- The disk was not touched, and nothing was stored or published. -/
def Unmoved (before world : World) : Prop :=
  world.disk.nodes = before.disk.nodes ∧ world.disk.touched = before.disk.touched ∧
    world.resume = before.resume ∧ world.published = []

/-- A connection that is not accepted leaves everything as it is. -/
theorem unmoved_serve {reason : String} (script : Script)
    (hdecision : receiver.decisionOf (front.decision receiver.config) = .reject reason) :
    Unmoved s.world (s.serve receiver front script).world ∧
      ∀ m ∈ (s.serve receiver front script).world.codec.sent,
        m = .transferResponse (.reject reason) := by
  constructor
  · refine RecvTransfer.handleIncoming_of (I := Unmoved s.world) ⟨rfl, rfl, rfl, rfl⟩ ?_ ?_ ?_
    · exact fun _ _ _ => ⟨rfl, rfl, rfl, rfl⟩
    · exact fun _ _ _ h => h
    · intro manifest haccept
      rw [hdecision] at haccept
      simp at haccept
  · exact sent_of_reject rfl hdecision

/-- A daemon that does not accept everything never touches the disk, whoever connects, and
tells its peers nothing but that there was no response. -/
theorem refused_of_run (hconfig : receiver.config.security.autoAcceptAll = false)
    (run : Run (Step receiver .daemon) start taken final) :
    final.world.disk.nodes = start.world.disk.nodes ∧
      final.world.disk.touched = start.world.disk.touched ∧
      final.world.resume = start.world.resume ∧ final.shelf = start.shelf ∧
      ∀ m ∈ final.told, m ∈ start.told ∨ m = .transferResponse (.reject "no response") := by
  have hdecision : receiver.decisionOf (FrontEnd.daemon.decision receiver.config) =
      .reject "no response" := by
    simp [RecvTransfer.decisionOf, FrontEnd.decision, hconfig]
  induction run with
  | refl => exact ⟨rfl, rfl, rfl, rfl, fun m hm => Or.inl hm⟩
  | @snoc _ t _ _ run last ih =>
    obtain ⟨hnodes, htouched, hresume, hshelf, htold⟩ := ih
    cases last with
    | served script =>
      obtain ⟨⟨hnodes', htouched', hresume', hpublished⟩, hsent⟩ :=
        unmoved_serve (s := t) script hdecision
      refine ⟨hnodes'.trans hnodes, htouched'.trans htouched, hresume'.trans hresume, ?_, ?_⟩
      · rw [← hshelf]
        exact (congrArg (fun p => t.shelf ++ receiver.host.placed p) hpublished).trans
          (List.append_nil _)
      · intro m hm
        rcases List.mem_append.mp hm with hbefore | hnew
        · exact htold m hbefore
        · exact Or.inr (hsent m hnew)
    | failed => exact ⟨hnodes, htouched, hresume, hshelf, htold⟩

theorem refused_of_run_small :
    (opened.serve (RecvTransfer.plainReceiver 100) .daemon smallScript).world.disk.nodes =
      opened.world.disk.nodes := by
  have hrun : Run (Step (RecvTransfer.plainReceiver 100) .daemon) opened
      [(opened, some smallScript)]
      (opened.serve (RecvTransfer.plainReceiver 100) .daemon smallScript) :=
    Run.snoc .refl (.served smallScript)
  exact (refused_of_run rfl hrun).1

end Reception
end JustDrop

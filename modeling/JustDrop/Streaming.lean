import JustDrop.HonestRun

/-!
# When a send returns

The files, the peer's response and the skipped chunks determine the chunks that
remain to be sent. A send returns exactly when the peer answers the request, these
chunks and the completion as it should, turn by turn, and no call fails.
-/
namespace JustDrop

/-- The message that carries a chunk. -/
def ReadChunk.message (chunk : ReadChunk) : Message := .chunkData chunk.id chunk.data

/-- The identifier of a chunk is its place. -/
theorem FileChunker.id_readChunk {host : ReadHost} {chunker : FileChunker} {file : Bytes} {k : ℕ}
    {chunk : ReadChunk} (h : chunker.readChunk host file k = some chunk) :
    chunk.id = { fileIndex := chunker.fileIndex, chunkOffset := UInt64.ofNat k } := by
  obtain ⟨-, -, rfl⟩ := readChunk_eq_some.mp h
  rfl

theorem FileChunker.sha256_readChunk {host : ReadHost} {chunker : FileChunker} {file : Bytes}
    {k : ℕ} {chunk : ReadChunk} (h : chunker.readChunk host file k = some chunk) :
    chunk.sha256 = host.sha256 chunk.data := by
  obtain ⟨-, -, rfl⟩ := readChunk_eq_some.mp h
  rfl

namespace SendWorld

/-- What a successful exchange has done. -/
theorem exchange_eq_ok {noise : Noise} {turn : SendTurn} {message : Message}
    {world world' : SendWorld} {reply : Option Message}
    (h : exchange noise turn message world = (.ok reply, world')) :
    turn.recv = .ok reply ∧ message.Fits ∧ turn.sendFault = false ∧
      world'.codec.sent = world.codec.sent ++ [message] ∧ world'.turns = world.turns := by
  have hstate : world' = _ := (congrArg Prod.snd h).symm.trans
    (exchange_snd noise turn message world)
  rcases (ProtocolCodec.send_cases noise message
    (world.codec.withWriteFault turn.sendFault)).2 with ⟨hok, hfit, hsent⟩ | ⟨⟨e, herr⟩, -⟩
  · have hreply := exchange_of_ok hok
    rw [h] at hreply
    have hcalm : turn.sendFault = false := by
      cases hfault : turn.sendFault with
      | false => rfl
      | true =>
        obtain ⟨codec, hsend, -⟩ := ProtocolCodec.send_of_fault noise
          (world.codec.withWriteFault turn.sendFault) hfit hfault
        simp [hsend] at hok
    have hrecv : turn.recv = .ok reply := by
      cases hturn : turn.recv with
      | error e => simp [hturn] at hreply
      | ok received =>
        simp only [hturn, Outcome.ok.injEq] at hreply
        rw [hreply]
    exact ⟨hrecv, hfit, hcalm, by rw [hstate]; exact hsent, by rw [hstate]⟩
  · have hreply := exchange_of_err herr
    simp [h] at hreply

/-- An exchange succeeds when its message goes out and something is received. -/
theorem exchange_of_recv (noise : Noise) {turn : SendTurn} {message : Message}
    {reply : Option Message} (hfit : message.Fits) (hcalm : turn.sendFault = false)
    (hrecv : turn.recv = .ok reply) (world : SendWorld) :
    ∃ world', exchange noise turn message world = (.ok reply, world') := by
  obtain ⟨codec, hsend, -, -⟩ := ProtocolCodec.send_of_fits noise
    (world.codec.withWriteFault turn.sendFault) hfit hcalm
  have hreply := exchange_of_ok (congrArg Prod.fst hsend)
  rw [hrecv] at hreply
  exact ⟨_, Prod.ext hreply rfl⟩

/-- A turn in which something is received is the next of the listed ones. -/
theorem nextTurn_of_recv {turn : SendTurn} {message : Message} {world world' : SendWorld}
    (h : nextTurn world = (.ok turn, world')) (hrecv : turn.recv = .ok (some message)) :
    world.turns[0]? = some turn := by
  have hhead : world.turns.headD .closed = turn := Outcome.ok.inj (congrArg Prod.fst h)
  cases hlist : world.turns with
  | nil =>
    rw [hlist] at hhead
    rw [← hhead] at hrecv
    simp [SendTurn.closed] at hrecv
  | cons first rest =>
    rw [hlist] at hhead
    exact congrArg some hhead

/-- A turn in which a chunk goes out and is acknowledged. -/
structure Carries (turn : SendTurn) (chunk : ReadChunk) : Prop where
  read : turn.readFault = false
  sent : turn.sendFault = false
  fits : chunk.message.Fits
  acked : ∃ ack, turn.recv = .ok (some (.chunkAck ack))

/-- The turns carry the chunks, one after the other. -/
def CarriesAll (turns : List SendTurn) (chunks : List ReadChunk) : Prop :=
  ∀ (j : ℕ) (chunk : ReadChunk), chunks[j]? = some chunk →
    ∃ turn, turns[j]? = some turn ∧ Carries turn chunk

theorem carriesAll_nil (turns : List SendTurn) : CarriesAll turns [] := by
  intro j chunk hj
  simp at hj

theorem carriesAll_append {turns : List SendTurn} {chunks rest : List ReadChunk} :
    CarriesAll turns (chunks ++ rest) ↔
      CarriesAll turns chunks ∧ CarriesAll (turns.drop chunks.length) rest := by
  constructor
  · intro h
    constructor
    · intro j chunk hj
      have hlt := (List.getElem?_eq_some_iff.mp hj).1
      exact h j chunk (by rw [List.getElem?_append_left hlt, hj])
    · intro j chunk hj
      obtain ⟨turn, hturn, hcarries⟩ := h (chunks.length + j) chunk (by
        rw [List.getElem?_append_right (Nat.le_add_right _ _), Nat.add_sub_cancel_left, hj])
      exact ⟨turn, by rw [List.getElem?_drop, hturn], hcarries⟩
  · rintro ⟨hfirst, hrest⟩ j chunk hj
    by_cases hlt : j < chunks.length
    · rw [List.getElem?_append_left hlt] at hj
      exact hfirst j chunk hj
    · rw [not_lt] at hlt
      rw [List.getElem?_append_right hlt] at hj
      obtain ⟨turn, hturn, hcarries⟩ := hrest (j - chunks.length) chunk hj
      rw [List.getElem?_drop, Nat.add_sub_cancel' hlt] at hturn
      exact ⟨turn, hturn, hcarries⟩

/-- A part of a run that sends these chunks, each acknowledged in its turn. -/
structure Streamed (before after : SendWorld) (chunks : List ReadChunk) : Prop where
  sent : after.codec.sent = before.codec.sent ++ chunks.map ReadChunk.message
  turns : after.turns = before.turns.drop chunks.length
  carried : CarriesAll before.turns chunks

theorem Streamed.refl (world : SendWorld) : Streamed world world [] := by
  constructor
  · simp
  · simp
  · exact carriesAll_nil _

theorem Streamed.trans {before middle after : SendWorld} {chunks rest : List ReadChunk}
    (h : Streamed before middle chunks) (hrest : Streamed middle after rest) :
    Streamed before after (chunks ++ rest) := by
  constructor
  · rw [hrest.sent, h.sent, List.map_append, List.append_assoc]
  · rw [hrest.turns, h.turns, List.drop_drop, List.length_append]
  · rw [carriesAll_append, ← h.turns]
    exact ⟨h.carried, hrest.carried⟩

end SendWorld

namespace SendTransfer
open SendWorld

variable {sender : SendTransfer} {peer : DeviceInfo} {paths : List Path} {script : SendScript}
  {manifest : TransferManifest} {skip : Finset ℕ}

/-! ### The chunks that are sent -/

/-- What is read for those of the listed chunks of a file that are not skipped. -/
def plannedOf (sender : SendTransfer) (manifest : TransferManifest) (skip : Finset ℕ)
    (chunker : FileChunker) (file : Bytes) : List ℕ → Option (List ReadChunk)
  | [] => some []
  | k :: offsets => do
    let globalOffset ← globalChunkOffset manifest chunker.fileIndex k
    let rest ← plannedOf sender manifest skip chunker file offsets
    if globalOffset ∈ skip then some rest
    else (chunker.readChunk sender.host file k).map (· :: rest)

/-- The chunker of the `i`-th file as the file is when its chunks are sent. -/
def chunkerOf (sender : SendTransfer) (script : SendScript) (i : ℕ) (file : FileEntry × Path) :
    Except StorageError FileChunker :=
  FileChunker.open file.2 (script.streamed file.2) (UInt32.ofNat i)
    (effectiveChunkSize file.1.size.toNat sender.config.transfer.chunkSize.toNat)

/-- The chunks to send of the files from position `i` on, when all can be read. -/
def plannedFrom (sender : SendTransfer) (script : SendScript) (manifest : TransferManifest)
    (skip : Finset ℕ) : ℕ → List (FileEntry × Path) → Option (List ReadChunk)
  | _, [] => some []
  | i, file :: files =>
    match chunkerOf sender script i file with
    | .error _ => none
    | .ok chunker => do
      let count ← chunker.chunkCount
      let chunks ← plannedOf sender manifest skip chunker ((script.streamed file.2).getD [])
        (List.range count)
      let rest ← plannedFrom sender script manifest skip (i + 1) files
      some (chunks ++ rest)

/-- What a chunk adds to the byte count: a skipped one counts as a whole chunk. -/
def weight (sender : SendTransfer) (manifest : TransferManifest) (skip : Finset ℕ)
    (chunker : FileChunker) (file : Bytes) (k : ℕ) : ℕ :=
  if (globalChunkOffset manifest chunker.fileIndex k).any (· ∈ skip) then chunker.chunkSize
  else (chunker.readChunk sender.host file k).elim 0 (·.data.length)

/-- The byte count of the files from position `i` on. -/
def weightFrom (sender : SendTransfer) (script : SendScript) (manifest : TransferManifest)
    (skip : Finset ℕ) : ℕ → List (FileEntry × Path) → ℕ
  | _, [] => 0
  | i, file :: files =>
    match chunkerOf sender script i file with
    | .error _ => 0
    | .ok chunker => ((List.range (chunker.chunkCount.getD 0)).map
        (weight sender manifest skip chunker ((script.streamed file.2).getD []))).sum +
      weightFrom sender script manifest skip (i + 1) files

/-- The chunks that a response marks as received. -/
def markedBy (manifest : TransferManifest) (turn : SendTurn) : Finset ℕ :=
  match turn.recv with
  | .ok (some (.transferResponse (.resumeAt receivedChunks))) =>
    manifest.totalChunks.elim ∅ (decodeReceivedBitmap receivedChunks)
  | _ => ∅

/-- The chunks that are sent after the peer's response. -/
def planned (sender : SendTransfer) (script : SendScript) (manifest : TransferManifest)
    (paths : List Path) : Option (List ReadChunk) :=
  plannedFrom sender script manifest (markedBy manifest (firstTurn script)) 0
    (manifest.files.zip paths)

theorem fileIndex_chunkerOf {i : ℕ} {file : FileEntry × Path} {chunker : FileChunker}
    (h : chunkerOf sender script i file = .ok chunker) : chunker.fileIndex = UInt32.ofNat i := by
  unfold chunkerOf FileChunker.open at h
  split at h
  · simp at h
  · rw [← Except.ok.inj h]

/-- A chunk is planned because it is not skipped. -/
theorem of_mem_plannedOf {chunker : FileChunker} {file : Bytes} {offsets : List ℕ}
    {chunks : List ReadChunk}
    (h : plannedOf sender manifest skip chunker file offsets = some chunks)
    {chunk : ReadChunk} (hchunk : chunk ∈ chunks) :
    ∃ k ∈ offsets, chunker.readChunk sender.host file k = some chunk ∧
      ∃ globalOffset ∉ skip,
        globalChunkOffset manifest chunker.fileIndex k = some globalOffset := by
  induction offsets generalizing chunks with
  | nil =>
    obtain rfl := Option.some.inj h
    simp at hchunk
  | cons k offsets ih =>
    simp only [plannedOf, Option.bind_eq_bind, Option.bind_eq_some_iff] at h
    obtain ⟨globalOffset, hglobal, rest, hrest, h⟩ := h
    have hlater : chunk ∈ rest → ∃ j ∈ k :: offsets,
        chunker.readChunk sender.host file j = some chunk ∧
        ∃ other ∉ skip, globalChunkOffset manifest chunker.fileIndex j = some other := by
      intro hmem
      obtain ⟨j, hj, hread⟩ := ih hrest hmem
      exact ⟨j, List.mem_cons_of_mem k hj, hread⟩
    split_ifs at h with hskip
    · obtain rfl := Option.some.inj h
      exact hlater hchunk
    · obtain ⟨first, hread, rfl⟩ := Option.map_eq_some_iff.mp h
      rcases List.mem_cons.mp hchunk with rfl | hmem
      · exact ⟨k, List.mem_cons_self, hread, globalOffset, hskip, hglobal⟩
      · exact hlater hmem

/-- Every chunk of a file is skipped or planned. -/
theorem exists_mem_plannedOf {chunker : FileChunker} {file : Bytes} {offsets : List ℕ}
    {chunks : List ReadChunk}
    (h : plannedOf sender manifest skip chunker file offsets = some chunks)
    {k : ℕ} (hk : k ∈ offsets) :
    ∃ globalOffset, globalChunkOffset manifest chunker.fileIndex k = some globalOffset ∧
      (globalOffset ∈ skip ∨
        ∃ chunk ∈ chunks, chunker.readChunk sender.host file k = some chunk) := by
  induction offsets generalizing chunks with
  | nil => simp at hk
  | cons j offsets ih =>
    simp only [plannedOf, Option.bind_eq_bind, Option.bind_eq_some_iff] at h
    obtain ⟨globalOffset, hglobal, rest, hrest, h⟩ := h
    have hsub : ∀ chunk ∈ rest, chunk ∈ chunks := by
      intro chunk hmem
      split_ifs at h
      · obtain rfl := Option.some.inj h
        exact hmem
      · obtain ⟨first, -, rfl⟩ := Option.map_eq_some_iff.mp h
        exact List.mem_cons_of_mem first hmem
    rcases List.mem_cons.mp hk with rfl | hlater
    · refine ⟨globalOffset, hglobal, ?_⟩
      by_cases hskip : globalOffset ∈ skip
      · exact Or.inl hskip
      · rw [if_neg hskip] at h
        obtain ⟨first, hread, rfl⟩ := Option.map_eq_some_iff.mp h
        exact Or.inr ⟨first, List.mem_cons_self, hread⟩
    · obtain ⟨other, hother, hcase⟩ := ih hrest hlater
      refine ⟨other, hother, hcase.imp_right ?_⟩
      rintro ⟨chunk, hmem, hread⟩
      exact ⟨chunk, hsub chunk hmem, hread⟩

/-- What a plan for several files consists of. -/
theorem plannedFrom_cons_eq_some {i : ℕ} {file : FileEntry × Path}
    {files : List (FileEntry × Path)} {chunks : List ReadChunk}
    (h : plannedFrom sender script manifest skip i (file :: files) = some chunks) :
    ∃ chunker count first rest, chunkerOf sender script i file = .ok chunker ∧
      chunker.chunkCount = some count ∧
      plannedOf sender manifest skip chunker ((script.streamed file.2).getD [])
        (List.range count) = some first ∧
      plannedFrom sender script manifest skip (i + 1) files = some rest ∧
      chunks = first ++ rest := by
  unfold plannedFrom at h
  cases hchunker : chunkerOf sender script i file with
  | error e => simp [hchunker] at h
  | ok chunker =>
    simp only [hchunker, Option.bind_eq_bind, Option.bind_eq_some_iff, Option.some.injEq] at h
    obtain ⟨count, hcount, first, hfirst, rest, hrest, rfl⟩ := h
    exact ⟨chunker, count, first, rest, rfl, hcount, hfirst, hrest, rfl⟩

theorem of_mem_plannedFrom {i : ℕ} {files : List (FileEntry × Path)} {chunks : List ReadChunk}
    (h : plannedFrom sender script manifest skip i files = some chunks)
    {chunk : ReadChunk} (hchunk : chunk ∈ chunks) :
    ∃ p file chunker count, files[p]? = some file ∧
      chunkerOf sender script (i + p) file = .ok chunker ∧ chunker.chunkCount = some count ∧
      ∃ k < count, chunker.readChunk sender.host ((script.streamed file.2).getD []) k = some chunk ∧
        ∃ globalOffset ∉ skip,
          globalChunkOffset manifest chunker.fileIndex k = some globalOffset := by
  induction files generalizing i chunks with
  | nil =>
    obtain rfl := Option.some.inj h
    simp at hchunk
  | cons file files ih =>
    obtain ⟨chunker, count, first, rest, hchunker, hcount, hfirst, hrest, rfl⟩ :=
      plannedFrom_cons_eq_some h
    rcases List.mem_append.mp hchunk with hmem | hmem
    · obtain ⟨k, hk, hread⟩ := of_mem_plannedOf hfirst hmem
      exact ⟨0, file, chunker, count, rfl, hchunker, hcount, k, List.mem_range.mp hk, hread⟩
    · obtain ⟨p, other, otherChunker, otherCount, hp, hother, hrest⟩ := ih hrest hmem
      rw [Nat.add_assoc, Nat.add_comm 1 p] at hother
      exact ⟨p + 1, other, otherChunker, otherCount, hp, hother, hrest⟩

theorem exists_mem_plannedFrom {i : ℕ} {files : List (FileEntry × Path)} {chunks : List ReadChunk}
    (h : plannedFrom sender script manifest skip i files = some chunks) {p : ℕ}
    {file : FileEntry × Path} {chunker : FileChunker} {count k : ℕ} (hp : files[p]? = some file)
    (hchunker : chunkerOf sender script (i + p) file = .ok chunker)
    (hcount : chunker.chunkCount = some count) (hk : k < count) :
    ∃ globalOffset, globalChunkOffset manifest chunker.fileIndex k = some globalOffset ∧
      (globalOffset ∈ skip ∨ ∃ chunk ∈ chunks,
        chunker.readChunk sender.host ((script.streamed file.2).getD []) k = some chunk) := by
  induction files generalizing i p chunks with
  | nil => simp at hp
  | cons head files ih =>
    obtain ⟨headChunker, headCount, first, rest, hhead, hheadCount, hfirst, hrest, rfl⟩ :=
      plannedFrom_cons_eq_some h
    cases p with
    | zero =>
      obtain rfl : head = file := Option.some.inj hp
      obtain rfl := Except.ok.inj (hhead.symm.trans hchunker)
      obtain rfl := Option.some.inj (hheadCount.symm.trans hcount)
      obtain ⟨globalOffset, hglobal, hcase⟩ :=
        exists_mem_plannedOf hfirst (List.mem_range.mpr hk)
      refine ⟨globalOffset, hglobal, hcase.imp_right ?_⟩
      rintro ⟨chunk, hmem, hread⟩
      exact ⟨chunk, List.mem_append_left rest hmem, hread⟩
    | succ p =>
      rw [show i + (p + 1) = i + 1 + p by omega] at hchunker
      obtain ⟨globalOffset, hglobal, hcase⟩ := ih hrest hp hchunker
      refine ⟨globalOffset, hglobal, hcase.imp_right ?_⟩
      rintro ⟨chunk, hmem, hread⟩
      exact ⟨chunk, List.mem_append_right first hmem, hread⟩

/-! ### What a successful run has sent -/

theorem awaitAck_eq_ok {sha256 : Sha256Hash} {reply : Option Message} {world world' : SendWorld}
    (h : awaitAck sha256 reply world = (.ok (), world')) :
    (∃ ack, reply = some (.chunkAck ack)) ∧ world'.codec = world.codec ∧
      world'.turns = world.turns := by
  unfold awaitAck at h
  split at h
  · next ack =>
    refine ⟨⟨ack, rfl⟩, ?_⟩
    by_cases hmismatch : ack.sha256 ≠ sha256
    · rw [decide_eq_true hmismatch] at h
      obtain rfl : _ = world' := congrArg Prod.snd h
      exact ⟨rfl, rfl⟩
    · rw [decide_eq_false hmismatch] at h
      obtain rfl : world = world' := congrArg Prod.snd h
      exact ⟨rfl, rfl⟩
  · simp at h
  · simp at h

/-- A chunk that is not skipped is read, sent and acknowledged. -/
theorem sendChunk_sent_eq_ok {chunker : FileChunker} {file : Bytes} {bytesSent n k globalOffset : ℕ}
    {world world' : SendWorld}
    (hglobal : globalChunkOffset manifest chunker.fileIndex k = some globalOffset)
    (hskip : globalOffset ∉ skip)
    (h : sendChunk sender manifest skip chunker file bytesSent k world = (.ok n, world')) :
    ∃ chunk, chunker.readChunk sender.host file k = some chunk ∧ Streamed world world' [chunk] ∧
      n = bytesSent + chunk.data.length ∧ n < 2 ^ 64 := by
  simp only [sendChunk, hglobal, Task.ofChecked_some, Task.pure_bind_run, if_neg hskip] at h
  obtain ⟨turn, world₁, hturn, h₁⟩ := Task.bind_eq_ok.mp h
  obtain ⟨_, world₂, hfault, h₂⟩ := Task.bind_eq_ok.mp h₁
  obtain ⟨chunk, world₃, hread, h₃⟩ := Task.bind_eq_ok.mp h₂
  obtain ⟨reply, world₄, hexchange, h₄⟩ := Task.bind_eq_ok.mp h₃
  obtain ⟨_, world₅, hawait, h₅⟩ := Task.bind_eq_ok.mp h₄
  obtain ⟨bytes, world₆, hbytes, h₆⟩ := Task.bind_eq_ok.mp h₅
  obtain ⟨_, world₇, hemit, h₇⟩ := Task.bind_eq_ok.mp h₆
  obtain ⟨hchunk, hsame₃⟩ := Task.ofChecked_eq_ok.mp hread
  obtain ⟨hcalm, hsame₂⟩ := Task.when_fail_eq_ok.mp hfault
  obtain ⟨hcount, hsame₆⟩ := Task.ofChecked_eq_ok.mp hbytes
  obtain ⟨hbound, rfl⟩ := checkedAdd_eq_some.mp hcount
  have hturns₁ : world₁.turns = world.turns.tail := (congrArg turns (congrArg Prod.snd hturn)).symm
  have hcodec₁ : world₁.codec = world.codec := (congrArg codec (congrArg Prod.snd hturn)).symm
  have hturns₇ : world₇.turns = world₆.turns := (congrArg turns (congrArg Prod.snd hemit)).symm
  have hcodec₇ : world₇.codec = world₆.codec := (congrArg codec (congrArg Prod.snd hemit)).symm
  obtain ⟨hn, hlast⟩ := Prod.mk.inj h₇
  have hn : bytesSent + chunk.data.length = n := Outcome.ok.inj hn
  obtain ⟨hrecv, hfit, hsend, hsent, hturns₄⟩ := exchange_eq_ok hexchange
  obtain ⟨⟨ack, rfl⟩, hcodec₅, hturns₅⟩ := awaitAck_eq_ok hawait
  have hmessage : chunk.message = .chunkData
      { fileIndex := chunker.fileIndex, chunkOffset := UInt64.ofNat k } chunk.data := by
    rw [ReadChunk.message, FileChunker.id_readChunk hchunk]
  refine ⟨chunk, hchunk, ?_, hn.symm, hn ▸ hbound⟩
  constructor
  · rw [← hlast, hcodec₇, hsame₆, hcodec₅, hsent, hsame₃, hsame₂, hcodec₁, List.map_singleton,
      hmessage]
  · rw [← hlast, hturns₇, hsame₆, hturns₅, hturns₄, hsame₃, hsame₂, hturns₁]
    exact List.drop_one.symm
  · intro j other hj
    obtain ⟨rfl, rfl⟩ : j = 0 ∧ chunk = other := by
      cases j with
      | zero => exact ⟨rfl, Option.some.inj hj⟩
      | succ j => simp at hj
    exact ⟨turn, nextTurn_of_recv hturn hrecv, hcalm, hsend, hmessage ▸ hfit, ack, hrecv⟩

theorem sendChunk_eq_ok {chunker : FileChunker} {file : Bytes} {bytesSent n k : ℕ}
    {world world' : SendWorld}
    (h : sendChunk sender manifest skip chunker file bytesSent k world = (.ok n, world')) :
    ∃ chunks, plannedOf sender manifest skip chunker file [k] = some chunks ∧
      Streamed world world' chunks ∧ n = bytesSent + weight sender manifest skip chunker file k ∧
      n < 2 ^ 64 := by
  cases hglobal : globalChunkOffset manifest chunker.fileIndex k with
  | none => simp [sendChunk, hglobal] at h
  | some globalOffset =>
    by_cases hskip : globalOffset ∈ skip
    · simp only [sendChunk, hglobal, Task.ofChecked_some, Task.pure_bind_run, if_pos hskip,
        Task.ofChecked_eq_ok, checkedAdd_eq_some] at h
      obtain ⟨⟨hbound, rfl⟩, rfl⟩ := h
      exact ⟨[], by simp [plannedOf, hglobal, hskip], Streamed.refl _,
        by simp [weight, hglobal, hskip], hbound⟩
    · obtain ⟨chunk, hread, hstreamed, hn, hbound⟩ := sendChunk_sent_eq_ok hglobal hskip h
      refine ⟨[chunk], ?_, hstreamed, ?_, hbound⟩
      · simp [plannedOf, hglobal, hskip, hread]
      · simp [weight, hglobal, hskip, hread, hn]

theorem plannedOf_cons_iff {chunker : FileChunker} {file : Bytes} {k : ℕ} {offsets : List ℕ}
    {all : List ReadChunk} :
    plannedOf sender manifest skip chunker file (k :: offsets) = some all ↔
      ∃ chunks rest, plannedOf sender manifest skip chunker file [k] = some chunks ∧
        plannedOf sender manifest skip chunker file offsets = some rest ∧ all = chunks ++ rest := by
  cases hglobal : globalChunkOffset manifest chunker.fileIndex k with
  | none => simp [plannedOf, hglobal]
  | some globalOffset =>
    cases hrest : plannedOf sender manifest skip chunker file offsets with
    | none => simp [plannedOf, hglobal, hrest]
    | some rest =>
      by_cases hskip : globalOffset ∈ skip
      · simp [plannedOf, hglobal, hrest, hskip, eq_comm]
      · cases hread : chunker.readChunk sender.host file k with
        | none => simp [plannedOf, hglobal, hrest, hskip, hread]
        | some chunk => simp [plannedOf, hglobal, hrest, hskip, hread, eq_comm]

theorem sendChunks_eq_ok {chunker : FileChunker} {file : Bytes} {offsets : List ℕ}
    {bytesSent n : ℕ} {world world' : SendWorld}
    (h : sendChunks sender manifest skip chunker file offsets bytesSent world = (.ok n, world')) :
    ∃ chunks, plannedOf sender manifest skip chunker file offsets = some chunks ∧
      Streamed world world' chunks ∧
      n = bytesSent + (offsets.map (weight sender manifest skip chunker file)).sum ∧
      (bytesSent < 2 ^ 64 → n < 2 ^ 64) := by
  induction offsets generalizing bytesSent world with
  | nil =>
    obtain ⟨hn, rfl⟩ := Prod.mk.inj h
    obtain rfl : bytesSent = n := Outcome.ok.inj hn
    exact ⟨[], rfl, Streamed.refl _, by simp, fun hbound => hbound⟩
  | cons k offsets ih =>
    obtain ⟨bytes, middle, hfirst, hrest⟩ := Task.bind_eq_ok.mp h
    obtain ⟨chunks, hplanned, hstreamed, rfl, hbound⟩ := sendChunk_eq_ok hfirst
    obtain ⟨rest, hplannedRest, hstreamedRest, rfl, hboundRest⟩ := ih hrest
    refine ⟨chunks ++ rest, ?_, hstreamed.trans hstreamedRest, ?_, fun _ => hboundRest hbound⟩
    · exact plannedOf_cons_iff.mpr ⟨chunks, rest, hplanned, hplannedRest, rfl⟩
    · rw [List.map_cons, List.sum_cons, Nat.add_assoc]

theorem streamFiles_eq_ok {files : List (FileEntry × Path)} {i bytesSent : ℕ}
    {world world' : SendWorld} (hbytes : bytesSent < 2 ^ 64)
    (h : streamFiles sender script manifest skip i files bytesSent world = (.ok (), world')) :
    ∃ chunks, plannedFrom sender script manifest skip i files = some chunks ∧
      Streamed world world' chunks ∧
      bytesSent + weightFrom sender script manifest skip i files < 2 ^ 64 := by
  induction files generalizing i bytesSent world with
  | nil =>
    obtain rfl : world = world' := congrArg Prod.snd h
    exact ⟨[], rfl, Streamed.refl _, hbytes⟩
  | cons file files ih =>
    unfold streamFiles at h
    cases hopen : chunkerOf sender script i file with
    | error e =>
      rw [chunkerOf] at hopen
      simp [hopen] at h
    | ok chunker =>
      have hchunker := hopen
      rw [chunkerOf] at hopen
      simp only [hopen] at h
      obtain ⟨count, start, hcount, h₁⟩ := Task.bind_eq_ok.mp h
      obtain ⟨bytes, middle, hfirst, h₂⟩ := Task.bind_eq_ok.mp h₁
      obtain ⟨hlength, rfl⟩ := Task.ofChecked_eq_ok.mp hcount
      obtain ⟨chunks, hplanned, hstreamed, rfl, hbound⟩ := sendChunks_eq_ok hfirst
      obtain ⟨rest, hplannedRest, hstreamedRest, htotal⟩ := ih (hbound hbytes) h₂
      refine ⟨chunks ++ rest, ?_, hstreamed.trans hstreamedRest, ?_⟩
      · simp [plannedFrom, hchunker, hlength, hplanned, hplannedRest]
      · simp only [weightFrom, hchunker, hlength, Option.getD_some]
        omega

/-- A response that lets the transfer go on. -/
def Responds (manifest : TransferManifest) (turn : SendTurn) : Prop :=
  turn.recv = .ok (some (.transferResponse .accept)) ∨
    ∃ receivedChunks, turn.recv = .ok (some (.transferResponse (.resumeAt receivedChunks))) ∧
      manifest.totalChunks.isSome = true

theorem skipChunks_eq_ok {turn : SendTurn} {reply : Option Message} {world world' : SendWorld}
    (hrecv : turn.recv = .ok reply)
    (h : skipChunks manifest reply world = (.ok skip, world')) :
    Responds manifest turn ∧ skip = markedBy manifest turn ∧ world' = world := by
  unfold skipChunks at h
  unfold markedBy Responds
  rw [hrecv]
  split at h
  · obtain ⟨hskip, hsame⟩ := Prod.mk.inj h
    exact ⟨Or.inl rfl, (Outcome.ok.inj hskip).symm, hsame.symm⟩
  · obtain ⟨totalChunks, middle, htotal, hrest⟩ := Task.bind_eq_ok.mp h
    obtain ⟨htotal, hsame⟩ := Task.ofChecked_eq_ok.mp htotal
    obtain ⟨hskip, hlast⟩ := Prod.mk.inj hrest
    rw [htotal]
    exact ⟨Or.inr ⟨_, rfl, rfl⟩, (Outcome.ok.inj hskip).symm, hlast.symm.trans hsame⟩
  · simp at h
  · simp at h

/-- The chunks that are skipped are those that the response marks. -/
theorem negotiate_eq_ok {world world' : SendWorld}
    (h : negotiate sender manifest world = (.ok skip, world')) :
    Responds manifest (world.turns.headD .closed) ∧
      skip = markedBy manifest (world.turns.headD .closed) ∧
      world'.codec.sent = world.codec.sent ++ [.transferRequest manifest] ∧
      world'.turns = world.turns.tail := by
  obtain ⟨turn, world₁, hturn, h₁⟩ := Task.bind_eq_ok.mp h
  obtain ⟨reply, world₂, hexchange, h₂⟩ := Task.bind_eq_ok.mp h₁
  obtain ⟨hrecv, -, -, hsent, hturns⟩ := exchange_eq_ok hexchange
  obtain ⟨hresponds, hskip, rfl⟩ := skipChunks_eq_ok hrecv h₂
  have hhead : world.turns.headD .closed = turn := Outcome.ok.inj (congrArg Prod.fst hturn)
  have hturns₁ : world₁.turns = world.turns.tail := (congrArg turns (congrArg Prod.snd hturn)).symm
  have hcodec₁ : world₁.codec = world.codec := (congrArg codec (congrArg Prod.snd hturn)).symm
  rw [hhead]
  exact ⟨hresponds, hskip, by rw [hsent, hcodec₁], by rw [hturns, hturns₁]⟩

/-- The turn in which the completion goes out and is verified. -/
structure Verifies (turn : SendTurn) : Prop where
  sent : turn.sendFault = false
  verified : ∃ error, turn.recv = .ok (some (.transferVerified true error))

theorem awaitVerified_eq_ok {transferId : TransferId} {reply : Option Message}
    {world world' : SendWorld} (h : awaitVerified transferId reply world = (.ok (), world')) :
    (∃ error, reply = some (.transferVerified true error)) ∧ world'.codec = world.codec ∧
      world'.events = world.events ++ [.completed transferId .sending] := by
  unfold awaitVerified at h
  split at h
  · next error =>
    have hworld : world' = { world with
        events := world.events ++ [.completed transferId .sending] } := (congrArg Prod.snd h).symm
    rw [hworld]
    exact ⟨⟨error, rfl⟩, rfl, rfl⟩
  · simp at h
  · simp at h

theorem finish_eq_ok {world world' : SendWorld} {transferId : TransferId}
    (h : finish sender script manifest world = (.ok transferId, world')) :
    (∃ turn, world.turns[0]? = some turn ∧ Verifies turn) ∧ script.shutdownFault = false ∧
      world'.codec.sent = world.codec.sent ++
        [.transferComplete (computeManifestHash sender.host.sha256 manifest)] := by
  obtain ⟨turn, world₁, hturn, h₁⟩ := Task.bind_eq_ok.mp h
  obtain ⟨reply, world₂, hexchange, h₂⟩ := Task.bind_eq_ok.mp h₁
  obtain ⟨_, world₃, hverified, h₃⟩ := Task.bind_eq_ok.mp h₂
  obtain ⟨_, world₄, hshutdown, h₄⟩ := Task.bind_eq_ok.mp h₃
  have hcodec₁ : world₁.codec = world.codec := (congrArg codec (congrArg Prod.snd hturn)).symm
  obtain ⟨hcalm, hsame⟩ := Task.when_fail_eq_ok.mp hshutdown
  have hlast : world₄ = world' := congrArg Prod.snd h₄
  obtain ⟨hrecv, -, hsend, hsent, -⟩ := exchange_eq_ok hexchange
  obtain ⟨⟨error, rfl⟩, hcodec, -⟩ := awaitVerified_eq_ok hverified
  refine ⟨⟨turn, nextTurn_of_recv hturn hrecv, hsend, error, hrecv⟩, hcalm, ?_⟩
  rw [← hlast, hsame, hcodec, hsent, hcodec₁]

/-- The peer answers the request, the chunks and the completion as it should, and no
call fails. -/
structure Smooth (sender : SendTransfer) (script : SendScript) (manifest : TransferManifest)
    (paths : List Path) (chunks : List ReadChunk) : Prop where
  responds : Responds manifest (firstTurn script)
  planned : planned sender script manifest paths = some chunks
  carried : CarriesAll script.turns.tail chunks
  counted : weightFrom sender script manifest (markedBy manifest (firstTurn script)) 0
    (manifest.files.zip paths) < 2 ^ 64
  verified : ∃ turn, script.turns.tail[chunks.length]? = some turn ∧ Verifies turn
  shutdown : script.shutdownFault = false

/-- A chunk of a smooth run is acknowledged in the turn after the request and the
chunks before it. -/
theorem Smooth.acked {chunks : List ReadChunk}
    (h : Smooth sender script manifest paths chunks) {j : ℕ} {chunk : ReadChunk}
    (hj : chunks[j]? = some chunk) :
    ∃ turn ack, script.turns[j + 1]? = some turn ∧ turn.recv = .ok (some (.chunkAck ack)) := by
  obtain ⟨turn, hturn, hcarries⟩ := h.carried j chunk hj
  obtain ⟨ack, hack⟩ := hcarries.acked
  rw [List.getElem?_tail] at hturn
  exact ⟨turn, ack, hturn, hack⟩

/-- What a successful run has sent: the request, the chunks and the completion. -/
theorem sendFiles_eq_ok {world world' : SendWorld} {transferId : TransferId}
    (hmanifest : sender.buildManifest script paths = .ok manifest)
    (h : sendFiles sender peer paths script world = (.ok transferId, world')) :
    ∃ chunks, Smooth sender script manifest paths chunks ∧
      world'.codec.sent = .transferRequest manifest :: (chunks.map ReadChunk.message ++
        [.transferComplete (computeManifestHash sender.host.sha256 manifest)]) := by
  cases hsession : sender.openSession peer script with
  | err e => simp [sendFiles, hmanifest, hsession] at h
  | panic => simp [sendFiles, hmanifest, hsession] at h
  | ok session =>
    rw [sendFiles_eq hmanifest hsession] at h
    obtain ⟨skip, world₁, hnegotiate, h₁⟩ := Task.bind_eq_ok.mp h
    obtain ⟨_, world₂, hstream, h₂⟩ := Task.bind_eq_ok.mp h₁
    obtain ⟨hresponds, rfl, hsent₁, hturns₁⟩ := negotiate_eq_ok hnegotiate
    obtain ⟨chunks, hplanned, hstreamed, hbytes⟩ := streamFiles_eq_ok (by norm_num) hstream
    obtain ⟨hverified, hshutdown, hsent₂⟩ := finish_eq_ok h₂
    have hcarried := hstreamed.carried
    rw [hturns₁] at hcarried
    rw [hstreamed.turns, hturns₁, List.getElem?_drop, Nat.add_zero] at hverified
    rw [Nat.zero_add] at hbytes
    refine ⟨chunks, ⟨hresponds, hplanned, hcarried, hbytes, hverified, hshutdown⟩, ?_⟩
    rw [hsent₂, hstreamed.sent, hsent₁]
    simp [ProtocolCodec.new]

/-! ### A smooth run returns -/

theorem awaitAck_of_ack (sha256 : Sha256Hash) (ack : ChunkAck) (world : SendWorld) :
    ∃ world', awaitAck sha256 (some (.chunkAck ack)) world = (.ok (), world') := by
  have hwhen : awaitAck sha256 (some (.chunkAck ack)) =
      Task.when (ack.sha256 ≠ sha256) (warn "chunk SHA mismatch") := rfl
  rw [hwhen]
  by_cases hmismatch : ack.sha256 ≠ sha256
  · rw [decide_eq_true hmismatch]
    exact ⟨_, rfl⟩
  · rw [decide_eq_false hmismatch]
    exact ⟨_, rfl⟩

theorem nextTurn_of_getElem {turn : SendTurn} {world : SendWorld}
    (h : world.turns[0]? = some turn) :
    nextTurn world = (.ok turn, { world with turns := world.turns.tail }) := by
  cases hturns : world.turns with
  | nil => simp [hturns] at h
  | cons first rest =>
    rw [hturns] at h
    obtain rfl := Option.some.inj h
    simp [nextTurn, hturns]

theorem sendChunk_of_carries {chunker : FileChunker} {file : Bytes} {bytesSent k : ℕ}
    {chunks : List ReadChunk} {world : SendWorld}
    (hplanned : plannedOf sender manifest skip chunker file [k] = some chunks)
    (hcarried : CarriesAll world.turns chunks)
    (hbytes : bytesSent + weight sender manifest skip chunker file k < 2 ^ 64) :
    ∃ n world', sendChunk sender manifest skip chunker file bytesSent k world =
      (.ok n, world') := by
  simp only [plannedOf, Option.bind_eq_bind, Option.bind_some, Option.bind_eq_some_iff] at hplanned
  obtain ⟨globalOffset, hglobal, hplanned⟩ := hplanned
  simp only [sendChunk, hglobal, Task.ofChecked_some, Task.pure_bind_run]
  by_cases hskip : globalOffset ∈ skip
  · simp only [weight, hglobal, hskip, Option.any_some, decide_true, if_true] at hbytes
    simp only [if_pos hskip, checkedAdd, if_pos hbytes]
    exact ⟨_, _, rfl⟩
  · rw [if_neg hskip] at hplanned
    obtain ⟨chunk, hread, rfl⟩ := Option.map_eq_some_iff.mp hplanned
    obtain ⟨turn, hturn, hcarries⟩ := hcarried 0 chunk rfl
    obtain ⟨ack, hack⟩ := hcarries.acked
    have hmessage : chunk.message = .chunkData
        { fileIndex := chunker.fileIndex, chunkOffset := UInt64.ofNat k } chunk.data := by
      rw [ReadChunk.message, FileChunker.id_readChunk hread]
    obtain ⟨world₂, hexchange⟩ := exchange_of_recv sender.noise hcarries.fits
      hcarries.sent hack { world with turns := world.turns.tail }
    rw [hmessage] at hexchange
    obtain ⟨world₃, hawait⟩ := awaitAck_of_ack chunk.sha256 ack world₂
    simp only [weight, hglobal, hskip, hread, Option.any_some, decide_false, Option.elim_some,
      Bool.false_eq_true, if_false] at hbytes
    rw [if_neg hskip, Task.bind_of_ok (nextTurn_of_getElem hturn)]
    simp only [hcarries.read, Task.when_false, Task.pure_bind_run, hread, Task.ofChecked_some]
    rw [Task.bind_of_ok hexchange, Task.bind_of_ok hawait]
    simp only [checkedAdd, if_pos hbytes, Task.ofChecked_some, Task.pure_bind_run]
    exact ⟨_, _, rfl⟩

theorem sendChunks_of_carries {chunker : FileChunker} {file : Bytes} {offsets : List ℕ}
    (bytesSent : ℕ) {chunks : List ReadChunk} {world : SendWorld}
    (hplanned : plannedOf sender manifest skip chunker file offsets = some chunks)
    (hcarried : CarriesAll world.turns chunks)
    (hbytes : bytesSent + (offsets.map (weight sender manifest skip chunker file)).sum < 2 ^ 64) :
    ∃ n world', sendChunks sender manifest skip chunker file offsets bytesSent world =
      (.ok n, world') := by
  induction offsets generalizing bytesSent chunks world with
  | nil => exact ⟨bytesSent, world, rfl⟩
  | cons k offsets ih =>
    obtain ⟨first, rest, hfirst, hrest, rfl⟩ := plannedOf_cons_iff.mp hplanned
    rw [carriesAll_append] at hcarried
    rw [List.map_cons, List.sum_cons] at hbytes
    obtain ⟨n, middle, hsend⟩ := sendChunk_of_carries hfirst hcarried.1
      (show bytesSent + weight sender manifest skip chunker file k < 2 ^ 64 by omega)
    obtain ⟨chunks', hchunks', hstreamed, rfl, -⟩ := sendChunk_eq_ok hsend
    obtain rfl := Option.some.inj (hfirst.symm.trans hchunks')
    rw [← hstreamed.turns] at hcarried
    rw [sendChunks, Task.bind_of_ok hsend]
    exact ih _ hrest hcarried.2 (by omega)

theorem streamFiles_of_carries {files : List (FileEntry × Path)} {i : ℕ} (bytesSent : ℕ)
    {chunks : List ReadChunk} {world : SendWorld}
    (hplanned : plannedFrom sender script manifest skip i files = some chunks)
    (hcarried : CarriesAll world.turns chunks)
    (hbytes : bytesSent + weightFrom sender script manifest skip i files < 2 ^ 64) :
    ∃ world', streamFiles sender script manifest skip i files bytesSent world =
      (.ok (), world') := by
  induction files generalizing i bytesSent chunks world with
  | nil => exact ⟨world, rfl⟩
  | cons file files ih =>
    obtain ⟨chunker, count, first, rest, hchunker, hcount, hfirst, hrest, rfl⟩ :=
      plannedFrom_cons_eq_some hplanned
    rw [carriesAll_append] at hcarried
    simp only [weightFrom, hchunker, hcount, Option.getD_some] at hbytes
    obtain ⟨n, middle, hsend⟩ := sendChunks_of_carries bytesSent hfirst hcarried.1
      (by omega)
    obtain ⟨chunks', hchunks', hstreamed, rfl, -⟩ := sendChunks_eq_ok hsend
    obtain rfl := Option.some.inj (hfirst.symm.trans hchunks')
    rw [← hstreamed.turns] at hcarried
    have hopen := hchunker
    rw [chunkerOf] at hopen
    unfold streamFiles
    simp only [hopen, hcount, Task.ofChecked_some, Task.pure_bind_run]
    rw [Task.bind_of_ok hsend]
    exact ih _ hrest hcarried.2 (by omega)

theorem negotiate_of_responds (sender : SendTransfer) {world : SendWorld}
    (hfit : (Message.transferRequest manifest).Fits)
    (hcalm : (world.turns.headD .closed).sendFault = false)
    (hresponds : Responds manifest (world.turns.headD .closed)) :
    ∃ skip world', negotiate sender manifest world = (.ok skip, world') := by
  have hturn : nextTurn world = (.ok (world.turns.headD .closed),
    { world with turns := world.turns.tail }) := rfl
  rw [negotiate, Task.bind_of_ok hturn]
  rcases hresponds with hrecv | ⟨receivedChunks, hrecv, htotal⟩
  · obtain ⟨world', hexchange⟩ := exchange_of_recv sender.noise hfit hcalm hrecv
      { world with turns := world.turns.tail }
    rw [Task.bind_of_ok hexchange]
    exact ⟨_, _, rfl⟩
  · obtain ⟨world', hexchange⟩ := exchange_of_recv sender.noise hfit hcalm hrecv
      { world with turns := world.turns.tail }
    obtain ⟨totalChunks, htotal⟩ := Option.isSome_iff_exists.mp htotal
    rw [Task.bind_of_ok hexchange]
    simp only [skipChunks, htotal, Task.ofChecked_some, Task.pure_bind_run]
    exact ⟨_, _, rfl⟩

theorem finish_of_verifies (sender : SendTransfer) (manifest : TransferManifest)
    {world : SendWorld} {turn : SendTurn}
    (hturn : world.turns[0]? = some turn) (hverifies : Verifies turn)
    (hshutdown : script.shutdownFault = false) :
    ∃ world', finish sender script manifest world = (.ok manifest.transferId, world') := by
  obtain ⟨error, hrecv⟩ := hverifies.verified
  obtain ⟨world', hexchange⟩ := exchange_of_recv sender.noise
    (fits_transferComplete (computeManifestHash sender.host.sha256 manifest)) hverifies.sent hrecv
    { world with turns := world.turns.tail }
  rw [finish, Task.bind_of_ok (nextTurn_of_getElem hturn), Task.bind_of_ok hexchange, hshutdown]
  exact ⟨_, rfl⟩

/-- Once the request is out, a send returns exactly when it runs smoothly. -/
theorem sendFiles_ok_iff {session : NoiseSession} (world : SendWorld)
    (hmanifest : sender.buildManifest script paths = .ok manifest)
    (hsession : sender.openSession peer script = .ok session)
    (hfit : (Message.transferRequest manifest).Fits)
    (hcalm : (firstTurn script).sendFault = false) :
    (∃ transferId, (sendFiles sender peer paths script world).1 = .ok transferId) ↔
      ∃ chunks, Smooth sender script manifest paths chunks := by
  constructor
  · rintro ⟨transferId, hok⟩
    have hrun : sendFiles sender peer paths script world =
        (.ok transferId, (sendFiles sender peer paths script world).2) := Prod.ext hok rfl
    obtain ⟨chunks, hsmooth, -⟩ := sendFiles_eq_ok hmanifest hrun
    exact ⟨chunks, hsmooth⟩
  · rintro ⟨chunks, hsmooth⟩
    rw [sendFiles_eq hmanifest hsession, transfer]
    generalize hstart : ({ world with
      codec := ProtocolCodec.new (SecureTransport.new session [])
      turns := script.turns } : SendWorld) = start
    have hturns : start.turns = script.turns := by rw [← hstart]
    have hfirst : start.turns.headD .closed = firstTurn script := by
      rw [hturns]
      rfl
    obtain ⟨skip, world₁, hnegotiate⟩ := negotiate_of_responds sender hfit
      (hfirst ▸ hcalm) (hfirst ▸ hsmooth.responds)
    obtain ⟨-, rfl, -, hturns₁⟩ := negotiate_eq_ok hnegotiate
    have hplanned := hsmooth.planned
    have hcounted := hsmooth.counted
    rw [planned, ← hfirst] at hplanned
    rw [← hfirst] at hcounted
    rw [hturns] at hturns₁
    obtain ⟨world₂, hstream⟩ := streamFiles_of_carries 0 hplanned
      (hturns₁ ▸ hsmooth.carried) (by omega)
    obtain ⟨chunks', hchunks', hstreamed, -⟩ := streamFiles_eq_ok (by norm_num) hstream
    obtain rfl := Option.some.inj (hplanned.symm.trans hchunks')
    obtain ⟨turn, hturn, hverifies⟩ := hsmooth.verified
    have hlast : world₂.turns[0]? = some turn := by
      rw [hstreamed.turns, hturns₁, List.getElem?_drop, Nat.add_zero, hturn]
    obtain ⟨world₃, hfinish⟩ := finish_of_verifies sender manifest hlast hverifies hsmooth.shutdown
    rw [Task.bind_of_ok hnegotiate, Task.bind_of_ok hstream, hfinish]
    exact ⟨_, rfl⟩

end SendTransfer
end JustDrop

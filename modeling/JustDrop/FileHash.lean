import JustDrop.ChunkStream
import JustDrop.Completion
import JustDrop.Digest
import JustDrop.Serving

/-!
# Hashing files

Files are hashed while they are read, in whatever parts the reads return, and the chunks
of a transfer may be hashed as they come. All of it gives the hash of the contents, so a
received file passes its check for as long as it lies where it was published.
-/
namespace JustDrop
open Hasher ByteImage

/-! ### The two hash modules -/

variable {σ : Type}

/-- `chunker::hash_file`: the file is opened, and then read until nothing comes. -/
def hashFile (sha256 : Hasher σ UInt8 Sha256Hash) (path : Path) (opened : Except IoError Unit)
    (reads : List (Except IoError Bytes)) : Option (Except StorageError Sha256Hash) :=
  match opened with
  | .error e => if reads.isEmpty then some (.error (.io path e)) else none
  | .ok () => (sha256.readAll reads).map (Except.mapError (.io path))

def verifyFile (sha256 : Hasher σ UInt8 Sha256Hash) (path : Path) (opened : Except IoError Unit)
    (reads : List (Except IoError Bytes)) (expected : Sha256Hash) :
    Option (Except StorageError Bool) :=
  (hashFile sha256 path opened reads).map (Except.map fun actual => actual = expected)

def verifyChunk (sha256 : Hasher σ UInt8 Sha256Hash) (data : Bytes) (expected : Sha256Hash) :
    Bool :=
  sha256.finalize (sha256.update sha256.new data) = expected

namespace Blake3

def hashBytes (blake3 : Hasher σ UInt8 (Vector UInt8 32)) (data : Bytes) : Vector UInt8 32 :=
  blake3.hash data

/-- `hash::hash_file`, with the errors of the calls as they are. -/
def hashFile (blake3 : Hasher σ UInt8 (Vector UInt8 32)) (opened : Except IoError Unit)
    (reads : List (Except IoError Bytes)) : Option (Except IoError (Vector UInt8 32)) :=
  match opened with
  | .error e => if reads.isEmpty then some (.error e) else none
  | .ok () => blake3.readAll reads

end Blake3

structure IncrementalHasher (σ : Type) where
  inner : σ

namespace IncrementalHasher
variable (blake3 : Hasher σ UInt8 (Vector UInt8 32))

def new : IncrementalHasher σ := ⟨blake3.new⟩

def update (hasher : IncrementalHasher σ) (data : Bytes) : IncrementalHasher σ :=
  ⟨blake3.update hasher.inner data⟩

def finalize (hasher : IncrementalHasher σ) : Vector UInt8 32 := blake3.finalize hasher.inner

def finalizePeek (hasher : IncrementalHasher σ) : Vector UInt8 32 := blake3.finalize hasher.inner

theorem inner_foldl (parts : List Bytes) (hasher : IncrementalHasher σ) :
    (parts.foldl (update blake3) hasher).inner = parts.foldl blake3.update hasher.inner := by
  induction parts generalizing hasher with
  | nil => rfl
  | cons part parts ih => exact ih (hasher.update blake3 part)

end IncrementalHasher

/-! ### Reads of a file -/

/-- The read buffer of both modules. -/
def HASH_BUFFER : ℕ := 256 * 1024

/-- What the reads of a file return from a position on: some part that fits the buffer, and
nothing at the end only. -/
def ReadsOf (file : Bytes) : ℕ → List (Except IoError Bytes) → Prop
  | _, [] => True
  | pos, .ok part :: reads =>
    (∃ n ≤ HASH_BUFFER, part = (file.drop pos).take n) ∧ (part = [] → file.length ≤ pos) ∧
      ReadsOf file (pos + part.length) reads
  | pos, .error _ :: reads => ReadsOf file pos reads

theorem taken_of_readsOf {file : Bytes} {pos : ℕ} {seen : List (Except IoError Bytes)}
    (h : ReadsOf file pos (seen ++ [.ok []]))
    (hfilled : ∀ read ∈ seen, ∃ part, part ≠ [] ∧ read = .ok part) :
    taken (seen ++ [.ok []]) = file.drop pos := by
  induction seen generalizing pos with
  | nil =>
    rw [List.drop_of_length_le (h.2.1 rfl)]
    rfl
  | cons read seen ih =>
    rw [List.forall_mem_cons] at hfilled
    obtain ⟨⟨part, -, rfl⟩, hfilled⟩ := hfilled
    obtain ⟨⟨n, -, hpart⟩, -, hrest⟩ := h
    have htaken : taken (.ok part :: seen ++ [.ok []]) = part ++ taken (seen ++ [.ok []]) := rfl
    rw [htaken, ih hrest hfilled, ← List.drop_drop]
    -- what a read returned and what is behind it is all that was left
    conv_lhs => arg 1; rw [hpart]
    have hcut : (file.drop pos).drop part.length = (file.drop pos).drop n := by
      rw [hpart, List.length_take]
      rcases le_total n (file.drop pos).length with hle | hle
      · rw [min_eq_left hle]
      · rw [min_eq_right hle, List.drop_length, List.drop_of_length_le hle]
    rw [hcut, List.take_append_drop]

/-- Reads of a file that does not change give its hash, or the error of a read. -/
theorem readAll_of_readsOf {η : Type} {h : Hasher σ UInt8 η} {file : Bytes}
    {reads : List (Except IoError Bytes)} (hreads : ReadsOf file 0 reads)
    {result : Except IoError η} (hread : h.readAll reads = some result) :
    result = .ok (h.hash file) ∨ ∃ e, .error e ∈ reads ∧ result = .error e := by
  obtain ⟨seen, last, rfl, hfilled, hend⟩ := readAll_eq_some hread
  rcases hend with ⟨rfl, rfl⟩ | ⟨e, rfl, rfl⟩
  · rw [taken_of_readsOf hreads hfilled]
    exact Or.inl rfl
  · exact Or.inr ⟨e, by simp, rfl⟩

/-- Every read before the last one advances, so there are not more than bytes. -/
theorem length_of_readsOf {file : Bytes} {pos : ℕ} {seen reads : List (Except IoError Bytes)}
    (h : ReadsOf file pos (seen ++ reads))
    (hfilled : ∀ read ∈ seen, ∃ part, part ≠ [] ∧ read = .ok part) :
    seen.length ≤ file.length - pos := by
  induction seen generalizing pos with
  | nil => simp
  | cons read seen ih =>
    rw [List.forall_mem_cons] at hfilled
    obtain ⟨⟨part, hne, rfl⟩, hfilled⟩ := hfilled
    obtain ⟨⟨n, -, hpart⟩, -, hrest⟩ := h
    have hlength := ih hrest hfilled
    have hpos : 0 < part.length := List.length_pos_iff.mpr hne
    have hle : part.length ≤ file.length - pos := by
      rw [hpart, List.length_take, List.length_drop]
      exact min_le_right _ _
    rw [List.length_cons]
    omega

/-- Where there are more reads than bytes, the loop has ended before. -/
theorem exists_readAll {η : Type} (h : Hasher σ UInt8 η) {file : Bytes}
    {reads : List (Except IoError Bytes)} (hreads : ReadsOf file 0 reads)
    (hlong : file.length < reads.length) :
    ∃ n ≤ file.length + 1, ∃ result, h.readAll (reads.take n) = some result := by
  rcases forall_or_exists_first (fun read => ∃ part, part ≠ [] ∧ read = .ok part) reads with
    hall | ⟨seen, last, rest, rfl, hfilled, hlast⟩
  · rw [← List.append_nil reads] at hreads
    have hlength := length_of_readsOf hreads hall
    omega
  · have hlength := length_of_readsOf hreads hfilled
    refine ⟨seen.length + 1, by omega, ?_⟩
    have htake : (seen ++ last :: rest).take (seen.length + 1) = seen ++ [last] := by
      simp [List.take_append]
    rw [htake]
    exact readAll_of_filled hfilled hlast

/-! ### Hashing what is streamed -/

section Stream
open FileChunker

variable {host : ReadHost} {chunker : FileChunker} {file : Bytes} {chunkSize : UInt32}
  {count : ℕ} {path : Path} {fileIndex : UInt32}

/-- The data of the chunks that a channel has handed over. -/
def Channel.parts (sent : Channel) : List Bytes := sent.map fun
  | .ok chunk => chunk.data
  | .error _ => []

/-- A hasher that was fed the chunks in order. -/
def IncrementalHasher.fed (blake3 : Hasher σ UInt8 (Vector UInt8 32)) (sent : Channel) :
    IncrementalHasher σ :=
  (Channel.parts sent).foldl (update blake3) (new blake3)

theorem IncrementalHasher.finalizePeek_fed (blake3 : Hasher σ UInt8 (Vector UInt8 32))
    (sent : Channel) :
    finalizePeek blake3 (fed blake3 sent) = blake3.hash (Channel.parts sent).flatten := by
  rw [finalizePeek, fed, inner_foldl]
  exact blake3.finalize_foldl _

/-- The chunks that a stream has sent are the beginning of the file. -/
theorem parts_of_stream (hopened : Opened chunker file chunkSize count)
    (haddressable : Addressable host chunker 0) (k : ℕ) :
    (Channel.parts ((streamChunks .quiet host chunker file 0 []).2.take k)).flatten =
      file.take (k * chunker.chunkSize) := by
  rw [(hopened.streams_of_addressable haddressable).chunks, Nat.sub_zero,
    ← List.range_eq_range', ← List.map_take, List.take_range]
  have hparts : (Channel.parts ((List.range (min k count)).map fun j =>
      .ok (slotChunk host chunker file j))).flatten =
      (List.range (min k count)).flatMap fun j => slot file chunker.chunkSize j := by
    rw [Channel.parts, List.map_map]
    rfl
  rw [hparts, flatMap_slot]
  rcases le_total k count with hle | hle
  · rw [min_eq_left hle]
  · have hlast := hopened.lt_count.mt (lt_irrefl count)
    have hfile := hopened.fileSize_eq
    have hmul := Nat.mul_le_mul_right chunker.chunkSize hle
    rw [min_eq_right hle, List.take_of_length_le (by omega), List.take_of_length_le (by omega)]

/-- The hash that comes with a streamed chunk accepts the bytes that have it. -/
theorem verifyChunk_of_stream (sha256 : Hasher σ UInt8 Sha256Hash)
    (hsha256 : host.sha256 = sha256.hash) (hopened : Opened chunker file chunkSize count)
    (haddressable : Addressable host chunker 0) {chunk : ReadChunk}
    (hmem : .ok chunk ∈ (streamChunks .quiet host chunker file 0 []).2) (data : Bytes) :
    verifyChunk sha256 data chunk.sha256 = true ↔ sha256.hash data = sha256.hash chunk.data := by
  rw [(hopened.streams_of_addressable haddressable).chunks] at hmem
  obtain ⟨k, -, hchunk⟩ := List.mem_map.mp hmem
  obtain rfl := Except.ok.inj hchunk
  rw [slotChunk, hsha256]
  exact decide_eq_true_iff

/-- Hashing the chunks as they are streamed, hashing the file in any reads and hashing its
contents at once all agree; behind any chunk the value so far is that of the bytes so far.
Reading comes to its end, and a chunk passes its own check. -/
theorem hashes_agree {τ : Type} (blake3 : Hasher σ UInt8 (Vector UInt8 32))
    (sha256 : Hasher τ UInt8 Sha256Hash) (hsha256 : host.sha256 = sha256.hash)
    (hsize : file.length < 2 ^ 64) (hchunk : 1 ≤ chunkSize.toNat)
    (hopen : FileChunker.open path (some file) fileIndex chunkSize.toNat = .ok chunker)
    (hcount : chunker.chunkCount = some count) (haddressable : Addressable host chunker 0)
    {sent : Channel} (hsent : (streamChunks .quiet host chunker file 0 []).2 = sent) :
    (∀ k, (IncrementalHasher.fed blake3 (sent.take k)).finalizePeek blake3 =
        Blake3.hashBytes blake3 (file.take (k * chunkSize.toNat))) ∧
      (IncrementalHasher.fed blake3 sent).finalize blake3 = Blake3.hashBytes blake3 file ∧
      (∀ chunk, .ok chunk ∈ sent → ∀ data, verifyChunk sha256 data chunk.sha256 = true ↔
        sha256.hash data = sha256.hash chunk.data) ∧
      ∀ reads, ReadsOf file 0 reads →
        (∀ result, Blake3.hashFile blake3 (.ok ()) reads = some result →
          result = .ok ((IncrementalHasher.fed blake3 sent).finalize blake3) ∨
            ∃ e, .error e ∈ reads ∧ result = .error e) ∧
        (file.length < reads.length → ∃ n ≤ file.length + 1, ∃ result,
          Blake3.hashFile blake3 (.ok ()) (reads.take n) = some result) := by
  have hopened := Opened.of_open hsize hchunk hopen hcount
  have hcut : chunker.chunkSize = chunkSize.toNat := hopened.chunkSize_eq.symm
  have hwhole : (IncrementalHasher.fed blake3 sent).finalize blake3 =
      Blake3.hashBytes blake3 file := by
    have hall := (hopened.streams_of_addressable haddressable).whole rfl
    rw [hsent, Channel.bytes, List.flatMap_def] at hall
    exact (IncrementalHasher.finalizePeek_fed blake3 sent).trans (congrArg blake3.hash hall)
  refine ⟨fun k => ?_, hwhole, fun chunk hmem => ?_, fun reads hreads => ⟨fun result hresult => ?_,
    exists_readAll blake3 hreads⟩⟩
  · rw [IncrementalHasher.finalizePeek_fed, ← hsent, parts_of_stream hopened haddressable, hcut]
    rfl
  · exact verifyChunk_of_stream sha256 hsha256 hopened haddressable (hsent ▸ hmem)
  · rw [hwhole]
    exact readAll_of_readsOf hreads hresult

/-- Three bytes in chunks of two, hashed chunk by chunk and in reads of one. -/
theorem hashes_agree_three :
    (IncrementalHasher.fed (collecting sumHash) ((streamChunks .quiet SendTransfer.plainSender.host
        ⟨Path.ofString "/a", 0, 2, 3⟩ [1, 2, 3] 0 []).2.take 1)).finalizePeek
          (collecting sumHash) = sumHash [1, 2] ∧
      Blake3.hashFile (collecting sumHash) (.ok ()) [.ok [1], .ok [2], .ok [3], .ok []] =
        some (.ok (sumHash [1, 2, 3])) := by
  have hreads : ReadsOf [1, 2, 3] 0 [.ok [1], .ok [2], .ok [3], .ok []] := by
    refine ⟨⟨1, ?_⟩, ?_, ⟨1, ?_⟩, ?_, ⟨1, ?_⟩, ?_, ⟨1, ?_⟩, ?_, trivial⟩ <;> simp [HASH_BUFFER]
  have haddressable : Addressable SendTransfer.plainSender.host
      ⟨Path.ofString "/a", 0, 2, 3⟩ 0 := ⟨by decide, by decide⟩
  have hopen : FileChunker.open (Path.ofString "/a") (some [1, 2, 3]) 0 (2 : UInt32).toNat =
      .ok ⟨Path.ofString "/a", 0, 2, 3⟩ := rfl
  obtain ⟨hpeek, hwhole, -, hread⟩ := hashes_agree (collecting sumHash) (collecting sumHash) rfl
    (by decide) (by decide) hopen rfl haddressable rfl
  refine ⟨hpeek 1, ?_⟩
  obtain ⟨result, hresult⟩ : ∃ result, Blake3.hashFile (collecting sumHash) (.ok ())
      [.ok [1], .ok [2], .ok [3], .ok []] = some result := ⟨_, rfl⟩
  rcases (hread _ hreads).1 result hresult with rfl | ⟨e, he, -⟩
  · rw [hresult, hwhole]
    rfl
  · simp at he

end Stream

/-! ### Checking what was received -/

section Received
open SendTransfer

variable {sender : SendTransfer} {peer : DeviceInfo} {paths : List Path}
  {sendScript : SendScript} {receiver : RecvTransfer} {script : Script} {world : World}
  {manifest : TransferManifest} {transferId : TransferId}

theorem hash_of_fileEntries {i : ℕ} {entries : List FileEntry}
    (h : fileEntries sender sendScript i paths = .ok entries) {j : ℕ} {entry : FileEntry}
    {path : Path} (hj : (entries.zip paths)[j]? = some (entry, path)) :
    ∃ bytes, sendScript.hashed path = some bytes ∧ entry.sha256 = sender.host.sha256 bytes := by
  induction paths generalizing i entries j with
  | nil => simp at hj
  | cons first paths ih =>
    unfold fileEntries at h
    split at h
    · simp at h
    · simp at h
    · rename_i size bytes hsize hbytes
      cases hrest : fileEntries sender sendScript (i + 1) paths with
      | error e => simp [hrest] at h
      | ok rest =>
        rw [hrest] at h
        obtain rfl := Except.ok.inj h
        cases j with
        | zero =>
          obtain ⟨rfl, rfl⟩ := Prod.mk.inj (Option.some.inj hj)
          exact ⟨bytes, hbytes, rfl⟩
        | succ j => exact ih hrest (by simpa using hj)

theorem hash_of_buildManifest (h : sender.buildManifest sendScript paths = .ok manifest) {i : ℕ}
    {entry : FileEntry} {path : Path} (hi : (manifest.files.zip paths)[i]? = some (entry, path)) :
    ∃ bytes, sendScript.hashed path = some bytes ∧ entry.sha256 = sender.host.sha256 bytes := by
  unfold buildManifest at h
  cases hentries : fileEntries sender sendScript 0 paths with
  | error e => simp [hentries] at h
  | ok entries =>
    simp only [hentries] at h
    cases hnew : TransferManifest.new sendScript.transferId entries
        (sender.config.deviceName sender.hostname) sender.config.transfer.chunkSize
        sender.platform with
    | none => simp [hnew] at h
    | some built =>
      simp only [hnew, Outcome.ok.injEq] at h
      obtain rfl := h
      simp only [TransferManifest.new, Option.bind_eq_bind, Option.bind_eq_some_iff] at hnew
      obtain ⟨total, -, hbuilt⟩ := hnew
      obtain rfl := Option.some.inj hbuilt
      exact hash_of_fileEntries hentries hi

theorem verifyFile_of_readsOf (sha256 : Hasher σ UInt8 Sha256Hash) {path : Path} {file : Bytes}
    {reads : List (Except IoError Bytes)} {expected : Sha256Hash} {result : Bool}
    (hreads : ReadsOf file 0 reads)
    (hverify : verifyFile sha256 path (.ok ()) reads expected = some (.ok result)) :
    result = true ↔ sha256.hash file = expected := by
  obtain ⟨hashed, hhashed, hresult⟩ := Option.map_eq_some_iff.mp hverify
  obtain ⟨read, hread, rfl⟩ := Option.map_eq_some_iff.mp hhashed
  rcases readAll_of_readsOf hreads hread with rfl | ⟨e, -, rfl⟩
  · obtain rfl : decide (sha256.hash file = expected) = result := Except.ok.inj hresult
    exact decide_eq_true_iff
  · simp [Except.mapError, Except.map] at hresult

/-- After a send that returned, and whatever connections are served later, a published file
holds the bytes that were sent, and its check passes exactly when these have the hash of what
was hashed for the manifest. -/
theorem verifyFile_of_sendFiles_ok (sha256 : Hasher σ UInt8 Sha256Hash)
    (hsha256 : sender.host.sha256 = sha256.hash)
    (hrun : HonestRun sender peer paths sendScript receiver script world)
    (hmanifest : sender.buildManifest sendScript paths = .ok manifest)
    (hok : (sender.sendFiles peer paths sendScript .idle).1 = .ok transferId)
    (hdistinct : RecvTransfer.TempsDistinct receiver manifest)
    (hbits : sender.host.usizeBits = 64) (hpaths : paths.length ≤ 2 ^ 32)
    {i : ℕ} {entry : FileEntry} {path dest : Path} {file : Bytes}
    (hi : (manifest.files.zip paths)[i]? = some (entry, path))
    (hstable : SendTransfer.Stable sender sendScript manifest entry path file)
    (hdest : (i, dest) ∈ (receiver.handleIncoming script world).2.published)
    (hsettled : Settled (receiver.host.locate dest))
    {front : FrontEnd} {s final : Reception} {later : List (Reception × Option Script)}
    (hs : s.world = (receiver.handleIncoming script world).2)
    (rest : Run (Reception.Step receiver front) s later final) :
    final.world.disk.lookup (receiver.host.locate dest) = some (.file file) ∧
      ∀ reads result, ReadsOf file 0 reads →
        verifyFile sha256 dest (.ok ()) reads entry.sha256 = some (.ok result) →
          (result = true ↔ ∃ hashed, sendScript.hashed path = some hashed ∧
            sha256.hash hashed = sha256.hash file) := by
  have hthere := hrun.lookup_of_published hmanifest hok hdistinct hbits hpaths hi hstable hdest
  rw [← hs] at hthere
  refine ⟨Reception.lookup_of_run rest hsettled hthere, fun reads result hreads hverify => ?_⟩
  obtain ⟨hashed, hhashed, hentry⟩ := hash_of_buildManifest hmanifest hi
  rw [verifyFile_of_readsOf sha256 hreads hverify, hentry, hsha256, hhashed]
  constructor
  · exact fun heq => ⟨hashed, rfl, heq.symm⟩
  · rintro ⟨_, hsame, heq⟩
    obtain rfl := Option.some.inj hsame
    exact heq.symm

/-- The script of a connection that the C interface has accepted. -/
def smallAccepted : Script :=
  { smallScript with
    decision := FrontEnd.cInterface.decision (RecvTransfer.plainReceiver 100).config }

/-- A small file passes its check after another one of its name was received. -/
theorem verifyFile_of_sendFiles_ok_again :
    Reception.again.world.disk.lookup Reception.smallPlace = some (.file [1, 2, 3]) ∧
      ∃ hashed, smallSendScript.hashed (Path.ofString "/tmp/a.txt") = some hashed ∧
        sumHash hashed = sumHash [1, 2, 3] := by
  have hrun : HonestRun plainSender (plainPeer (sumHash [])) [Path.ofString "/tmp/a.txt"]
      smallSendScript (RecvTransfer.plainReceiver 100) smallAccepted
      Reception.opened.world.accepted := ⟨by decide +kernel, by decide +kernel, rfl, rfl⟩
  have hbuilt : plainSender.buildManifest smallSendScript [Path.ofString "/tmp/a.txt"] =
      .ok smallManifest := rfl
  have hok : (plainSender.sendFiles (plainPeer (sumHash [])) [Path.ofString "/tmp/a.txt"]
      smallSendScript .idle).1 = .ok smallManifest.transferId := by decide +kernel
  have hreads : ReadsOf [1, 2, 3] 0 [.ok [1, 2, 3], .ok []] := by
    refine ⟨⟨3, ?_⟩, ?_, ⟨1, ?_⟩, ?_, trivial⟩ <;> simp [HASH_BUFFER]
  have hpublished : (0, Path.ofString "/home/JustDrop/a.txt") ∈
      ((RecvTransfer.plainReceiver 100).handleIncoming smallAccepted
        Reception.opened.world.accepted).2.published := by decide +kernel
  have hsettled : Settled
      ((RecvTransfer.plainReceiver 100).host.locate (Path.ofString "/home/JustDrop/a.txt")) := by
    decide +kernel
  have hentry : (smallManifest.files.zip [Path.ofString "/tmp/a.txt"])[0]? =
      some (⟨0, "a.txt", 3, sumHash [1, 2, 3], "text/plain"⟩, Path.ofString "/tmp/a.txt") := rfl
  have honce : Reception.once.world = ((RecvTransfer.plainReceiver 100).handleIncoming
      smallAccepted Reception.opened.world.accepted).2 := Reception.serve_world smallScript
  have hlater : Run (Reception.Step (RecvTransfer.plainReceiver 100) .cInterface) Reception.once
      [(Reception.once, some smallScript)] Reception.again := Run.snoc .refl (.served smallScript)
  obtain ⟨hthere, hverify⟩ := verifyFile_of_sendFiles_ok (collecting sumHash) rfl hrun hbuilt hok
    (by decide +kernel) rfl (by decide) hentry ⟨rfl, by decide, by decide⟩ hpublished hsettled
    honce hlater
  exact ⟨hthere, (hverify [.ok [1, 2, 3], .ok []] true hreads (by decide +kernel)).mp rfl⟩

end Received
end JustDrop

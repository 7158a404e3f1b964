import JustDrop.Errors

/-!
# Reading a file in chunks

The sender reads a file chunk by chunk. The operating system may hand out any
non-empty part of what a read asks for; the read loop asks again until the chunk
is full or the file ends, so the chunk does not depend on these parts.
-/
namespace JustDrop
open ByteImage

structure FileChunker where
  path : Path
  fileIndex : UInt32
  chunkSize : ℕ
  fileSize : ℕ
  deriving DecidableEq, Repr

structure ReadChunk where
  id : ChunkId
  data : Bytes
  sha256 : Sha256Hash
  deriving DecidableEq, Repr

/-- What a chunker reads from: the width of `usize`, how many bytes a read at a
position returns at most, and SHA-256. -/
structure ReadHost where
  usizeBits : ℕ
  wants : ℕ → ℕ
  sha256 : Bytes → Sha256Hash

/-- Read until `room` bytes are there or a read returns nothing. Every step reads
a byte, so `room` is fuel enough. -/
def readLoop (wants : ℕ → ℕ) (file : Bytes) : ℕ → ℕ → ℕ → Bytes
  | 0, _, _ => []
  | fuel + 1, pos, room =>
    if room = 0 then []
    else
      let got := (file.drop pos).take (min room (max 1 (wants pos)))
      if got = [] then []
      else got ++ readLoop wants file fuel (pos + got.length) (room - got.length)

theorem take_append_take_drop {α : Type*} (l : List α) {n room : ℕ} (h : n ≤ room) :
    l.take n ++ (l.drop (l.take n).length).take (room - (l.take n).length) = l.take room := by
  have hlen : (l.take n).length ≤ room := (List.length_take_le n l).trans h
  have htake : l.take n = l.take (l.take n).length := by
    rw [List.length_take, List.take_eq_take_iff]
    omega
  conv_lhs => arg 1; rw [htake]
  rw [← List.take_add, Nat.add_sub_cancel' hlen]

theorem readLoop_eq (wants : ℕ → ℕ) (file : Bytes) {fuel room : ℕ} (h : room ≤ fuel) (pos : ℕ) :
    readLoop wants file fuel pos room = (file.drop pos).take room := by
  induction fuel generalizing pos room with
  | zero =>
    obtain rfl : room = 0 := by omega
    simp [readLoop]
  | succ fuel ih =>
    by_cases hroom : room = 0
    · simp [readLoop, hroom]
    · simp only [readLoop, if_neg hroom]
      split_ifs with hgot
      · have hdrop : file.drop pos = [] := by
          rcases List.take_eq_nil_iff.mp hgot with h0 | hnil
          · omega
          · exact hnil
        simp [hdrop]
      · have hpos : 0 < ((file.drop pos).take (min room (max 1 (wants pos)))).length :=
          List.length_pos_iff.mpr hgot
        have hle : ((file.drop pos).take (min room (max 1 (wants pos)))).length ≤ room :=
          (List.length_take_le _ _).trans (min_le_left _ _)
        rw [ih (by omega), ← List.drop_drop]
        exact take_append_take_drop _ (min_le_left _ _)

namespace FileChunker

/-- `FileChunker::open` on the file at a path, if there is one. -/
def «open» (path : Path) (file : Option Bytes) (fileIndex : UInt32) (chunkSize : ℕ) :
    Except StorageError FileChunker :=
  match file with
  | none => .error (.fileNotFound path)
  | some bytes => .ok { path, fileIndex, chunkSize, fileSize := bytes.length }

def chunkCount (chunker : FileChunker) : Option ℕ :=
  if chunker.fileSize = 0 then some 1 else divCeil chunker.fileSize chunker.chunkSize

/-- A product beyond 64 bits panics, and so does a buffer beyond the largest vector; the
remaining length is cut to `usize` first. -/
def readChunk (host : ReadHost) (chunker : FileChunker) (file : Bytes) (chunkOffset : ℕ) :
    Option ReadChunk := do
  let byteOffset ← checkedMul 64 chunkOffset chunker.chunkSize
  let remaining := chunker.fileSize - byteOffset
  let readSize ← checkedCapacity host.usizeBits
    (min (remaining % 2 ^ host.usizeBits) chunker.chunkSize)
  let data := readLoop host.wants file readSize byteOffset readSize
  pure {
    id := { fileIndex := chunker.fileIndex, chunkOffset := UInt64.ofNat chunkOffset }
    data, sha256 := host.sha256 data }

/-- How many bytes a chunk asks for. -/
def readSize (host : ReadHost) (chunker : FileChunker) (k : ℕ) : ℕ :=
  min ((chunker.fileSize - k * chunker.chunkSize) % 2 ^ host.usizeBits) chunker.chunkSize

/-- A chunk is read when its place and its length have a value. -/
theorem readChunk_eq_some {host : ReadHost} {chunker : FileChunker} {file : Bytes} {k : ℕ}
    {chunk : ReadChunk} : chunker.readChunk host file k = some chunk ↔
      k * chunker.chunkSize < 2 ^ 64 ∧ readSize host chunker k < 2 ^ (host.usizeBits - 1) ∧
      chunk = {
        id := { fileIndex := chunker.fileIndex, chunkOffset := UInt64.ofNat k }
        data := (file.drop (k * chunker.chunkSize)).take (readSize host chunker k)
        sha256 := host.sha256
          ((file.drop (k * chunker.chunkSize)).take (readSize host chunker k)) } := by
  simp only [readChunk, readSize, Option.bind_eq_bind, Option.bind_eq_some_iff,
    checkedMul_eq_some, checkedCapacity_eq_some]
  constructor
  · rintro ⟨_, ⟨hmul, rfl⟩, _, ⟨hroom, rfl⟩, hchunk⟩
    rw [readLoop_eq host.wants file le_rfl] at hchunk
    exact ⟨hmul, hroom, (Option.some.inj hchunk).symm⟩
  · rintro ⟨hmul, hroom, rfl⟩
    refine ⟨_, ⟨hmul, rfl⟩, _, ⟨hroom, rfl⟩, ?_⟩
    rw [readLoop_eq host.wants file le_rfl]
    rfl

/-- Where `usize` holds what remains of the file, a chunk is its slot. -/
theorem readChunk_of_fits {host : ReadHost} {chunker : FileChunker} {file : Bytes}
    (hfile : file.length = chunker.fileSize) {k : ℕ} (hk : k * chunker.chunkSize < 2 ^ 64)
    (hfits : chunker.fileSize - k * chunker.chunkSize < 2 ^ host.usizeBits)
    (hroom : min (chunker.fileSize - k * chunker.chunkSize) chunker.chunkSize <
      2 ^ (host.usizeBits - 1)) :
    chunker.readChunk host file k = some {
      id := { fileIndex := chunker.fileIndex, chunkOffset := UInt64.ofNat k }
      data := slot file chunker.chunkSize k
      sha256 := host.sha256 (slot file chunker.chunkSize k) } := by
  have hsize : readSize host chunker k =
      min (chunker.fileSize - k * chunker.chunkSize) chunker.chunkSize := by
    rw [readSize, Nat.mod_eq_of_lt hfits]
  have hdata : (file.drop (k * chunker.chunkSize)).take (readSize host chunker k) =
      slot file chunker.chunkSize k := by
    rw [hsize, slot, List.take_eq_take_iff, List.length_drop]
    omega
  rw [readChunk_eq_some, hdata, hsize]
  exact ⟨hk, hroom, rfl⟩

/-- On a 64-bit host a chunk is its slot of the file. -/
theorem readChunk_eq {host : ReadHost} (hbits : host.usizeBits = 64) {chunker : FileChunker}
    {file : Bytes} (hfile : file.length = chunker.fileSize) (hsize : chunker.fileSize < 2 ^ 64)
    (hroom : chunker.chunkSize < 2 ^ 63) {k : ℕ} (hk : k * chunker.chunkSize < 2 ^ 64) :
    chunker.readChunk host file k = some {
      id := { fileIndex := chunker.fileIndex, chunkOffset := UInt64.ofNat k }
      data := slot file chunker.chunkSize k
      sha256 := host.sha256 (slot file chunker.chunkSize k) } := by
  apply readChunk_of_fits hfile hk
  · rw [hbits]
    omega
  · rw [hbits]
    omega

end FileChunker
end JustDrop

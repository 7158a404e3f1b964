import JustDrop.Transport

/-!
# Frames on a QUIC stream

A frame is the length of a payload in four bytes and the payload behind it. The writer
cuts the length to 32 bits, so that the reader takes too few bytes of a longer payload
and the rest of it for the frames that follow.
-/
namespace JustDrop

/-- The texts of the connection's own errors are left out. -/
inductive TransportError where
  | write
  | read
  | frameTooLarge (size max : ℕ)
  deriving DecidableEq, Repr

/-- The bytes sent so far, and how the next writes end: a number is that of the bytes
that still go out before the write fails. -/
structure StreamSend where
  sent : Bytes
  failures : List (Option ℕ)
  deriving DecidableEq

/-- The bytes that arrive and have not been read. -/
structure StreamRecv where
  pending : Bytes
  deriving DecidableEq

namespace StreamSend

def writeAll (data : Bytes) : Task StreamSend TransportError Unit := fun stream =>
  match stream.failures with
  | some n :: failures => (.err .write, { sent := stream.sent ++ data.take n, failures })
  | none :: failures => (.ok (), { sent := stream.sent ++ data, failures })
  | [] => (.ok (), { stream with sent := stream.sent ++ data })

/-- The length is cast to 32 bits. -/
def writeFrame (data : Bytes) : Task StreamSend TransportError Unit := do
  let len := frameHeader (UInt32.ofNat data.length).toNat
  writeAll len
  writeAll data

def writeFrames : List Bytes → Task StreamSend TransportError Unit
  | [] => pure ()
  | payload :: payloads => do
    writeFrame payload
    writeFrames payloads

end StreamSend

namespace StreamRecv

def readExact (n : ℕ) : Task StreamRecv TransportError Bytes := fun stream =>
  if n ≤ stream.pending.length then
    (.ok (stream.pending.take n), { pending := stream.pending.drop n })
  else (.err .read, { pending := [] })

def readFrame (maxSize : ℕ) : Task StreamRecv TransportError Bytes := do
  let lenBuf ← readExact FRAME_HEADER_SIZE
  let len := headerLength lenBuf
  if maxSize < len then Task.fail (.frameTooLarge len maxSize)
  else readExact len

/-- So many frames one after the other. -/
def readFrames (maxSize : ℕ) : ℕ → Task StreamRecv TransportError (List Bytes)
  | 0 => pure []
  | n + 1 => do
    let payload ← readFrame maxSize
    let payloads ← readFrames maxSize n
    pure (payload :: payloads)

end StreamRecv

/-! ### What is on the stream -/

/-- The bytes of a frame. -/
def streamFrame (payload : Bytes) : Bytes :=
  frameHeader (UInt32.ofNat payload.length).toNat ++ payload

theorem headerLength_lt (header : Bytes) : headerLength header < 256 ^ header.length := by
  induction header using List.reverseRecOn with
  | nil => decide
  | append_singleton header b ih =>
    have hb := b.toNat_lt
    have hconcat : headerLength (header ++ [b]) = headerLength header * 256 + b.toNat := by
      simp [headerLength]
    rw [hconcat, List.length_append, List.length_singleton, pow_succ]
    omega

section Stream
variable {stream stream' : StreamSend} {recv recv' : StreamRecv} {payload : Bytes}
  {payloads : List Bytes} {maxSize : ℕ}

theorem StreamSend.sent_of_writeAll {data : Bytes}
    (h : writeAll data stream = (.ok (), stream')) : stream'.sent = stream.sent ++ data := by
  unfold writeAll at h
  split at h <;> simp_all [Prod.ext_iff, eq_comm]

theorem StreamSend.sent_of_writeFrame (h : writeFrame payload stream = (.ok (), stream')) :
    stream'.sent = stream.sent ++ streamFrame payload := by
  obtain ⟨⟨⟩, between, hheader, hpayload⟩ := Task.bind_eq_ok.mp h
  rw [sent_of_writeAll hpayload, sent_of_writeAll hheader, List.append_assoc]
  rfl

/-- Writes that all succeed put the frames on the stream, one behind the other. -/
theorem StreamSend.sent_of_writeFrames (h : writeFrames payloads stream = (.ok (), stream')) :
    stream'.sent = stream.sent ++ payloads.flatMap streamFrame := by
  induction payloads generalizing stream with
  | nil =>
    simp only [writeFrames, Task.pure_run, Prod.mk.injEq, true_and] at h
    rw [h, List.flatMap_nil, List.append_nil]
  | cons payload payloads ih =>
    obtain ⟨⟨⟩, between, hfirst, hrest⟩ := Task.bind_eq_ok.mp h
    rw [ih hrest, sent_of_writeFrame hfirst, List.flatMap_cons, List.append_assoc]

namespace StreamRecv

theorem readExact_append (data rest : Bytes) :
    readExact data.length ⟨data ++ rest⟩ = (.ok data, ⟨rest⟩) := by
  simp [readExact]

theorem length_of_readExact {n : ℕ} {data : Bytes} (h : readExact n recv = (.ok data, recv')) :
    data.length = n := by
  unfold readExact at h
  split_ifs at h with hle
  · obtain ⟨rfl, -⟩ : recv.pending.take n = data ∧ _ := by simpa using h
    rw [List.length_take, Nat.min_eq_left hle]
  · simp at h

/-- No frame that is read has more bytes than the header can say. -/
theorem length_lt_of_readFrame (h : readFrame maxSize recv = (.ok payload, recv')) :
    payload.length < 2 ^ 32 := by
  obtain ⟨header, between, hheader, hbody⟩ := Task.bind_eq_ok.mp h
  have hlt := headerLength_lt header
  rw [length_of_readExact hheader] at hlt
  split_ifs at hbody
  · simp at hbody
  · rw [length_of_readExact hbody]
    exact hlt

theorem length_lt_of_readFrames {n : ℕ} (h : readFrames maxSize n recv = (.ok payloads, recv')) :
    ∀ payload ∈ payloads, payload.length < 2 ^ 32 := by
  induction n generalizing recv recv' payloads with
  | zero =>
    obtain rfl : [] = payloads := by simpa [readFrames] using congrArg Prod.fst h
    simp
  | succ n ih =>
    obtain ⟨first, between, hfirst, hbehind⟩ := Task.bind_eq_ok.mp h
    obtain ⟨rest, last, hrest, hpure⟩ := Task.bind_eq_ok.mp hbehind
    obtain rfl : first :: rest = payloads := by simpa using congrArg Prod.fst hpure
    exact List.forall_mem_cons.mpr ⟨length_lt_of_readFrame hfirst, ih hrest⟩

/-- A frame whose length fits the header comes out as it went in. -/
theorem readFrame_streamFrame (hfit : payload.length < 2 ^ 32) (hmax : payload.length ≤ maxSize)
    (rest : Bytes) : readFrame maxSize ⟨streamFrame payload ++ rest⟩ = (.ok payload, ⟨rest⟩) := by
  have hheader := readExact_append (frameHeader payload.length) (payload ++ rest)
  rw [length_frameHeader] at hheader
  rw [streamFrame, UInt32.toNat_ofNat_of_lt' hfit, List.append_assoc, readFrame,
    Task.bind_of_ok hheader]
  simp only [headerLength_frameHeader hfit]
  rw [if_neg (not_lt.mpr hmax), readExact_append]

theorem readFrames_flatMap (hfit : ∀ payload ∈ payloads, payload.length < 2 ^ 32)
    (hmax : ∀ payload ∈ payloads, payload.length ≤ maxSize) (rest : Bytes) :
    readFrames maxSize payloads.length ⟨payloads.flatMap streamFrame ++ rest⟩ =
      (.ok payloads, ⟨rest⟩) := by
  induction payloads with
  | nil => rfl
  | cons payload payloads ih =>
    rw [List.forall_mem_cons] at hfit hmax
    rw [List.flatMap_cons, List.append_assoc, List.length_cons, readFrames,
      Task.bind_of_ok (readFrame_streamFrame hfit.1 hmax.1 _),
      Task.bind_of_ok (ih hfit.2 hmax.2)]
    rfl

end StreamRecv

/-- The other end, which has read what was sent before, reads the payloads. -/
def Arrive (maxSize : ℕ) (payloads : List Bytes) (stream stream' : StreamSend)
    (later : Bytes) : Prop :=
  ∃ recv', StreamRecv.readFrames maxSize payloads.length
    ⟨stream'.sent.drop stream.sent.length ++ later⟩ = (.ok payloads, recv')

/-- Frames that were written arrive as sent exactly when all payloads are shorter than
four gibibytes. -/
theorem arrive_iff (hmax : ∀ payload ∈ payloads, payload.length ≤ maxSize)
    (hsent : StreamSend.writeFrames payloads stream = (.ok (), stream')) (later : Bytes) :
    Arrive maxSize payloads stream stream' later ↔
      ∀ payload ∈ payloads, payload.length < 2 ^ 32 := by
  have hframes := StreamSend.sent_of_writeFrames hsent
  rw [Arrive, hframes, List.drop_left' rfl]
  constructor
  · rintro ⟨recv', hread⟩
    exact StreamRecv.length_lt_of_readFrames hread
  · intro hfit
    exact ⟨_, StreamRecv.readFrames_flatMap hfit hmax later⟩

/-- A stream on which no write fails. -/
def freshStream : StreamSend := ⟨[], []⟩

theorem arrive_iff_short : Arrive 3 [[1, 2, 3], []] freshStream
    ⟨[0, 0, 0, 3, 1, 2, 3, 0, 0, 0, 0], []⟩ [] :=
  (arrive_iff (by decide) (by decide) []).mpr (by decide)

/-- A payload of four gibibytes is written and is not read back. -/
theorem not_arrive : ∃ stream',
    StreamSend.writeFrames [List.replicate (2 ^ 32) 0] freshStream = (.ok (), stream') ∧
      ¬Arrive (2 ^ 32) [List.replicate (2 ^ 32) 0] freshStream stream' [] := by
  refine ⟨_, rfl, ?_⟩
  rintro ⟨recv', hread⟩
  have hlt := StreamRecv.length_lt_of_readFrames hread _ List.mem_cons_self
  rw [List.length_replicate] at hlt
  exact lt_irrefl _ hlt

end Stream
end JustDrop

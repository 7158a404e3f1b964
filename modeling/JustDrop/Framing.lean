import JustDrop.Transport

/-!
# Frames put together again

Over a whole byte stream a frame is cut off by looking at its header once. A
reader that buffers what the stream hands out, in whatever parts, does the same:
what it has buffered and what is still unread always make up the rest of the
stream.
-/
namespace JustDrop
open Bincode

/-! ### The stream as a whole -/

/-- The first frame of a stream and what follows it. -/
def nextFrame (stream : Bytes) : Except NetworkError (Option (Bytes × Bytes)) :=
  if stream.length < FRAME_HEADER_SIZE then
    if stream = [] then .ok none else .error .connectionReset
  else
    let frameLen := headerLength (stream.take FRAME_HEADER_SIZE)
    if MAX_MESSAGE_SIZE < frameLen then .error (.frameTooLarge frameLen MAX_MESSAGE_SIZE)
    else if stream.length < FRAME_HEADER_SIZE + frameLen then .error .connectionReset
    else
      let body := stream.drop FRAME_HEADER_SIZE
      .ok (some (body.take frameLen, body.drop frameLen))

@[simp] theorem nextFrame_nil : nextFrame [] = .ok none := rfl

@[simp] theorem length_frame (ciphertext : Bytes) :
    (frame ciphertext).length = FRAME_HEADER_SIZE + ciphertext.length := by
  simp [frame]

theorem headerLength_take_frame {ciphertext : Bytes} (hle : ciphertext.length ≤ MAX_MESSAGE_SIZE)
    {n : ℕ} (hn : FRAME_HEADER_SIZE ≤ n) (rest : Bytes) :
    headerLength (((frame ciphertext ++ rest).take n).take FRAME_HEADER_SIZE) =
      ciphertext.length := by
  have htake : ((frame ciphertext ++ rest).take n).take FRAME_HEADER_SIZE =
      frameHeader ciphertext.length := by
    rw [List.take_take, Nat.min_eq_left hn, frame, List.append_assoc]
    exact List.take_left' (length_frameHeader _)
  have hlt : ciphertext.length < 2 ^ 32 := by
    have : MAX_MESSAGE_SIZE < 2 ^ 32 := by decide
    omega
  rw [htake, headerLength_frameHeader hlt]

/-- A frame at the head of the stream is cut off. -/
theorem nextFrame_frame {ciphertext : Bytes} (hle : ciphertext.length ≤ MAX_MESSAGE_SIZE)
    (rest : Bytes) : nextFrame (frame ciphertext ++ rest) = .ok (some (ciphertext, rest)) := by
  have hlen : (frame ciphertext ++ rest).length =
      FRAME_HEADER_SIZE + ciphertext.length + rest.length := by simp
  have hheader : headerLength ((frame ciphertext ++ rest).take FRAME_HEADER_SIZE) =
      ciphertext.length := by
    have := headerLength_take_frame hle (Nat.le_refl FRAME_HEADER_SIZE) rest
    rwa [List.take_take, Nat.min_self] at this
  have hdrop : (frame ciphertext ++ rest).drop FRAME_HEADER_SIZE = ciphertext ++ rest := by
    rw [frame, List.append_assoc]
    exact List.drop_left' (length_frameHeader _)
  rw [nextFrame, if_neg (by omega)]
  simp only [hheader, hdrop]
  rw [if_neg (by omega), if_neg (by omega), List.take_left' rfl, List.drop_left' rfl]

/-- A stream that ends inside a frame is reset. -/
theorem nextFrame_take_frame {ciphertext : Bytes} (hle : ciphertext.length ≤ MAX_MESSAGE_SIZE)
    {n : ℕ} (hpos : 0 < n) (hlt : n < (frame ciphertext).length) :
    nextFrame ((frame ciphertext).take n) = .error .connectionReset := by
  have hlen : ((frame ciphertext).take n).length = n := by
    rw [List.length_take, Nat.min_eq_left (Nat.le_of_lt hlt)]
  rw [length_frame] at hlt
  unfold nextFrame
  rw [hlen]
  by_cases hn : n < FRAME_HEADER_SIZE
  · have hne : (frame ciphertext).take n ≠ [] := by
      intro h
      rw [h, List.length_nil] at hlen
      omega
    rw [if_pos hn, if_neg hne]
  · have hheader := headerLength_take_frame hle (Nat.not_lt.mp hn) []
    rw [List.append_nil] at hheader
    simp only [if_neg hn, hheader]
    rw [if_neg (by omega), if_pos hlt]

/-- A header above the limit is refused. -/
theorem nextFrame_oversized {header : Bytes} (hlen : header.length = FRAME_HEADER_SIZE)
    (hover : MAX_MESSAGE_SIZE < headerLength header) (rest : Bytes) :
    nextFrame (header ++ rest) =
      .error (.frameTooLarge (headerLength header) MAX_MESSAGE_SIZE) := by
  have htake : (header ++ rest).take FRAME_HEADER_SIZE = header := List.take_left' hlen
  rw [nextFrame, if_neg (by rw [List.length_append]; omega)]
  simp only [htake]
  rw [if_pos hover]

/-! ### The buffered reader -/

/-- What is buffered and what is unread make up the stream; no read is empty before its end. -/
structure SecureTransport.Streams (transport : SecureTransport) (stream : Bytes) : Prop where
  parts : ∀ part ∈ transport.reads, part ≠ []
  bytes : transport.readBuf ++ transport.reads.flatten = stream

/-- No byte is lost or reordered, and reading stops with enough bytes or with all of them. -/
theorem fill_spec (needed : ℕ) (readBuf : Bytes) (reads : List Bytes)
    (hne : ∀ part ∈ reads, part ≠ []) :
    (fill needed readBuf reads).1 ++ (fill needed readBuf reads).2.flatten =
        readBuf ++ reads.flatten ∧
      (∀ part ∈ (fill needed readBuf reads).2, part ≠ []) ∧
      (needed ≤ (fill needed readBuf reads).1.length ∨ (fill needed readBuf reads).2 = []) := by
  induction reads generalizing readBuf with
  | nil => simp [fill]
  | cons part reads ih =>
    unfold fill
    split_ifs with h₁ h₂
    · exact ⟨rfl, hne, Or.inl h₁⟩
    · exact absurd h₂ (hne part (by simp))
    · obtain ⟨hflat, hparts, hlen⟩ := ih (readBuf ++ part) fun p hp => hne p (by simp [hp])
      exact ⟨by simpa using hflat, hparts, hlen⟩

namespace SecureTransport
variable {transport : SecureTransport} {stream : Bytes}

theorem Streams.fillTo (h : transport.Streams stream) (needed : ℕ) :
    (transport.fillTo needed).Streams stream := by
  obtain ⟨hflat, hparts, -⟩ := fill_spec needed transport.readBuf transport.reads h.parts
  exact ⟨hparts, hflat.trans h.bytes⟩

/-- After filling, the buffer shows the same beginning as the stream. -/
theorem Streams.take_fillTo (h : transport.Streams stream) (needed : ℕ) :
    (transport.fillTo needed).readBuf.take needed = stream.take needed := by
  obtain ⟨hflat, -, hlen⟩ := fill_spec needed transport.readBuf transport.reads h.parts
  rw [h.bytes] at hflat
  rcases hlen with hlen | hnil
  · rw [← hflat]
    exact (List.take_append_of_le_length hlen).symm
  · rw [hnil, List.flatten_nil, List.append_nil] at hflat
    rw [← hflat]
    rfl

/-- After filling, the buffer is too short exactly when the stream is. -/
theorem Streams.length_fillTo_lt (h : transport.Streams stream) (needed : ℕ) :
    (transport.fillTo needed).readBuf.length < needed ↔ stream.length < needed := by
  have htake := congrArg List.length (h.take_fillTo needed)
  simp only [List.length_take] at htake
  omega

/-- The session after a ciphertext and what the caller of `recv` gets for it. -/
def opened (decrypt : NoiseSession → Bytes → Except SecurityError (Bytes × NoiseSession))
    (session : NoiseSession) (ciphertext : Bytes) :
    Outcome NetworkError (Option Bytes) × NoiseSession :=
  match decrypt session ciphertext with
  | .error e => (.err (.security e), session)
  | .ok (plaintext, session') => (.ok (some plaintext), session')

/-- `recv` with an arbitrary function in the place of the decryption. -/
def recvWith (decrypt : NoiseSession → Bytes → Except SecurityError (Bytes × NoiseSession)) :
    Task SecureTransport NetworkError (Option Bytes) := do
  Task.modify (fillTo FRAME_HEADER_SIZE)
  let transport ← Task.get
  if transport.readBuf.length < FRAME_HEADER_SIZE then
    if transport.readBuf = [] then pure none else Task.fail .connectionReset
  else
    let frameLen := headerLength (transport.readBuf.take FRAME_HEADER_SIZE)
    if MAX_MESSAGE_SIZE < frameLen then Task.fail (.frameTooLarge frameLen MAX_MESSAGE_SIZE)
    else do
      Task.modify (fillTo (FRAME_HEADER_SIZE + frameLen))
      let transport ← Task.get
      if transport.readBuf.length < FRAME_HEADER_SIZE + frameLen then Task.fail .connectionReset
      else do
        let body := transport.readBuf.drop FRAME_HEADER_SIZE
        Task.modify fun t => { t with readBuf := body.drop frameLen }
        match decrypt transport.session (body.take frameLen) with
        | .error e => Task.fail (.security e)
        | .ok (plaintext, session) => do
          Task.modify fun t => { t with session }
          pure (some plaintext)

theorem recvWith_decrypt (noise : Noise) :
    recvWith (fun session => session.decrypt noise) = recv noise := rfl

/-- The reader cuts off the frame the stream as a whole begins with. -/
theorem recvWith_eq
    (decrypt : NoiseSession → Bytes → Except SecurityError (Bytes × NoiseSession))
    (h : transport.Streams stream) :
    match nextFrame stream with
    | .error e => (recvWith decrypt transport).1 = .err e
    | .ok none => (recvWith decrypt transport).1 = .ok none
    | .ok (some (ciphertext, rest)) =>
      (recvWith decrypt transport).1 = (opened decrypt transport.session ciphertext).1 ∧
        (recvWith decrypt transport).2.session =
          (opened decrypt transport.session ciphertext).2 ∧
        (recvWith decrypt transport).2.Streams rest := by
  have hshort := h.length_fillTo_lt FRAME_HEADER_SIZE
  have hheader := h.take_fillTo FRAME_HEADER_SIZE
  have h₁ := h.fillTo FRAME_HEADER_SIZE
  unfold recvWith nextFrame
  simp only [Task.modify_bind_run, Task.get_bind_run]
  set t₁ := transport.fillTo FRAME_HEADER_SIZE with ht₁
  by_cases hlt : stream.length < FRAME_HEADER_SIZE
  · have hnil : t₁.readBuf = [] ↔ stream = [] := by
      have hle : ∀ l : Bytes, l.length < FRAME_HEADER_SIZE → l.take FRAME_HEADER_SIZE = l :=
        fun l hl => List.take_of_length_le (Nat.le_of_lt hl)
      rw [hle _ (hshort.mpr hlt), hle _ hlt] at hheader
      rw [hheader]
    simp only [if_pos hlt, if_pos (hshort.mpr hlt), hnil]
    split_ifs <;> rfl
  · simp only [if_neg hlt, if_neg (hshort.not.mpr hlt), hheader]
    by_cases hover : MAX_MESSAGE_SIZE < headerLength (stream.take FRAME_HEADER_SIZE)
    · simp only [if_pos hover, Task.fail_run]
    · simp only [if_neg hover, Task.modify_bind_run, Task.get_bind_run]
      generalize headerLength (stream.take FRAME_HEADER_SIZE) = frameLen
      have hcut := h₁.length_fillTo_lt (FRAME_HEADER_SIZE + frameLen)
      have htake := h₁.take_fillTo (FRAME_HEADER_SIZE + frameLen)
      have h₂ := h₁.fillTo (FRAME_HEADER_SIZE + frameLen)
      have hsession : (t₁.fillTo (FRAME_HEADER_SIZE + frameLen)).session = transport.session := rfl
      set t₂ := t₁.fillTo (FRAME_HEADER_SIZE + frameLen) with ht₂
      by_cases hend : stream.length < FRAME_HEADER_SIZE + frameLen
      · simp only [if_pos hend, if_pos (hcut.mpr hend), Task.fail_run]
      · simp only [if_neg hend, if_neg (hcut.not.mpr hend), Task.modify_bind_run]
        have hbody : (t₂.readBuf.drop FRAME_HEADER_SIZE).take frameLen =
            (stream.drop FRAME_HEADER_SIZE).take frameLen := by
          rw [List.take_drop, List.take_drop, htake]
        have hrest : (t₂.readBuf.drop FRAME_HEADER_SIZE).drop frameLen ++ t₂.reads.flatten =
            (stream.drop FRAME_HEADER_SIZE).drop frameLen := by
          rw [← h₂.bytes, List.drop_drop, List.drop_drop,
            List.drop_append_of_le_length (Nat.not_lt.mp (hcut.not.mpr hend))]
        rw [hbody, hsession, opened]
        cases decrypt transport.session ((stream.drop FRAME_HEADER_SIZE).take frameLen) with
        | error e => exact ⟨rfl, hsession, h₂.parts, hrest⟩
        | ok r => exact ⟨rfl, rfl, h₂.parts, hrest⟩

/-- A frame at the head of the stream, however it is cut, is handed to the caller
when it fits the limits and the counters agree. -/
theorem recv_frame (noise : Noise) {transport : SecureTransport} {plaintext rest : Bytes}
    (hparts : ∀ part ∈ transport.reads, part ≠ [])
    (hfit : plaintext.length + TAG_LEN ≤ NOISE_MAX_MESSAGE)
    (hstream : transport.readBuf ++ transport.reads.flatten =
      frame (noise.sealWith transport.session.recvNonce plaintext) ++ rest) :
    (recv noise transport).1 = .ok (some plaintext) := by
  set body := noise.sealWith transport.session.recvNonce plaintext with hbody
  have hlen : body.length = plaintext.length + TAG_LEN := noise.length_sealWith _ _
  have hle : body.length ≤ MAX_MESSAGE_SIZE := by
    have : NOISE_MAX_MESSAGE ≤ MAX_MESSAGE_SIZE := by decide
    omega
  have hrecv := recvWith_eq (fun session => session.decrypt noise) ⟨hparts, hstream⟩
  rw [nextFrame_frame hle rest, recvWith_decrypt] at hrecv
  have hopened : transport.session.decrypt noise body = .ok (plaintext,
      { transport.session with recvNonce := transport.session.recvNonce + 1 }) := by
    have hfits : ¬NOISE_MAX_MESSAGE < body.length := by omega
    rw [NoiseSession.decrypt, NoiseSession.readMessage, if_neg hfits, hbody,
      noise.openWith_sealWith]
    rfl
  rw [hrecv.1, opened, hopened]

end SecureTransport

/-! ### A stream of frames -/

/-- The bytes that sending these ciphertexts writes. -/
def wire (ciphertexts : List Bytes) : Bytes := (ciphertexts.map frame).flatten

@[simp] theorem wire_nil : wire [] = [] := rfl

@[simp] theorem wire_cons (ciphertext : Bytes) (ciphertexts : List Bytes) :
    wire (ciphertext :: ciphertexts) = frame ciphertext ++ wire ciphertexts := rfl

/-- The frames that lie completely within the first `k` bytes. -/
def wholeFrames : List Bytes → ℕ → List Bytes
  | [], _ => []
  | ciphertext :: ciphertexts, k =>
    if k < (frame ciphertext).length then []
    else ciphertext :: wholeFrames ciphertexts (k - (frame ciphertext).length)

/-- The stream ends after a number of whole frames. -/
def AtBoundary (ciphertexts : List Bytes) (k : ℕ) : Prop :=
  ∃ n, (wire ciphertexts).take k = wire (ciphertexts.take n)

/-- Before the end of its first frame a stream is at a boundary only when it is empty. -/
theorem atBoundary_of_lt {ciphertext : Bytes} {ciphertexts : List Bytes} {k : ℕ}
    (hlt : k < (frame ciphertext).length) :
    AtBoundary (ciphertext :: ciphertexts) k ↔ k = 0 := by
  constructor
  · rintro ⟨n, hn⟩
    have hlen := congrArg List.length hn
    rw [List.length_take, wire_cons, List.length_append, Nat.min_eq_left (by omega)] at hlen
    cases n with
    | zero => simpa using hlen
    | succ n =>
      rw [List.take_succ_cons, wire_cons, List.length_append] at hlen
      omega
  · rintro rfl
    exact ⟨0, rfl⟩

/-- After its first frame a stream is at a boundary when what follows is. -/
theorem atBoundary_of_le {ciphertext : Bytes} {ciphertexts : List Bytes} {k : ℕ}
    (hle : (frame ciphertext).length ≤ k) :
    AtBoundary (ciphertext :: ciphertexts) k ↔
      AtBoundary ciphertexts (k - (frame ciphertext).length) := by
  have htake : (wire (ciphertext :: ciphertexts)).take k =
      frame ciphertext ++ (wire ciphertexts).take (k - (frame ciphertext).length) := by
    rw [wire_cons, List.take_append, List.take_of_length_le hle]
  constructor
  · rintro ⟨n, hn⟩
    rw [htake] at hn
    cases n with
    | zero =>
      have hlen := congrArg List.length hn
      simp [FRAME_HEADER_SIZE] at hlen
    | succ n =>
      rw [List.take_succ_cons, wire_cons] at hn
      exact ⟨n, List.append_cancel_left hn⟩
  · rintro ⟨n, hn⟩
    exact ⟨n + 1, by rw [htake, hn, List.take_succ_cons, wire_cons]⟩

namespace SecureTransport
variable {decrypt : NoiseSession → Bytes → Except SecurityError (Bytes × NoiseSession)}

/-- What `n` calls of `recv` give, one after the other. -/
def recvs (decrypt : NoiseSession → Bytes → Except SecurityError (Bytes × NoiseSession)) :
    ℕ → SecureTransport → List (Outcome NetworkError (Option Bytes))
  | 0, _ => []
  | n + 1, transport =>
    (recvWith decrypt transport).1 :: recvs decrypt n (recvWith decrypt transport).2

/-- What a caller gets for ciphertexts that are decrypted in turn. -/
def delivered (decrypt : NoiseSession → Bytes → Except SecurityError (Bytes × NoiseSession)) :
    NoiseSession → List Bytes → List (Outcome NetworkError (Option Bytes))
  | _, [] => []
  | session, ciphertext :: ciphertexts =>
    (opened decrypt session ciphertext).1 ::
      delivered decrypt (opened decrypt session ciphertext).2 ciphertexts

/-- Whole frames are delivered; the next call sees what follows them. -/
theorem recvs_frames
    (decrypt : NoiseSession → Bytes → Except SecurityError (Bytes × NoiseSession))
    {ciphertexts : List Bytes}
    (hle : ∀ ciphertext ∈ ciphertexts, ciphertext.length ≤ MAX_MESSAGE_SIZE)
    {transport : SecureTransport} {rest : Bytes}
    (h : transport.Streams (wire ciphertexts ++ rest)) :
    ∃ transport' : SecureTransport, transport'.Streams rest ∧
      recvs decrypt (ciphertexts.length + 1) transport =
        delivered decrypt transport.session ciphertexts ++
          [(recvWith decrypt transport').1] := by
  induction ciphertexts generalizing transport with
  | nil => exact ⟨transport, h, rfl⟩
  | cons ciphertext ciphertexts ih =>
    rw [List.forall_mem_cons] at hle
    rw [wire_cons, List.append_assoc] at h
    have hrecv := recvWith_eq decrypt h
    rw [nextFrame_frame hle.1] at hrecv
    obtain ⟨houtcome, hsession, hrest⟩ := hrecv
    obtain ⟨transport', hstreams, hrecvs⟩ := ih hle.2 hrest
    refine ⟨transport', hstreams, ?_⟩
    rw [List.length_cons, recvs, hrecvs, houtcome, hsession, delivered, List.cons_append]

/-- The first `k` bytes of the stream: the whole frames among them, and what is left. -/
theorem wire_take (ciphertexts : List Bytes) (k : ℕ) :
    ∃ rest, (wire ciphertexts).take k = wire (wholeFrames ciphertexts k) ++ rest ∧
      (AtBoundary ciphertexts k → rest = []) ∧
      (¬AtBoundary ciphertexts k → ∃ ciphertext ∈ ciphertexts, ∃ n, 0 < n ∧
        n < (frame ciphertext).length ∧ rest = (frame ciphertext).take n) := by
  induction ciphertexts generalizing k with
  | nil => exact ⟨[], by simp [wholeFrames], fun _ => rfl, fun h => absurd ⟨0, by simp⟩ h⟩
  | cons ciphertext ciphertexts ih =>
    by_cases hlt : k < (frame ciphertext).length
    · rw [atBoundary_of_lt hlt, wholeFrames, if_pos hlt]
      refine ⟨(frame ciphertext).take k, ?_, fun h => by rw [h, List.take_zero], fun h =>
        ⟨ciphertext, List.mem_cons_self, k, Nat.pos_of_ne_zero h, hlt, rfl⟩⟩
      rw [wire_cons, List.take_append_of_le_length (Nat.le_of_lt hlt)]
      rfl
    · obtain ⟨rest, htake, hboundary, hinside⟩ := ih (k - (frame ciphertext).length)
      rw [atBoundary_of_le (Nat.not_lt.mp hlt), wholeFrames, if_neg hlt]
      refine ⟨rest, ?_, hboundary, fun h => ?_⟩
      · rw [wire_cons, List.take_append, List.take_of_length_le (Nat.not_lt.mp hlt), htake,
          wire_cons, List.append_assoc]
      · obtain ⟨c, hc, hrest⟩ := hinside h
        exact ⟨c, List.mem_cons_of_mem _ hc, hrest⟩

theorem wholeFrames_subset (ciphertexts : List Bytes) (k : ℕ) :
    wholeFrames ciphertexts k ⊆ ciphertexts := by
  induction ciphertexts generalizing k with
  | nil => exact List.Subset.refl _
  | cons ciphertext ciphertexts ih =>
    unfold wholeFrames
    split_ifs
    · exact List.nil_subset _
    · exact List.cons_subset_cons _ (ih _)

/-- What is left of a stream decides the call after the last whole frame. -/
theorem recvs_of_nextFrame {ciphertexts : List Bytes}
    (hle : ∀ ciphertext ∈ ciphertexts, ciphertext.length ≤ MAX_MESSAGE_SIZE)
    {session : NoiseSession} {reads : List Bytes} (hparts : ∀ part ∈ reads, part ≠ [])
    {rest : Bytes} (hstream : reads.flatten = wire ciphertexts ++ rest)
    (last : Except NetworkError Unit)
    (hlast : nextFrame rest = last.map fun _ => none) :
    recvs decrypt (ciphertexts.length + 1) (new session reads) =
      delivered decrypt session ciphertexts ++
        [match last with
          | .ok () => .ok none
          | .error e => .err e] := by
  have hnew : (new session reads).Streams (wire ciphertexts ++ rest) := ⟨hparts, hstream⟩
  obtain ⟨transport', hstreams, hrecvs⟩ := recvs_frames decrypt hle hnew
  have hrecv := recvWith_eq decrypt hstreams
  rw [hlast] at hrecv
  rw [hrecvs]
  cases last with
  | ok u => exact congrArg (_ ++ [·]) hrecv
  | error e => exact congrArg (_ ++ [·]) hrecv

/-- Sending plaintexts one after the other. -/
def sendAll (noise : Noise) : List Bytes → Task SecureTransport NetworkError Unit
  | [] => pure ()
  | plaintext :: plaintexts => do
    send noise plaintext
    sendAll noise plaintexts

theorem send_eq_ok {noise : Noise} {plaintext : Bytes} {transport transport' : SecureTransport}
    (h : send noise plaintext transport = (.ok (), transport')) :
    ∃ ciphertext, ciphertext.length ≤ MAX_MESSAGE_SIZE ∧
      transport'.written = transport.written ++ frame ciphertext := by
  by_cases hfit : plaintext.length + TAG_LEN ≤ NOISE_MAX_MESSAGE
  · have hle : NOISE_MAX_MESSAGE ≤ MAX_MESSAGE_SIZE := by decide
    have hlen := noise.length_sealWith transport.session.sendNonce plaintext
    simp only [send, Task.get_bind_run, NoiseSession.encrypt_of_le noise _ hfit,
      Task.modify_bind_run] at h
    split_ifs at h with hfault
    · simp at h
    · obtain rfl := (Prod.mk.inj h).2
      exact ⟨_, by omega, rfl⟩
  · simp [send, NoiseSession.encrypt_of_lt noise _ (Nat.not_le.mp hfit)] at h

/-- What is sent is a stream of frames within the limit. -/
theorem sendAll_eq_ok {noise : Noise} {plaintexts : List Bytes}
    {transport transport' : SecureTransport}
    (h : sendAll noise plaintexts transport = (.ok (), transport')) :
    ∃ ciphertexts, ciphertexts.length = plaintexts.length ∧
      (∀ ciphertext ∈ ciphertexts, ciphertext.length ≤ MAX_MESSAGE_SIZE) ∧
      transport'.written = transport.written ++ wire ciphertexts := by
  induction plaintexts generalizing transport with
  | nil =>
    obtain rfl := (Prod.mk.inj h).2
    exact ⟨[], rfl, by simp, by simp⟩
  | cons plaintext plaintexts ih =>
    obtain ⟨_, transport₁, hsend, hrest⟩ := Task.bind_eq_ok.mp h
    obtain ⟨ciphertext, hle, hwritten⟩ := send_eq_ok hsend
    obtain ⟨ciphertexts, hlen, hall, hrest'⟩ := ih hrest
    refine ⟨ciphertext :: ciphertexts, by simp [hlen], ?_, ?_⟩
    · simpa [hle] using hall
    · rw [hrest', hwritten, List.append_assoc, wire_cons]

open scoped Classical in
/-- However the frames that were sent are cut into reads, and wherever the stream
ends, `recv` hands out the whole frames in order and then reports the end, a
reset inside a frame, or a header above the limit. -/
theorem recvs_fragmented (noise : Noise)
    (decrypt : NoiseSession → Bytes → Except SecurityError (Bytes × NoiseSession))
    (session : NoiseSession) (ciphertexts : List Bytes)
    (hle : ∀ ciphertext ∈ ciphertexts, ciphertext.length ≤ MAX_MESSAGE_SIZE)
    (reads : List Bytes) (hparts : ∀ part ∈ reads, part ≠ []) :
    recvWith (fun session => session.decrypt noise) = recv noise ∧
      (∀ plaintexts sender sender', sendAll noise plaintexts sender = (.ok (), sender') →
        ∃ sent : List Bytes, sent.length = plaintexts.length ∧
          (∀ ciphertext ∈ sent, ciphertext.length ≤ MAX_MESSAGE_SIZE) ∧
          sender'.written = sender.written ++ wire sent) ∧
      (reads.flatten = wire ciphertexts →
        recvs decrypt (ciphertexts.length + 1) (new session reads) =
          delivered decrypt session ciphertexts ++ [.ok none]) ∧
      (∀ k, reads.flatten = (wire ciphertexts).take k →
        recvs decrypt ((wholeFrames ciphertexts k).length + 1) (new session reads) =
          delivered decrypt session (wholeFrames ciphertexts k) ++
            [if AtBoundary ciphertexts k then .ok none else .err .connectionReset]) ∧
      ∀ header rest, header.length = FRAME_HEADER_SIZE → MAX_MESSAGE_SIZE < headerLength header →
        reads.flatten = wire ciphertexts ++ (header ++ rest) →
        recvs decrypt (ciphertexts.length + 1) (new session reads) =
          delivered decrypt session ciphertexts ++
            [.err (.frameTooLarge (headerLength header) MAX_MESSAGE_SIZE)] := by
  refine ⟨rfl, fun _ _ _ => sendAll_eq_ok, fun hstream => ?_, fun k hstream => ?_,
    fun header rest hlen hover hstream => ?_⟩
  · rw [← List.append_nil (wire ciphertexts)] at hstream
    exact recvs_of_nextFrame hle hparts hstream (.ok ()) nextFrame_nil
  · obtain ⟨rest, htake, hboundary, hinside⟩ := wire_take ciphertexts k
    rw [htake] at hstream
    have hwhole : ∀ ciphertext ∈ wholeFrames ciphertexts k,
        ciphertext.length ≤ MAX_MESSAGE_SIZE :=
      fun c hc => hle c (wholeFrames_subset ciphertexts k hc)
    by_cases hb : AtBoundary ciphertexts k
    · rw [if_pos hb]
      rw [hboundary hb] at hstream
      exact recvs_of_nextFrame hwhole hparts hstream (.ok ()) nextFrame_nil
    · rw [if_neg hb]
      obtain ⟨c, hc, n, hpos, hlt, rfl⟩ := hinside hb
      exact recvs_of_nextFrame hwhole hparts hstream (.error .connectionReset)
        (nextFrame_take_frame (hle c hc) hpos hlt)
  · exact recvs_of_nextFrame hle hparts hstream (.error _)
      (nextFrame_oversized hlen hover rest)

/-- Two frames in three reads that do not respect their borders. -/
theorem recvs_fragmented_two_frames :
    recvs (fun session ciphertext => .ok (ciphertext, session)) 3
        (new ⟨0, 0, Vector.replicate 32 0⟩ [[0], [0, 0, 1, 7, 0], [0, 0, 0]]) =
      [.ok (some [7]), .ok (some []), .ok none] :=
  (recvs_fragmented Noise.plain (fun session ciphertext => .ok (ciphertext, session))
    ⟨0, 0, Vector.replicate 32 0⟩ [[7], []] (by decide) [[0], [0, 0, 1, 7, 0], [0, 0, 0]]
    (by decide)).2.2.1 rfl

end SecureTransport
end JustDrop

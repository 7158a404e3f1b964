import JustDrop.Duplex
import JustDrop.Framing
import JustDrop.Handshake

/-!
# Handshakes between two ends

The responder's handshake, and what comes of an initiator and a responder on one
connection: each has the key of the other, and what either end writes behind its
handshake is what the other end reads behind its own. No byte of a handshake is left
to the session, and none of the session is taken by the handshake, however the stream
is cut and delayed.
-/
namespace JustDrop

/-- The Noise library as both sides use it. -/
structure Snow.Pair extends Snow where
  buildResponder : Bytes → Option State

open Snow TcpStream in
/-- Perform the handshake and return the session. -/
def handshakeResponder (snow : Snow.Pair) (privateKey : Bytes) :
    Task TcpStream ProtocolError NoiseSession := do
  let hs ← orFail (.serialization "noise build" .snow) (snow.buildResponder privateKey)
  let msg1 ← readRawFrame
  let hs ← orFail (.deserialization "hs msg1" .snow) (snow.readMessage hs msg1)
  let (msg2, hs) ← orFail (.serialization "hs msg2" .snow) (snow.writeMessage hs)
  writeRawFrame msg2
  let msg3 ← readRawFrame
  let hs ← orFail (.deserialization "hs msg3" .snow) (snow.readMessage hs msg3)
  orFail (.serialization "hs transport" .snow) (snow.intoTransportMode hs)

namespace TcpStream
variable {ε α β : Type}

/-- More bytes arrive. -/
def more (stream : TcpStream) (bytes : Bytes) : TcpStream :=
  { stream with incoming := stream.incoming ++ bytes }

@[simp] theorem incoming_more (stream : TcpStream) (bytes : Bytes) :
    (stream.more bytes).incoming = stream.incoming ++ bytes := rfl

@[simp] theorem written_more (stream : TcpStream) (bytes : Bytes) :
    (stream.more bytes).written = stream.written := rfl

@[simp] theorem writeFaults_more (stream : TcpStream) (bytes : Bytes) :
    (stream.more bytes).writeFaults = stream.writeFaults := rfl

/-! ### Tasks that do not look ahead -/

/-- What a task has returned and written stays when more bytes arrive behind those it
has read. -/
structure Causal (t : Task TcpStream ε α) : Prop where
  grows : ∀ s, s.written <+: (t s).2.written
  returns : ∀ {s a s'}, t s = (.ok a, s') → ∀ bytes, t (s.more bytes) = (.ok a, s'.more bytes)
  answers : ∀ s bytes, (t s).2.written <+: (t (s.more bytes)).2.written

namespace Causal

theorem pure (a : α) : Causal (Pure.pure a : Task TcpStream ε α) where
  grows _ := List.prefix_rfl
  returns h bytes := by
    obtain ⟨ha, rfl⟩ := Prod.mk.inj h
    rw [Task.pure_run, ha]
  answers _ _ := List.prefix_rfl

theorem fail (e : ε) : Causal (Task.fail e : Task TcpStream ε α) where
  grows _ := List.prefix_rfl
  returns h := by simp at h
  answers _ _ := List.prefix_rfl

theorem orFail (e : ProtocolError) (o : Option α) :
    Causal (Snow.orFail e o : Task TcpStream ProtocolError α) := by
  cases o with
  | none => exact fail e
  | some a => exact pure a

theorem bind {t : Task TcpStream ε α} {f : α → Task TcpStream ε β} (ht : Causal t)
    (hf : ∀ a, Causal (f a)) : Causal (t >>= f) := by
  have hafter : ∀ s, (t s).2.written <+: ((t >>= f) s).2.written := by
    intro s
    rcases hs : t s with ⟨a | e | _, s₁⟩
    · rw [Task.bind_of_ok hs]
      exact (hf a).grows s₁
    · rw [Task.bind_of_err hs]
    · rw [Task.bind_of_panic hs]
  refine ⟨fun s => (ht.grows s).trans (hafter s), fun h bytes => ?_, fun s bytes => ?_⟩
  · obtain ⟨a, s₁, hs, hrest⟩ := Task.bind_eq_ok.mp h
    rw [Task.bind_of_ok (ht.returns hs bytes)]
    exact (hf a).returns hrest bytes
  · have hmore := (ht.answers s bytes).trans (hafter (s.more bytes))
    rcases hs : t s with ⟨a | e | _, s₁⟩
    · rw [Task.bind_of_ok hs, Task.bind_of_ok (ht.returns hs bytes)]
      exact (hf a).answers s₁ bytes
    · rw [Task.bind_of_err hs]
      rwa [hs] at hmore
    · rw [Task.bind_of_panic hs]
      rwa [hs] at hmore

theorem mapErr {ε' : Type} {t : Task TcpStream ε α} (f : ε → ε') (ht : Causal t) :
    Causal (Task.mapErr f t) where
  grows s := by
    rw [Task.mapErr_snd]
    exact ht.grows s
  returns h bytes := Task.mapErr_eq_ok.mpr (ht.returns (Task.mapErr_eq_ok.mp h) bytes)
  answers s bytes := by
    rw [Task.mapErr_snd, Task.mapErr_snd]
    exact ht.answers s bytes

theorem writeAll (data : Bytes) : Causal (TcpStream.writeAll data) := by
  have hrun : ∀ s, TcpStream.writeAll data s =
      if s.writeFaults.head?.getD false then
        (.err (), { s with writeFaults := s.writeFaults.tail })
      else (.ok (), { s with writeFaults := s.writeFaults.tail, written := s.written ++ data }) := by
    intro s
    simp only [TcpStream.writeAll, Task.get_bind_run, Task.modify_bind_run]
    split_ifs <;> rfl
  refine ⟨fun s => ?_, fun {s a s'} h bytes => ?_, fun s bytes => ?_⟩
  · rw [hrun]
    split_ifs
    · exact List.prefix_rfl
    · exact List.prefix_append _ _
  · rw [hrun] at h ⊢
    rw [writeFaults_more]
    split_ifs at h ⊢
    · simp at h
    · obtain ⟨-, rfl⟩ := Prod.mk.inj h
      rfl
  · rw [hrun, hrun, writeFaults_more]
    split_ifs <;> exact List.prefix_rfl

theorem readExact (n : ℕ) : Causal (TcpStream.readExact n) := by
  have hrun : ∀ s, TcpStream.readExact n s =
      (if s.incoming.length < n then .err () else .ok (s.incoming.take n),
        { s with incoming := s.incoming.drop n }) := by
    intro s
    simp only [TcpStream.readExact, Task.get_bind_run, Task.modify_bind_run]
    split_ifs <;> rfl
  refine ⟨fun s => ?_, fun {s a s'} h bytes => ?_, fun s bytes => ?_⟩
  · rw [hrun]
  · rw [hrun] at h ⊢
    obtain ⟨hvalue, rfl⟩ := Prod.mk.inj h
    split_ifs at hvalue with hshort
    have hle : n ≤ s.incoming.length := not_lt.mp hshort
    have hlong : ¬(s.more bytes).incoming.length < n := by
      rw [incoming_more, List.length_append]
      omega
    rw [if_neg hlong, incoming_more, List.take_append_of_le_length hle,
      List.drop_append_of_le_length hle, hvalue]
    rfl
  · rw [hrun, hrun]
    exact List.prefix_rfl

theorem writeRawFrame (data : Bytes) : Causal (TcpStream.writeRawFrame data) :=
  bind ((writeAll _).mapErr _) fun _ => (writeAll _).mapErr _

theorem readRawFrame : Causal TcpStream.readRawFrame := by
  refine bind ((readExact 4).mapErr _) fun header => ?_
  dsimp only
  split_ifs
  · exact fail _
  · exact (readExact _).mapErr _

end Causal
end TcpStream

open TcpStream

theorem causal_handshakeInitiator (snow : Snow) (privateKey : Bytes) :
    TcpStream.Causal (handshakeInitiator snow privateKey) :=
  (Causal.orFail _ _).bind fun _ => (Causal.orFail _ _).bind fun _ =>
    (Causal.writeRawFrame _).bind fun _ => Causal.readRawFrame.bind fun _ =>
      (Causal.orFail _ _).bind fun _ => (Causal.orFail _ _).bind fun _ =>
        (Causal.writeRawFrame _).bind fun _ => Causal.orFail _ _

theorem causal_handshakeResponder (snow : Snow.Pair) (privateKey : Bytes) :
    TcpStream.Causal (handshakeResponder snow privateKey) :=
  (Causal.orFail _ _).bind fun _ => Causal.readRawFrame.bind fun _ =>
    (Causal.orFail _ _).bind fun _ => (Causal.orFail _ _).bind fun _ =>
      (Causal.writeRawFrame _).bind fun _ => Causal.readRawFrame.bind fun _ =>
        (Causal.orFail _ _).bind fun _ => Causal.orFail _ _

/-! ### An end behind its handshake -/

/-- A connection on which these bytes have arrived so far. -/
def TcpStream.opened (arrived : Bytes) : TcpStream :=
  { incoming := arrived, written := [], writeFaults := [] }

section Talks
variable (t : Task TcpStream ProtocolError NoiseSession) (after : NoiseSession → Bytes → Bytes)

/-- The session and the bytes that are left to it, once the handshake has returned. -/
def handed (arrived : Bytes) : Option (NoiseSession × Bytes) :=
  match t (opened arrived) with
  | (.ok session, stream) => some (session, stream.incoming)
  | _ => none

/-- What the end has written behind its handshake, where its session answers what is left to
it as `after` says. -/
def follows (arrived : Bytes) : Bytes :=
  match handed t arrived with
  | some (session, rest) => after session rest
  | none => []

/-- All that the end has written. -/
def talks (arrived : Bytes) : Bytes := (t (opened arrived)).2.written ++ follows t after arrived

variable {t after}

theorem handed_eq_some {arrived rest : Bytes} {session : NoiseSession} :
    handed t arrived = some (session, rest) ↔
      ∃ stream, t (opened arrived) = (.ok session, stream) ∧ stream.incoming = rest := by
  unfold handed
  rcases t (opened arrived) with ⟨s | e | _, stream⟩ <;> simp

/-- A handshake that has returned goes on as it did when more bytes arrive. -/
theorem handed_append (ht : TcpStream.Causal t) {arrived rest : Bytes} {session : NoiseSession}
    (h : handed t arrived = some (session, rest)) (bytes : Bytes) :
    handed t (arrived ++ bytes) = some (session, rest ++ bytes) ∧
      (t (opened (arrived ++ bytes))).2.written = (t (opened arrived)).2.written := by
  obtain ⟨stream, hrun, rfl⟩ := handed_eq_some.mp h
  have hmore : t (opened (arrived ++ bytes)) = (.ok session, stream.more bytes) :=
    ht.returns hrun bytes
  exact ⟨handed_eq_some.mpr ⟨_, hmore, rfl⟩, by rw [hmore, hrun]; rfl⟩

theorem causal_talks (ht : TcpStream.Causal t) (hafter : ∀ session, Duplex.Causal (after session)) :
    Duplex.Causal (talks t after) := by
  rintro x y ⟨bytes, rfl⟩
  unfold talks
  cases hx : handed t x with
  | none =>
    have hnothing : follows t after x = [] := by rw [follows, hx]
    rw [hnothing, List.append_nil]
    exact (ht.answers (opened x) bytes).trans (List.prefix_append _ _)
  | some result =>
    obtain ⟨session, rest⟩ := result
    obtain ⟨hmore, hwritten⟩ := handed_append ht hx bytes
    rw [follows, follows, hx, hmore, hwritten, List.prefix_append_right_inj]
    exact hafter session _ _ (List.prefix_append _ _)

/-- A handshake that reads exactly `full` and has written `own` by then. -/
def Completes (t : Task TcpStream ProtocolError NoiseSession) (full own : Bytes)
    (session : NoiseSession) : Prop :=
  t (opened full) = (.ok session, { opened [] with written := own })

section Completes
variable {full own : Bytes} {session : NoiseSession}

theorem Completes.handed_append (h : Completes t full own session) (ht : TcpStream.Causal t)
    (rest : Bytes) : handed t (full ++ rest) = some (session, rest) ∧
      (t (opened (full ++ rest))).2.written = own := by
  have hfull : handed t full = some (session, []) := handed_eq_some.mpr ⟨_, h, rfl⟩
  obtain ⟨hhanded, hwritten⟩ := JustDrop.handed_append ht hfull rest
  exact ⟨hhanded, hwritten.trans (by rw [h])⟩

/-- Before all of it has arrived the handshake has not returned. -/
theorem Completes.handed_of_short (h : Completes t full own session) (ht : TcpStream.Causal t)
    {arrived : Bytes} (hbegins : arrived <+: full) (hne : arrived ≠ full) :
    handed t arrived = none := by
  obtain ⟨bytes, rfl⟩ := hbegins
  cases hshort : handed t arrived with
  | none => rfl
  | some result =>
    obtain ⟨session', rest⟩ := result
    have hmore := (JustDrop.handed_append ht hshort bytes).1
    have hfull := (h.handed_append ht []).1
    rw [List.append_nil, hmore, Option.some.injEq, Prod.mk.injEq] at hfull
    exact absurd (by rw [(List.append_eq_nil_iff.mp hfull.2).2, List.append_nil]) hne

theorem Completes.opens (h : Completes t full own session) (ht : TcpStream.Causal t) :
    Duplex.Opens (talks t after) full own (after session) where
  before x hx hne := by
    have hnothing : follows t after x = [] := by rw [follows, h.handed_of_short ht hx hne]
    obtain ⟨bytes, rfl⟩ := hx
    have hwritten := ht.answers (opened x) bytes
    rw [talks, hnothing, List.append_nil]
    exact hwritten.trans (by rw [← (h.handed_append ht []).2, List.append_nil]; rfl)
  behind rest := by
    obtain ⟨hhanded, hwritten⟩ := h.handed_append ht rest
    rw [talks, follows, hhanded, hwritten]

/-- Where the handshake has returned, its bytes have arrived. -/
theorem Completes.of_handed (h : Completes t full own session) (ht : TcpStream.Causal t)
    {arrived rest : Bytes} {session' : NoiseSession}
    (hagrees : arrived <+: full ∨ full <+: arrived)
    (hhanded : handed t arrived = some (session', rest)) :
    session' = session ∧ arrived = full ++ rest := by
  have hfull : full <+: arrived := by
    by_cases heq : arrived = full
    · exact heq ▸ List.prefix_rfl
    · refine hagrees.resolve_left fun hshort => ?_
      rw [h.handed_of_short ht hshort heq] at hhanded
      simp at hhanded
  obtain ⟨bytes, rfl⟩ := hfull
  rw [(h.handed_append ht bytes).1, Option.some.injEq, Prod.mk.injEq] at hhanded
  exact ⟨hhanded.1.symm, by rw [hhanded.2]⟩

end Completes
end Talks

/-! ### The two handshakes together -/

/-- A handshake as the library carries it out: each of the three messages is read where it
was meant to be, and each side gets to know the key of the other. -/
structure Exchange (snow : Snow.Pair) (privateI privateR : Bytes) (keyI keyR : PublicKey) where
  (i₀ i₁ i₂ i₃ r₀ r₁ r₂ r₃ : snow.State)
  (msg1 msg2 msg3 : Bytes)
  buildI : snow.buildInitiator privateI = some i₀
  buildR : snow.buildResponder privateR = some r₀
  write1 : snow.writeMessage i₀ = some (msg1, i₁)
  read1 : snow.readMessage r₀ msg1 = some r₁
  write2 : snow.writeMessage r₁ = some (msg2, r₂)
  read2 : snow.readMessage i₁ msg2 = some i₂
  write3 : snow.writeMessage i₂ = some (msg3, i₃)
  read3 : snow.readMessage r₂ msg3 = some r₃
  transportI : snow.intoTransportMode i₃ = some ⟨0, 0, keyR⟩
  transportR : snow.intoTransportMode r₃ = some ⟨0, 0, keyI⟩
  short : ∀ msg ∈ [msg1, msg2, msg3], msg.length ≤ NOISE_MAX_MESSAGE

namespace TcpStream

theorem writeRawFrame_run (data incoming written : Bytes) :
    writeRawFrame data ⟨incoming, written, []⟩ = (.ok (), ⟨incoming, written ++ frame data, []⟩) := by
  rw [frame, ← List.append_assoc]
  rfl

theorem readRawFrame_run {body : Bytes} (hle : body.length ≤ NOISE_MAX_MESSAGE)
    (rest written : Bytes) :
    readRawFrame ⟨frame body ++ rest, written, []⟩ = (.ok body, ⟨rest, written, []⟩) := by
  have hmax : body.length ≤ MAX_MESSAGE_SIZE := hle.trans (by decide)
  have hfit : body.length < 2 ^ 32 := lt_of_le_of_lt hmax (by decide)
  have hheader : readExact 4 ⟨frame body ++ rest, written, []⟩ =
      (.ok (frameHeader body.length), ⟨body ++ rest, written, []⟩) := by
    have hlength : (frameHeader body.length).length = 4 := length_frameHeader _
    simp only [readExact, Task.get_bind_run, Task.modify_bind_run, frame, List.append_assoc]
    rw [if_neg (by simp [hlength]), List.take_left' hlength, List.drop_left' hlength]
    rfl
  have hbody : readExact body.length ⟨body ++ rest, written, []⟩ =
      (.ok body, ⟨rest, written, []⟩) := by
    simp only [readExact, Task.get_bind_run, Task.modify_bind_run]
    rw [if_neg (by simp), List.take_left' rfl, List.drop_left' rfl]
    rfl
  rw [readRawFrame, Task.bind_of_ok (Task.mapErr_of_ok hheader)]
  rw [headerLength_frameHeader hfit, if_neg (not_lt.mpr hmax)]
  exact Task.mapErr_of_ok hbody

theorem readRawFrame_nil (written : Bytes) : ∃ e, readRawFrame ⟨[], written, []⟩ =
    (.err e, ⟨[], written, []⟩) := ⟨_, rfl⟩

end TcpStream

namespace Exchange
variable {snow : Snow.Pair} {privateI privateR : Bytes} {keyI keyR : PublicKey}
  (exchange : Exchange snow privateI privateR keyI keyR)

/-- What the initiator reads, and what the responder reads. -/
def toInitiator : Bytes := frame exchange.msg2

def toResponder : Bytes := frame exchange.msg1 ++ frame exchange.msg3

theorem initiator_run : Completes (handshakeInitiator snow.toSnow privateI) exchange.toInitiator
    exchange.toResponder ⟨0, 0, keyR⟩ := by
  have hread := readRawFrame_run (exchange.short exchange.msg2 (by simp)) []
    (frame exchange.msg1)
  rw [List.append_nil] at hread
  simp only [Completes, handshakeInitiator, Snow.orFail, exchange.buildI, exchange.write1,
    Task.pure_bind_run]
  rw [opened, Task.bind_of_ok (writeRawFrame_run _ _ _), List.nil_append, toInitiator,
    Task.bind_of_ok hread]
  simp only [exchange.read2, exchange.write3, Task.pure_bind_run]
  rw [Task.bind_of_ok (writeRawFrame_run _ _ _)]
  simp only [exchange.transportI, Task.pure_run]
  rfl

theorem responder_run : Completes (handshakeResponder snow privateR) exchange.toResponder
    exchange.toInitiator ⟨0, 0, keyI⟩ := by
  have hread1 := readRawFrame_run (exchange.short exchange.msg1 (by simp))
    (frame exchange.msg3) []
  have hread3 := readRawFrame_run (exchange.short exchange.msg3 (by simp)) []
    (frame exchange.msg2)
  rw [List.append_nil] at hread3
  simp only [Completes, handshakeResponder, Snow.orFail, exchange.buildR, Task.pure_bind_run]
  rw [opened, toResponder, Task.bind_of_ok hread1]
  simp only [exchange.read1, exchange.write2, Task.pure_bind_run]
  rw [Task.bind_of_ok (writeRawFrame_run _ _ _), List.nil_append, Task.bind_of_ok hread3]
  simp only [exchange.read3, exchange.transportR, Task.pure_bind_run, Task.pure_run]
  rfl

/-- The initiator begins, and each side answers. -/
theorem live (afterI afterR : NoiseSession → Bytes → Bytes)
    (hafterI : ∀ session, Duplex.Causal (afterI session))
    (hafterR : ∀ session, Duplex.Causal (afterR session)) :
    Duplex.Live (talks (handshakeInitiator snow.toSnow privateI) afterI)
      (talks (handshakeResponder snow privateR) afterR) exchange.toInitiator
      exchange.toResponder := by
  have hfirst : frame exchange.msg1 <+: talks (handshakeInitiator snow.toSnow privateI) afterI [] := by
    obtain ⟨e, hfails⟩ := readRawFrame_nil (frame exchange.msg1)
    have hrun : handshakeInitiator snow.toSnow privateI (opened []) =
        (.err e, ⟨[], frame exchange.msg1, []⟩) := by
      simp only [handshakeInitiator, Snow.orFail, exchange.buildI, exchange.write1,
        Task.pure_bind_run]
      rw [opened, Task.bind_of_ok (writeRawFrame_run _ _ _), List.nil_append,
        Task.bind_of_err hfails]
    rw [talks, hrun]
    exact List.prefix_append _ _
  have hsecond : frame exchange.msg2 <+:
      talks (handshakeResponder snow privateR) afterR (frame exchange.msg1) := by
    obtain ⟨e, hfails⟩ := readRawFrame_nil (frame exchange.msg2)
    have hread := readRawFrame_run (exchange.short exchange.msg1 (by simp)) [] []
    rw [List.append_nil] at hread
    have hrun : handshakeResponder snow privateR (opened (frame exchange.msg1)) =
        (.err e, ⟨[], frame exchange.msg2, []⟩) := by
      simp only [handshakeResponder, Snow.orFail, exchange.buildR, Task.pure_bind_run]
      rw [opened, Task.bind_of_ok hread]
      simp only [exchange.read1, exchange.write2, Task.pure_bind_run]
      rw [Task.bind_of_ok (writeRawFrame_run _ _ _), List.nil_append, Task.bind_of_err hfails]
    rw [talks, hrun]
    exact List.prefix_append _ _
  have hcausalI := causal_talks (causal_handshakeInitiator snow.toSnow privateI) hafterI
  have hcausalR := causal_talks (causal_handshakeResponder snow privateR) hafterR
  intro x y hx hy
  have hy₁ : frame exchange.msg1 <+: y :=
    (hfirst.trans (hcausalI _ _ List.nil_prefix)).trans hx
  have hx₂ : frame exchange.msg2 <+: x := (hsecond.trans (hcausalR _ _ hy₁)).trans hy
  refine ⟨hx₂, ?_⟩
  have hopens : Duplex.Opens _ _ _ (afterI _) :=
    exchange.initiator_run.opens (causal_handshakeInitiator snow.toSnow privateI)
  have hthird := hopens.behind []
  rw [List.append_nil] at hthird
  exact ((List.prefix_append _ _).trans (hthird ▸ hcausalI _ _ hx₂)).trans hx

theorem follows_eq {t : Task TcpStream ProtocolError NoiseSession} {full own rest : Bytes}
    {session : NoiseSession} (h : Completes t full own session) (ht : TcpStream.Causal t)
    (after : NoiseSession → Bytes → Bytes) :
    follows t after (full ++ rest) = after session rest := by
  rw [follows, (h.handed_append ht rest).1]

/-- On a network that passes on what is written, in any parts and with any delay: an end whose
handshake has returned has the key of the other end, and its session reads the beginning of what
the other end wrote behind its own handshake. Once nothing is on its way both handshakes have
returned, and all that was written behind them is there for the sessions. -/
theorem handed_of_run (exchange : Exchange snow privateI privateR keyI keyR)
    (afterI afterR : NoiseSession → Bytes → Bytes)
    (hafterI : ∀ session, Duplex.Causal (afterI session))
    (hafterR : ∀ session, Duplex.Causal (afterR session))
    {taken : List (Duplex.Arrived UInt8 × Duplex.Delivery UInt8)} {s : Duplex.Arrived UInt8}
    (run : Run (Duplex.Step (talks (handshakeInitiator snow.toSnow privateI) afterI)
      (talks (handshakeResponder snow privateR) afterR)) .none taken s) :
    (∀ session rest, handed (handshakeInitiator snow.toSnow privateI) s.left =
        some (session, rest) →
      session = ⟨0, 0, keyR⟩ ∧
        rest <+: follows (handshakeResponder snow privateR) afterR s.right) ∧
    (∀ session rest, handed (handshakeResponder snow privateR) s.right = some (session, rest) →
      session = ⟨0, 0, keyI⟩ ∧
        rest <+: follows (handshakeInitiator snow.toSnow privateI) afterI s.left) ∧
    (Duplex.Quiet (talks (handshakeInitiator snow.toSnow privateI) afterI)
        (talks (handshakeResponder snow privateR) afterR) s →
      handed (handshakeInitiator snow.toSnow privateI) s.left =
          some (⟨0, 0, keyR⟩, follows (handshakeResponder snow privateR) afterR s.right) ∧
        handed (handshakeResponder snow privateR) s.right =
          some (⟨0, 0, keyI⟩, follows (handshakeInitiator snow.toSnow privateI) afterI s.left)) := by
  have hI := causal_handshakeInitiator snow.toSnow privateI
  have hR := causal_handshakeResponder snow privateR
  have hrunI := exchange.initiator_run
  have hrunR := exchange.responder_run
  have hcausalI := causal_talks hI hafterI
  have hcausalR := causal_talks hR hafterR
  have hopensI : Duplex.Opens _ _ _ (afterI _) := hrunI.opens hI
  have hopensR : Duplex.Opens _ _ _ (afterR _) := hrunR.opens hR
  obtain ⟨-, hagrees⟩ := Duplex.agrees_of_run hcausalI hcausalR hopensI hopensR run
  obtain ⟨hleft, hright⟩ := Duplex.behind_of_run hcausalI hcausalR hopensI hopensR run
  refine ⟨fun session rest hhanded => ?_, fun session rest hhanded => ?_, fun hquiet => ?_⟩
  · obtain ⟨rfl, harrived⟩ := hrunI.of_handed hI hagrees.left hhanded
    refine ⟨rfl, ?_⟩
    rcases hleft rest harrived with rfl | ⟨rest', hother, hbegins⟩
    · exact List.nil_prefix
    · rwa [hother, follows_eq hrunR hR]
  · obtain ⟨rfl, harrived⟩ := hrunR.of_handed hR hagrees.right hhanded
    refine ⟨rfl, ?_⟩
    rcases hright rest harrived with rfl | ⟨rest', hother, hbegins⟩
    · exact List.nil_prefix
    · rwa [hother, follows_eq hrunI hI]
  · obtain ⟨rest, rest', hl, hr, hrest, hrest'⟩ := Duplex.connected hopensI hopensR
      (exchange.live afterI afterR hafterI hafterR) hquiet
    rw [hl, hr, follows_eq hrunR hR, follows_eq hrunI hI, ← hrest, ← hrest']
    exact ⟨(hrunI.handed_append hI rest).1, (hrunR.handed_append hR rest').1⟩

end Exchange

/-! ### An echo behind the handshake -/

/-- One side between two of the three messages: its own key, the other one once it is known,
and the number of messages. -/
structure Snow.Unsealed where
  initiator : Bool
  own : Bytes
  other : Bytes
  count : ℕ
  deriving DecidableEq

namespace Snow.Unsealed

def tag : Bytes := List.replicate TAG_LEN 0

/-- The first two messages begin with a key that is made up for the exchange, the last two go on
with the static key; it and the empty payload carry a tag each. -/
def message (hs : Unsealed) : Bytes :=
  (if hs.count < 2 then hs.own.map (255 - ·) else []) ++
    if hs.count = 0 then [] else hs.own ++ tag ++ tag

def lengths : List ℕ := [32, 96, 64]

/-- The static key in the message that comes next. -/
def known (hs : Unsealed) (message : Bytes) : Bytes :=
  match hs.count with
  | 0 => hs.other
  | 1 => (message.drop 32).take 32
  | _ => message.take 32

end Snow.Unsealed

/-- A library with the messages of the XX pattern, whose keys are not encrypted. -/
def Snow.unsealed : Snow.Pair where
  State := Snow.Unsealed
  buildInitiator key := some ⟨true, key, [], 0⟩
  buildResponder key := some ⟨false, key, [], 0⟩
  writeMessage hs :=
    if hs.count < 3 ∧ hs.initiator = (hs.count % 2 = 0) then
      some (hs.message, { hs with count := hs.count + 1 })
    else none
  readMessage hs message :=
    if Unsealed.lengths[hs.count]? = some message.length ∧ hs.initiator ≠ (hs.count % 2 = 0) then
      some { hs with other := hs.known message, count := hs.count + 1 }
    else none
  intoTransportMode hs :=
    if hs.count = 3 then some ⟨0, 0, Vector.ofFn fun i => hs.other.getD i 0⟩ else none

def phoneKey : PublicKey := Vector.replicate 32 1

def laptopKey : PublicKey := Vector.replicate 32 2

/-- The two sides before each message. -/
def phoneState (other : Bytes) (count : ℕ) : Snow.Unsealed := ⟨true, phoneKey.toList, other, count⟩

def laptopState (other : Bytes) (count : ℕ) : Snow.Unsealed :=
  ⟨false, laptopKey.toList, other, count⟩

def firstMessage : Bytes := (phoneState [] 0).message

def secondMessage : Bytes := (laptopState [] 1).message

def thirdMessage : Bytes := (phoneState laptopKey.toList 2).message

def exchangeUnsealed :
    Exchange Snow.unsealed phoneKey.toList laptopKey.toList phoneKey laptopKey where
  i₀ := phoneState [] 0
  i₁ := phoneState [] 1
  i₂ := phoneState laptopKey.toList 2
  i₃ := phoneState laptopKey.toList 3
  r₀ := laptopState [] 0
  r₁ := laptopState [] 1
  r₂ := laptopState [] 2
  r₃ := laptopState phoneKey.toList 3
  msg1 := firstMessage
  msg2 := secondMessage
  msg3 := thirdMessage
  buildI := rfl
  buildR := rfl
  write1 := rfl
  read1 := rfl
  write2 := rfl
  read2 := rfl
  write3 := rfl
  read3 := rfl
  transportI := by decide
  transportR := by decide
  short := by decide

/-- The messages have the lengths of the XX pattern. -/
example : [firstMessage, secondMessage, thirdMessage].map List.length = [32, 96, 64] := by decide

def phoneTalks : Bytes → Bytes :=
  talks (handshakeInitiator Snow.unsealed.toSnow phoneKey.toList) fun _ _ => [7]

/-- The laptop answers with what it was sent. -/
def laptopTalks : Bytes → Bytes :=
  talks (handshakeResponder Snow.unsealed laptopKey.toList) fun _ rest => rest

/-- The first frame arrives in two parts, and the last one together with what follows it. -/
def echoing : List (Duplex.Delivery UInt8) :=
  [.toRight ((frame firstMessage).take 10), .toRight ((frame firstMessage).drop 10),
    .toLeft (frame secondMessage), .toRight (frame thirdMessage ++ [7]), .toLeft [7]]

def arrivedAt (n : ℕ) : Duplex.Arrived UInt8 :=
  (echoing.take n).foldl (fun s delivery => match delivery with
    | .toLeft part => { s with left := s.left ++ part }
    | .toRight part => { s with right := s.right ++ part }) .none

theorem run_echoing : Run (Duplex.Step phoneTalks laptopTalks) .none
    [(arrivedAt 0, .toRight ((frame firstMessage).take 10)),
      (arrivedAt 1, .toRight ((frame firstMessage).drop 10)),
      (arrivedAt 2, .toLeft (frame secondMessage)),
      (arrivedAt 3, .toRight (frame thirdMessage ++ [7])), (arrivedAt 4, .toLeft [7])]
    (arrivedAt 5) :=
  .snoc (.snoc (.snoc (.snoc (.snoc .refl ⟨by decide +kernel, rfl⟩) ⟨by decide +kernel, rfl⟩)
    ⟨by decide +kernel, rfl⟩) ⟨by decide +kernel, rfl⟩) ⟨by decide +kernel, rfl⟩

theorem Exchange.handed_of_run_echoing :
    handed (handshakeInitiator Snow.unsealed.toSnow phoneKey.toList) (arrivedAt 5).left =
        some (⟨0, 0, laptopKey⟩, [7]) ∧
      handed (handshakeResponder Snow.unsealed laptopKey.toList) (arrivedAt 5).right =
        some (⟨0, 0, phoneKey⟩, [7]) := by
  have h := (Exchange.handed_of_run exchangeUnsealed (fun _ _ => [7]) (fun _ rest => rest)
    (fun _ _ _ _ => List.prefix_rfl) (fun _ _ _ h => h) run_echoing).2.2
    ⟨by decide +kernel, by decide +kernel⟩
  exact ⟨h.1.trans (by decide +kernel), h.2.trans (by decide +kernel)⟩

end JustDrop

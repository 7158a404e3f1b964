import JustDrop.SecureChannel

/-!
# A network that passes on what is written

Between two ends whose writes do not fail the network hands over what was written,
later and in other parts. What an end has read of it are then whole frames, so the
next message is never lost: once everything written has been handed over, `recv`
returns it.
-/
namespace JustDrop

/-- The stream holds a part of the first frame, neither nothing nor all of it. -/
def InsideFrame (ciphertexts : List Bytes) (stream : Bytes) : Prop :=
  ∃ ciphertext, ciphertexts[0]? = some ciphertext ∧ stream ≠ [] ∧ stream <+: frame ciphertext ∧
    stream ≠ frame ciphertext

/-- A beginning of a stream of frames is empty, ends inside its first frame or begins with it. -/
theorem nextFrame_prefix {ciphertexts : List Bytes}
    (hle : ∀ ciphertext ∈ ciphertexts, ciphertext.length ≤ MAX_MESSAGE_SIZE) {stream : Bytes}
    (h : stream <+: wire ciphertexts) :
    stream = [] ∨ (InsideFrame ciphertexts stream ∧
        nextFrame stream = .error .connectionReset) ∨
      ∃ ciphertext rest, ciphertexts[0]? = some ciphertext ∧ stream = frame ciphertext ++ rest ∧
        nextFrame stream = .ok (some (ciphertext, rest)) := by
  cases ciphertexts with
  | nil => exact Or.inl (List.prefix_nil.mp h)
  | cons ciphertext ciphertexts =>
    have hfirst := hle ciphertext List.mem_cons_self
    rw [wire_cons] at h
    by_cases hlt : stream.length < (frame ciphertext).length
    · have htake : stream = (frame ciphertext).take stream.length := by
        rw [List.prefix_iff_eq_take.mp h, List.length_take, List.take_append_of_le_length]
        · simp
        · omega
      by_cases hnil : stream = []
      · exact Or.inl hnil
      · refine Or.inr (Or.inl ⟨⟨ciphertext, rfl, hnil, ?_, fun heq => ?_⟩, ?_⟩)
        · exact List.prefix_iff_eq_take.mpr htake
        · exact absurd (congrArg List.length heq) (ne_of_lt hlt)
        · rw [htake]
          exact nextFrame_take_frame hfirst (List.length_pos_of_ne_nil hnil) hlt
    · obtain ⟨rest, hrest⟩ := List.prefix_of_prefix_length_le
        (List.prefix_append (frame ciphertext) (wire ciphertexts)) h (Nat.not_lt.mp hlt)
      refine Or.inr (Or.inr ⟨ciphertext, rest, rfl, hrest.symm, ?_⟩)
      rw [← hrest]
      exact nextFrame_frame hfirst rest

theorem wire_append (l m : List Bytes) : wire (l ++ m) = wire l ++ wire m := by
  simp [wire]

/-- What the receiving end has been handed is what the other end has written so far, and
what it has read of that is the frames of the messages handed out. -/
structure Flows (noise : Noise) (sender receiver : Endpoint) : Prop where
  numbered : sender.Numbered noise
  hears : Hears sender receiver
  written : sender.codec.transport.written = wire sender.sealed
  faultless : sender.codec.transport.writeFault = false
  parts : ∀ part ∈ receiver.codec.transport.reads, part ≠ []
  network : receiver.network <+: sender.codec.transport.written
  unread : wire (sender.sealed.take receiver.received.length) ++
    receiver.codec.transport.unread = receiver.network
  resets : ∀ e, .err e ∈ receiver.outcomes →
    e = .deserialization "transport recv failed" (.network .connectionReset)

/-- What may happen on a network that passes on what is written, in parts that are not
empty, when no write fails. -/
def Conversation.PassedOn (conversation : Conversation) (call : Side × ChannelCall) : Prop :=
  match call.2 with
  | .deliver part => part ≠ [] ∧ (conversation call.1).network ++ part <+:
      (conversation call.1.other).codec.transport.written
  | .writeFault fault => fault = false
  | _ => True

namespace Flows
variable {noise other : Noise} {sender receiver : Endpoint}

theorem length_received (h : Flows noise sender receiver) :
    receiver.received.length ≤ sender.sealed.length := by
  rw [h.numbered.sealed, List.length_mapIdx]
  exact h.hears.inOrder.length_le

/-- The unread bytes are a beginning of the frames that are still to come. -/
theorem unread_prefix (h : Flows noise sender receiver) :
    receiver.codec.transport.unread <+:
      wire (sender.sealed.drop receiver.received.length) := by
  have hsplit : wire sender.sealed = wire (sender.sealed.take receiver.received.length) ++
      wire (sender.sealed.drop receiver.received.length) := by
    rw [← wire_append, List.take_append_drop]
  have hprefix := h.network
  rw [← h.unread, h.written, hsplit] at hprefix
  exact (List.prefix_append_right_inj _).mp hprefix

theorem sealed_le (h : sender.Numbered noise) :
    ∀ ciphertext ∈ sender.sealed, ciphertext.length ≤ MAX_MESSAGE_SIZE := by
  intro ciphertext hmem
  obtain ⟨n, hn⟩ := List.mem_iff_getElem?.mp hmem
  obtain ⟨message, hposted, rfl⟩ := h.getElem? hn
  have hfit := Endpoint.fits_of_posted hposted
  have hle : NOISE_MAX_MESSAGE ≤ MAX_MESSAGE_SIZE := by decide
  rw [noise.length_sealWith]
  exact hfit.trans hle

/-- The next message is opened under the next count. -/
theorem opened_next (h : Flows noise sender receiver) {ciphertext : Bytes}
    (hnext : (sender.sealed.drop receiver.received.length)[0]? = some ciphertext) :
    ∃ message, sender.posted[receiver.received.length]? = some message ∧
      SecureTransport.opened (fun session => session.decrypt noise)
        receiver.codec.transport.session ciphertext =
        (.ok (some message.serialize), { receiver.codec.transport.session with
          recvNonce := receiver.codec.transport.session.recvNonce + 1 }) := by
  rw [List.getElem?_drop, Nat.add_zero] at hnext
  obtain ⟨message, hposted, hmessage⟩ := h.numbered.getElem? hnext
  have hfit := Endpoint.fits_of_posted hposted
  have hlong : ¬NOISE_MAX_MESSAGE < ciphertext.length := by
    rw [← hmessage, noise.length_sealWith]
    exact Nat.not_lt.mpr hfit
  refine ⟨message, hposted, ?_⟩
  rw [← hmessage] at hlong ⊢
  simp [SecureTransport.opened, NoiseSession.decrypt, NoiseSession.readMessage, hlong,
    h.hears.recvNonce, noise.openWith_sealWith]

/-- What a call of `recv` does: it waits for the rest of a frame, finds nothing or takes
the next frame off the unread bytes. -/
theorem recv_cases (h : Flows noise sender receiver) :
    ((SecureTransport.recv noise receiver.codec.transport).1 = .ok none ∧
        receiver.codec.transport.unread = []) ∨
      (InsideFrame (sender.sealed.drop receiver.received.length)
          receiver.codec.transport.unread ∧
        (SecureTransport.recv noise receiver.codec.transport).1 = .err .connectionReset) ∨
      ∃ ciphertext message, sender.sealed[receiver.received.length]? = some ciphertext ∧
        sender.posted[receiver.received.length]? = some message ∧
        (SecureTransport.recv noise receiver.codec.transport).1 =
          .ok (some message.serialize) ∧
        receiver.codec.transport.unread = frame ciphertext ++
          (SecureTransport.recv noise receiver.codec.transport).2.unread := by
  have hstreams : receiver.codec.transport.Streams receiver.codec.transport.unread :=
    ⟨h.parts, rfl⟩
  have hrecv := SecureTransport.recvWith_eq (fun session => session.decrypt noise) hstreams
  rw [SecureTransport.recvWith_decrypt] at hrecv
  have hle : ∀ ciphertext ∈ sender.sealed.drop receiver.received.length,
      ciphertext.length ≤ MAX_MESSAGE_SIZE :=
    fun c hc => sealed_le h.numbered c (List.mem_of_mem_drop hc)
  rcases nextFrame_prefix hle h.unread_prefix with
    hnil | ⟨hinside, hreset⟩ | ⟨ciphertext, rest, hnext, hsplit, hframe⟩
  · rw [hnil, nextFrame_nil] at hrecv
    exact Or.inl ⟨hrecv, hnil⟩
  · rw [hreset] at hrecv
    exact Or.inr (Or.inl ⟨hinside, hrecv⟩)
  · rw [hframe] at hrecv
    obtain ⟨message, hposted, hopened⟩ := h.opened_next hnext
    rw [List.getElem?_drop, Nat.add_zero] at hnext
    obtain ⟨houtcome, -, hrest⟩ := hrecv
    exact Or.inr (Or.inr ⟨ciphertext, message, hnext, hposted,
      houtcome.trans (congrArg Prod.fst hopened), hsplit.trans (congrArg _ hrest.bytes.symm)⟩)

/-- The next message that is handed out is the next one posted. -/
theorem next (h : Flows noise sender receiver) (plaintext : Bytes)
    (hrecv : (SecureTransport.recv noise receiver.codec.transport).1 = .ok (some plaintext)) :
    ∃ message, sender.posted[receiver.received.length]? = some message ∧
      message.serialize = plaintext := by
  rcases h.recv_cases with ⟨hnone, -⟩ | ⟨-, hreset⟩ | ⟨ciphertext, message, -, hposted, hsome, -⟩
  · simp [hnone] at hrecv
  · simp [hreset] at hrecv
  · rw [hsome] at hrecv
    exact ⟨message, hposted, by simpa using hrecv⟩

theorem recv (h : Flows noise sender receiver) : Flows noise sender (receiver.recv noise) := by
  obtain ⟨hreceived, hread⟩ := SecureTransport.received_recv noise receiver.codec.transport
  have houtcome := ProtocolCodec.recv_outcome noise receiver.codec
  have hcodec := ProtocolCodec.recv_transport noise receiver.codec
  have hparts : ∀ part ∈ (receiver.recv noise).codec.transport.reads, part ≠ [] := by
    rw [Endpoint.recv, hcodec]
    exact fun part hpart => h.parts part (hread.reads.subset hpart)
  have hresets : ∀ outcome', (ProtocolCodec.recv noise receiver.codec).1 = outcome' →
      (∀ e, outcome' = .err e →
        e = .deserialization "transport recv failed" (.network .connectionReset)) →
      ∀ e, .err e ∈ (receiver.recv noise).outcomes →
        e = .deserialization "transport recv failed" (.network .connectionReset) := by
    rintro _ rfl hlast e he
    rcases List.mem_append.mp he with he | he
    · exact h.resets e he
    · exact hlast e (List.mem_singleton.mp he).symm
  refine ⟨h.numbered, h.hears.recv h.next, h.written, h.faultless, hparts, h.network, ?_, ?_⟩
  · have hunread : (receiver.recv noise).codec.transport.unread =
        (SecureTransport.recv noise receiver.codec.transport).2.unread := by
      rw [Endpoint.recv, hcodec]
    have hlog := Endpoint.received_recv noise receiver
    show _ = receiver.network
    rw [hunread, ← h.unread, hlog]
    rcases h.recv_cases with
      ⟨hnone, hnil⟩ | ⟨-, hreset⟩ | ⟨ciphertext, message, hsealed, hposted, hsome, hsplit⟩
    · rw [hnone] at hreceived houtcome
      cases hreceived with
      | closed session kept => rw [houtcome, kept]; simp [Endpoint.handedOut]
    · rw [hreset] at hreceived houtcome
      cases hreceived with
      | failed session kept => rw [houtcome, kept rfl]; simp [Endpoint.handedOut]
    · rw [hsome] at houtcome
      simp only [ProtocolCodec.deserialize_serialize (Endpoint.fits_of_posted hposted)]
        at houtcome
      have htake : sender.sealed.take (receiver.received.length + 1) =
          sender.sealed.take receiver.received.length ++ [ciphertext] := by
        rw [List.take_add_one, hsealed]
        rfl
      rw [houtcome, hsplit]
      simp only [Endpoint.handedOut, Option.toList_some, List.length_append,
        List.length_singleton, htake, wire_append, wire_cons, wire_nil, List.append_nil,
        List.append_assoc]
  · rcases h.recv_cases with
      ⟨hnone, -⟩ | ⟨-, hreset⟩ | ⟨ciphertext, message, -, hposted, hsome, -⟩
    · rw [hnone] at houtcome
      exact hresets _ houtcome (by simp)
    · rw [hreset] at houtcome
      exact hresets _ houtcome (by simp [eq_comm])
    · rw [hsome] at houtcome
      simp only [ProtocolCodec.deserialize_serialize (Endpoint.fits_of_posted hposted)]
        at houtcome
      exact hresets _ houtcome (by simp)

theorem start (noise : Noise) (sent received : PublicKey) :
    Flows noise (Endpoint.new sent) (Endpoint.new received) :=
  ⟨Endpoint.numbered_new noise sent, Hears.start sent received, rfl, rfl,
    fun _ h => absurd h List.not_mem_nil, List.prefix_refl _, rfl,
    fun _ h => absurd h List.not_mem_nil⟩

/-- Sending writes the frames of what it seals. -/
theorem sender_send (h : Flows noise sender receiver) (message : Message) :
    Flows noise (sender.send noise message) receiver := by
  have htransport := ProtocolCodec.transport_send noise message sender.codec
  have hhears : Hears (sender.send noise message) receiver :=
    h.hears.sender_step noise noise (.send message)
  by_cases hfit : message.Fits
  · rw [if_pos hfit, h.faultless] at htransport
    have henc := NoiseSession.encrypt_of_le noise sender.codec.transport.session hfit
    have hsealed : (sender.send noise message).sealed = sender.sealed ++
        [noise.sealWith sender.codec.transport.session.sendNonce message.serialize] := by
      simp only [Endpoint.send, henc]
    have hwritten : (sender.send noise message).codec.transport.written =
        sender.codec.transport.written ++
          frame (noise.sealWith sender.codec.transport.session.sendNonce message.serialize) := by
      rw [Endpoint.send, htransport]
      rfl
    refine ⟨h.numbered.send message, hhears, ?_, ?_, h.parts, ?_, ?_, h.resets⟩
    · rw [hwritten, hsealed, wire_append, h.written, wire_cons, wire_nil, List.append_nil]
    · rw [Endpoint.send, htransport]
      exact h.faultless
    · rw [hwritten]
      exact h.network.trans (List.prefix_append _ _)
    · rw [hsealed, List.take_append_of_le_length h.length_received]
      exact h.unread
  · rw [if_neg hfit] at htransport
    have henc := NoiseSession.encrypt_of_lt noise sender.codec.transport.session
      (not_le.mp hfit)
    have hsealed : (sender.send noise message).sealed = sender.sealed := by
      simp only [Endpoint.send, henc, List.append_nil]
    have hsame : (sender.send noise message).codec.transport = sender.codec.transport :=
      htransport
    refine ⟨h.numbered.send message, hhears, ?_, ?_, h.parts, ?_, ?_, h.resets⟩
    · rw [hsealed, hsame, h.written]
    · rw [hsame, h.faultless]
    · rw [hsame]
      exact h.network
    · rw [hsealed]
      exact h.unread

theorem sender_step (h : Flows noise sender receiver) (call : ChannelCall)
    (hfault : ∀ fault, call = .writeFault fault → fault = false) :
    Flows noise (sender.step noise other call) receiver := by
  have hnumbered := h.numbered.step other call
  have hhears := h.hears.sender_step noise other call
  cases call with
  | send message => exact h.sender_send message
  | recv =>
    have hread := (SecureTransport.received_recv other sender.codec.transport).2
    have hcodec := ProtocolCodec.recv_transport other sender.codec
    have htransport : (sender.recv other).codec.transport =
        (SecureTransport.recv other sender.codec.transport).2 := by
      rw [Endpoint.recv, hcodec]
    have hwritten : (sender.recv other).codec.transport.written =
        sender.codec.transport.written := by
      rw [htransport, hread.written]
    refine ⟨hnumbered, hhears, hwritten.trans h.written, ?_, h.parts, ?_, h.unread, h.resets⟩
    · show (sender.recv other).codec.transport.writeFault = false
      rw [htransport, hread.writeFault, h.faultless]
    · show receiver.network <+: (sender.recv other).codec.transport.written
      rw [hwritten]
      exact h.network
  | deliver part => exact ⟨hnumbered, hhears, h.written, h.faultless, h.parts, h.network,
      h.unread, h.resets⟩
  | writeFault fault => exact ⟨hnumbered, hhears, h.written, hfault fault rfl, h.parts, h.network,
      h.unread, h.resets⟩

/-- A part that is handed over comes behind the unread bytes. -/
theorem receiver_deliver (h : Flows noise sender receiver) {part : Bytes} (hpart : part ≠ [])
    (hnetwork : receiver.network ++ part <+: sender.codec.transport.written) :
    Flows noise sender (receiver.deliver part) := by
  refine ⟨h.numbered, h.hears.receiver_step noise noise (.deliver part)
    (by simp), h.written, h.faultless, ?_, hnetwork, ?_, h.resets⟩
  · intro other hother
    rcases List.mem_append.mp hother with hold | hnew
    · exact h.parts other hold
    · rwa [List.mem_singleton.mp hnew]
  · show _ = receiver.network ++ part
    rw [← h.unread]
    simp [Endpoint.deliver, SecureTransport.unread, Endpoint.received]

theorem receiver_step (h : Flows noise sender receiver) (call : ChannelCall)
    (hdeliver : ∀ part, call = .deliver part → part ≠ [] ∧
      receiver.network ++ part <+: sender.codec.transport.written) :
    Flows noise sender (receiver.step other noise call) := by
  cases call with
  | recv => exact h.recv
  | deliver part => exact h.receiver_deliver (hdeliver part rfl).1 (hdeliver part rfl).2
  | writeFault fault => exact ⟨h.numbered, h.hears.receiver_step other noise
      (.writeFault fault) (by simp), h.written, h.faultless, h.parts, h.network, h.unread, h.resets⟩
  | send message =>
    have htransport := ProtocolCodec.transport_send other message receiver.codec
    have hreads : (receiver.send other message).codec.transport.reads =
        receiver.codec.transport.reads := by
      rw [Endpoint.send, htransport]
      split_ifs <;> rfl
    have hunread : (receiver.send other message).codec.transport.unread =
        receiver.codec.transport.unread := by
      rw [Endpoint.send, htransport]
      split_ifs <;> rfl
    refine ⟨h.numbered, h.hears.receiver_step other noise (.send message) (by simp),
      h.written, h.faultless, ?_, h.network, ?_, h.resets⟩
    · show ∀ part ∈ (receiver.send other message).codec.transport.reads, part ≠ []
      rw [hreads]
      exact h.parts
    · show _ ++ (receiver.send other message).codec.transport.unread = receiver.network
      rw [hunread]
      exact h.unread

/-- Where `recv` fails, a part of the next frame is all that it has to read. -/
theorem insideFrame_of_recv (h : Flows noise sender receiver) {e : ProtocolError}
    (hfails : (ProtocolCodec.recv noise receiver.codec).1 = .err e) :
    InsideFrame (sender.sealed.drop receiver.received.length)
      receiver.codec.transport.unread := by
  have houtcome := ProtocolCodec.recv_outcome noise receiver.codec
  rcases h.recv_cases with
    ⟨hnone, -⟩ | ⟨hinside, -⟩ | ⟨ciphertext, message, -, hposted, hsome, -⟩
  · rw [hnone, hfails] at houtcome
    simp at houtcome
  · exact hinside
  · rw [hsome] at houtcome
    simp only [ProtocolCodec.deserialize_serialize (Endpoint.fits_of_posted hposted), hfails]
      at houtcome
    simp at houtcome

/-- When everything written has been handed over, `recv` returns the next posted message,
or nothing when there is none. -/
theorem recv_of_delivered (h : Flows noise sender receiver)
    (hall : receiver.network = sender.codec.transport.written) :
    (ProtocolCodec.recv noise receiver.codec).1 =
      .ok sender.posted[receiver.received.length]? := by
  have houtcome := ProtocolCodec.recv_outcome noise receiver.codec
  have hunread : receiver.codec.transport.unread =
      wire (sender.sealed.drop receiver.received.length) := by
    have hbytes := h.unread
    rw [hall, h.written, ← List.take_append_drop receiver.received.length sender.sealed,
      wire_append, List.take_append_drop] at hbytes
    exact List.append_cancel_left hbytes
  have hstreams : receiver.codec.transport.Streams receiver.codec.transport.unread :=
    ⟨h.parts, rfl⟩
  have hrecv := SecureTransport.recvWith_eq (fun session => session.decrypt noise) hstreams
  rw [SecureTransport.recvWith_decrypt, hunread] at hrecv
  cases hrest : sender.sealed.drop receiver.received.length with
  | nil =>
    rw [hrest, wire_nil, nextFrame_nil] at hrecv
    have hlength : sender.posted.length ≤ receiver.received.length := by
      have := List.drop_eq_nil_iff.mp hrest
      rwa [h.numbered.sealed, List.length_mapIdx] at this
    rw [houtcome, hrecv, List.getElem?_eq_none hlength]
  | cons ciphertext ciphertexts =>
    have hnext : (sender.sealed.drop receiver.received.length)[0]? = some ciphertext := by
      rw [hrest]
      rfl
    obtain ⟨message, hposted, hopened⟩ := h.opened_next hnext
    have hle := sealed_le h.numbered ciphertext (List.mem_of_mem_drop (hrest ▸ List.mem_cons_self))
    rw [hrest, wire_cons, nextFrame_frame hle] at hrecv
    have hsome := hrecv.1.trans (congrArg Prod.fst hopened)
    rw [houtcome, hsome, hposted]
    simp only [ProtocolCodec.deserialize_serialize (Endpoint.fits_of_posted hposted)]

end Flows

namespace Conversation
variable {noise : Side → Noise} {conversation final : Conversation}
  {taken : List (Conversation × (Side × ChannelCall))}

/-- Each direction flows to the other end. -/
def Flowing (noise : Side → Noise) (conversation : Conversation) : Prop :=
  ∀ side, Flows (noise side.other) (conversation side.other) (conversation side)

theorem Flowing.step (h : Flowing noise conversation) (call : Side × ChannelCall)
    (hpassed : PassedOn conversation call) : Flowing noise (step noise conversation call) := by
  obtain ⟨side, call⟩ := call
  have hin := h side
  have hout := h side.other
  rw [side.other_other] at hout
  intro side'
  by_cases hside : side' = side
  · subst hside
    rw [step_self, step_other]
    refine hin.receiver_step call ?_
    rintro part rfl
    exact hpassed
  · obtain rfl : side' = side.other := by
      cases side <;> cases side' <;> first | rfl | exact absurd rfl hside
    rw [step_other, side.other_other, step_self]
    refine hout.sender_step call ?_
    rintro fault rfl
    exact hpassed

/-- On a network that only passes on what is written, in parts of any size and at any time,
messages are handed out in order, `recv` fails only where a part of the next frame is all that
has arrived, and once everything written has been handed over it returns the next message, as
long as there is one. -/
theorem recv_of_passedOn (noise : Side → Noise) (remoteStatic : Side → PublicKey)
    (run : Runs noise (start remoteStatic) taken final)
    (hpassed : ∀ t ∈ taken, PassedOn t.1 t.2) :
    Run.Always (fun conversation : Conversation => ∀ side,
      (conversation side).received <+: (conversation side.other).posted ∧
      (∀ e, .err e ∈ (conversation side).outcomes →
        e = .deserialization "transport recv failed" (.network .connectionReset)) ∧
      (∀ e, (ProtocolCodec.recv (noise side.other) (conversation side).codec).1 = .err e →
        InsideFrame ((conversation side.other).sealed.drop (conversation side).received.length)
          (conversation side).codec.transport.unread) ∧
      ((conversation side).network = (conversation side.other).codec.transport.written →
        (ProtocolCodec.recv (noise side.other) (conversation side).codec).1 =
          .ok (conversation side.other).posted[(conversation side).received.length]?))
      taken final := by
  have halways := run.always_of (I := Flowing noise) (C := PassedOn)
    (fun side => Flows.start _ _ _) (fun _ call _ h hC hstep => hstep ▸ h.step call hC) hpassed
  constructor
  · intro t ht side
    have h := halways.1 t ht side
    exact ⟨h.hears.inOrder, h.resets, fun _ => h.insideFrame_of_recv, h.recv_of_delivered⟩
  · intro side
    have h := halways.2 side
    exact ⟨h.hears.inOrder, h.resets, fun _ => h.insideFrame_of_recv, h.recv_of_delivered⟩

/-- A ping is sent and its frame passed on in two parts. -/
def passing : List (Side × ChannelCall) :=
  [(.initiator, .send .ping),
    (.responder, .deliver [0, 0]),
    (.responder, .recv),
    (.responder, .deliver ((frame (Noise.labelled.sealWith 0 Message.ping.serialize)).drop 2))]

def passed (n : ℕ) : Conversation :=
  (passing.take n).foldl (step fun _ => Noise.labelled) (start fun _ => Vector.replicate 32 0)

theorem runs_passing : Runs (fun _ => Noise.labelled) (start fun _ => Vector.replicate 32 0)
    (passing.mapIdx fun n call => (passed n, call)) (passed 4) :=
  .snoc (.snoc (.snoc (.snoc .refl rfl) rfl) rfl) rfl

theorem passedOn_passing :
    ∀ t ∈ passing.mapIdx fun n call => (passed n, call), PassedOn t.1 t.2 := by
  intro t ht
  simp only [passing, List.mapIdx_cons, List.mapIdx_nil, List.mem_cons, List.not_mem_nil,
    or_false] at ht
  rcases ht with rfl | rfl | rfl | rfl
  · trivial
  · exact ⟨by decide, List.prefix_iff_eq_take.mpr (by decide +kernel)⟩
  · trivial
  · exact ⟨by decide, List.prefix_iff_eq_take.mpr (by decide +kernel)⟩

/-- Called in the middle of the frame `recv` fails, with a part of the frame at hand; called
again behind it, `recv` hands out the ping. -/
theorem recv_of_passedOn_ping :
    InsideFrame (passed 2 .initiator).sealed (passed 2 .responder).codec.transport.unread ∧
      (ProtocolCodec.recv Noise.labelled (passed 4 .responder).codec).1 = .ok (some .ping) := by
  obtain ⟨hbefore, hafter⟩ := recv_of_passedOn _ _ runs_passing passedOn_passing
  obtain ⟨-, -, hinside, -⟩ := hbefore (passed 2, (.responder, .recv)) (by simp [passing])
    .responder
  obtain ⟨-, -, -, hnext⟩ := hafter .responder
  have hfails : (ProtocolCodec.recv Noise.labelled (passed 2 .responder).codec).1 =
      .err (.deserialization "transport recv failed" (.network .connectionReset)) := by
    decide +kernel
  exact ⟨hinside _ hfails, (hnext (by decide +kernel)).trans (by decide +kernel)⟩

end Conversation
end JustDrop

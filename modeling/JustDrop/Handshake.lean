import JustDrop.Transport

/-!
# The handshake of the initiator

Three raw frames are exchanged before a session exists. The handshake state of
the Noise library is a parameter; the session it turns into knows the static key
of the peer.
-/
namespace JustDrop

/-- An open connection before its session: what is still to arrive, what has been
written and which of the coming writes fail. -/
structure TcpStream where
  incoming : Bytes
  written : Bytes
  writeFaults : List Bool

namespace TcpStream

def writeAll (data : Bytes) : Task TcpStream Unit Unit := do
  let stream ← Task.get
  Task.modify fun stream => { stream with writeFaults := stream.writeFaults.tail }
  if stream.writeFaults.head?.getD false then Task.fail ()
  else Task.modify fun stream => { stream with written := stream.written ++ data }

def readExact (n : ℕ) : Task TcpStream Unit Bytes := do
  let stream ← Task.get
  Task.modify fun stream => { stream with incoming := stream.incoming.drop n }
  if stream.incoming.length < n then Task.fail () else pure (stream.incoming.take n)

def writeRawFrame (data : Bytes) : Task TcpStream ProtocolError Unit := do
  Task.mapErr (fun _ => .serialization "frame write" .io) (writeAll (frameHeader data.length))
  Task.mapErr (fun _ => .serialization "data write" .io) (writeAll data)

def readRawFrame : Task TcpStream ProtocolError Bytes := do
  let header ← Task.mapErr (fun _ => .deserialization "frame read" .io) (readExact 4)
  let len := headerLength header
  if MAX_MESSAGE_SIZE < len then Task.fail (.messageTooLarge len MAX_MESSAGE_SIZE)
  else Task.mapErr (fun _ => .deserialization "data read" .io) (readExact len)

end TcpStream

/-- The Noise library as the initiator uses it. -/
structure Snow where
  State : Type
  buildInitiator : Bytes → Option State
  writeMessage : State → Option (Bytes × State)
  readMessage : State → Bytes → Option State
  intoTransportMode : State → Option NoiseSession

/-- A step of the library that has no value fails with the text. -/
def Snow.orFail {σ α : Type} (e : ProtocolError) : Option α → Task σ ProtocolError α
  | some a => pure a
  | none => Task.fail e

open Snow TcpStream in
/-- Perform the handshake and return the session. The key of the peer is not looked at. -/
def handshakeInitiator (snow : Snow) (privateKey : Bytes) :
    Task TcpStream ProtocolError NoiseSession := do
  let hs ← orFail (.serialization "noise build" .snow) (snow.buildInitiator privateKey)
  let (msg1, hs) ← orFail (.serialization "hs msg1" .snow) (snow.writeMessage hs)
  writeRawFrame msg1
  let msg2 ← readRawFrame
  let hs ← orFail (.deserialization "hs msg2" .snow) (snow.readMessage hs msg2)
  let (msg3, hs) ← orFail (.serialization "hs msg3" .snow) (snow.writeMessage hs)
  writeRawFrame msg3
  orFail (.serialization "hs transport" .snow) (snow.intoTransportMode hs)

/-- A library whose handshake accepts any reply and takes the key from its first bytes. -/
def Snow.plain : Snow where
  State := List UInt8
  buildInitiator _ := some []
  writeMessage hs := some ([], hs)
  readMessage _ message := some message
  intoTransportMode hs := some ⟨0, 0, Vector.ofFn fun i => hs.getD i 0⟩

end JustDrop

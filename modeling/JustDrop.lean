import JustDrop.Advertisement
import JustDrop.ChunkOrder
import JustDrop.ChunkStream
import JustDrop.Containment
import JustDrop.CrashSafety
import JustDrop.Discovery
import JustDrop.Geometry
import JustDrop.Lifecycle
import JustDrop.LiveServices
import JustDrop.MessageCodec
import JustDrop.MessagesV2
import JustDrop.PanicFreedom
import JustDrop.PeerRows
import JustDrop.Publishing
import JustDrop.Reentrancy
import JustDrop.RegistryLog
import JustDrop.Reporting
import JustDrop.Resumption
import JustDrop.Sendfile
import JustDrop.SessionCipher
import JustDrop.Sightings
import JustDrop.TransferHistory
import JustDrop.TrustChanges
import JustDrop.TruthfulProgress
import JustDrop.WriterCalls
import JustDrop.HexText
import JustDrop.BleAdvertisement
import JustDrop.DeviceIds
import JustDrop.Compress
import JustDrop.Hotspot
import JustDrop.StreamFrames
import JustDrop.Passage
import JustDrop.Agreement
import JustDrop.Completion
import JustDrop.DatabaseRuns
import JustDrop.ResumeDirectory
import JustDrop.HandshakeRuns
import JustDrop.SealedSession
import JustDrop.Bindings
import JustDrop.Serving
import JustDrop.FileHash
import JustDrop.AppInterface
import JustDrop.BleHandshake

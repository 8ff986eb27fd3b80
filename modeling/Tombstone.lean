import Tombstone.Consent
import Tombstone.Discards
import Tombstone.RevokedTrail
import Tombstone.Retries
import Tombstone.SendGate
import Tombstone.BatchRuns
import Tombstone.NeverAnonymous
import Tombstone.PendingRequests
import Tombstone.LogFlag
import Tombstone.MarkerRoundTrip
import Tombstone.Flush
import Tombstone.MetadataAck
import Tombstone.MarkerAck
import Tombstone.DeviceAck
import Tombstone.MapOwner
import Tombstone.OnePlayer
import Tombstone.PreInitOverride
import Tombstone.PreInitCapture
import Tombstone.PreInitIdentity
import Tombstone.TornWrites
import Tombstone.NativeDump
import Tombstone.Launches
import Tombstone.UncleanReports
import Tombstone.DumpPickup
import Tombstone.LogOwners
import Tombstone.ClientLifetimes
import Tombstone.SessionLog
import Tombstone.LogOrder
import Tombstone.BodiesDecode
import Tombstone.CaptureHandoff
import Tombstone.LogUploads
import Tombstone.Fulfilment
import Tombstone.CrashSignature
import Tombstone.NativeReport
import Tombstone.NoteWalk
import Tombstone.TornDump
import Tombstone.RingHistory
import Tombstone.DedupeHistory
import Tombstone.DedupeResets
import Tombstone.MetadataClamp
import Tombstone.LogDrops
import Tombstone.LogTrim
import Tombstone.SidecarCapacity
import Tombstone.ModuleTable
import Tombstone.Clock
import Tombstone.ReplayRecords
import Tombstone.Gregorian
import Tombstone.FixedWidth
import Tombstone.MetadataText
import Tombstone.DumpNumbers
import Tombstone.JsonLocality
import Tombstone.WriterTrees
import Tombstone.FilledBodies
import Tombstone.BodyRuns
import Tombstone.FilledRuns
import Tombstone.CallsFinish
import Tombstone.Requests
import Tombstone.CrashDump
import Tombstone.Overlap
import Tombstone.AnsweredOnce
import Tombstone.UncleanOnce
import Tombstone.WorkerWaits
import Tombstone.HeartbeatWaits
import Tombstone.FrameWindows
import Tombstone.SampleRates

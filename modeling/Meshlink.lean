import Meshlink.AckSegments
import Meshlink.AddressCache
import Meshlink.Autoconnect
import Meshlink.Bitmaps
import Meshlink.Blacklisting
import Meshlink.BreadthFirst
import Meshlink.BufferContents
import Meshlink.BufferRefinement
import Meshlink.CallMoves
import Meshlink.CallPieces
import Meshlink.ChannelLoops
import Meshlink.ChannelReceives
import Meshlink.ChannelRelease
import Meshlink.ChannelSends
import Meshlink.ChannelTransport
import Meshlink.Channels
import Meshlink.Commands
import Meshlink.ConfBase
import Meshlink.CongestionWindow
import Meshlink.ConnectionTable
import Meshlink.ControlFacts
import Meshlink.CrashRecovery
import Meshlink.Deadlines
import Meshlink.DecryptedBuffer
import Meshlink.DeviceClasses
import Meshlink.DirectoryCopy
import Meshlink.DirectoryRemoval
import Meshlink.EdgeEndpoints
import Meshlink.EdgeMoves
import Meshlink.EdgeTrees
import Meshlink.EventFacts
import Meshlink.EventMoves
import Meshlink.FileTree
import Meshlink.HandlerMoves
import Meshlink.HeaderParsing
import Meshlink.Histories
import Meshlink.HostEntries
import Meshlink.HostFiles
import Meshlink.HostOutput
import Meshlink.ImportedHosts
import Meshlink.InvitationUse
import Meshlink.JoinedHosts
import Meshlink.KeyAgreement
import Meshlink.KeyMoves
import Meshlink.KeyRotation
import Meshlink.KeyWalks
import Meshlink.MainConfigWrite
import Meshlink.MeshCalls
import Meshlink.MeshEvents
import Meshlink.MeshGraph
import Meshlink.MeshMoves
import Meshlink.MeshRuns
import Meshlink.MeshView
import Meshlink.MetaEdges
import Meshlink.MetaHandlers
import Meshlink.MetaKeys
import Meshlink.Moves
import Meshlink.NodeNames
import Meshlink.NodeRecords
import Meshlink.OutgoingAddresses
import Meshlink.PacketHeaders
import Meshlink.PackmsgGetters
import Meshlink.PackmsgOutput
import Meshlink.PathMtu
import Meshlink.ProbeSizes
import Meshlink.Reassembly
import Meshlink.RecentAddresses
import Meshlink.RecentOrder
import Meshlink.RecordNumbers
import Meshlink.RefusedPackets
import Meshlink.ReplayWindow
import Meshlink.RotationFailures
import Meshlink.RouteSearch
import Meshlink.RttEstimate
import Meshlink.RttMeasurement
import Meshlink.Runs
import Meshlink.SackTable
import Meshlink.SendAtomicity
import Meshlink.SenderMoves
import Meshlink.SessionKeys
import Meshlink.Sptps
import Meshlink.SptpsEffects
import Meshlink.StatusReports
import Meshlink.Storage
import Meshlink.StorageRecovery
import Meshlink.StorageRules
import Meshlink.StreamChunks
import Meshlink.StreamFlow
import Meshlink.StreamHandshake
import Meshlink.StreamPair
import Meshlink.StreamProgress
import Meshlink.StreamReading
import Meshlink.SubmeshIsolation
import Meshlink.TimeoutInterval
import Meshlink.TimerFacts
import Meshlink.TimerLaws
import Meshlink.TimerMoves
import Meshlink.TreeCopy
import Meshlink.UtcpEndpoint
import Meshlink.UtcpProcess
import Meshlink.UtcpReceiver
import Meshlink.UtcpState
import Meshlink.Wakeups
import Meshlink.WriteShutdown

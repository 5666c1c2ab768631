import SimpleP2P.Library.Transition
import SimpleP2P.Library.BigEndian
import SimpleP2P.Library.Memory
import SimpleP2P.Library.Blocks
import SimpleP2P.Library.Store
import SimpleP2P.Library.LinkGraph
import SimpleP2P.Library.Threads
import SimpleP2P.Library.OrderFree
import SimpleP2P.GeneralTypes
import SimpleP2P.Resource
import SimpleP2P.ResourceHeader
import SimpleP2P.Host
import SimpleP2P.HostBans
import SimpleP2P.Database.Model
import SimpleP2P.Database.Possession
import SimpleP2P.Database.Refinement
import SimpleP2P.Database.Soundness
import SimpleP2P.Database.Revocation
import SimpleP2P.Database.Keys
import SimpleP2P.Database.Edits
import SimpleP2P.Database.Frames
import SimpleP2P.Database.GoneHosts
import SimpleP2P.Database.ParallelEdges
import SimpleP2P.Database.Workers
import SimpleP2P.Database.Updates
import SimpleP2P.Database.Queries
import SimpleP2P.Download.CompleteResource
import SimpleP2P.Download.Assignment
import SimpleP2P.Download.SegmentArithmetic
import SimpleP2P.Download.Model
import SimpleP2P.Download.Steps
import SimpleP2P.Download.Suspension
import SimpleP2P.Download.Counter
import SimpleP2P.Download.Wakeups
import SimpleP2P.Download.Phases
import SimpleP2P.Download.Ownership
import SimpleP2P.Download.Failure
import SimpleP2P.FileManager.Locks
import SimpleP2P.FileManager.Exclusion
import SimpleP2P.FileManager.Waiting
import SimpleP2P.FileManager.Streams
import SimpleP2P.FileManager.SharedStreams
import SimpleP2P.FileManager.Releases
import SimpleP2P.Transfer.RequestWorker
import SimpleP2P.Transfer.Connection
import SimpleP2P.Transfer.Reply
import SimpleP2P.Transfer.RequestServer
import SimpleP2P.Transfer.Serving
import SimpleP2P.Transfer.Session
import SimpleP2P.Transfer.Accepting
import SimpleP2P.Transfer.FileServer
import SimpleP2P.Transfer.Handlers
import SimpleP2P.Transfer.Standstill
import SimpleP2P.Broadcast.UdpServer
import SimpleP2P.Broadcast.SendQueue
import SimpleP2P.Broadcast.UdpClient
import SimpleP2P.Broadcast.Departure
import SimpleP2P.Broadcast.Rounds
import SimpleP2P.CLI
import SimpleP2P.Download.Storing
import SimpleP2P.Library.Network
import SimpleP2P.Broadcast.Peer
import SimpleP2P.Broadcast.Network
import SimpleP2P.Broadcast.Agreement
import SimpleP2P.Library.Filling
import SimpleP2P.Download.Contents
import SimpleP2P.Swarm
import SimpleP2P.Library.Measure
import SimpleP2P.Library.Mailbox
import SimpleP2P.Output
import SimpleP2P.Console
import SimpleP2P.FileManager.Progress
import SimpleP2P.Download.Shutdown

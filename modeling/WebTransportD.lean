import WebTransportD.Shared.BigEndian
import WebTransportD.Shared.Memory
import WebTransportD.Shared.ReadBuffer
import WebTransportD.Shared.Execution
import WebTransportD.Shared.Simulation
import WebTransportD.Shared.Mutex
import WebTransportD.Shared.IncrementalParse
import WebTransportD.Shared.Chain
import WebTransportD.Shared.Descriptors
import WebTransportD.Shared.Ownership
import WebTransportD.Shared.Heap
import WebTransportD.Shared.CString
import WebTransportD.Shared.BoundedString
import WebTransportD.Shared.Numeral
import WebTransportD.Core.Frame
import WebTransportD.Core.FrameVarint
import WebTransportD.Core.FrameGrammar
import WebTransportD.Core.FrameRoundTrip
import WebTransportD.Core.Session
import WebTransportD.Core.SessionInput
import WebTransportD.Core.ChildStdin
import WebTransportD.Core.SessionOutput
import WebTransportD.Core.PumpThreads
import WebTransportD.Core.FinRetry
import WebTransportD.Core.WorkQueue
import WebTransportD.Core.QueueMemory
import WebTransportD.Core.SessionLocking
import WebTransportD.Adapters.ChildOutput
import WebTransportD.Adapters.ReaderFeed
import WebTransportD.Adapters.ReaderBuffer
import WebTransportD.Adapters.ChildProcess
import WebTransportD.Adapters.ChildSpawn
import WebTransportD.Adapters.CmdlineBuild
import WebTransportD.Adapters.CmdlineSplit
import WebTransportD.Adapters.ExecCommand
import WebTransportD.Adapters.Env
import WebTransportD.Adapters.EnvMemory
import WebTransportD.Adapters.WinProcess
import WebTransportD.Adapters.WinHandles
import WebTransportD.Adapters.Log
import WebTransportD.Adapters.CommandLine
import WebTransportD.Adapters.Bootstrap
import WebTransportD.Adapters.TransportPeer
import WebTransportD.Adapters.DatagramFifo
import WebTransportD.Adapters.PeerDelivery
import WebTransportD.Children.FrameChild
import WebTransportD.Children.PythonChild
import WebTransportD.Daemon.EchoPipeline
import WebTransportD.Daemon.ChildPipeline
import WebTransportD.Daemon.SessionTeardown
import WebTransportD.Daemon.PeerRegistry
import WebTransportD.Daemon.SessionIsolation
import WebTransportD.Daemon.DescriptorOwnership
import WebTransportD.Daemon.PeerStreams
import WebTransportD.Daemon.ReplyStream
import WebTransportD.Daemon.ChildDeath
import WebTransportD.Daemon.CrossTalk
import WebTransportD.Daemon.Attribution
import WebTransportD.Daemon.Accounting
import WebTransportD.Daemon.SessionsApart
import WebTransportD.Daemon.WakeUps

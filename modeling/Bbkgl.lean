import Bbkgl.Net.Buffer
import Bbkgl.Net.EventLoopWakeup
import Bbkgl.Net.EventLoopFunctors
import Bbkgl.Net.BufferQueue
import Bbkgl.CS.OrderedSet
import Bbkgl.Net.TimerQueue
import Bbkgl.Net.TimerQueueNonempty
import Bbkgl.Net.TimerQueueServed
import Bbkgl.Net.Channel
import Bbkgl.Net.Epoller
import Bbkgl.Net.TcpConnection
import Bbkgl.Net.TcpServer
import Bbkgl.Net.Connection
import Bbkgl.Net.ConnectionLife
import Bbkgl.Net.ConnectionStream
import Bbkgl.Net.ConnectionShutdown
import Bbkgl.Net.TcpConnectionRefines
import Bbkgl.Net.TcpServerView
import Bbkgl.Net.TcpServerPlaced
import Bbkgl.Net.TcpServerRefines
import Bbkgl.Net.TcpServerStream
import Bbkgl.Net.TcpServerFaults
import Bbkgl.Net.TcpServerAnatomy
import Bbkgl.Net.TcpServerShutdown
import Bbkgl.Net.TcpServerTeardown
import Bbkgl.Net.TcpConnectionPolls
import Bbkgl.Net.TcpServerCalm
import Bbkgl.Net.TcpServerRegistered
import Bbkgl.Net.TcpServerReuse
import Bbkgl.Net.EpollerKernel
import Bbkgl.Net.EpollerUnwatched
import Bbkgl.CS.History
import Bbkgl.CS.Exception
import Bbkgl.Net.TimerQueueHistory
import Bbkgl.Net.TimerQueueLaws
import Bbkgl.Net.EventLoopThread
import Bbkgl.Net.EventLoopThreadQuit
import Bbkgl.Net.TcpServerHandling
import Bbkgl.Net.TcpServerWraparound
import Bbkgl.Net.TcpServerOwners
import Bbkgl.Net.TcpServerRecords
import Bbkgl.Net.TcpServerLifetime
import Bbkgl.Net.TcpServerInLoop
import Bbkgl.Net.TcpServerSettled
import Bbkgl.Net.TcpServerDestroyed
import Bbkgl.CS.CallStack
import Bbkgl.Net.Threads
import Bbkgl.Net.ThreadsConfined
import Bbkgl.Net.ThreadsUntouched
import Bbkgl.Net.TcpConnectionAlike
import Bbkgl.Net.ThreadsServer
import Bbkgl.Net.TimerQueueExpired
import Bbkgl.Net.BufferShrink
import Bbkgl.Net.BufferStorage
import Bbkgl.Net.TcpConnectionComplete
import Bbkgl.Net.TcpServerNames
import Bbkgl.CS.SwapRemove
import Bbkgl.Net.Poller
import Bbkgl.Net.PollerSlots
import Bbkgl.Net.Interest
import Bbkgl.Net.PollerWatch
import Bbkgl.Net.Pollers
import Bbkgl.Net.PollerDispatch
import Bbkgl.Net.EventLoopThreadStart
import Bbkgl.Net.ConnectionRest
import Bbkgl.Net.TcpServerRest
import Bbkgl.Net.TcpConnectionParts
import Bbkgl.Net.TcpServerMoves
import Bbkgl.Net.TcpServerInput
import Bbkgl.Net.TcpServerWatching
import Bbkgl.Net.TcpServerDestruction
import Bbkgl.Net.TcpServerBalance
import Bbkgl.Net.Application
import Bbkgl.Net.Programs
import Bbkgl.Net.TcpServerFrames
import Bbkgl.Net.TcpServerSession
import Bbkgl.Net.TcpServerDialogue
import Bbkgl.Net.TcpServerAnswers
import Bbkgl.Net.TcpConnectionReady
import Bbkgl.Net.TcpServerReady
import Bbkgl.Net.TcpServerSound
import Bbkgl.Net.TcpServerExceptions
import Bbkgl.Net.TcpServerPhases
import Bbkgl.Net.TcpServerSubscribed
import Bbkgl.Net.TcpServerAttentive

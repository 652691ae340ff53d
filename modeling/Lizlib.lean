import Lizlib.Transition
import Lizlib.Net.Event
import Lizlib.Net.Selector
import Lizlib.Net.Equiv.Selector
import Lizlib.Data.Adjacent
import Lizlib.Data.SerialExecutor
import Lizlib.Concurrent.LockFreeQueue
import Lizlib.Concurrent.Equiv.LockFreeQueue
import Lizlib.Concurrent.CountdownLatch
import Lizlib.Concurrent.Equiv.CountdownLatch
import Lizlib.Concurrent.ThreadPool
import Lizlib.Concurrent.Equiv.ThreadPool
import Lizlib.Concurrent.EventScheduler
import Lizlib.Net.EventLoop
import Lizlib.Net.Equiv.EventLoop
import Lizlib.Data.Block
import Lizlib.Common.Buffer
import Lizlib.Common.Equiv.Buffer
import Lizlib.Common.BufferPool
import Lizlib.Common.Equiv.BufferPool
import Lizlib.Data.Stacks
import Lizlib.Net.TcpConnection
import Lizlib.Net.Equiv.TcpConnection
import Lizlib.Net.Equiv.Close
import Lizlib.Net.Equiv.WriteInterest
import Lizlib.Net.Equiv.OutputStream
import Lizlib.Net.Equiv.Shutdown
import Lizlib.Net.Equiv.StateOrder
import Lizlib.Concurrent.Equiv.EventScheduler
import Lizlib.Data.Owners
import Lizlib.Net.TcpClient
import Lizlib.Net.Equiv.TcpClient
import Lizlib.Net.ChannelRemoval
import Lizlib.Net.Equiv.ChannelRemoval
import Lizlib.Net.TcpReceive
import Lizlib.Net.Equiv.TcpReceive
import Lizlib.Data.WaitGraph
import Lizlib.Net.Handshake
import Lizlib.Net.Equiv.Handshake
import Lizlib.Common.Equiv.BufferGrowth
import Lizlib.Net.Equiv.PendingOutput
import Lizlib.Concurrent.Equiv.SeveralConsumers
import Lizlib.Common.Equiv.Backed
import Lizlib.Common.Equiv.BufferFile
import Lizlib.Net.Equiv.TcpInput
import Lizlib.Net.BufferSend
import Lizlib.Net.Equiv.BufferSend
import Lizlib.Net.Equiv.TcpPeer
import Lizlib.Net.Equiv.TcpConnecting
import Lizlib.Net.TcpOwners
import Lizlib.Net.Equiv.TcpOwners
import Lizlib.Net.Equiv.TcpLifetime
import Lizlib.Common.Equiv.BufferChain
import Lizlib.Common.Equiv.BufferFailure
import Lizlib.Net.Equiv.SocketInterest
import Lizlib.Net.Equiv.TimerChannel
import Lizlib.Net.EpollSelector
import Lizlib.Net.Equiv.EpollSelector
import Lizlib.Data.Loop
import Lizlib.Net.Acceptor
import Lizlib.Net.Equiv.Acceptor
import Lizlib.Net.Equiv.HangUp
import Lizlib.Net.Equiv.ShutdownOnce
import Lizlib.Concurrent.Equiv.SpinLock
import Lizlib.Net.Equiv.ChannelCalls
import Lizlib.Net.Equiv.InetAddress
import Lizlib.Net.Equiv.SocketAccept
import Lizlib.Concurrent.Equiv.BlockableBarrier
import Lizlib.Net.Equiv.EventLoopGroup
import Lizlib.Common.Equiv.ConcurrentTimestamp
import Lizlib.Common.Equiv.BufferRequest
import Lizlib.Net.Equiv.SerialLoop
import Lizlib.Net.Equiv.Confinement
import Lizlib.Net.Equiv.CallbackOrder
import Lizlib.Net.TcpPipe
import Lizlib.Net.Equiv.TcpPipe
import Lizlib.Concurrent.Equiv.Overtaking
import Lizlib.Data.ReadyList
import Lizlib.Concurrent.BoundJobs
import Lizlib.Concurrent.Equiv.BoundJobs
import Lizlib.Concurrent.Equiv.Obstruction
import Lizlib.Data.LinkedList
import Lizlib.Concurrent.Equiv.QueueDestructor
import Lizlib.Net.TcpSend
import Lizlib.Net.Equiv.TcpSend
import Lizlib.Common.File
import Lizlib.Common.Equiv.File
import Lizlib.Net.Equiv.SelectorDestructor
import Lizlib.Net.TcpServer
import Lizlib.Net.Equiv.Introduction
import Lizlib.Net.Equiv.TcpServer
import Lizlib.Net.Equiv.ServerRegistry
import Lizlib.Net.Equiv.ServerMutex

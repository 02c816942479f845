import Zing.Base.BlockingQueue
import Zing.Base.BoundedBlockingQueue
import Zing.Base.Convert
import Zing.Base.CountDownLatch
import Zing.Base.Date
import Zing.Base.FileUtil
import Zing.Base.FormatSI
import Zing.Base.LogFile
import Zing.Base.LogFileNames
import Zing.Base.LogPipeline
import Zing.Base.LogStream
import Zing.Base.LogTime
import Zing.Base.Logging
import Zing.Base.MutexLock
import Zing.Base.Numerals
import Zing.Base.Printf
import Zing.Base.ReadSmallFile
import Zing.Base.SortedText
import Zing.Base.StringOrder
import Zing.Base.StringPiece
import Zing.Base.Thread
import Zing.Base.ThreadPool
import Zing.Base.TimeStrings
import Zing.Base.TimeZone
import Zing.Base.TimeZoneFile
import Zing.Base.TimeZoneLookup
import Zing.Base.TimeZoneRoundTrip
import Zing.Base.UtcTime
import Zing.Examples.Echo
import Zing.Lib.Batch
import Zing.Lib.CInt
import Zing.Lib.Descriptors
import Zing.Lib.Endian
import Zing.Lib.Mail
import Zing.Lib.Memory
import Zing.Lib.OrdSet
import Zing.Lib.RoundRobin
import Zing.Lib.Search
import Zing.Lib.SortKey
import Zing.Lib.System
import Zing.Net.Acceptor
import Zing.Net.BufferInt
import Zing.Net.BufferLines
import Zing.Net.BufferQueue
import Zing.Net.BufferReadFd
import Zing.Net.BufferShrink
import Zing.Net.ChannelOps
import Zing.Net.Connection
import Zing.Net.ConnectionClose
import Zing.Net.ConnectionDispatch
import Zing.Net.ConnectionLife
import Zing.Net.ConnectionOwners
import Zing.Net.ConnectionRounds
import Zing.Net.ConnectionTearDown
import Zing.Net.ConnectionWatch
import Zing.Net.DefaultPoller
import Zing.Net.EPollPoller
import Zing.Net.EPollRuns
import Zing.Net.EPollWait
import Zing.Net.EventDispatch
import Zing.Net.EventDispatchSafe
import Zing.Net.EventListGrowth
import Zing.Net.EventLoop
import Zing.Net.EventLoopFunctors
import Zing.Net.EventLoopThread
import Zing.Net.EventLoopThreadExit
import Zing.Net.EventLoopThreadPool
import Zing.Net.FlowControl
import Zing.Net.GracefulShutdown
import Zing.Net.InetAddress
import Zing.Net.LoopPollers
import Zing.Net.PollDispatch
import Zing.Net.PollersAgree
import Zing.Net.PollersReport
import Zing.Net.SendBuffer
import Zing.Net.ServerLoops
import Zing.Net.ServerOwners
import Zing.Net.ServerRemoval
import Zing.Net.ServerSockets
import Zing.Net.ServerTearDown
import Zing.Net.TcpDuplex
import Zing.Net.TcpServer
import Zing.Net.TcpStream
import Zing.Net.TimerArming
import Zing.Net.TimerCancel
import Zing.Net.TimerFiring
import Zing.Net.TimerHandOver
import Zing.Net.TimerIds
import Zing.Net.TimerMissed
import Zing.Net.TimerOwnership
import Zing.Net.TimerRuns
import Zing.Net.TimerThreads

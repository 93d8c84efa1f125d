import Rawmd.Lib.Except
import Rawmd.Lib.Machine
import Rawmd.Lib.Monitor
import Rawmd.Lib.MachineInt
import Rawmd.Lib.OrderedSet
import Rawmd.Lib.SwapRemove
import Rawmd.Lib.Printf
import Rawmd.Lib.TextOrder
import Rawmd.Lib.Scan
import Rawmd.Lib.CondVar
import Rawmd.Lib.Descriptors
import Rawmd.Lib.Reader
import Rawmd.Lib.LowerBound
import Rawmd.Lib.Calendar
import Rawmd.Lib.Since
import Rawmd.Base.Timestamp
import Rawmd.Base.TimestampText
import Rawmd.Base.TimeZone
import Rawmd.Base.TimeZoneFile
import Rawmd.Base.TimeZoneLocal
import Rawmd.Base.TimeZoneIndices
import Rawmd.Base.Date
import Rawmd.Base.TimeZoneUtc
import Rawmd.Base.LogConvert
import Rawmd.Base.LogStream
import Rawmd.Base.LogConvertBuffer
import Rawmd.Base.Logging
import Rawmd.Base.LoggingRecord
import Rawmd.Base.LoggingHeader
import Rawmd.Base.FileUtil
import Rawmd.Base.ReadSmallFile
import Rawmd.Base.LogFile
import Rawmd.Base.LogFileRoll
import Rawmd.Base.LogFileNames
import Rawmd.Base.LogFileThreads
import Rawmd.Base.Mutex
import Rawmd.Base.CircularBuffer
import Rawmd.Base.CircularBufferCopies
import Rawmd.Base.CircularBufferMoves
import Rawmd.Base.BlockingQueue
import Rawmd.Base.BlockingQueueBound
import Rawmd.Base.BlockingQueueStatements
import Rawmd.Base.ThreadPool
import Rawmd.Base.CountDownLatch
import Rawmd.Base.ProcessInfo
import Rawmd.Net.TimerQueue
import Rawmd.Net.TimerQueueSets
import Rawmd.Net.TimerQueueOwned
import Rawmd.Net.TimerQueueInv
import Rawmd.Net.TimerQueueCancel
import Rawmd.Net.TimerQueueArmed
import Rawmd.Net.TimerQueueFire
import Rawmd.Net.TimerQueueStale
import Rawmd.Net.TimerQueueTimes
import Rawmd.Net.EventLoop
import Rawmd.Net.EventLoopFunctors
import Rawmd.Net.EventLoopWakeup
import Rawmd.Net.EventLoopTimers
import Rawmd.Net.EventLoopTimersCancel
import Rawmd.Net.EventLoopTimersIds
import Rawmd.Net.EventLoopThread
import Rawmd.Net.Channel
import Rawmd.Net.ChannelInterest
import Rawmd.Net.Poller.PollPoller
import Rawmd.Net.Poller.PollTable
import Rawmd.Net.Poller.PollActive
import Rawmd.Net.Poller.PollWatch
import Rawmd.Net.Poller.EPollPoller
import Rawmd.Net.Poller.EPollMirror
import Rawmd.Net.Poller.EPollWatch
import Rawmd.Net.Poller.Protocol
import Rawmd.Net.Poller.Poller
import Rawmd.Net.Poller.PollKeyed
import Rawmd.Net.Poller.EPollKeyed
import Rawmd.Net.Poller.PollerReports
import Rawmd.Net.Poller.PollersAgree
import Rawmd.Net.Poller.PollServes
import Rawmd.Net.Poller.EPollServes
import Rawmd.Net.Poller.PollerServes
import Rawmd.Net.EventLoopChannels
import Rawmd.Net.Acceptor
import Rawmd.Net.AcceptorDescriptors
import Rawmd.Net.InetAddress
import Rawmd.Net.TcpConnection
import Rawmd.Net.TcpConnectionStream
import Rawmd.Net.TcpServer
import Rawmd.Net.TcpServerNames
import Rawmd.Net.TcpServerOwned
import Rawmd.Net.TcpServerLoop

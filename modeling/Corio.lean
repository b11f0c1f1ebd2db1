import Corio.Foundation.Machine
import Corio.Foundation.Find
import Corio.Foundation.Text
import Corio.Foundation.Number
import Corio.Foundation.Dict
import Corio.Foundation.Path
import Corio.Foundation.Threads
import Corio.Foundation.Ledger
import Corio.Foundation.RingBuffer
import Corio.Foundation.Alarms
import Corio.Foundation.RoundRobin
import Corio.Foundation.Gate
import Corio.Base.StartUp
import Corio.Base.Started
import Corio.Coroutine.Types
import Corio.Coroutine.UniqueFd
import Corio.Coroutine.Resolve
import Corio.Coroutine.Parser
import Corio.Coroutine.Lines
import Corio.Coroutine.ReadRequest
import Corio.Coroutine.Framing
import Corio.Coroutine.Serialize
import Corio.Coroutine.Pipeline
import Corio.Coroutine.Viability
import Corio.Coroutine.HeaderMap
import Corio.Coroutine.Lengths
import Corio.Coroutine.Client
import Corio.Coroutine.Alike
import Corio.Coroutine.Requests
import Corio.Epoll.Mime
import Corio.Epoll.Socket
import Corio.Epoll.HttpData
import Corio.Epoll.Handlers
import Corio.Epoll.Replies
import Corio.Epoll.Responses
import Corio.Epoll.HeaderLines
import Corio.Epoll.HeaderBlock
import Corio.Epoll.Chunks
import Corio.Epoll.ChunkDependence
import Corio.Epoll.RequestLine
import Corio.Epoll.RequestHead
import Corio.Epoll.Verdict
import Corio.Epoll.Progress
import Corio.Epoll.Stream
import Corio.Epoll.Writen
import Corio.Epoll.Faults
import Corio.Epoll.Positions
import Corio.Epoll.Nesting
import Corio.Epoll.EventLoop
import Corio.Epoll.Quit
import Corio.Epoll.Waiting
import Corio.Epoll.Timers
import Corio.Epoll.TimerLinks
import Corio.Epoll.OneTimer
import Corio.Epoll.Sweep
import Corio.Epoll.Interest
import Corio.Epoll.Acceptor
import Corio.Epoll.NextLoop
import Corio.Epoll.Watched
import Corio.Epoll.OwnTurns
import Corio.Epoll.Descriptors
import Corio.Epoll.Sessions
import Corio.Epoll.Deadlines
import Corio.Epoll.Pages
import Corio.Epoll.Conversation
import Corio.Epoll.Answered
import Corio.Epoll.Expiry
import Corio.Uring.Shutdown
import Corio.Uring.Ring
import Corio.Uring.Delivery
import Corio.Uring.TimedReceive
import Corio.Uring.Timeouts
import Corio.Uring.Tasks
import Corio.Uring.Exceptions
import Corio.Uring.Ownership
import Corio.Uring.Connections
import Corio.Uring.WriteAll
import Corio.Uring.Service
import Corio.Uring.Alone
import Corio.Uring.Sessions
import Corio.Uring.Handoff
import Corio.Uring.Accounted
import Corio.Uring.Dealt
import Corio.Uring.Rounds
import Corio.Logging.Buffers
import Corio.Logging.Conserved
import Corio.Logging.Spares
import Corio.Logging.Flush
import Corio.Logging.AppendFile
import Corio.Logging.LogQueue
import Corio.Logging.LogStream
import Corio.Logging.Decimal
import Corio.Logging.Records
import Corio.Epoll.Stack
import Corio.Logging.Tickets
import Corio.Logging.Intact
import Corio.Logging.OneThread
import Corio.Logging.Roles
import Corio.Logging.AsyncLogger
import Corio.Logging.Accounts
import Corio.Logging.Delivered
import Corio.Logging.Overrun
import Corio.Pool.ThreadPool
import Corio.Pool.Shutdown
import Corio.WebBench.Request
import Corio.WebBench.Understood
import Corio.WebBench.Benchcore

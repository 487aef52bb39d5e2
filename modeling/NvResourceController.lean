import NvResourceController.Lib.Cursor
import NvResourceController.Lib.Keyed
import NvResourceController.Lib.Transition
import NvResourceController.Lib.MaskRound
import NvResourceController.Lib.Quota
import NvResourceController.Lib.Register
import NvResourceController.Lib.Account
import NvResourceController.Ioctl.Kernel
import NvResourceController.Ioctl.Ledger
import NvResourceController.Ioctl.Free
import NvResourceController.Ioctl.Refused
import NvResourceController.Ioctl.Limit
import NvResourceController.Ioctl.Race
import NvResourceController.Ioctl.Handles
import NvResourceController.Ioctl.Origin
import NvResourceController.Ioctl.Clients
import NvResourceController.Ioctl.Subtree
import NvResourceController.Ioctl.Processes
import NvResourceController.Ioctl.Calls
import NvResourceController.Ioctl.Isolation
import NvResourceController.Ioctl.Attach
import NvResourceController.Cuda.Entry
import NvResourceController.Cuda.Forward
import NvResourceController.Limiter.Tokens
import NvResourceController.Limiter.Samples
import NvResourceController.Limiter.WaitDuration
import NvResourceController.Ioctl.Admission
import NvResourceController.Ioctl.Answers
import NvResourceController.Monitor.Attr
import NvResourceController.Monitor.Feedback
import NvResourceController.Lib.CString
import NvResourceController.Monitor.CgroupId
import NvResourceController.Lib.Mailbox
import NvResourceController.Monitor.Container
import NvResourceController.Monitor.Notify
import NvResourceController.Monitor.Startup
import NvResourceController.Monitor.Averages
import NvResourceController.Monitor.Overload
import NvResourceController.Monitor.Restart
import NvResourceController.Monitor.Adjustment
import NvResourceController.Monitor.Utilisation
import NvResourceController.Monitor.CgroupLines
import NvResourceController.Monitor.Window
import NvResourceController.Monitor.Indices
import NvResourceController.Ioctl.Env
import NvResourceController.Ioctl.Independence
import NvResourceController.Lib.FirstFound
import NvResourceController.Lib.Binary64
import NvResourceController.Lib.Scan
import NvResourceController.Cuda.Next
import NvResourceController.Cuda.Symbols
import NvResourceController.Cuda.Retrieval
import NvResourceController.Lib.Command
import NvResourceController.Lib.LinkedList
import NvResourceController.Lib.Critical
import NvResourceController.Lib.Interference
import NvResourceController.Lib.Trace
import NvResourceController.Lib.Dialogue
import NvResourceController.Ioctl.Memory
import NvResourceController.Ioctl.Sections
import NvResourceController.Ioctl.Stages
import NvResourceController.Ioctl.Threads
import NvResourceController.Ioctl.SharedLedger
import NvResourceController.Ioctl.Exchanges
import NvResourceController.Monitor.Throughput
import NvResourceController.Lib.Rounding
import NvResourceController.Monitor.Floats
import NvResourceController.Monitor.Supply
import NvResourceController.Monitor.WatchDog
import NvResourceController.Monitor.Machine
import NvResourceController.Ioctl.Blocking

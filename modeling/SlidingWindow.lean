import SlidingWindow.Library.Runs
import SlidingWindow.Library.Ring
import SlidingWindow.Library.SelectiveReject
import SlidingWindow.Library.OnesComplement
import SlidingWindow.Framing
import SlidingWindow.Server
import SlidingWindow.Rcopy
import SlidingWindow.ServerWindow
import SlidingWindow.DataPhase
import SlidingWindow.Responses
import SlidingWindow.Requests
import SlidingWindow.Acknowledgements
import SlidingWindow.Messages
import SlidingWindow.Session
import SlidingWindow.Sender
import SlidingWindow.ServerTurns
import SlidingWindow.Phases
import SlidingWindow.Transfer
import SlidingWindow.Upload
import SlidingWindow.FlowControl
import SlidingWindow.Retransmission
import SlidingWindow.Completion
import SlidingWindow.Truncation
import SlidingWindow.Agreement
import SlidingWindow.Setup
import SlidingWindow.Corruption
import SlidingWindow.Fidelity
import SlidingWindow.Silence
import SlidingWindow.Storage
import SlidingWindow.Bounds
import SlidingWindow.Arguments
import SlidingWindow.Flush
import SlidingWindow.Library.Decimal
import SlidingWindow.Library.Reaching
import SlidingWindow.Library.Rounding
import SlidingWindow.MessageFates
import SlidingWindow.Progress
import SlidingWindow.Recovery
import SlidingWindow.Replies
import SlidingWindow.Integrity
import SlidingWindow.Quiescence
import SlidingWindow.Repetition
import SlidingWindow.Traffic
import SlidingWindow.Crashes
import SlidingWindow.Forgery
import SlidingWindow.WideWindows
import SlidingWindow.Addresses
import SlidingWindow.Concurrency
import SlidingWindow.Library.Files
import SlidingWindow.Directory

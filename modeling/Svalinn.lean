import Svalinn.Base.Lrpc
import Svalinn.Msem.WorkConserving
import Svalinn.Msem.Samples
import Svalinn.Pcc.Sessions
import Svalinn.Pcc.Stats
import Svalinn.Pcc.Framing
import Svalinn.Pcc.Credit
import Svalinn.Pcc.ClientTimer
import Svalinn.Pcc.Announce
import Svalinn.Tcp.Stream
import Svalinn.Tcp.TxQueue
import Svalinn.Tcp.Options
import Svalinn.Tcp.RefCount
import Svalinn.Tcp.Refusal
import Svalinn.Tcp.NoCrash
import Svalinn.Tcp.Window
import Svalinn.Net.ArpLocks
import Svalinn.Iokernel.Slots
import Svalinn.Iokernel.Demux
import Svalinn.Iokernel.Control
import Svalinn.Iokernel.Descriptors
import Svalinn.Iokernel.TxBurst
import Svalinn.Iokernel.Refs
import Svalinn.Iokernel.IasBw
import Svalinn.Iokernel.Rss
import Svalinn.Base.Bitmap
import Svalinn.Base.LargePages
import Svalinn.Runtime.RwMutex
import Svalinn.Breakwater.CongMutex
import Svalinn.Runtime.Condvar
import Svalinn.Runtime.Stealing
import Svalinn.Runtime.QueueDelay
import Svalinn.Shim.StaticMutex
import Svalinn.Net.Loopback
import Svalinn.Net.UdpLocks
import Svalinn.Net.UdpEgress
import Svalinn.Runtime.Rcu
import Svalinn.Runtime.Timer
import Svalinn.Net.IpTxOwned
import Svalinn.Breakwater.Dagor
import Svalinn.Tcp.Timers
import Svalinn.Pcc.Decision
import Svalinn.Pcc.Rounds

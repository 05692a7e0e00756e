import Xinu.Proof.Consistency
import Xinu.Proof.Date
import Xinu.Proof.Device.Ethloop
import Xinu.Proof.Device.Http
import Xinu.Proof.Device.Loopback
import Xinu.Proof.Device.TelnetEcho
import Xinu.Proof.Device.Tty
import Xinu.Proof.Device.Uart
import Xinu.Proof.Dotted
import Xinu.Proof.FileSystem.Atomicity
import Xinu.Proof.FileSystem.Mask
import Xinu.Proof.Flash.Coherence
import Xinu.Proof.Lifecycle
import Xinu.Proof.MailboxAlloc
import Xinu.Proof.Mailboxes
import Xinu.Proof.Memory.RegionRuns
import Xinu.Proof.Messages
import Xinu.Proof.Network.ArpExchange
import Xinu.Proof.Network.ArpMask
import Xinu.Proof.Network.Buffer
import Xinu.Proof.Network.DefaultRoute
import Xinu.Proof.Network.Demux
import Xinu.Proof.Network.DhcpOptions
import Xinu.Proof.Network.Download
import Xinu.Proof.Network.Hops
import Xinu.Proof.Network.Overlay
import Xinu.Proof.Network.Ports
import Xinu.Proof.Network.UdpDelivery
import Xinu.Proof.Numerals
import Xinu.Proof.Nvram.Commit
import Xinu.Proof.Priorities
import Xinu.Proof.Qsort
import Xinu.Proof.Queue.Deltas
import Xinu.Proof.QueueIds
import Xinu.Proof.SemaphoreCalls
import Xinu.Proof.Shell.Lexer
import Xinu.Proof.Sleepers
import Xinu.Proof.Tar
import Xinu.Proof.TarWalk
import Xinu.Proof.Tcp.Capacity
import Xinu.Proof.Tcp.Elapsed
import Xinu.Proof.Tcp.Options
import Xinu.Proof.Tcp.Sequence
import Xinu.Proof.Usb.Configuration
import Xinu.Proof.Usb.Detach

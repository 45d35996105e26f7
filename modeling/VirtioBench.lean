import VirtioBench.Lib.Run
import VirtioBench.Lib.Channel
import VirtioBench.Lib.Window
import VirtioBench.Lib.FirstMatch
import VirtioBench.Lib.Iterate
import VirtioBench.Lib.Ownership
import VirtioBench.Lib.Bytes
import VirtioBench.Lib.Hexdump
import VirtioBench.Lib.Numeral
import VirtioBench.Lib.OnesComplement
import VirtioBench.Vhost.Controller
import VirtioBench.Vhost.Moves
import VirtioBench.Vhost.Flow
import VirtioBench.Vhost.Custody
import VirtioBench.Vhost.Shutdown
import VirtioBench.Vhost.Backpressure
import VirtioBench.Vhost.Sessions
import VirtioBench.Vhost.Termination
import VirtioBench.Bkend.Backend
import VirtioBench.Bkend.Ledger
import VirtioBench.Bkend.TxQueue
import VirtioBench.Bkend.TxIsolation
import VirtioBench.Bkend.Message
import VirtioBench.Bkend.Receive
import VirtioBench.Bkend.MsgIndex
import VirtioBench.Bkend.Descriptors
import VirtioBench.Bkend.TxThread
import VirtioBench.Bkend.Regions
import VirtioBench.Bkend.Chain
import VirtioBench.Bkend.Enqueue
import VirtioBench.Bkend.RxQueue
import VirtioBench.Bkend.Mappings
import VirtioBench.Bkend.Served
import VirtioBench.Bkend.TxDrain
import VirtioBench.Bkend.EventLoop
import VirtioBench.Vtb.ConfigManager
import VirtioBench.Vtb.PortMap
import VirtioBench.Vtb.Logger
import VirtioBench.Vtb.CmdlineParser
import VirtioBench.Vtb.ConfigInit
import VirtioBench.Vtb.Values
import VirtioBench.Device.RobustBackend
import VirtioBench.Tap.WindowUpdate
import VirtioBench.Tap.Throttle
import VirtioBench.Tap.Checksum
import VirtioBench.Lm.MacAddr
import VirtioBench.Lm.StartVm
import VirtioBench.Lm.PortList
import VirtioBench.Vsock.Relay
import VirtioBench.Vsock.Connect
import VirtioBench.Sniff.Dump
import VirtioBench.Sniff.Packet
import VirtioBench.Sniff.Report
import VirtioBench.Sniff.Capture
import VirtioBench.Uds.PacketServer
import VirtioBench.Lbk.BackToBack

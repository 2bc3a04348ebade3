import LibComm.Interleaving
import LibComm.TableCalls
import LibComm.StreamServer
import LibComm.CallRuns
import LibComm.SlotLiveness
import LibComm.ClientCount
import LibComm.CallbackOrder
import LibComm.Teardown
import LibComm.Broadcast
import LibComm.RecvTask
import LibComm.RecvTeardown
import LibComm.ClosingTask
import LibComm.JoinedTeardown
import LibComm.HandleAccounting
import LibComm.ResourceLedger
import LibComm.Daemon
import LibComm.Proxy
import LibComm.ProxyTcp
import LibComm.ProxyPipe
import LibComm.ProxyForward
import LibComm.ByteMemory
import LibComm.Inotify
import LibComm.SendCall
import LibComm.DatagramTask
import LibComm.DatagramSend
import LibComm.PeerAddress
import LibComm.StreamClient
import LibComm.ProxyStream
import LibComm.Netlink
import LibComm.NetlinkTail
import LibComm.NetlinkAddress
import LibComm.CBuffer
import LibComm.ConfigText
import LibComm.PipePath
import LibComm.DecimalText
import LibComm.ConfigTable
import LibComm.SocketPath
import LibComm.NetlinkRecv
import LibComm.BitField
import LibComm.UartConfig
import LibComm.UartTask
import LibComm.InterfaceAddress
import LibComm.PromiscMode
import LibComm.ControlProtocol
import LibComm.ByteStream
import LibComm.StreamEnd
import LibComm.FifoStream
import LibComm.StreamLink
import LibComm.ProxyRelay
import LibComm.MonitorShutdown
import LibComm.IpcNetwork
import LibComm.BroadcastRace
import LibComm.Reconnect
import LibComm.Seating
import LibComm.Admission
import LibComm.DottedQuad
import LibComm.UdpNetwork
import LibComm.Dump

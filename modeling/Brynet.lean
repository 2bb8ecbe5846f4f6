import Brynet.Lib.Transition
import Brynet.Lib.MachineInt
import Brynet.Lib.Memory
import Brynet.Utils.Buffer
import Brynet.Net.DataSocket
import Brynet.Net.Recv
import Brynet.Net.RecvDrain
import Brynet.Net.SessionTable
import Brynet.Net.EventLoop
import Brynet.Net.IOLoop
import Brynet.Net.LifeCycle
import Brynet.Net.Connection
import Brynet.Net.ConnectionLife
import Brynet.Net.ConnectionOutput
import Brynet.Net.Simulation
import Brynet.Net.LoopStep
import Brynet.Net.Soundness
import Brynet.Net.SoundNext
import Brynet.Lib.Merge
import Brynet.Net.Ledger
import Brynet.Net.Delivery
import Brynet.Net.Sessions
import Brynet.Http.Url
import Brynet.Http.Target
import Brynet.Http.HttpParser
import Brynet.Http.Execute
import Brynet.Http.Headers
import Brynet.Http.KeepAlive
import Brynet.Http.WebSocketFrame
import Brynet.Http.WebSocket
import Brynet.Http.WebSocketHeader
import Brynet.Http.OneCallback
import Brynet.Http.Segmentation
import Brynet.Net.EventQueue
import Brynet.Utils.MsgQueue
import Brynet.Utils.WaitGroup
import Brynet.Net.Flush
import Brynet.Lib.Halting
import Brynet.Net.FlushRun
import Brynet.Net.FlushAgree
import Brynet.Net.FlushDrain
import Brynet.Net.FlushReentry
import Brynet.Lib.OrderedMap
import Brynet.Net.Connector
import Brynet.Net.ConnectorRun
import Brynet.Net.ServiceStop
import Brynet.Net.HeartBeat
import Brynet.Net.HalfClose
import Brynet.Net.HalfCloseSteps
import Brynet.Net.HalfCloseRun
import Brynet.Net.Memsearch
import Brynet.Net.PromiseReceive
import Brynet.Utils.BufferRun
import Brynet.Net.AsyncConnector
import Brynet.Lib.Text
import Brynet.Http.HttpFormat
import Brynet.Http.HttpRead
import Brynet.Http.HeaderCase
import Brynet.Http.HeaderNames
import Brynet.Http.CaseDecisions
import Brynet.Lib.Custody
import Brynet.Net.FdSet
import Brynet.Net.ConnectorFds
import Brynet.Lib.Endian
import Brynet.Utils.Socketendian
import Brynet.Utils.Packet
import Brynet.Utils.PacketRead
import Brynet.Timer.Timer
import Brynet.Timer.TimerRun
import Brynet.Lib.Keyed
import Brynet.Lib.RingBuffer
import Brynet.Timer.TimerOrder
import Brynet.Utils.PacketRange
import Brynet.Utils.TypeIDS
import Brynet.Net.FdSetRun
import Brynet.Utils.Stack
import Brynet.Utils.StackRun
import Brynet.Http.ParserCore
import Brynet.Http.WebSocketHandshake
import Brynet.Http.HandshakeReceived
import Brynet.Utils.Md5

import NetPrograms.Lib.Run
import NetPrograms.Lib.Block
import NetPrograms.Lib.Fifo
import NetPrograms.P2p.Outbuf
import NetPrograms.Proofs.OutbufQueue
import NetPrograms.Lib.ByteOrder
import NetPrograms.Lib.Rfc6455
import NetPrograms.Proofs.WebSocketDecode
import NetPrograms.Proofs.WebSocketEncode
import NetPrograms.Lib.CString
import NetPrograms.WebSocket.Handshake
import NetPrograms.WebSocket.Reactor
import NetPrograms.Proofs.WebSocketEcho
import NetPrograms.Kcp.Client
import NetPrograms.Kcp.Server
import NetPrograms.Proofs.ClientDelivery
import NetPrograms.Proofs.ServerDelivery
import NetPrograms.Kcp.Chat
import NetPrograms.Proofs.ChatNotify
import NetPrograms.Proofs.KcpLimits
import NetPrograms.Lib.Multicast
import NetPrograms.Proofs.ChatMembership
import NetPrograms.Proofs.ChatRejected
import NetPrograms.Lib.Trace
import NetPrograms.Proofs.ChatTimeout
import NetPrograms.Dns.Request
import NetPrograms.Lib.Rfc1035
import NetPrograms.Proofs.DnsRequest
import NetPrograms.Dns.Workers
import NetPrograms.Proofs.DnsWorkers
import NetPrograms.Dns.Response
import NetPrograms.Lib.Walk
import NetPrograms.Proofs.DnsNames
import NetPrograms.Proofs.DnsResponse
import NetPrograms.Uring.Server
import NetPrograms.Proofs.UringDiscipline
import NetPrograms.Proofs.UringEcho
import NetPrograms.Proofs.ReactorRule
import NetPrograms.Reactor.Echo
import NetPrograms.Proofs.EchoIsolation
import NetPrograms.Proofs.EchoBounds
import NetPrograms.Proofs.HttpStatus
import NetPrograms.Proofs.HttpDelivery
import NetPrograms.Proofs.WebSocketHandshake
import NetPrograms.WebSocket.Server
import NetPrograms.Proofs.WebSocketStatus
import NetPrograms.Lib.Linked
import NetPrograms.ThreadPool.Pool
import NetPrograms.Proofs.PoolSteps
import NetPrograms.Proofs.PoolTasks
import NetPrograms.Proofs.PoolShutdown
import NetPrograms.Mysql.ConnPool
import NetPrograms.Proofs.ConnHolders
import NetPrograms.Proofs.ConnAvailability
import NetPrograms.Mysql.Uploads
import NetPrograms.Proofs.ConnRecovery
import NetPrograms.Proofs.UploadTasks
import NetPrograms.AddressBook.Heap
import NetPrograms.Lib.Recent
import NetPrograms.AddressBook.Alpha
import NetPrograms.AddressBook.Contact
import NetPrograms.Proofs.BookChains
import NetPrograms.Proofs.BookShape
import NetPrograms.AddressBook.Book
import NetPrograms.Proofs.BookAgreement
import NetPrograms.Proofs.BookCount
import NetPrograms.Proofs.BookRoundTrip
import NetPrograms.Proofs.ContactLoad
import NetPrograms.P2p.Stage1
import NetPrograms.Proofs.P2pAgreement
import NetPrograms.Lib.Epoll
import NetPrograms.P2p.Main
import NetPrograms.Proofs.P2pOpening
import NetPrograms.Proofs.P2pChat
import NetPrograms.Proofs.P2pConnection
import NetPrograms.Proofs.P2pWakeup
import NetPrograms.Dns.Turns
import NetPrograms.Proofs.DnsTurns
import NetPrograms.Proofs.DnsTermination
import NetPrograms.Proofs.DnsExpansion
import NetPrograms.Proofs.DnsRoundTrip
import NetPrograms.Proofs.DnsBounds
import NetPrograms.Proofs.EchoShortWrites
import NetPrograms.WebSocket.Turns
import NetPrograms.Proofs.WebSocketLines
import NetPrograms.Proofs.WebSocketBounds
import NetPrograms.Lib.HttpRequest
import NetPrograms.Proofs.WebSocketAccept
import NetPrograms.Proofs.WebSocketReplies
import NetPrograms.Proofs.ThreadSteps
import NetPrograms.Proofs.PoolClearing
import NetPrograms.Proofs.PoolCreation
import NetPrograms.Locks.Cas
import NetPrograms.Proofs.CasSums
import NetPrograms.Http.Client
import NetPrograms.Proofs.HttpReassembly
import NetPrograms.Proofs.UringCapacity
import NetPrograms.Proofs.UringOverflow
import NetPrograms.MultiPort.Server
import NetPrograms.Proofs.MultiPortDispatch
import NetPrograms.MultiPort.Client
import NetPrograms.Proofs.ClientAccounting
import NetPrograms.Lib.Tally
import NetPrograms.Proofs.WordFrequency
import NetPrograms.AddressBook.Token
import NetPrograms.Proofs.TokenBounds
import NetPrograms.P2p.Receive
import NetPrograms.Proofs.P2pReception
import NetPrograms.Lists.Macros
import NetPrograms.Proofs.ListMacros
import NetPrograms.Dns.Domain
import NetPrograms.Proofs.DomainBounds
import NetPrograms.Lib.Serial
import NetPrograms.Lib.Packing
import NetPrograms.Lib.SelectiveRepeat
import NetPrograms.Lib.Delivery
import NetPrograms.Lib.Pieces
import NetPrograms.Ikcp.Segment
import NetPrograms.Ikcp.Control
import NetPrograms.Ikcp.Queues
import NetPrograms.Ikcp.Input
import NetPrograms.Ikcp.Flush
import NetPrograms.Ikcp.Calls
import NetPrograms.Ikcp.Peers
import NetPrograms.Proofs.IkcpViews
import NetPrograms.Proofs.IkcpWire
import NetPrograms.Proofs.IkcpFlush
import NetPrograms.Proofs.IkcpQueues
import NetPrograms.Proofs.IkcpWindows
import NetPrograms.Proofs.IkcpSettings
import NetPrograms.Proofs.IkcpPeers
import NetPrograms.Proofs.IkcpDelivery
import NetPrograms.Proofs.IkcpSessions
import NetPrograms.Proofs.IkcpBounds
import NetPrograms.Proofs.IkcpSchedule
import NetPrograms.Proofs.IkcpMtu
import NetPrograms.Proofs.IkcpProgress

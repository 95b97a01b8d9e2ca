import TinyServer.Http.Accepted
import TinyServer.Http.Chars
import TinyServer.Http.Conn
import TinyServer.Http.Cuts
import TinyServer.Http.Head
import TinyServer.Http.Parser
import TinyServer.Http.ParserExact
import TinyServer.Http.RoundTrip
import TinyServer.Http.Scanners
import TinyServer.Lib.Fuel
import TinyServer.Lib.Handles
import TinyServer.Lib.Lines
import TinyServer.Lib.Run
import TinyServer.Lib.Scan
import TinyServer.Lib.Search
import TinyServer.Lib.Segments
import TinyServer.Lib.Transfer
import TinyServer.Net.Descriptors
import TinyServer.Net.Holding
import TinyServer.Net.Registered
import TinyServer.Net.Sockets
import TinyServer.Proxy.Attempts
import TinyServer.Proxy.Bodyless
import TinyServer.Proxy.Chunk
import TinyServer.Proxy.ChunkGrammar
import TinyServer.Proxy.Client
import TinyServer.Proxy.Crowd
import TinyServer.Proxy.Exchange
import TinyServer.Proxy.Forwarded
import TinyServer.Proxy.Framing
import TinyServer.Proxy.HeadLines
import TinyServer.Proxy.Links
import TinyServer.Proxy.Pool
import TinyServer.Proxy.Pump
import TinyServer.Proxy.Refine
import TinyServer.Proxy.Relay
import TinyServer.Proxy.Reparsed
import TinyServer.Proxy.Repeated
import TinyServer.Proxy.Retry
import TinyServer.Proxy.Rewrite
import TinyServer.Proxy.Says
import TinyServer.Proxy.State
import TinyServer.Proxy.Terminates
import TinyServer.Proxy.Upstream
import TinyServer.Proxy.Waits
import TinyServer.Proxy.Wired
import TinyServer.Queue.Delivery
import TinyServer.Queue.Ring
import TinyServer.Routing.Table
import TinyServer.Runtime.Wake
import TinyServer.Serve.Acts
import TinyServer.Serve.Deeds
import TinyServer.Serve.Descriptors
import TinyServer.Serve.Ledger
import TinyServer.Serve.Loop
import TinyServer.Serve.OpenFiles
import TinyServer.Serve.Pipeline
import TinyServer.Serve.Registrations
import TinyServer.Serve.Slots
import TinyServer.Serve.Slotwise
import TinyServer.Serve.Stale
import TinyServer.Serve.Stance
import TinyServer.Serve.Tends
import TinyServer.Serve.TooLarge
import TinyServer.Serve.Turn
import TinyServer.Serve.Upstreams
import TinyServer.Static.Armed
import TinyServer.Static.Files
import TinyServer.Static.Moves
import TinyServer.Static.Serve
import TinyServer.Static.Steps
import TinyServer.Static.Url
import TinyServer.Serve.Sending
import TinyServer.Routing.Config
import TinyServer.Routing.Install
import TinyServer.Routing.Installed
import TinyServer.Routing.Match
import TinyServer.Routing.Loaded
import TinyServer.Http.AbsoluteForm
import TinyServer.Routing.Selected
import TinyServer.Routing.Closing
import TinyServer.Routing.ConfigText
import TinyServer.Serve.Mount
import TinyServer.Routing.ConfigLoad
import TinyServer.Static.Calls
import TinyServer.Static.Memory
import TinyServer.Static.Sent
import TinyServer.Static.UrlExact
import TinyServer.Serve.Memory
import TinyServer.Static.Below
import TinyServer.Static.Filled
import TinyServer.Serve.Honest
import TinyServer.Serve.Capped
import TinyServer.Serve.Mounted
import TinyServer.Lib.Reference
import TinyServer.Serve.Redirected
import TinyServer.Lib.Align
import TinyServer.Proxy.Numerals
import TinyServer.Proxy.Tokens
import TinyServer.Runtime.Allocator
import TinyServer.Http.Slices
import TinyServer.Http.GetHeader
import TinyServer.Static.Encoded
import TinyServer.Lib.Probing
import TinyServer.Static.Table
import TinyServer.Logger.Queue
import TinyServer.Logger.Delivery
import TinyServer.Logger.Claims
import TinyServer.Logger.Drops
import TinyServer.Lib.Script
import TinyServer.Static.Script
import TinyServer.Static.Changes
import TinyServer.Proxy.Ends
import TinyServer.Serve.Dispatched
import TinyServer.Proxy.Budget
import TinyServer.Http.Stream
import TinyServer.Lib.Ledger
import TinyServer.Proxy.Calls
import TinyServer.Runtime.Lifecycle
import TinyServer.Serve.Exchanges
import TinyServer.Serve.Streams
import TinyServer.Logger.Output
import TinyServer.Logger.Shutdown

import Tst.Lib.Execution
import Tst.Lib.Handle
import Tst.Lib.Location
import Tst.Pool.Delivery
import Tst.Pool.Handoff
import Tst.Pool.Armed
import Tst.Pool.Output
import Tst.Pool.Closers
import Tst.Pool.Shutdown
import Tst.WebSocket.Receive
import Tst.WebSocket.RoundTrip
import Tst.WebSocket.Stream
import Tst.WebSocket.Bounds
import Tst.WebSocket.Terminated
import Tst.Http.Render
import Tst.Http.ResponseBounds
import Tst.Http.Body
import Tst.Http.QueryRoundTrip
import Tst.Http.QueryParse
import Tst.Http.WellFormed
import Tst.Http.Base64
import Tst.Http.UrlDecode
import Tst.Ami.Framing
import Tst.Server.KeepAlive
import Tst.Server.UserData
import Tst.Server.HeaderCase
import Tst.Server.Alive
import Tst.Server.ProcessMonitor
import Tst.Ami.Record
import Tst.Ami.Login
import Tst.Ami.Locks
import Tst.Ami.Lifetime
import Tst.Ami.Disconnect
import Tst.Ami.Matching
import Tst.Ami.Lookup
import Tst.Ami.Progress
import Tst.Ami.Total
import Tst.Ami.Attempt
import Tst.Ami.LoginLoop
import Tst.Ami.Action
import Tst.Server.OutputWake
import Tst.Pool.EventLoop
import Tst.Http.CheckEscape
import Tst.Http.Strrtrim
import Tst.Server.BufferSize
import Tst.Ami.EventRecords
import Tst.Ami.EventLog
import Tst.Http.Sha1Digest
import Tst.Server.WebSession
import Tst.Server.Routes
import Tst.Echo.Session
import Tst.Ami.Handlers
import Tst.Ami.Jobs
import Tst.Pool.Lifecycle

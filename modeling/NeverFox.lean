import NeverFox.Lib.Run
import NeverFox.Lib.Dict
import NeverFox.Lib.Tally
import NeverFox.Lib.PyText
import NeverFox.Lib.Codec
import NeverFox.Lib.Placement
import NeverFox.Lib.Segments
import NeverFox.Lib.DynamicTable
import NeverFox.Lib.Insertion
import NeverFox.Lib.Pacing
import NeverFox.Lib.PyUrl
import NeverFox.Lib.Utf8
import NeverFox.Lib.Masking
import NeverFox.Basic
import NeverFox.H2.Frame
import NeverFox.H2.Connection
import NeverFox.H2.Lemmas
import NeverFox.H2.Peer
import NeverFox.H2.Wire
import NeverFox.H2.HpackSync
import NeverFox.H2.Window
import NeverFox.H2.SendFailure
import NeverFox.H2.Threads
import NeverFox.H2.Orphans
import NeverFox.H2.Lifetime
import NeverFox.H2.SingleFree
import NeverFox.H2.WriteGuard
import NeverFox.H2.Request
import NeverFox.H2.Streams
import NeverFox.H2.Serving
import NeverFox.H2.Requests
import NeverFox.H2.Responses
import NeverFox.H2.Padding
import NeverFox.H2.SendWindow
import NeverFox.H2.Faults
import NeverFox.H2.FrameSize
import NeverFox.H2.Settled
import NeverFox.H2.StreamCredit
import NeverFox.H2.ReadLoop
import NeverFox.H2.HeaderTable
import NeverFox.H2.FrameReader
import NeverFox.H2.Exchange
import NeverFox.Http1.Reader
import NeverFox.Http1.Request
import NeverFox.Http1.Completeness
import NeverFox.Http1.RoundTrip
import NeverFox.Http1.Promptness
import NeverFox.Http1.Grammar
import NeverFox.Http1.Splitting
import NeverFox.Pool.State
import NeverFox.Pool.Lemmas
import NeverFox.Pool.Bound
import NeverFox.Pool.SingleFlight
import NeverFox.Pool.Wired
import NeverFox.Pool.Goaway
import NeverFox.Pool.Refs
import NeverFox.Pool.Admission
import NeverFox.Pool.Isolation
import NeverFox.Pool.Conservation
import NeverFox.Pool.Custody
import NeverFox.Client.Response
import NeverFox.Client.SendOnce
import NeverFox.Client.Resend
import NeverFox.Client.SizeCap
import NeverFox.Client.Interim
import NeverFox.Client.Cookies
import NeverFox.Client.Redirect
import NeverFox.Client.Secrets
import NeverFox.Client.Leak
import NeverFox.Client.CookieScope
import NeverFox.Client.CookieLine
import NeverFox.Client.Copies
import NeverFox.Client.Parity
import NeverFox.Client.Retries
import NeverFox.Client.Contacts
import NeverFox.Client.CookiePath
import NeverFox.Client.Deeds
import NeverFox.Client.CookieOrder
import NeverFox.Client.CookieLife
import NeverFox.Client.Journey
import NeverFox.Client.Authority
import NeverFox.Client.Rewriting
import NeverFox.Client.Pacing
import NeverFox.Client.Backoff
import NeverFox.Client.Inflation
import NeverFox.Client.InflationLimit
import NeverFox.Client.ProxyUrl
import NeverFox.Client.SimpleCookie
import NeverFox.Client.OneCookie
import NeverFox.Native.Socket
import NeverFox.Native.Socks5
import NeverFox.Native.Socks5Bounds
import NeverFox.Native.Socks5Replies
import NeverFox.Native.ConnectProxy
import NeverFox.Native.ConnectResponse
import NeverFox.H3.Log
import NeverFox.H3.RustDebug
import NeverFox.H3.LogFormat
import NeverFox.H3.Recovery
import NeverFox.H3.Request
import NeverFox.H3.Fallback
import NeverFox.H3.Delivery
import NeverFox.Harness.Capture
import NeverFox.Harness.ClientHello
import NeverFox.Harness.Hello
import NeverFox.Harness.ReadHello
import NeverFox.Harness.Normalized
import NeverFox.Harness.Flight
import NeverFox.Quic.Protection
import NeverFox.Quic.Keys
import NeverFox.Quic.Endpoint
import NeverFox.Quic.PacketNumbers
import NeverFox.Quic.KeyUpdate
import NeverFox.Quic.Limits
import NeverFox.Quic.Agreement
import NeverFox.Quic.ReadLimit
import NeverFox.Quic.Slicing
import NeverFox.Quic.ReadOrder
import NeverFox.Harness.Fields
import NeverFox.Lib.Ledger
import NeverFox.Native.GivenBack
import NeverFox.Harness.Sink
import NeverFox.Harness.Gate
import NeverFox.Harness.Ja4
import NeverFox.Quic.Verdicts

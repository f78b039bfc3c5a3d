import NetworkEmulator.Foundation.Run
import NetworkEmulator.Foundation.Ledger
import NetworkEmulator.Routing
import NetworkEmulator.Bridge.Start
import NetworkEmulator.Bridge.Wired
import NetworkEmulator.Bridge.Learning
import NetworkEmulator.Bridge.Delivery
import NetworkEmulator.Bridge.Consistent
import NetworkEmulator.Bridge.Ageing
import NetworkEmulator.Station.Send
import NetworkEmulator.Station.Start
import NetworkEmulator.Station.Received
import NetworkEmulator.Station.Pending
import NetworkEmulator.Station.Accounting
import NetworkEmulator.Station.Forwarding
import NetworkEmulator.Station.Provenance
import NetworkEmulator.Station.Routes
import NetworkEmulator.Station.Routed
import NetworkEmulator.Foundation.Link
import NetworkEmulator.Station.Host
import NetworkEmulator.Lan.Net
import NetworkEmulator.Lan.Delivery
import NetworkEmulator.Station.Ageing
import NetworkEmulator.Foundation.Codec
import NetworkEmulator.Foundation.Stream
import NetworkEmulator.Foundation.Receiver
import NetworkEmulator.Wire.Object
import NetworkEmulator.Wire.Bridge
import NetworkEmulator.Wire.Station
import NetworkEmulator.Wire.RoundTrip
import NetworkEmulator.Wire.Framing
import NetworkEmulator.Station.Release
import NetworkEmulator.Station.Egress
import NetworkEmulator.Station.FailedRead
import NetworkEmulator.Foundation.Renewal
import NetworkEmulator.ArpHistory
import NetworkEmulator.Routing.Address
import NetworkEmulator.Station.Parsing
import NetworkEmulator.Foundation.Lines
import NetworkEmulator.Station.Console
import NetworkEmulator.Foundation.Prefix
import NetworkEmulator.Station.LongestPrefix
import NetworkEmulator.Station.Connect
import NetworkEmulator.Wire.Handshake
import NetworkEmulator.Routing.Render
import NetworkEmulator.Station.Loading
import NetworkEmulator.Foundation.Retry
import NetworkEmulator.Common.Write
import NetworkEmulator.Common.Read
import NetworkEmulator.Foundation.Exchange
import NetworkEmulator.Internet.Net
import NetworkEmulator.Station.Speech
import NetworkEmulator.Internet.Truth
import NetworkEmulator.Internet.Safety
import NetworkEmulator.Internet.Wiring
import NetworkEmulator.Foundation.Amortised
import NetworkEmulator.Lan.Quiet
import NetworkEmulator.Foundation.Descriptor
import NetworkEmulator.Startup.Address
import NetworkEmulator.Startup.Publish
import NetworkEmulator.Startup.Resolve
import NetworkEmulator.Startup.Interfaces
import NetworkEmulator.Bridge.Calm
import NetworkEmulator.Lan.Settled
import NetworkEmulator.Lan.Lossless
import NetworkEmulator.Lan.AtRest
import NetworkEmulator.Station.Hosts
import NetworkEmulator.Foundation.Drain
import NetworkEmulator.Lan.Progress
import NetworkEmulator.Lan.Overheard
import NetworkEmulator.Foundation.Simulation
import NetworkEmulator.Lan.Embedding
import NetworkEmulator.Startup.Construct

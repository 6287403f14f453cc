import BlockSync.Chain.Engine
import BlockSync.Chain.Fault
import BlockSync.Chain.Fixture
import BlockSync.Chain.Header
import BlockSync.Chain.Memory
import BlockSync.Chain.Scripted
import BlockSync.Command.Arguments
import BlockSync.Command.Job
import BlockSync.Config.Address
import BlockSync.Config.File
import BlockSync.Config.Settings
import BlockSync.Hash.Sha256
import BlockSync.Json.Printer
import BlockSync.Json.Reader
import BlockSync.Json.Skip
import BlockSync.Main
import BlockSync.Network.Operation
import BlockSync.Network.Supervisor
import BlockSync.Number.Binary64
import BlockSync.Number.Rounding
import BlockSync.Number.Saturating
import BlockSync.Peer.State
import BlockSync.Peer.Throughput
import BlockSync.Program
import BlockSync.Proofs.Chain.Extension
import BlockSync.Proofs.Chain.Memory
import BlockSync.Proofs.Pair.CatchUp
import BlockSync.Proofs.Pair.Desertion
import BlockSync.Proofs.Pair.Exchange
import BlockSync.Proofs.Pair.Hosting
import BlockSync.Proofs.Pair.Lagging
import BlockSync.Proofs.Pair.Refusal
import BlockSync.Proofs.Pair.Silence
import BlockSync.Proofs.Pair.Traffic
import BlockSync.Proofs.Session.Harmless
import BlockSync.Proofs.Session.Node
import BlockSync.Proofs.Session.Outlook
import BlockSync.Proofs.Session.Party
import BlockSync.Proofs.Session.Reaction
import BlockSync.Proofs.Session.Requests
import BlockSync.Proofs.Session.Responder
import BlockSync.Proofs.Wire.MessageRoundTrip
import BlockSync.Proofs.Wire.ReadBack
import BlockSync.Proxy.Host
import BlockSync.Proxy.Ipv4
import BlockSync.Proxy.Ipv6
import BlockSync.Proxy.Socks5
import BlockSync.Proxy.Stream
import BlockSync.Session.Block
import BlockSync.Session.Connect
import BlockSync.Session.Latency
import BlockSync.Session.Loop
import BlockSync.Session.Operation
import BlockSync.Session.Request
import BlockSync.Session.State
import BlockSync.Session.Transport
import BlockSync.Simulation.Dialogue
import BlockSync.Simulation.Ensemble
import BlockSync.Simulation.Perform
import BlockSync.Simulation.Remote
import BlockSync.Simulation.Schedule
import BlockSync.Simulation.Stage
import BlockSync.Simulation.Turn
import BlockSync.Simulation.World
import BlockSync.Text.Duration
import BlockSync.Text.Hex
import BlockSync.Text.Hidden
import BlockSync.Text.Quoted
import BlockSync.Text.Record
import BlockSync.Text.Utf8
import BlockSync.Wire.Describe
import BlockSync.Wire.Fault
import BlockSync.Wire.Format
import BlockSync.Wire.Frame
import BlockSync.Wire.Identity
import BlockSync.Wire.Message
import BlockSync.Wire.Reader
import BlockSync.Proofs.Chain.History
import BlockSync.Proofs.Session.Ingestion
import BlockSync.Proofs.Session.Reading
import BlockSync.Proofs.Simulation.Listener
import BlockSync.Proofs.Session.Greeting
import BlockSync.Proofs.Session.Rounds
import BlockSync.Proofs.Session.Ranges
import BlockSync.Proofs.Session.Outstanding
import BlockSync.Proofs.Chain.Irreversible
import BlockSync.Proofs.Session.Announcement
import BlockSync.Proofs.Proxy.Tunnel
import BlockSync.Proofs.Proxy.Reply
import BlockSync.Proofs.Json.Printed
import BlockSync.Proofs.Session.Fatal
import BlockSync.Proofs.Session.Redelivery
import BlockSync.Proofs.Session.Noise
import BlockSync.Proofs.Number.Checked
import BlockSync.Proofs.Program.Ensures
import BlockSync.Proofs.Program.Within
import BlockSync.Proofs.Wire.Cursor
import BlockSync.Proofs.Peer.Counters
import BlockSync.Proofs.Session.Routine
import BlockSync.Proofs.Session.Lifecycle
import BlockSync.Proofs.Session.Arithmetic
import BlockSync.Proofs.Session.Leaving
import BlockSync.Proofs.Session.Dialing
import BlockSync.Proofs.Network.Site
import BlockSync.Proofs.Network.Listing
import BlockSync.Proofs.Network.Conduct
import BlockSync.Proofs.Network.Supervision
import BlockSync.Proofs.Network.Orderly
import BlockSync.Proofs.Network.Calls
import BlockSync.Proofs.Network.Departures
import BlockSync.Proofs.Network.Preference
import BlockSync.Proofs.Network.Tasks
import BlockSync.Proofs.Network.Shutdown
import BlockSync.Proofs.Wire.Truncation
import BlockSync.Proofs.Wire.Spelling
import BlockSync.Proofs.Wire.Canonical
import BlockSync.Proofs.Session.Desk
import BlockSync.Proofs.Session.Serving
import BlockSync.Proofs.Session.Service
import BlockSync.Proofs.Config.Given
import BlockSync.Proofs.Config.RoundTrip
import BlockSync.Proofs.Command.Accepted
import BlockSync.Proofs.Chain.Acceptance
import BlockSync.Proofs.Session.Selection
import BlockSync.Proofs.Session.Scene
import BlockSync.Proofs.Session.Handling
import BlockSync.Proofs.Session.Exits
import BlockSync.Proofs.Session.Timeless
import BlockSync.Proofs.Session.Answering
import BlockSync.Proofs.Session.Probes
import BlockSync.Proofs.Session.Station
import BlockSync.Proofs.Config.Normal
import BlockSync.Proofs.Peer.Window
import BlockSync.Proofs.Peer.Reports
import BlockSync.Proofs.Session.Discipline
import BlockSync.Proofs.Session.Numbering
import BlockSync.Proofs.Session.Generations
import BlockSync.Proofs.Wire.Groups
import BlockSync.Proofs.Wire.Elements
import BlockSync.Proofs.Wire.Progress
import BlockSync.Proofs.Text.Hexadecimal

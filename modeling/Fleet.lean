import Fleet.Text.Utf8
import Fleet.Text.Blank
import Fleet.Text.Upper
import Fleet.Number.Binary64.Scaled
import Fleet.Number.Binary64.Text
import Fleet.Json.Writer
import Fleet.Json.Reader
import Fleet.Json.Record
import Fleet.Number.Digit
import Fleet.Uuid
import Fleet.SocketAddress
import Fleet.Instant.Reader
import Fleet.Table
import Fleet.Member.Encoding
import Fleet.Service.Ledger.Calls
import Fleet.Service.Encoding
import Fleet.Wire.Frame
import Fleet.Report
import Fleet.Report.DryRun
import Fleet.Config.PeerArgument
import Fleet.Messenger
import Fleet.Transport.Scripted
import Fleet.Transport.Network
import Fleet.Node.Membership
import Fleet.Cluster.Schedule
import Fleet.Yaml.Place
import Fleet.Yaml.Scalar
import Fleet.Yaml.Scalar.Plain
import Fleet.Yaml.Scalar.Quoted
import Fleet.Yaml.Scalar.Block
import Fleet.Yaml.Token
import Fleet.Yaml.Token.Property
import Fleet.Yaml.Token.Reader
import Fleet.Yaml.Node
import Fleet.Yaml.Node.Reader
import Fleet.Yaml.Scalar.Core
import Fleet.Yaml.Record
import Fleet.Config.Reader
import Fleet.Yaml.Scalar.Writer
import Fleet.Config.Writer
import Fleet.Disk
import Fleet.Config.Files
import Fleet.EnvFile
import Fleet.Cli.Arguments
import Fleet.Cli.Run
import Fleet.Wire.Stream
import Fleet.Transport.Tcp
import Fleet.Transport.Tcp.Crossing
import Fleet.Report.Closing
import Fleet.Main
import Fleet.Proofs.Cluster.Starts
import Fleet.Proofs.Cluster.Queues
import Fleet.Proofs.Cluster.Descent
import Fleet.Proofs.Cluster.Waiting
import Fleet.Proofs.Messenger.Outcomes
import Fleet.Proofs.Transport.Tcp.Moves
import Fleet.Proofs.Transport.Tcp.Sound
import Fleet.Proofs.Transport.Tcp.Signals
import Fleet.Proofs.Transport.Tcp.Muted
import Fleet.Proofs.Cluster.Calm
import Fleet.Proofs.Cluster.Slots
import Fleet.Proofs.Cluster.Awaits
import Fleet.Proofs.Cluster.Answered
import Fleet.Proofs.Service.Accounts
import Fleet.Proofs.Service.Traffic
import Fleet.Proofs.Service.Answers
import Fleet.Proofs.Service.Alone
import Fleet.Proofs.Member.Roll
import Fleet.Proofs.Member.Newest
import Fleet.Proofs.Member.Placement
import Fleet.Proofs.Cluster.News
import Fleet.Proofs.Node.Acquaintance
import Fleet.Proofs.Cluster.Views
import Fleet.Proofs.Cluster.Turns
import Fleet.Proofs.Node.Deliveries
import Fleet.Proofs.Wire.RoundTrip
import Fleet.Proofs.Transport.Tcp.Deeds
import Fleet.Proofs.Transport.Tcp.Notes
import Fleet.Proofs.Transport.Tcp.Contributions
import Fleet.Proofs.Transport.Tcp.Crossed
import Fleet.Proofs.Transport.Tcp.Together
import Fleet.Proofs.Node.Burst
import Fleet.Proofs.Cluster.Payloads
import Fleet.Proofs.Config.RoundTrip
import Fleet.Proofs.Messenger.Listeners
import Fleet.Proofs.Node.Addressing
import Fleet.Proofs.Node.Answering
import Fleet.Proofs.Wire.Obtained
import Fleet.Proofs.Wire.Truncated
import Fleet.Proofs.Member.Succession
import Fleet.Proofs.Member.LeastUsed
import Fleet.Proofs.Service.Numbering
import Fleet.Proofs.Service.Search
import Fleet.Proofs.Member.Ranking
import Fleet.Proofs.SocketAddress
import Fleet.Proofs.Config.Accepted
import Fleet.Proofs.Config.ExpectedHead
import Fleet.Proofs.Cli.Init
import Fleet.Proofs.Report

import ChordSearch.Bytes
import ChordSearch.Text.Utf8
import ChordSearch.Text.Lower
import ChordSearch.Text.Printable
import ChordSearch.Text.Quoted
import ChordSearch.Hash.Sha1
import ChordSearch.Ring.Id
import ChordSearch.Ring.Arc
import ChordSearch.Net.Address
import ChordSearch.Ring.NodeRef
import ChordSearch.Cause
import ChordSearch.Wire.Message
import ChordSearch.Wire.Codec
import ChordSearch.Index.DocSet
import ChordSearch.Index.TermMap
import ChordSearch.Index.Listing
import ChordSearch.Text.Fields
import ChordSearch.Pending.Tracker
import ChordSearch.Net.Directory
import ChordSearch.Time.Duration
import ChordSearch.Config
import ChordSearch.Command.Words
import ChordSearch.Node.Metrics
import ChordSearch.Node.Basic
import ChordSearch.Search.Service
import ChordSearch.Ring.Fingers
import ChordSearch.Ring.Join
import ChordSearch.Ring.Ping
import ChordSearch.Node.Dispatch
import ChordSearch.Node.Command
import ChordSearch.Cluster.Basic
import ChordSearch.Cluster.Daemon
import ChordSearch.Cluster.Prompt
import ChordSearch.Gateway.Status
import ChordSearch.Gateway.Metadata
import ChordSearch.Json.Value
import ChordSearch.Log.Level
import ChordSearch.Log.Layout
import ChordSearch.Log.Line
import ChordSearch.Log.Logger
import ChordSearch.Text.Csv
import ChordSearch.Text.Integer
import ChordSearch.Json.Read
import ChordSearch.Yaml.Read
import ChordSearch.Toml.Read
import ChordSearch.Config.Layers
import ChordSearch.Config.File
import ChordSearch.Net.Listen
import ChordSearch.Node.Exposition
import ChordSearch.Gateway.Operator
import ChordSearch.Gateway.Http
import ChordSearch.CommandLine.Flag
import ChordSearch.CommandLine.Verb
import ChordSearch.CommandLine.Machine
import ChordSearch.CommandLine.Member
import ChordSearch.CommandLine.Invocation
import ChordSearch.CommandLine.Session
import ChordSearch.Net.Datagram
import ChordSearch.Main
import ChordSearch.Proofs.Ring.Clockwise
import ChordSearch.Proofs.Wire.RoundTrip
import ChordSearch.Proofs.Cluster.Delivery
import ChordSearch.Proofs.Ring.Lookup
import ChordSearch.Proofs.Index.Canonical
import ChordSearch.Proofs.Search.Handlers
import ChordSearch.Proofs.Search.Intersection
import ChordSearch.Proofs.Search.Placement
import ChordSearch.Proofs.Search.Forwarding
import ChordSearch.Proofs.Search.Exactness
import ChordSearch.Proofs.Wire.Decoded
import ChordSearch.Proofs.Node.Effects
import ChordSearch.Proofs.Cluster.Run
import ChordSearch.Proofs.Ring.Pointers
import ChordSearch.Proofs.Ring.Dangling
import ChordSearch.Proofs.Index.TermMap
import ChordSearch.Proofs.Search.Keeping
import ChordSearch.Proofs.Search.Custody
import ChordSearch.Proofs.Wire.Grammar
import ChordSearch.Proofs.Wire.Normal
import ChordSearch.Proofs.Ring.Routed
import ChordSearch.Proofs.Ring.Frame
import ChordSearch.Proofs.Ring.Steady
import ChordSearch.Proofs.Ring.Still
import ChordSearch.Proofs.Search.Settled
import ChordSearch.Proofs.Ring.Table
import ChordSearch.Proofs.Ring.Entry
import ChordSearch.Proofs.Ring.Homing
import ChordSearch.Proofs.Ring.Repair
import ChordSearch.Proofs.Ring.Closer
import ChordSearch.Proofs.Node.Containment
import ChordSearch.Proofs.Search.Handover
import ChordSearch.Proofs.Search.Sharding
import ChordSearch.Proofs.Node.Outcome
import ChordSearch.Proofs.Ring.Partition
import ChordSearch.Proofs.Search.Rehoming
import ChordSearch.Proofs.Net.Directory
import ChordSearch.Proofs.Text.Glyphs
import ChordSearch.Proofs.Index.Listing
import ChordSearch.Proofs.Ring.Repaired
import ChordSearch.Proofs.Ring.Modular
import ChordSearch.Proofs.Pending.Expiry
import ChordSearch.Proofs.Ring.Departure
import ChordSearch.Proofs.Ring.Healing
import ChordSearch.Proofs.Node.Runs
import ChordSearch.Proofs.Node.Matching
import ChordSearch.Proofs.Node.Timeout
import ChordSearch.Proofs.Search.Chain
import ChordSearch.Proofs.Ring.Splice
import ChordSearch.Proofs.Ring.Joining
import ChordSearch.Proofs.Ring.Settling
import ChordSearch.Proofs.Ring.Rounds

import BeaconMesh.Addr.Text
import BeaconMesh.Addr.Map
import BeaconMesh.Clock
import BeaconMesh.Window
import BeaconMesh.Json.Parser
import BeaconMesh.Json.Printer
import BeaconMesh.Wire.Frame
import BeaconMesh.Fault
import BeaconMesh.Config.File
import BeaconMesh.Iface
import BeaconMesh.Node
import BeaconMesh.Network
import BeaconMesh.Proofs.Engine.Moves
import BeaconMesh.Proofs.Engine.Entries
import BeaconMesh.Proofs.Engine.History
import BeaconMesh.Proofs.Routes.Selection
import BeaconMesh.Proofs.Routes.Optimal
import BeaconMesh.Proofs.Routes.Published
import BeaconMesh.Proofs.Hosts.Ownership
import BeaconMesh.Proofs.Windows.Log
import BeaconMesh.Proofs.Windows.Receptions
import BeaconMesh.Proofs.Engine.Calls
import BeaconMesh.Proofs.Engine.Fields
import BeaconMesh.Proofs.Engine.Upkeep
import BeaconMesh.Proofs.Engine.Earlier
import BeaconMesh.Proofs.Faults.Arithmetic
import BeaconMesh.Proofs.Faults.Polls
import BeaconMesh.Proofs.Faults.Runs
import BeaconMesh.Proofs.Faults.Bounds
import BeaconMesh.Proofs.Echoes.Numbers
import BeaconMesh.Proofs.Echoes.Windows
import BeaconMesh.Proofs.Hosts.Changes
import BeaconMesh.Proofs.Hosts.OwnAddresses
import BeaconMesh.Proofs.Relays.Queue
import BeaconMesh.Proofs.Relays.DirectEcho
import BeaconMesh.Proofs.Relays.Gate
import BeaconMesh.Proofs.Routes.Rankings
import BeaconMesh.Proofs.Routes.TwoWay
import BeaconMesh.Proofs.Relays.Sources
import BeaconMesh.Proofs.Windows.Fresh
import BeaconMesh.Proofs.Wire.Canonical
import BeaconMesh.Proofs.Json.Grammar
import BeaconMesh.Proofs.Json.Lexing
import BeaconMesh.Proofs.Json.Reading
import BeaconMesh.Proofs.Json.Printing
import BeaconMesh.Proofs.Config.Files
import BeaconMesh.Proofs.Floods.Log
import BeaconMesh.Proofs.Floods.Once
import BeaconMesh.Proofs.Hosts.Announced
import BeaconMesh.Proofs.Sending.Sendings
import BeaconMesh.Proofs.Sending.DirectFlag
import BeaconMesh.Proofs.Sending.OwnBeacons
import BeaconMesh.Proofs.Drops.NoTrace
import BeaconMesh.Proofs.Hosts.Current
import BeaconMesh.Proofs.Sending.Announcements
import BeaconMesh.Proofs.Ageing.Staleness
import BeaconMesh.Proofs.Routes.Pruning
import BeaconMesh.Proofs.Ageing.Sweeps
import BeaconMesh.Proofs.Routes.Stability
import BeaconMesh.Proofs.Gateways.Agreement
import BeaconMesh.Proofs.Frames.Journeys
import BeaconMesh.Proofs.Sending.Addressed
import BeaconMesh.Proofs.Ageing.Shutdown
import BeaconMesh.Proofs.Nodes.Beats
import BeaconMesh.Proofs.Polls.Arrivals
import BeaconMesh.Proofs.Polls.Due
import BeaconMesh.Proofs.Nodes.Turns
import BeaconMesh.Proofs.Nodes.Loop
import BeaconMesh.Proofs.Nodes.Executions
import BeaconMesh.Proofs.Quality.Judgements
import BeaconMesh.Proofs.Hosts.RemoteLists
import BeaconMesh.Proofs.Polls.StableQueue
import BeaconMesh.Proofs.Beacons.Footprint
import BeaconMesh.Proofs.Gateways.Choice
import BeaconMesh.Proofs.Frames.NextHops
import BeaconMesh.Proofs.Polls.Endings
import BeaconMesh.Proofs.Sending.EveryTask
import BeaconMesh.Proofs.Quality.RecentMean
import BeaconMesh.Proofs.Windows.Positions
import BeaconMesh.Proofs.Addresses.Spellings

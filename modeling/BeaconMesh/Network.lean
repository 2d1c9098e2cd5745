import BeaconMesh.Engine.Call

/-!
# Networks

Several nodes on a medium of directed connections between interfaces. A connection may lose
every so many packets. `Network.exchange` carries packets until no node has anything left to
send.
-/

namespace BeaconMesh

/-- An interface of a node in a network. -/
structure Endpoint where
  node : Nat
  iface : IfaceId
  deriving DecidableEq, Repr

/-- Whether an endpoint comes before another one: by node, then by interface. -/
def Endpoint.precedes (a b : Endpoint) : Bool :=
  a.node < b.node || (a.node = b.node && a.iface < b.iface)

/-- A connection from an interface to another one. -/
structure Connection where
  source : Endpoint
  target : Endpoint
  /-- Every how many packets one is lost; zero for never. -/
  loss : Nat := 0
  /-- How many packets were sent over it. -/
  sent : Nat := 0
  deriving DecidableEq, Repr

namespace Connection

/-- Whether a connection joins two endpoints, in this direction. -/
def joins (c : Connection) (source target : Endpoint) : Bool :=
  c.source = source && c.target = target

/-- Whether a connection comes before another one: by source, then by target. -/
def precedes (c d : Connection) : Bool :=
  c.source.precedes d.source || (c.source = d.source && c.target.precedes d.target)

def count (c : Connection) : Connection := { c with sent := c.sent + 1 }

def drops (c : Connection) : Bool := 0 < c.loss && c.sent % c.loss = 0

end Connection

/-- A node in a network, with what came out of it. -/
structure Station where
  engine : Engine
  /-- The routes as others see them. -/
  routes : RouteTable := .empty
  /-- The frames handed to the bridge that were not taken yet, the oldest first. -/
  delivered : List Bytes := []

def Station.publish (s : Station) : Station :=
  { s with
    engine := { s.engine with notices := [] }
    routes := s.routes.followAll s.engine.notices }

/-- Nodes on a medium. -/
structure Network where
  stations : List Station := []
  connections : List Connection := []
  time : Time := 0

namespace Network

def insertConnection (c : Connection) : List Connection → List Connection
  | [] => [c]
  | d :: rest => if d.precedes c then d :: insertConnection c rest else c :: d :: rest

def disconnect (n : Network) (source target : Endpoint) : Network :=
  { n with connections := n.connections.filter fun c => ! c.joins source target }

/-- Makes a connection, in the place of an earlier one. -/
def connect (n : Network) (source target : Endpoint) (loss : Nat) : Network :=
  let n := n.disconnect source target
  { n with connections := insertConnection { source, target, loss } n.connections }

/-- Changes the engine of a node and publishes its route changes. -/
def update (n : Network) (node : Nat) (f : Engine → Except Fault Engine) :
    Except Fault Network :=
  match n.stations[node]? with
  | some s => do
    let engine ← f s.engine
    return { n with stations := n.stations.set node { s with engine }.publish }
  | none => .ok n

def add (n : Network) (setup : Setup) (jitter : Jitter) (start : Time) : Except Fault Network := do
  let engine ← (Engine.new setup jitter).start start
  return { n with stations := n.stations ++ [{ engine }] }

/-! ### Carrying packets -/

def addr? (n : Network) (p : Endpoint) : Option Addr :=
  ((n.stations[p.node]?).bind fun s => s.engine.setup.ifaces[p.iface]?).map Iface.addr

/-- Whether a connection carries packets from a source to an address. -/
def carries (n : Network) (source : Endpoint) (dest : Addr) (c : Connection) : Bool :=
  c.source = source && (dest = .broadcast || n.addr? c.target = some dest)

/-- Counts a packet on the connections that carry it. -/
def countPacket (n : Network) (source : Endpoint) (dest : Addr) : Network :=
  { n with connections := n.connections.map fun c =>
      if n.carries source dest c then c.count else c }

def reached (n : Network) (source : Endpoint) (dest : Addr) : List Endpoint :=
  (n.connections.filter fun c => n.carries source dest c && ! c.drops).map Connection.target

def arrive (payload : Bytes) (sender : Addr) (n : Network) (target : Endpoint) :
    Except Fault Network :=
  n.update target.node fun e => do
    let (e, _) ← e.receive payload sender target.iface n.time
    return e

def perform (n : Network) (work : Nat × Action) : Except Fault Network :=
  match work.2 with
  | .deliver frame =>
    .ok { n with stations := n.stations.modify work.1 fun s =>
            { s with delivered := s.delivered ++ [frame] } }
  | .transmit iface dest payload =>
    let source : Endpoint := ⟨work.1, iface⟩
    let n := n.countPacket source dest
    (n.reached source dest).foldlM (arrive payload ((n.addr? source).getD .zero)) n

/-- The actions of all nodes, in the order of the nodes. -/
def pending (n : Network) : List (Nat × Action) :=
  (n.stations.mapIdx fun i s => s.engine.outbox.map fun a => (i, a)).flatten

def cleared (n : Network) : Network :=
  { n with stations := n.stations.map fun s =>
      { s with engine := { s.engine with outbox := [] } } }

/-- Carries out actions in rounds until none are left, at most `limit` rounds. -/
def exchangeRounds (n : Network) : Nat → Except Fault Network
  | 0 => if n.pending.isEmpty then .ok n else .error .endless
  | limit + 1 =>
    if n.pending.isEmpty then .ok n
    else do
      let n' ← n.pending.foldlM perform n.cleared
      n'.exchangeRounds limit

/-- A bound on rounds: a unicast packet loses a hop each round, and a flooded frame meets a new
node. -/
def maxRounds (n : Network) : Nat := 256 + n.stations.length

def exchange (n : Network) : Except Fault Network := n.exchangeRounds n.maxRounds

/-! ### Time -/

def pollNode (n : Network) (node : Nat) : Except Fault Network :=
  n.update node fun e => do
    let (e, _) ← e.poll n.time
    return e

/-- Lets time pass, polls every node in order, and exchanges packets. -/
def tick (n : Network) (step : Time) : Except Fault Network := do
  let n ← (List.range n.stations.length).foldlM pollNode { n with time := n.time + step }
  n.exchange

def ticks (n : Network) (step : Time) : Nat → Except Fault Network
  | 0 => .ok n
  | count + 1 => do
    let n ← n.tick step
    n.ticks step count

/-- Lets at least a duration pass, tick by tick. -/
def run (n : Network) (step duration : Time) : Except Fault Network :=
  n.ticks step ((duration + step - 1) / step)

/-- A frame comes from the bridge of a node. -/
def sendFrame (n : Network) (node : Nat) (frame : Bytes) :
    Except Fault (Network × Option FrameOutcome) := do
  let outcome := (n.stations[node]?).map fun s => (s.engine.receiveFrame frame n.time).2
  let n ← n.update node fun e => .ok (e.receiveFrame frame n.time).1
  return (← n.exchange, outcome)

def shutdown (n : Network) (node : Nat) : Except Fault Network := do
  let n ← n.update node fun e => .ok (e.shutdown n.time)
  n.exchange

/-- Takes the frames that were handed to the bridges. -/
def takeDelivered (n : Network) : Network :=
  { n with stations := n.stations.map fun s => { s with delivered := [] } }

end Network

end BeaconMesh

import BeaconMesh.Engine.Basic
import BeaconMesh.Originator.Reception

/-!
# Beacons that come in

A beacon of another node passes four stages: the reception windows of its originator, the
judgement of the link to the neighbour it came from, the ranking of routes and the announcements
if it is fresh, and the decision to relay it. A beacon of ours that comes back is an echo, and
says that the neighbour hears us.
-/

namespace BeaconMesh.Engine

def refusal? (e : Engine) (sender : Addr) : Option DropReason :=
  if e.isMine sender then some .ownSender
  else if sender = .broadcast then some .broadcastSender
  else none

/-! ### Echoes -/

/-- How many beacons ago we sent a beacon that a direct neighbour echoed on the interface we
sent it from; none when it is no such echo, or too old. -/
def echoOffset? (e : Engine) (b : Beacon) (here : Iface) : Option Nat :=
  if b.isDirect && b.orig = here.addr then
    ((e.counters[here.id]?).bind Counter.lastSent).bind fun last =>
      if Seqno.behind last b.seqno < Window.size then some (Seqno.behind last b.seqno) else none
  else none

def hearEcho (e : Engine) (b : Beacon) (sender : Addr) (here : Iface) (now : Time) : Engine :=
  match e.echoOffset? b here with
  | some offset =>
    { e with origins := e.origins.upsert sender now fun o => o.recordEcho here.id offset }
  | none => e

/-! ### The stages -/

def hear (e : Engine) (b : Beacon) (hop : Hop) (now : Time) : Engine :=
  { e with origins := e.origins.upsert b.orig now fun o => o.hear b.seqno b.ttl hop now }

/-- Judges the link to the neighbour that a beacon came from. -/
def assess (e : Engine) (b : Beacon) (hop : Hop) (now : Time) :
    Except Fault (Engine × Estimate) := do
  let neighbour := e.origins.getOrNew hop.addr now
  let (neighbour, estimate) ← neighbour.assess e.setup.estimator hop.iface b.quality
  return ({ e with origins := e.origins.insert hop.addr neighbour }, estimate)

/-- An originator with one more quality sample, its route selected anew. -/
def ranked (o : Originator) (b : Beacon) (hop : Hop) : Originator × Option RouteChange :=
  let o := o.modifyLink hop fun l => { l with lastTtl := b.ttl }.addSample b.quality
  { o with lastRanked := b.seqno }.updateRoute

/-- Ranks the routes to the originator of a beacon. -/
def rank (e : Engine) (b : Beacon) (hop : Hop) : Engine :=
  match e.origins.get? b.orig with
  | some o =>
    let (o, change) := ranked o b hop
    { e with origins := e.origins.insert b.orig o }.notify change.toList
  | none => e

/-- Takes over what the originator of a beacon announces. -/
def heed (e : Engine) (b : Beacon) (now : Time) : Engine :=
  let (hosts, origins) := e.hosts.applyRemote e.origins b.orig b.hosts now
  { e with
    hosts
    origins := origins.modify b.orig fun o =>
      { o with hostBytes := Wire.hostBytes b.hosts, gatewayClass := b.gatewayClass }
    gateways := e.gateways.update b.orig b.gatewayClass now }

/-! ### Relaying -/

/-- How a beacon is relayed. -/
structure RelayMode where
  direct : Bool
  oneWay : Bool
  deriving DecidableEq, Repr

/-- Whether packets for a node take the neighbour as next hop. -/
def routesVia (e : Engine) (dest neighbour : Addr) : Bool :=
  match e.route? dest with
  | some l => l.hop.addr = neighbour
  | none => false

/-- How a beacon is relayed, if at all. A direct neighbour is always answered. From others only
beacons on the route count: fresh ones, and duplicates that came with nearly as many hops left. -/
def relayMode? (e : Engine) (b : Beacon) (sender : Addr) (duplicate twoWay : Bool) :
    Option RelayMode :=
  let onRoute := twoWay && e.routesVia b.orig sender
  if b.orig = sender then some { direct := true, oneWay := ! onRoute }
  else if onRoute then
    let lastTtl := ((e.origins.get? b.orig).map Originator.lastTtl).getD 0
    if ! duplicate || lastTtl.toNat ≤ b.ttl.toNat + 3 then
      some { direct := false, oneWay := false }
    else none
  else none

/-- Quality and remaining hops of the route, when it does not lead through the sender. -/
def substitute? (e : Engine) (dest sender : Addr) : Option (UInt8 × UInt8) :=
  match e.route? dest with
  | some l =>
    if l.hop.addr = sender ∨ l.average = 0 then none
    else some (UInt8.ofNat l.average, l.lastTtl)
  | none => none

def relay (e : Engine) (b : Beacon) (hop : Hop) (mode : RelayMode) (now : Time) :
    Except Fault (Engine × Bool) := do
  let request : Relay :=
    { beacon := b, sender := hop.addr, iface := hop.iface,
      substitute := e.substitute? b.orig hop.addr, direct := mode.direct, oneWay := mode.oneWay }
  let (scheduler, relayed) ← e.scheduler.enqueueRelay e.setup.pacing request now
  return ({ e with scheduler }, relayed)

/-- Relays a beacon if it is to be relayed. One that we relayed before is not. -/
def considerRelay (e : Engine) (b : Beacon) (hop : Hop) (duplicate twoWay : Bool) (now : Time) :
    Except Fault (Engine × Bool) :=
  if e.isMine b.prev then .ok (e, false)
  else
    match e.relayMode? b hop.addr duplicate twoWay with
    | some mode => e.relay b hop mode now
    | none => .ok (e, false)

/-! ### The whole -/

/-- The stages after the windows, for a beacon that is not late. -/
def judge (e : Engine) (b : Beacon) (hop : Hop) (duplicate : Bool) (now : Time) :
    Except Fault (Engine × PacketOutcome) := do
  let (e, estimate) ← e.assess b hop now
  let b := { b with quality := UInt8.ofNat estimate.quality }
  let e :=
    if duplicate then e
    else (if estimate.twoWay then e.rank b hop else e).heed b now
  let (e, relayed) ← e.considerRelay b hop duplicate estimate.twoWay now
  return (e, .beacon duplicate estimate.twoWay relayed)

def accept (e : Engine) (b : Beacon) (hop : Hop) (now : Time) :
    Except Fault (Engine × PacketOutcome) :=
  match (e.origins.getOrNew b.orig now).arrival b.seqno with
  | .late _ => .ok (e.hear b hop now, .late)
  | .duplicate => (e.hear b hop now).judge b hop true now
  | .fresh => (e.hear b hop now).judge b hop false now

/-- A beacon came from a sender on an interface. -/
def receiveBeacon (e : Engine) (b : Beacon) (sender : Addr) (iface : IfaceId) (now : Time) :
    Except Fault (Engine × PacketOutcome) :=
  match e.setup.ifaces[iface]? with
  | none => .ok (e, .dropped .unknownInterface)
  | some here =>
    match e.refusal? sender with
    | some reason => .ok (e, .dropped reason)
    | none =>
      if e.isMine b.orig then .ok (e.hearEcho b sender here now, .dropped .ownBeacon)
      else if b.isOneWay then .ok (e, .dropped .oneWay)
      else e.accept b ⟨sender, iface⟩ now

end BeaconMesh.Engine

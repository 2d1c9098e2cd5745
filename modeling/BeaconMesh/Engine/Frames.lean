import BeaconMesh.Engine.Beacons
import BeaconMesh.Wire.Frame

/-!
# Frames

Frames from the bridge go to the node that owns their destination, or to everyone. Frames that
come in as data packets are delivered here, sent on along the route, or flooded.
-/

namespace BeaconMesh.Engine

/-- Sends unicast data along the route to its destination. -/
def sendAlong (e : Engine) (u : Unicast) (outcome : FrameOutcome) : Engine × FrameOutcome :=
  match e.route? u.dest with
  | some l => (e.emit [.transmit l.hop.iface l.hop.addr (Wire.unicastBytes u)], outcome)
  | none => (e, .dropped .noRoute)

/-- Floods a frame from the bridge in our name. -/
def flood (e : Engine) (frame : Bytes) : Engine :=
  let seqno := e.floodSeqno + 1
  { e with floodSeqno := seqno }.transmitEverywhere
    (Wire.floodBytes { orig := e.setup.primary, seqno, frame })

/-- The node that a frame for a host goes to; none if the host is on our own bridge. -/
def destination? (e : Engine) (host : Addr) : Option Addr :=
  match e.hosts.owner? host with
  | some .here => none
  | some (.node owner) => some owner
  | none => some host

/-- A frame came from the bridge. Its source becomes known as a host of ours. -/
def receiveFrame (e : Engine) (frame : Bytes) (now : Time) : Engine × FrameOutcome :=
  match FrameHeader.ofFrame frame with
  | .error _ => (e, .dropped .malformed)
  | .ok header =>
    let e := { e with hosts := e.hosts.learn header.source now }
    if header.isFlooded then (e.flood frame, .flooded)
    else
      match e.destination? header.dest with
      | none => (e, .dropped .bridgedHere)
      | some dest => e.sendAlong { ttl := e.setup.config.ttl, dest, frame } .sent

/-- Unicast data came in: it is delivered here, or sent on with one hop less. -/
def receiveUnicast (e : Engine) (u : Unicast) : Engine × FrameOutcome :=
  if e.isMine u.dest then (e.emit [.deliver u.frame], .delivered)
  else if u.ttl < 2 then (e, .dropped .ttlExceeded)
  else e.sendAlong { u with ttl := u.ttl - 1 } .forwarded

/-- Flooded data came in: a frame that was not seen is delivered here and sent on. -/
def receiveFlood (e : Engine) (f : Flood) : Engine × FrameOutcome :=
  if e.isMine f.orig then (e, .dropped .ownFlood)
  else
    match e.origins.get? f.orig with
    | none => (e, .dropped .unknownOriginator)
    | some o =>
      if o.knowsFlood f.seqno then (e, .dropped .duplicate)
      else
        let e := { e with origins := e.origins.insert f.orig (o.hearFlood f.seqno) }
        ((e.emit [.deliver f.frame]).transmitEverywhere (Wire.floodBytes f), .flooded)

/-- A data packet is accepted from other nodes only. -/
def receiveData (e : Engine) (sender : Addr) (receive : Engine → Engine × FrameOutcome) :
    Engine × PacketOutcome :=
  match e.refusal? sender with
  | some reason => (e, .dropped reason)
  | none =>
    let (e, outcome) := receive e
    (e, .data outcome)

/-- The reason to drop bytes that are no packet. -/
def dropReason : WireError → DropReason
  | .badVersion _ => .incompatibleVersion
  | _ => .malformed

def receive (e : Engine) (payload : Bytes) (sender : Addr) (iface : IfaceId) (now : Time) :
    Except Fault (Engine × PacketOutcome) :=
  if e.setup.ifaces[iface]?.isNone then .ok (e, .dropped .unknownInterface)
  else
    match Wire.decode payload with
    | .error cause => .ok (e, .dropped (dropReason cause))
    | .ok (.beacon b) => e.receiveBeacon b sender iface now
    | .ok (.unicast u) => .ok (e.receiveData sender fun e => e.receiveUnicast u)
    | .ok (.flood f) => .ok (e.receiveData sender fun e => e.receiveFlood f)

end BeaconMesh.Engine

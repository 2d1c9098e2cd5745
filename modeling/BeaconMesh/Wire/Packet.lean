import BeaconMesh.Addr.Basic
import BeaconMesh.Seqno

/-!
# Packets

Three kinds of packet cross a link: beacons, which nodes flood to announce themselves and the
hosts behind them; unicast data, a bridged frame sent hop by hop; and flooded data, a bridged
frame for everyone.
-/

namespace BeaconMesh

abbrev Bytes := List UInt8

/-- The periodic announcement of an originator. -/
structure Beacon where
  flags : UInt8 := 0
  ttl : UInt8 := 0
  /-- How good a gateway the originator is, zero for none. -/
  gatewayClass : UInt8 := 0
  /-- The quality of the path the beacon has come. -/
  quality : UInt8 := 0
  seqno : Seqno := 0
  orig : Addr
  /-- The node that relayed the beacon to the sender. -/
  prev : Addr := .zero
  /-- The hosts bridged by the originator. -/
  hosts : List Addr := []
  deriving DecidableEq, Repr

namespace Beacon

/-- Set on an echo for a neighbour that is heard but is not known to hear us. -/
def oneWayFlag : UInt8 := 0x80

/-- Set on a beacon relayed by a node that heard the originator itself, on that link. -/
def directFlag : UInt8 := 0x40

/-- Whether the beacon is an echo over a one-way link. -/
def isOneWay (b : Beacon) : Bool := b.flags &&& oneWayFlag ≠ 0

/-- Whether the beacon is an echo by a direct neighbour of the originator. -/
def isDirect (b : Beacon) : Bool := b.flags &&& directFlag ≠ 0

end Beacon

/-- A bridged frame on its way to one node. -/
structure Unicast where
  ttl : UInt8
  dest : Addr
  frame : Bytes
  deriving DecidableEq, Repr

/-- A bridged frame on its way to every node. -/
structure Flood where
  orig : Addr
  seqno : Seqno
  frame : Bytes
  deriving DecidableEq, Repr

/-- What one transmission carries. -/
inductive Packet where
  | beacon (b : Beacon)
  | unicast (u : Unicast)
  | flood (f : Flood)
  deriving DecidableEq, Repr

end BeaconMesh

import BeaconMesh.Addr.Map
import BeaconMesh.Link
import BeaconMesh.Quality
import BeaconMesh.Wire.Packet

/-!
# Originators

An `Originator` is what is known of one node: the links its beacons come over, the hop that
packets for it take, which of its packets were received, and which of ours it echoed.
-/

namespace BeaconMesh

/-- What is known of one node. -/
structure Originator where
  addr : Addr
  /-- The link that packets for the node take. -/
  route : Option Hop := none
  /-- The number of the last beacon that counted for routing. -/
  lastRanked : Seqno := 0
  /-- The number at position 0 of the reception windows. -/
  newest : Seqno := 0
  /-- The number at position 0 of the window of flooded frames. -/
  newestFlood : Seqno := 0
  /-- The node's beacons that were received, over any link. -/
  received : Window := .empty
  /-- The frames flooded by the node that were received. -/
  flooded : Window := .empty
  /-- For each interface, our beacons that the node echoed. -/
  echoes : List Window
  /-- The last judgement of the direct link to the node, if there is one. -/
  linkQuality : Nat := 0
  /-- The factor for missed beacons in that judgement. -/
  symmetry : Nat := 0
  links : List Link := []
  /-- The hosts that the node announces. -/
  hosts : AddrSet := .empty
  /-- The last announcement list, as it was received. -/
  hostBytes : Bytes := []
  /-- The gateway class that the node advertises. -/
  gatewayClass : UInt8 := 0
  /-- The hops that the last new beacon had left. -/
  lastTtl : UInt8 := 0
  lastSeen : Time
  deriving DecidableEq

namespace Originator

def new (addr : Addr) (ifaces : Nat) (now : Time) : Originator :=
  { addr, echoes := List.replicate ifaces .empty, lastSeen := now }

/-! ### Links -/

def link? (o : Originator) (hop : Hop) : Option Link := o.links.find? fun l => l.hop = hop

/-- Adds the link through a hop if it is not there yet. -/
def ensureLink (o : Originator) (hop : Hop) (now : Time) : Originator :=
  if o.links.any fun l => l.hop = hop then o
  else { o with links := o.links ++ [{ hop, lastSeen := now }] }

def modifyLink (o : Originator) (hop : Hop) (f : Link → Link) : Originator :=
  { o with links := o.links.map fun l => if l.hop = hop then f l else l }

def routeLink? (o : Originator) : Option Link := o.route.bind o.link?

/-- Whether nothing came from the node for twice the timeout. -/
def isStale (o : Originator) (now timeout : Time) : Bool :=
  Clock.overdue o.lastSeen (Clock.times timeout 2) now

def hasStaleLink (o : Originator) (now timeout : Time) : Bool :=
  o.links.any fun l => l.isStale now timeout

/-- Forgets stale links, and the route if its link is among them. -/
def dropStaleLinks (o : Originator) (now timeout : Time) : Originator :=
  let links := o.links.filter fun l => ! l.isStale now timeout
  { o with links, route := o.route.filter fun hop => links.any fun l => l.hop = hop }

theorem link?_ensureLink_of_ne (o : Originator) {hop other : Hop} (now : Time)
    (h : hop ≠ other) : (o.ensureLink hop now).link? other = o.link? other := by
  unfold ensureLink link?
  split
  · rfl
  · simp [List.find?_append, h]

theorem link?_ensureLink (o : Originator) (hop : Hop) (now : Time) :
    (o.ensureLink hop now).link? hop = some ((o.link? hop).getD { hop, lastSeen := now }) := by
  unfold ensureLink link?
  split
  · rename_i known
    obtain ⟨l, hl⟩ := List.find?_isSome.mpr (List.any_eq_true.mp known) |> Option.isSome_iff_exists.mp
    rw [hl]
    rfl
  · rename_i unknown
    have absent : o.links.find? (fun l => l.hop = hop) = none :=
      List.find?_eq_none.mpr fun l hl same => unknown (List.any_eq_true.mpr ⟨l, hl, same⟩)
    simp [List.find?_append, absent]

/-! ### Echoes of our beacons -/

def echoes? (o : Originator) (iface : IfaceId) : Option Window := o.echoes[iface]?

/-- How many of our last beacons on an interface the node echoed. -/
def echoCount (o : Originator) (iface : IfaceId) : Nat :=
  match o.echoes? iface with
  | some w => w.count
  | none => 0

/-- One more of our beacons has left through an interface. -/
def ageEchoes (o : Originator) (iface : IfaceId) : Originator :=
  { o with echoes := o.echoes.modify iface fun w => w.mark 1 false }

/-- The node echoed our beacon `offset` before the last on an interface. -/
def recordEcho (o : Originator) (iface : IfaceId) (offset : Nat) : Originator :=
  { o with echoes := o.echoes.modify iface fun w => w.record offset }

def lacksEcho (o : Originator) (iface : IfaceId) (offset : Nat) : Bool :=
  match o.echoes? iface with
  | some w => w.lacks offset
  | none => false

/-! ### The direct link -/

/-- Judges the direct link to the node on an interface, and remembers the judgement. -/
def assess (o : Originator) (e : Estimator) (iface : IfaceId) (carried : UInt8) :
    Except Fault (Originator × Estimate) := do
  let received := ((o.link? ⟨o.addr, iface⟩).map Link.received).getD 0
  let estimate ← e.estimate carried.toNat (o.echoCount iface) received
  return ({ o with linkQuality := estimate.link, symmetry := estimate.symmetry }, estimate)

end Originator

end BeaconMesh

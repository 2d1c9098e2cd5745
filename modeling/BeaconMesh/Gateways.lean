import BeaconMesh.Originator.Table

/-!
# Gateways

Nodes that advertise a gateway class. One that stops is kept for a while, marked as deleted.
`GatewayList.choose` picks the best gateway that has a route.
-/

namespace BeaconMesh

/-- A node that advertises, or advertised, a gateway class. -/
structure Gateway where
  orig : Addr
  level : UInt8
  deleted : Option Time := none
  deriving DecidableEq, Repr

def Gateway.isActive (g : Gateway) : Bool := g.deleted.isNone

/-- The gateways, the oldest first, and the one in use. -/
structure GatewayList where
  entries : List Gateway := []
  current : Option Addr := none
  deriving DecidableEq, Repr

namespace GatewayList

def get? (t : GatewayList) (orig : Addr) : Option Gateway :=
  t.entries.find? fun g => g.orig = orig

def activeCount (t : GatewayList) : Nat := t.entries.countP Gateway.isActive

def modify (t : GatewayList) (orig : Addr) (f : Gateway → Gateway) : GatewayList :=
  { t with entries := t.entries.map fun g => if g.orig = orig then f g else g }

/-- Marks an entry as deleted, unless it is already. -/
def retire (now : Time) (g : Gateway) : Gateway :=
  if g.isActive then { g with deleted := some now } else g

def update (t : GatewayList) (orig : Addr) (level : UInt8) (now : Time) : GatewayList :=
  if level = 0 then t.modify orig (retire now)
  else if (t.get? orig).isSome then t.modify orig fun g => { g with level, deleted := none }
  else { t with entries := t.entries ++ [{ orig, level }] }

def markDeleted (t : GatewayList) (orig : Addr) (now : Time) : GatewayList :=
  { t.modify orig (retire now) with current := t.current.filter (· ≠ orig) }

/-- Whether an entry was deleted more than three timeouts ago. -/
def isOld (now timeout : Time) (g : Gateway) : Bool :=
  match g.deleted with
  | some since => Clock.overdue since (Clock.times timeout 3) now
  | none => false

def purge (t : GatewayList) (now timeout : Time) : GatewayList :=
  { t with entries := t.entries.filter fun g => ! isOld now timeout g }

def setCurrent (t : GatewayList) (choice : Option Addr) : GatewayList :=
  { t with current := choice }

/-! ### Choice -/

/-- The quality of the route to a node, if it is above zero. -/
def routedQuality? (origins : Origins) (orig : Addr) : Option Nat :=
  ((origins.get? orig).bind Originator.routeQuality?).filter (0 < ·)

/-- How good a gateway with a route quality is: its class counts in routing classes 1 and 2. -/
def score (routingClass : UInt8) (g : Gateway) (quality : Nat) : Nat :=
  if routingClass = 1 ∨ routingClass = 2 then g.level.toNat * quality else quality

/-- The better of the best scored gateway so far and another one; a tie keeps the former. -/
def betterOf (origins : Origins) (routingClass : UInt8) (best : Option (Addr × Nat))
    (g : Gateway) : Option (Addr × Nat) :=
  match routedQuality? origins g.orig with
  | none => best
  | some quality =>
    let found := score routingClass g quality
    match best with
    | none => some (g.orig, found)
    | some (_, top) => if found ≤ top then best else some (g.orig, found)

/-- Whether a node is an active gateway with a route. -/
def isEligible (t : GatewayList) (origins : Origins) (orig : Addr) : Bool :=
  ((t.get? orig).map Gateway.isActive).getD false && (routedQuality? origins orig).isSome

/-- The gateway to use: the preferred one if it is eligible, else the best scored. Routing class
0 uses none. -/
def choose (t : GatewayList) (origins : Origins) (routingClass : UInt8)
    (preferred : Option Addr) : Option Addr :=
  if routingClass = 0 then none
  else
    match preferred.filter (t.isEligible origins) with
    | some orig => some orig
    | none =>
      ((t.entries.filter Gateway.isActive).foldl (betterOf origins routingClass) none).map (·.1)

end GatewayList

end BeaconMesh

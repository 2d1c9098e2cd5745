import BeaconMesh.Originator.Basic

/-!
# Receiving beacons

A beacon is late when it is less than a window behind the newest one, a duplicate when it has
the newest number again, and fresh otherwise. The windows of the originator and of its links
move together, so position 0 is the same number in all of them.
-/

namespace BeaconMesh

/-- What a beacon is to the reception windows. -/
inductive Arrival where
  | late (position : Nat)
  | duplicate
  | fresh
  deriving DecidableEq, Repr

namespace Originator

/-- Whether a number is less than a window behind the newest one of a history. -/
def latePosition? (history : Window) (offset : Int) : Option Nat :=
  if ! history.isEmpty ∧ offset < 0 ∧ (-offset).toNat < Window.size then some (-offset).toNat
  else none

/-- What a beacon with a number is to the windows. -/
def arrival (o : Originator) (seqno : Seqno) : Arrival :=
  match latePosition? o.received (Seqno.ahead seqno o.newest) with
  | some position => .late position
  | none =>
    if ! o.received.isEmpty && o.received.seen o.newest seqno then .duplicate else .fresh

/-- Records a late beacon that came through a hop. -/
def hearLate (o : Originator) (position : Nat) (hop : Hop) (now : Time) : Originator :=
  let o := { o with received := o.received.record position, lastSeen := now }
  (o.ensureLink hop now).modifyLink hop fun l => (l.hearLate position).touch now

/-- Records a beacon that came through a hop and moves every window to its number. -/
def hearNewest (o : Originator) (seqno : Seqno) (hop : Hop) (now : Time) : Originator :=
  let offset := Seqno.ahead seqno o.newest
  let o := { o with received := o.received.mark offset true, newest := seqno, lastSeen := now }
  let o := (o.ensureLink hop now).modifyLink hop fun l => l.touch now
  { o with links := o.links.map fun l => l.hear offset (l.hop = hop) }

/-- Records a beacon with `ttl` hops left that came through a hop. -/
def hear (o : Originator) (seqno : Seqno) (ttl : UInt8) (hop : Hop) (now : Time) : Originator :=
  match o.arrival seqno with
  | .late position => o.hearLate position hop now
  | .duplicate => o.hearNewest seqno hop now
  | .fresh => { o.hearNewest seqno hop now with lastTtl := ttl }

/-! ### Flooded frames -/

def knowsFlood (o : Originator) (seqno : Seqno) : Bool :=
  ! o.flooded.isEmpty && o.flooded.seen o.newestFlood seqno

def hearFlood (o : Originator) (seqno : Seqno) : Originator :=
  let offset := Seqno.ahead seqno o.newestFlood
  match latePosition? o.flooded offset with
  | some position => { o with flooded := o.flooded.record position }
  | none => { o with flooded := o.flooded.mark offset true, newestFlood := seqno }

end Originator

end BeaconMesh

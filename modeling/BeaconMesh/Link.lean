import BeaconMesh.Clock
import BeaconMesh.Iface
import BeaconMesh.Window

/-!
# Links

A `Link` is one way in which the beacons of one originator reach us: through a neighbour, on an
interface. It remembers which beacons came this way and the qualities that the last of them
carried.
-/

namespace BeaconMesh

/-- How the beacons of one originator arrive through one neighbour on one interface. -/
structure Link where
  hop : Hop
  /-- The beacons that came this way. -/
  window : Window := .empty
  /-- How many of the last beacons came this way, as last counted. -/
  received : Nat := 0
  /-- The last qualities, the newest first. -/
  samples : List UInt8 := []
  /-- The hops that the last ranked beacon had left. -/
  lastTtl : UInt8 := 0
  lastSeen : Time
  deriving DecidableEq

namespace Link

def maxSamples : Nat := 5

def total : List UInt8 → Nat
  | [] => 0
  | q :: qs => q.toNat + total qs

/-- The mean of the remembered qualities, rounded down; zero when there are none. -/
def average (l : Link) : Nat := total l.samples / l.samples.length

def recount (l : Link) (window : Window) : Link :=
  { l with window, received := window.count }

/-- Moves the window to a newer beacon, which came this way or not. -/
def hear (l : Link) (offset : Int) (here : Bool) : Link := l.recount (l.window.mark offset here)

def hearLate (l : Link) (position : Nat) : Link := l.recount (l.window.record position)

/-- Remembers a quality; the oldest beyond the limit is forgotten. -/
def addSample (l : Link) (quality : UInt8) : Link :=
  { l with samples := (quality :: l.samples).take maxSamples }

def touch (l : Link) (now : Time) : Link := { l with lastSeen := now }

/-- Whether nothing came this way for twice the timeout. -/
def isStale (l : Link) (now timeout : Time) : Bool :=
  Clock.overdue l.lastSeen (Clock.times timeout 2) now

theorem samples_addSample (l : Link) (quality : UInt8) :
    (l.addSample quality).samples = (quality :: l.samples).take maxSamples := rfl

theorem length_addSample_le (l : Link) (quality : UInt8) :
    (l.addSample quality).samples.length ≤ maxSamples := by
  rw [samples_addSample, List.length_take]
  exact Nat.min_le_left _ _

end Link

end BeaconMesh

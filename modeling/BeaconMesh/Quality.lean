import BeaconMesh.Config.Basic
import BeaconMesh.Fault
import BeaconMesh.Window

/-!
# Link quality

A link is judged by how many of the last beacons came over it, and by how many of ours the
neighbour echoed. `Estimator.estimate` turns the two counts, and the quality a beacon carries,
into the quality of the path over the link.
-/

namespace BeaconMesh

/-- The scale and the thresholds of link quality. -/
structure Estimator where
  /-- The quality of a perfect path. -/
  max : Nat
  /-- The echoes a link needs before it has a quality. -/
  minEchoes : Nat
  /-- The receptions a link needs before it has a quality. -/
  minReceived : Nat
  /-- The path quality from which on a link counts as usable in both directions. -/
  limit : Nat
  deriving DecidableEq, Repr

/-- What is known of a link after a beacon came over it. -/
structure Estimate where
  /-- The share of our beacons that the neighbour hears. -/
  link : Nat
  /-- The factor for beacons that we miss; the maximum takes nothing off. -/
  symmetry : Nat
  /-- The quality of the path over the link. -/
  quality : Nat
  /-- Whether the link is usable in both directions. -/
  twoWay : Bool
  deriving DecidableEq, Repr

namespace Estimator

def ofConfig (c : Config) : Estimator where
  max := c.maxQuality.toNat
  minEchoes := c.minEchoes.toNat
  minReceived := c.minReceived.toNat
  limit := c.twoWayLimit.toNat

/-- The share of our beacons that a neighbour hears: echoes among receptions. Below a threshold
it is zero, whatever the counts are. -/
def linkQuality (e : Estimator) (echoes received : Nat) : Except Fault Nat :=
  if echoes < e.minEchoes ∨ received < e.minReceived then .ok 0
  else Fault.quotient (e.max * echoes) received

def cube (n : Nat) : Nat := n * n * n

/-- The factor for missed beacons: the missed share of a window, cubed, is taken off. -/
def symmetry (e : Estimator) (received : Nat) : Nat :=
  e.max - e.max * cube (Window.size - received) / cube Window.size

/-- Judges a link from the quality that a beacon carries, from the echoes of our beacons, and from
the receptions of the neighbour's. -/
def estimate (e : Estimator) (carried echoes received : Nat) : Except Fault Estimate := do
  let heard := min received Window.size
  let link ← e.linkQuality (min echoes heard) heard
  let symmetry := e.symmetry heard
  let product ← Fault.quotient (min carried e.max * link * symmetry) (e.max * e.max)
  let quality := min product e.max
  return { link, symmetry, quality, twoWay := e.limit ≤ quality }

end Estimator

end BeaconMesh

import BeaconMesh.Clock
import BeaconMesh.Config.Basic
import BeaconMesh.Fault
import BeaconMesh.Iface
import BeaconMesh.Jitter

/-!
# Beacons to send

A queue of beacons in order of their due times: our own, sent once a period, and relays, due at
once. Tasks of equal due times leave in the order in which they came. `Task.targets` says on
which interfaces a task is sent, and with which flags.
-/

namespace BeaconMesh

/-- A beacon to send. -/
structure Task where
  due : Time
  /-- Whether the beacon is our own. -/
  own : Bool
  beacon : Beacon
  /-- The interface that the task belongs to. -/
  out : Option IfaceId
  /-- Whether the task is the echo to a direct neighbour. -/
  direct : Bool := false
  /-- Whether that neighbour is not known to hear us. -/
  oneWay : Bool := false
  deriving DecidableEq, Repr

namespace Task

/-- The flags of a task on an interface when it is sent on all of them. -/
def flagsOn (t : Task) (iface : IfaceId) : UInt8 :=
  if t.direct && t.out = some iface then Beacon.directFlag else 0

/-- The interfaces that a task is sent on, with the flags for each. An echo over a one-way link, and
one on its last hop, stay on the interface of the task. -/
def targets (t : Task) (ifaces : List Iface) : List (IfaceId × UInt8) :=
  if t.oneWay then
    t.out.toList.map fun iface => (iface, Beacon.oneWayFlag ||| Beacon.directFlag)
  else if t.direct && t.beacon.ttl = 1 then
    t.out.toList.map fun iface => (iface, Beacon.directFlag)
  else if t.direct && t.out.isNone then []
  else ifaces.map fun i => (i.id, t.flagsOn i.id)

def ownIface? (t : Task) : Option IfaceId := if t.own then t.out else none

end Task

/-- The part of a configuration that decides when and how beacons leave. -/
structure Pacing where
  interval : Time
  jitter : Time
  maxQuality : Nat
  hopPenalty : Nat
  deriving DecidableEq, Repr

def Pacing.ofConfig (c : Config) : Pacing where
  interval := c.interval.toNat
  jitter := c.jitter.toNat
  maxQuality := c.maxQuality.toNat
  hopPenalty := c.hopPenalty.toNat

/-- A relay that the reception of a beacon asks for. -/
structure Relay where
  /-- The beacon as it came, its quality already that of the path to here. -/
  beacon : Beacon
  sender : Addr
  iface : IfaceId
  /-- Quality and remaining hops of the route, when it leads elsewhere. -/
  substitute : Option (UInt8 × UInt8) := none
  direct : Bool := false
  oneWay : Bool := false
  deriving DecidableEq, Repr

namespace Relay

def penalized (p : Pacing) (quality : UInt8) : Except Fault UInt8 := do
  let kept ← Fault.difference p.maxQuality p.hopPenalty
  let product ← Fault.quotient (quality.toNat * kept) p.maxQuality
  return UInt8.ofNat product

/-- Quality and remaining hops that the relayed beacon starts from. -/
def source (r : Relay) : UInt8 × UInt8 := r.substitute.getD (r.beacon.quality, r.beacon.ttl)

/-- The task of a relay; none when the beacon, or the route in its place, has no hops left. -/
def task? (r : Relay) (p : Pacing) (now : Time) : Except Fault (Option Task) :=
  if r.beacon.ttl ≤ 1 ∨ r.source.2 ≤ 1 then .ok none
  else do
    let quality ← penalized p r.source.1
    let beacon := { r.beacon with ttl := r.source.2 - 1, prev := r.sender, quality, flags := 0 }
    return some { due := now, own := false, beacon, out := some r.iface, direct := r.direct,
                  oneWay := r.oneWay }

end Relay

/-- The beacons to send, in order of their due times. -/
structure Scheduler where
  tasks : List Task := []
  jitter : Jitter

namespace Scheduler

def size (s : Scheduler) : Nat := s.tasks.length

/-- Inserts a task behind all that are due no later. -/
def insertTask (t : Task) : List Task → List Task
  | [] => [t]
  | u :: rest => if u.due ≤ t.due then u :: insertTask t rest else t :: u :: rest

def enqueue (s : Scheduler) (t : Task) : Scheduler := { s with tasks := insertTask t s.tasks }

/-- When the next own beacon is due: a period from now, give or take the jitter. -/
def ownDue (s : Scheduler) (p : Pacing) (now : Time) : Except Fault Time := do
  let early ← Fault.difference p.interval p.jitter
  return Clock.later (Clock.later now early) (s.jitter.offset (Clock.times p.jitter 2))

def drawn (s : Scheduler) : Scheduler := { s with jitter := s.jitter.advance }

/-- Queues an own beacon for an interface, a period from now. -/
def enqueueOwn (s : Scheduler) (p : Pacing) (beacon : Beacon) (iface : IfaceId) (now : Time) :
    Except Fault Scheduler := do
  let due ← s.ownDue p now
  return s.drawn.enqueue { due, own := true, beacon, out := some iface }

def enqueueRelay (s : Scheduler) (p : Pacing) (r : Relay) (now : Time) :
    Except Fault (Scheduler × Bool) := do
  match ← r.task? p now with
  | some t => return (s.enqueue t, true)
  | none => return (s, false)

def pop? (s : Scheduler) (now : Time) : Option (Task × Scheduler) :=
  match s.tasks with
  | [] => none
  | t :: rest => if t.due ≤ now then some (t, { s with tasks := rest }) else none

def nextDue? (s : Scheduler) : Option Time := s.tasks.head?.map Task.due

def clear (s : Scheduler) : Scheduler := { s with tasks := [] }

/-! ### Order -/

/-- Whether tasks stand in the order of their due times. -/
def Ordered (ts : List Task) : Prop := ts.Pairwise fun t u => t.due ≤ u.due

theorem insertTask_perm (t : Task) (ts : List Task) : (insertTask t ts).Perm (t :: ts) := by
  induction ts with
  | nil => exact .refl _
  | cons u rest ih =>
    unfold insertTask
    split
    · exact (ih.cons u).trans (.swap t u rest)
    · exact .refl _

theorem mem_insertTask {t u : Task} {ts : List Task} :
    u ∈ insertTask t ts ↔ u = t ∨ u ∈ ts := by
  rw [(insertTask_perm t ts).mem_iff, List.mem_cons]

theorem ordered_insertTask (t : Task) {ts : List Task} (h : Ordered ts) :
    Ordered (insertTask t ts) := by
  induction ts with
  | nil => exact List.pairwise_singleton _ t
  | cons u rest ih =>
    obtain ⟨first, others⟩ := List.pairwise_cons.mp h
    unfold insertTask
    split
    · rename_i le
      refine List.pairwise_cons.mpr ⟨fun v hv => ?_, ih others⟩
      rcases mem_insertTask.mp hv with rfl | hv
      · exact le
      · exact first v hv
    · rename_i lt
      refine List.pairwise_cons.mpr ⟨fun v hv => ?_, h⟩
      rcases List.mem_cons.mp hv with rfl | hv
      · exact Nat.le_of_not_le lt
      · exact Nat.le_trans (Nat.le_of_not_le lt) (first v hv)

theorem tasks_of_pop? {s s' : Scheduler} {now : Time} {t : Task}
    (h : s.pop? now = some (t, s')) : s.tasks = t :: s'.tasks ∧ t.due ≤ now := by
  unfold pop? at h
  split at h
  · cases h
  · rename_i u rest eq
    split at h
    · rename_i due
      cases h
      exact ⟨eq, due⟩
    · cases h

end Scheduler

end BeaconMesh

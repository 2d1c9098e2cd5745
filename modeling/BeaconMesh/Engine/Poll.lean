import BeaconMesh.Engine.Sweep

/-!
# Due work

`Engine.start` queues the first beacon of every interface, and `Engine.poll` does what is due:
it sends beacons, each own one followed by its successor, and sweeps.
-/

namespace BeaconMesh.Engine

def ownBeacon (c : Config) (here : Iface) (seqno : Seqno) : Beacon :=
  { ttl := c.ttl, gatewayClass := c.gatewayClass, quality := c.maxQuality, seqno,
    orig := here.addr }

def scheduleOwn (e : Engine) (iface : IfaceId) (now : Time) : Except Fault Engine :=
  match e.setup.ifaces[iface]?, e.counters[iface]? with
  | some here, some counter => do
    let beacon := ownBeacon e.setup.config here counter.next
    let scheduler ← e.scheduler.enqueueOwn e.setup.pacing beacon iface now
    return { e with
      scheduler
      counters := e.counters.set iface { counter with next := counter.next + 1 } }
  | _, _ => .ok e

/-- Queues the first beacon of every interface and sets the time of the first sweep. -/
def start (e : Engine) (now : Time) : Except Fault Engine := do
  let e ← (List.range e.setup.ifaces.length).foldlM (fun e iface => e.scheduleOwn iface now) e
  return { e with nextSweep := some (Clock.later now e.setup.config.sweepInterval.toNat) }

/-! ### Sending -/

/-- Sends a beacon to all neighbours on each target. -/
def send (e : Engine) (b : Beacon) (targets : List (IfaceId × UInt8)) : Engine :=
  e.emit (targets.filterMap fun target =>
    match Wire.encodeBeacon { b with flags := target.2 } with
    | .ok payload => some (.transmit target.1 .broadcast payload)
    | .error _ => none)

/-- Notes that a beacon of ours leaves: it carries the hosts that we announce, it is the last
one of its interface, and every echo window of the interface moves. -/
def departOwn (e : Engine) (b : Beacon) (iface : IfaceId) : Engine × Beacon :=
  let hosts := e.hosts.refresh
  ({ e with
      hosts
      counters := e.counters.modify iface fun c => { c with lastSent := some b.seqno }
      origins := e.origins.map fun o => o.ageEchoes iface },
    { b with hosts := Wire.hostsOf hosts.buffer })

/-- Sends a task; an own beacon is followed by the next one in the queue. -/
def perform (e : Engine) (t : Task) (now : Time) : Except Fault Engine :=
  let targets := t.targets e.setup.ifaces
  match t.ownIface? with
  | some iface =>
    let (e, b) := e.departOwn t.beacon iface
    (e.send b targets).scheduleOwn iface now
  | none => .ok (e.send t.beacon targets)

/-! ### Draining the queue -/

/-- Performs due tasks, at most `limit`, and counts them. -/
def drain (e : Engine) (now : Time) : Nat → Except Fault (Engine × Nat)
  | 0 => .ok (e, 0)
  | limit + 1 =>
    match e.scheduler.pop? now with
    | some (t, scheduler) => do
      let e ← { e with scheduler }.perform t now
      let (e, count) ← e.drain now limit
      return (e, count + 1)
    | none => .ok (e, 0)

/-- Performs the due tasks and counts them. Successors are due later, so there are no more than
were queued; when the clock has reached its end there is no later, and no end. -/
def performDue (e : Engine) (now : Time) : Except Fault (Engine × Nat) := do
  let (e, count) ← e.drain now e.scheduler.size
  if (e.scheduler.pop? now).isSome then .error .endless else return (e, count)

def sweepDue (e : Engine) (now : Time) : Bool :=
  match e.nextSweep with
  | some due => due ≤ now
  | none => false

/-- Performs the due tasks, then the sweep if it is due, and counts the tasks. -/
def poll (e : Engine) (now : Time) : Except Fault (Engine × Nat) := do
  let (e, count) ← e.performDue now
  return (if e.sweepDue now then e.sweep now else e, count)

end BeaconMesh.Engine

import BeaconMesh.Engine.Call

/-!
# A running node

A `Node` drives an engine along a clock: it takes commands in the order in which they come,
wakes at every deadline of the engine, and after each hands the engine's work to its
surroundings. A failed handover is noted and forgotten; a fault of the engine ends the node. Time
passes only between these steps.
-/

namespace BeaconMesh

/-- What others ask of a running node. -/
inductive Command where
  | packet (payload : Bytes) (sender : Addr) (iface : IfaceId)
  | frame (bytes : Bytes)
  | summary
  | shutdown
  deriving DecidableEq, Repr

/-- What a command is answered. -/
inductive CommandReply where
  | accepted
  | summary (sizes : Summary)
  | stopped
  deriving DecidableEq, Repr

/-- The wording for a command to a node that is not running. -/
def stoppedMessage : String := "Mesh node is not running"

/-- Work handed to the surroundings, and whether they could do it. -/
structure Handover where
  time : Time
  action : Action
  done : Bool
  deriving DecidableEq, Repr

/-- How a node stands. -/
inductive Status where
  | running
  /-- It was ended, with these sizes of its tables. -/
  | ended (sizes : Summary)
  | failed (cause : Fault)
  deriving DecidableEq, Repr

/-- A node on its clock. -/
structure Node where
  engine : Engine
  /-- The routes as others see them. -/
  routes : RouteTable := .empty
  time : Time := 0
  /-- Whether the surroundings can do the work of each handover. -/
  works : Nat → Bool
  /-- The work that was handed over, the oldest first. -/
  handovers : List Handover := []
  status : Status := .running

namespace Node

def isRunning (n : Node) : Bool := n.status = .running

/-- The sizes of the tables at the end, if the node was ended. -/
def finalSizes? (n : Node) : Option Summary :=
  match n.status with
  | .ended sizes => some sizes
  | _ => none

def handoversFrom (n : Node) (first : Nat) (actions : List Action) : List Handover :=
  actions.mapIdx fun i action => { time := n.time, action, done := n.works (first + i) }

/-- Publishes the route changes and hands over the work of the engine. -/
def settle (n : Node) : Node :=
  { n with
    engine := { n.engine with outbox := [], notices := [] }
    routes := n.routes.followAll n.engine.notices
    handovers := n.handovers ++ n.handoversFrom n.handovers.length n.engine.outbox }

/-- A node whose engine had no result. Nothing is handed over any more. -/
def fail (n : Node) (cause : Fault) : Node := { n with status := .failed cause }

def spawn (setup : Setup) (jitter : Jitter) (works : Nat → Bool) : Node :=
  let n : Node := { engine := .new setup jitter, works }
  match n.engine.start 0 with
  | .ok engine => { n with engine }
  | .error cause => n.fail cause

def wake (n : Node) : Node :=
  match n.engine.poll n.time with
  | .ok (engine, _) => { n with engine }.settle
  | .error cause => n.fail cause

def finish (n : Node) : Node :=
  let n := { n with engine := n.engine.shutdown n.time }.settle
  { n with status := .ended n.engine.summary }

def nextWake? (n : Node) : Option Time := if n.isRunning then n.engine.nextDeadline? else none

/-- Wakes at every deadline up to `horizon`, at most `limit` times. -/
def wakeUntil (n : Node) (horizon : Time) : Nat → Node
  | 0 => n
  | limit + 1 =>
    match n.nextWake? with
    | some due =>
      if due ≤ horizon then { n with time := max n.time due }.wake.wakeUntil horizon limit else n
    | none => n

/-- Lets time pass until a reading of the clock. A deadline is left behind each time, so there
are no more of them than readings. -/
def advance (n : Node) (horizon : Time) : Node :=
  let n := n.wakeUntil horizon (horizon + 1 - n.time)
  { n with time := max n.time horizon }

/-- Processes a command of a running node. What goes wrong in the engine is not the sender's to
know: the command was accepted. -/
def process (n : Node) : Command → Node × CommandReply
  | .packet payload sender iface =>
    match n.engine.receive payload sender iface n.time with
    | .ok (engine, _) => ({ n with engine }.wake, .accepted)
    | .error cause => (n.fail cause, .accepted)
  | .frame bytes => ({ n with engine := (n.engine.receiveFrame bytes n.time).1 }.wake, .accepted)
  | .summary => (n.wake, .summary n.engine.summary)
  | .shutdown => (n.finish, .accepted)

/-- Takes a command; one to a node that is not running is refused. -/
def take (n : Node) (c : Command) : Node × CommandReply :=
  if n.isRunning then n.process c else (n, .stopped)

def close (n : Node) : Node := if n.isRunning then n.finish else n

def serve (n : Node) : List (Time × Command) → Node
  | [] => n
  | (arrival, c) :: rest => ((n.advance arrival).take c).1.serve rest

end Node

end BeaconMesh

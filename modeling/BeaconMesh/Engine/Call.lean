import BeaconMesh.Engine.Frames
import BeaconMesh.Engine.Poll

/-!
# Runs

A `Call` is anything that can happen to a node, and a run is a sequence of calls. The states of
a node are those that `Engine.run` reaches.
-/

namespace BeaconMesh

/-- Something that happens to a node. -/
inductive Call where
  | start (now : Time)
  | packet (payload : Bytes) (sender : Addr) (iface : IfaceId) (now : Time)
  | beacon (b : Beacon) (sender : Addr) (iface : IfaceId) (now : Time)
  | frame (bytes : Bytes) (now : Time)
  | poll (now : Time)
  | sweep (now : Time)
  | shutdown (now : Time)
  deriving DecidableEq, Repr

/-- What a call answers. -/
inductive Reply where
  | done
  | packet (outcome : PacketOutcome)
  | frame (outcome : FrameOutcome)
  | performed (tasks : Nat)
  deriving DecidableEq, Repr

namespace Engine

def step (e : Engine) : Call → Except Fault (Engine × Reply)
  | .start now => return (← e.start now, .done)
  | .packet payload sender iface now => do
    let (e, outcome) ← e.receive payload sender iface now
    return (e, .packet outcome)
  | .beacon b sender iface now => do
    let (e, outcome) ← e.receiveBeacon b sender iface now
    return (e, .packet outcome)
  | .frame bytes now =>
    let (e, outcome) := e.receiveFrame bytes now
    .ok (e, .frame outcome)
  | .poll now => do
    let (e, tasks) ← e.poll now
    return (e, .performed tasks)
  | .sweep now => .ok (e.sweep now, .done)
  | .shutdown now => .ok (e.shutdown now, .done)

def run (e : Engine) : List Call → Except Fault Engine
  | [] => .ok e
  | c :: cs => do
    let (e, _) ← e.step c
    e.run cs

theorem run_append (e : Engine) (cs ds : List Call) :
    e.run (cs ++ ds) = e.run cs >>= fun e => e.run ds := by
  induction cs generalizing e with
  | nil => rfl
  | cons c cs ih =>
    simp only [List.cons_append, run, bind, Except.bind]
    cases e.step c with
    | error _ => rfl
    | ok r => exact ih r.1

end Engine

end BeaconMesh

import BeaconMesh.Node
import BeaconMesh.Proofs.Engine.Earlier
import BeaconMesh.Proofs.Faults.Runs
import BeaconMesh.Proofs.Nodes.Beats
import BeaconMesh.Proofs.Sending.Announcements
import Mathlib.Data.List.Flatten

/-!
# The turns of a node

While a node runs, it takes one message after the other and wakes at every deadline; each of these is
a turn. `Node.Follows` ties a node to a run of its engine: the engine is where the run ended, but for
the work that was handed over, and that work is what the calls of the run sent, in their order and at
their times. A turn that is not late extends the run by its calls, and leaves nothing that is due
(`OnTime.wake`, `OnTime.obey`); the last turn ends the node (`OnTime.finish`).
-/

namespace BeaconMesh

open Engine (Timely)

/-! ### Turns -/

/-- What a node finds in its channel: a command, or that nobody is left who could send one. -/
inductive Message where
  | command (c : Command)
  | hangup
  deriving DecidableEq, Repr

namespace Message

/-- Whether a node ends when it takes a message. -/
def ends : Message → Bool
  | .command .shutdown | .hangup => true
  | .command _ => false

/-- The calls that a message has a node make. -/
def calls (now : Time) : Message → List Call
  | .command (.packet payload sender iface) => [.packet payload sender iface now, .poll now]
  | .command (.frame bytes) => [.frame bytes now, .poll now]
  | .command .summary => [.poll now]
  | .command .shutdown | .hangup => [.shutdown now]

end Message

/-- What a node did at a time: it took a message, or woke by itself. -/
structure Turn where
  time : Time
  message : Option Message
  deriving DecidableEq, Repr

namespace Turn

def ends (x : Turn) : Bool := x.message.any Message.ends

def calls (x : Turn) : List Call :=
  match x.message with
  | some m => m.calls x.time
  | none => [.poll x.time]

end Turn

/-- What the calls of a history sent, in their order, each with its time. -/
def timedWork (past : List Event) : List (Time × Action) :=
  past.reverse.flatMap fun x => x.sent.map (x.call.time, ·)

theorem timedWork_cons (x : Event) (past : List Event) :
    timedWork (x :: past) = timedWork past ++ x.sent.map (x.call.time, ·) := by
  simp [timedWork]

def Sending.timed (y : Sending) : List (Time × Action) := y.sent.map (y.time, ·)

/-- What sent beacons of ours for an interface is found in order in what was sent. -/
theorem Engine.History.timed_sentFor {s : Setup} {jitter : Jitter} {past : List Event} {e : Engine}
    (h : Engine.History (.new s jitter) past e) (iface : IfaceId) :
    ((sentFor iface (allSendings past)).flatMap Sending.timed).Sublist (timedWork past) := by
  have chosen : (sentFor iface (allSendings past)).Sublist (allSendings past) :=
    List.filter_sublist
  refine (chosen.flatMap _).trans ?_
  unfold allSendings timedWork
  rw [List.flatMap_assoc]
  refine List.Sublist.flatMap_right _ fun x mem => ?_
  obtain ⟨earlier, -, made⟩ := h.cut_of_mem (List.mem_reverse.mp mem)
  have time : ∀ y ∈ x.sendings, y.time = x.call.time := by
    intro y mem
    unfold Event.sendings at mem
    split at mem
    · rename_i now call
      obtain ⟨k, found⟩ := List.getElem?_of_mem mem
      obtain ⟨_, _, _, -, -, -, same⟩ := Engine.sendings_getElem? found
      rw [call]
      exact congrArg Sending.time same
    · cases mem
  rcases (Engine.step_sent made).2 with sent | ⟨quiet, -⟩
  · rw [sent, List.map_flatMap]
    refine List.Sublist.flatMap_right _ fun y mem => ?_
    have same : y.timed = y.sent.map (x.call.time, ·) := by
      unfold Sending.timed
      rw [time y mem]
    exact same ▸ List.Sublist.refl _
  · rw [quiet]
    exact List.nil_sublist _

def Handover.timed (h : Handover) : Time × Action := (h.time, h.action)

/-- A node without jitter that starts at a time, what its surroundings can do, and what comes into
its channel and when. -/
structure Scenario where
  setup : Setup
  jitter : Jitter
  works : Nat → Bool
  start : Time
  schedule : List (Time × Message)
  steady : setup.config.jitter = 0
  sorted : (start :: schedule.map Prod.fst).Pairwise (· ≤ ·)

namespace Node

/-- Takes a message from the channel. -/
def obey (n : Node) : Message → Node
  | .command c => (n.take c).1
  | .hangup => n.close

/-- A node that starts when the clock shows a time. -/
def spawnAt (setup : Setup) (jitter : Jitter) (works : Nat → Bool) (now : Time) : Node :=
  let n : Node := { engine := .new setup jitter, time := now, works }
  match n.engine.start now with
  | .ok engine => { n with engine }
  | .error cause => n.fail cause

theorem spawnAt_zero (setup : Setup) (jitter : Jitter) (works : Nat → Bool) :
    spawnAt setup jitter works 0 = spawn setup jitter works := rfl

theorem spawnAt_time (setup : Setup) (jitter : Jitter) (works : Nat → Bool) (now : Time) :
    (spawnAt setup jitter works now).time = now := by
  unfold spawnAt
  dsimp only
  split <;> rfl

theorem wake_time (n : Node) : n.wake.time = n.time := by
  unfold wake
  split <;> rfl

theorem obey_time (n : Node) (m : Message) : (n.obey m).time = n.time := by
  cases m with
  | hangup =>
    unfold obey close
    dsimp only
    split <;> rfl
  | command c =>
    unfold obey take
    dsimp only
    split
    · cases c with
      | packet payload sender iface =>
        unfold process
        dsimp only
        split
        · exact wake_time _
        · rfl
      | frame bytes => exact wake_time _
      | summary => exact wake_time n
      | shutdown => rfl
    · rfl

theorem obey_of_ends (n : Node) (running : n.status = .running) {m : Message}
    (ends : m.ends = true) : n.obey m = n.finish := by
  have up : n.isRunning = true := decide_eq_true running
  cases m with
  | hangup =>
    unfold obey close
    exact if_pos up
  | command c =>
    cases c with
    | shutdown =>
      unfold obey take
      dsimp only
      rw [if_pos up]
      rfl
    | _ => cases ends

theorem running_of_nextWake? {n : Node} {due : Time} (deadline : n.nextWake? = some due) :
    n.status = .running := by
  unfold nextWake? at deadline
  split at deadline
  · rename_i running
    exact of_decide_eq_true running
  · cases deadline

/-! ### A node and the run of its engine -/

variable {p : Scenario} {n : Node} {past : List Event} {e e' : Engine}

/-- Whether a node is where a run of its engine ended, but for the work that was handed over. -/
structure Follows (p : Scenario) (n : Node) (past : List Event) (e : Engine) : Prop where
  history : Engine.History (.new p.setup p.jitter) past e
  engine : ∃ told, n.engine.onto (n.handovers.map Handover.action) told = e ∧
    n.routes = RouteTable.followAll .empty told
  work : n.handovers.map Handover.timed ++ n.engine.outbox.map (n.time, ·) = timedWork past
  done : ∀ (i : Nat) (h : Handover), n.handovers[i]? = some h → h.done = p.works i
  works : n.works = p.works

theorem Follows.call (h : n.Follows p past e) {c : Call} {r : Reply} (now : c.time = n.time)
    (made : e.step c = .ok (e', r)) : ∃ d, n.engine.step c = .ok (d, r) ∧
      { n with engine := d }.Follows p (⟨e, c, r, e'⟩ :: past) e' := by
  have history := h.history.call made
  have sent := (Engine.step_sent (x := ⟨e, c, r, e'⟩) made).1
  obtain ⟨told, same, published⟩ := h.engine
  have image := made
  rw [← same, Engine.step_onto] at image
  cases stepped : n.engine.step c with
  | error cause =>
    rw [stepped] at image
    cases image
  | ok x =>
    obtain ⟨d, answer⟩ := x
    rw [stepped] at image
    obtain ⟨after, answered⟩ := Prod.mk.inj (Except.ok.inj image)
    have answered : r = answer := answered.symm
    subst answered
    have grown : d.outbox = n.engine.outbox ++ Event.sent ⟨e, c, r, e'⟩ := by
      have whole : n.handovers.map Handover.action ++ d.outbox =
          n.handovers.map Handover.action ++ n.engine.outbox ++ Event.sent ⟨e, c, r, e'⟩ := by
        rw [← after, ← same] at sent
        rw [← after, ← same]
        exact sent
      rw [List.append_assoc] at whole
      exact List.append_cancel_left whole
    refine ⟨d, rfl, history, ⟨told, after, published⟩, ?_, h.done, h.works⟩
    dsimp only
    rw [timedWork_cons, ← h.work, grown, List.map_append, now, List.append_assoc]

theorem map_handoversFrom {α : Type} {f : Handover → α} {g : Action → α} (n : Node) (first : Nat)
    (actions : List Action) (same : ∀ action done, f ⟨n.time, action, done⟩ = g action) :
    (n.handoversFrom first actions).map f = actions.map g := by
  apply List.ext_getElem?
  intro i
  rw [handoversFrom, List.getElem?_map, List.getElem?_mapIdx, List.getElem?_map, Option.map_map]
  exact congrArg (Option.map · actions[i]?) (funext fun action => same action _)

theorem Follows.settle (h : n.Follows p past e) : n.settle.Follows p past e := by
  obtain ⟨told, same, published⟩ := h.engine
  refine ⟨h.history, ⟨told ++ n.engine.notices, ?_, ?_⟩, ?_, ?_, h.works⟩
  · have actions : n.settle.handovers.map Handover.action =
        n.handovers.map Handover.action ++ n.engine.outbox := by
      unfold Node.settle
      rw [List.map_append, map_handoversFrom (g := id) n _ _ fun _ _ => rfl, List.map_id]
    rw [actions, ← same]
    unfold Node.settle Engine.onto
    simp only [List.append_nil]
  · show n.routes.followAll n.engine.notices = _
    unfold RouteTable.followAll at published ⊢
    rw [List.foldl_append, ← published]
  · rw [← h.work]
    unfold Node.settle
    rw [List.map_append, map_handoversFrom (g := (n.time, ·)) n _ _ fun _ _ => rfl]
    exact List.append_nil _
  · intro i x found
    unfold Node.settle at found
    rw [List.getElem?_append] at found
    split at found
    · exact h.done i x found
    · rw [handoversFrom, List.getElem?_mapIdx] at found
      obtain ⟨action, -, rfl⟩ := Option.map_eq_some_iff.mp found
      show n.works (n.handovers.length + (i - n.handovers.length)) = p.works i
      rw [h.works]
      congr 1
      omega

theorem Follows.drained (h : n.Follows p past e) (taken : n.engine.drained = n.engine) :
    n.engine = e.drained := by
  obtain ⟨told, rfl, -⟩ := h.engine
  exact taken.symm

/-! ### Turns in time -/

/-- Whether a node runs, and is not late with anything. -/
structure OnTime (p : Scenario) (n : Node) (past : List Event) (e : Engine) : Prop where
  follows : n.Follows p past e
  running : n.status = .running
  timely : Timely p.setup p.start past e
  waits : e.Awaits n.time

/-- With a threshold, a node that is not late does all that comes before the end of the clock. -/
theorem OnTime.answers (h : n.OnTime p past e) (threshold : ¬ p.setup.config.NoThreshold) {c : Call}
    (early : c.time < Clock.last) : ∃ e' r, e.step c = .ok (e', r) := by
  have history := h.follows.history
  cases stepped : e.step c with
  | ok x => exact ⟨x.1, x.2, rfl⟩
  | error cause =>
    cases Engine.step_fails (Engine.run_keyed (Engine.run_of_history history)) stepped with
    | beacon _ unjudged => exact absurd (history.setup ▸ unjudged.noThreshold) threshold
    | poll ended => exact absurd early (Nat.not_lt.mpr ended)

theorem OnTime.call (h : n.OnTime p past e) (threshold : ¬ p.setup.config.NoThreshold) {c : Call}
    (now : c.time = n.time) (early : n.time < Clock.last) (routine : c.isRoutine = true) :
    ∃ d r x e', n.engine.step c = .ok (d, r) ∧ x.call = c ∧
      { n with engine := d }.OnTime p (x :: past) e' := by
  rw [← now] at early
  obtain ⟨e', r, made⟩ := h.answers threshold early
  obtain ⟨d, stepped, follows⟩ := h.follows.call now made
  obtain ⟨timely, waits⟩ := h.timely.step p.steady routine early (now ▸ h.waits) made
  exact ⟨d, r, _, e', stepped, rfl, follows, h.running, timely, now ▸ waits⟩

/-- What a turn leaves of a node that goes on: it is not late, all of its work is handed over, and
nothing is due any more. -/
structure Rests (p : Scenario) (n : Node) (past : List Event) (e : Engine) : Prop
    extends n.OnTime p past e where
  settled : n.engine = e.drained
  idle : e.Awaits (n.time + 1)

theorem nextWake?_eq (running : n.status = .running) (settled : n.engine = e.drained) :
    n.nextWake? = e.nextDeadline? := by
  unfold nextWake? isRunning
  rw [running, settled]
  rfl

theorem Rests.lt_of_nextWake? (h : n.Rests p past e) {due : Time}
    (deadline : n.nextWake? = some due) : n.time < due := by
  rw [nextWake?_eq h.running h.settled] at deadline
  exact (Engine.awaits_iff h.timely.own.ordered).mp h.idle due deadline

theorem OnTime.wake (h : n.OnTime p past e) (early : n.time < Clock.last) :
    ∃ x e', x.call = .poll n.time ∧ n.wake.Rests p (x :: past) e' ∧ n.wake.time = n.time := by
  obtain ⟨e', count, polled⟩ := e.poll_ok early
  have made : e.step (.poll n.time) = .ok (e', .performed count) := by
    unfold Engine.step
    dsimp only
    rw [polled]
    rfl
  obtain ⟨d, stepped, follows⟩ := h.follows.call rfl made
  obtain ⟨timely, waits⟩ := h.timely.poll p.steady early h.waits made
  have wakes : n.wake = { n with engine := d }.settle := by
    obtain ⟨⟨woken, tasks⟩, work, answer⟩ := Fault.bind_ok stepped
    cases Fault.pure_ok answer
    unfold Node.wake
    rw [work]
  rw [wakes]
  refine ⟨_, e', rfl, ⟨⟨follows.settle, h.running, timely, waits.mono (Nat.le_succ _)⟩, ?_, waits⟩,
    rfl⟩
  exact follows.settle.drained rfl

theorem OnTime.obey (h : n.OnTime p past e) (threshold : ¬ p.setup.config.NoThreshold)
    (early : n.time < Clock.last) {m : Message} (goesOn : m.ends = false) :
    ∃ later e', later.reverse.map Event.call = m.calls n.time ∧
      (n.obey m).Rests p (later ++ past) e' ∧ (n.obey m).time = n.time := by
  cases m with
  | hangup => cases goesOn
  | command c =>
    have taken : n.obey (.command c) = (n.process c).1 := by
      unfold Node.obey take isRunning
      dsimp only
      rw [h.running]
      rfl
    rw [taken]
    -- What comes in is received first, and then the node polls as it does when it wakes.
    have polls : ∀ {d : Engine} {x : Event} {next : Engine},
        { n with engine := d }.OnTime p (x :: past) next →
        (n.process c).1 = { n with engine := d }.wake →
        (Message.command c).calls n.time = [x.call, .poll n.time] → ∃ later e',
          later.reverse.map Event.call = (Message.command c).calls n.time ∧
            (n.process c).1.Rests p (later ++ past) e' ∧ (n.process c).1.time = n.time := by
      intro d x next received processed calls
      obtain ⟨y, e', polled, rests, time⟩ := received.wake early
      rw [processed, calls, ← polled]
      exact ⟨[y, x], e', rfl, rests, time⟩
    cases c with
    | packet payload sender iface =>
      obtain ⟨d, r, x, next, stepped, made, received⟩ :=
        h.call threshold (c := .packet payload sender iface n.time) rfl early rfl
      obtain ⟨⟨engine, outcome⟩, work, answer⟩ := Fault.bind_ok stepped
      cases Fault.pure_ok answer
      refine polls received ?_ (made ▸ rfl)
      unfold process
      dsimp only
      rw [work]
    | frame bytes =>
      obtain ⟨d, r, x, next, stepped, made, received⟩ :=
        h.call threshold (c := .frame bytes n.time) rfl early rfl
      cases stepped
      exact polls received rfl (made ▸ rfl)
    | summary =>
      obtain ⟨y, e', polled, rests, time⟩ := h.wake early
      exact ⟨[y], e', congrArg (fun c => [c]) polled, rests, time⟩
    | shutdown => cases goesOn

theorem OnTime.finish (h : n.OnTime p past e) : ∃ x e', x.call = .shutdown n.time ∧
    n.finish.Follows p (x :: past) e' ∧ n.finish.engine = e'.drained ∧
      n.finish.status = .ended e'.summary ∧ n.finish.time = n.time := by
  have made : e.step (.shutdown n.time) = .ok (e.shutdown n.time, .done) := rfl
  obtain ⟨d, stepped, follows⟩ := h.follows.call rfl made
  have finished : n.finish = { { n with engine := d }.settle with
      status := .ended { n with engine := d }.settle.engine.summary } := by
    cases stepped
    rfl
  rw [finished]
  have left := follows.settle
  have settled : { n with engine := d }.settle.engine = _ := left.drained rfl
  have time : { n with engine := d }.settle.time = n.time := rfl
  generalize { n with engine := d }.settle = last at left settled time ⊢
  refine ⟨_, _, rfl, ⟨left.history, left.engine, left.work, left.done, left.works⟩, settled, ?_,
    time⟩
  rw [settled]
  rfl

/-! ### The start -/

theorem start_waits {now : Time} (le : now ≤ Clock.last) {s : Setup} {jitter : Jitter}
    (h : (Engine.new s jitter).start now = .ok e) : e.Awaits now := by
  obtain ⟨started, scheduled, queue⟩ := Engine.start_cases h
  refine ⟨?_, fun due armed => ?_⟩
  · rw [queue.scheduler]
    exact Fault.foldlM_ok (P := fun x => ∀ t ∈ x.scheduler.tasks, now ≤ t.due)
      (Engine.scheduleOwn_waits le) scheduled nofun
  · rw [(Engine.start_upkeep h).2] at armed
    cases armed
    exact Clock.le_later le

theorem spawnAt_onTime (p : Scenario) (early : p.start ≤ Clock.last) : ∃ x e,
    x.call = .start p.start ∧ (spawnAt p.setup p.jitter p.works p.start).OnTime p [x] e ∧
      (spawnAt p.setup p.jitter p.works p.start).engine = e.drained ∧
      (spawnAt p.setup p.jitter p.works p.start).time = p.start := by
  obtain ⟨e, started⟩ := (Engine.new p.setup p.jitter).start_ok p.start
  have spawned : spawnAt p.setup p.jitter p.works p.start =
      { engine := e, time := p.start, works := p.works } := by
    unfold spawnAt
    dsimp only
    rw [started]
  have made : (Engine.new p.setup p.jitter).step (.start p.start) = .ok (e, .done) := by
    unfold Engine.step
    dsimp only
    rw [started]
    rfl
  have silent : e.outbox = [] := Engine.start_outbox started
  have untold : e.notices = [] := (Engine.start_same started).notices
  have taken : e.drained = e := by
    unfold Engine.drained
    rw [← silent, ← untold]
  rw [spawned]
  refine ⟨⟨_, _, .done, e⟩, e, rfl, ⟨⟨.call .nil made, ⟨[], rfl, rfl⟩, ?_, nofun, rfl⟩, rfl,
    Engine.timely_start p.steady started, start_waits early started⟩, taken.symm, rfl⟩
  show e.outbox.map _ = timedWork [_]
  rw [timedWork_cons, Event.sent, silent, List.drop_nil]
  rfl

end Node

end BeaconMesh

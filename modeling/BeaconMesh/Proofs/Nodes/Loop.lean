import BeaconMesh.Proofs.Nodes.Turns

/-!
# The loop of a node

A `World` is a node with its channel and with what has yet to arrive, and `World.Step` is all that
can happen in it: a message arrives, the node takes one, it wakes at a deadline, or time passes. Which
comes first is left open, but time passes only when nothing is ready. `loop_keeps_time` says what
holds of everything that can be reached.
-/

namespace BeaconMesh

open Relation (ReflTransGen)

/-- A node with its channel, what has yet to arrive, and the turns it took. What comes into the
channel keeps the time at which it comes. -/
structure World where
  node : Node
  channel : List (Time × Message) := []
  ahead : List (Time × Message)
  turns : List Turn := []

namespace World

def opening (p : Scenario) : World where
  node := .spawnAt p.setup p.jitter p.works p.start
  ahead := p.schedule

/-- What can happen next. Time passes up to the next arrival or deadline at most, and not while a
running node has a message to take. -/
inductive Step : World → World → Prop where
  | arrive {w : World} {x : Time × Message} {rest : List (Time × Message)}
      (next : w.ahead = x :: rest) (due : x.1 ≤ w.node.time) :
      Step w { w with channel := w.channel ++ [x], ahead := rest }
  | take {w : World} {x : Time × Message} {rest : List (Time × Message)}
      (running : w.node.status = .running) (first : w.channel = x :: rest) :
      Step w { w with
        node := w.node.obey x.2, channel := rest, turns := w.turns ++ [⟨w.node.time, some x.2⟩] }
  | wake {w : World} {due : Time} (deadline : w.node.nextWake? = some due)
      (ready : due ≤ w.node.time) :
      Step w { w with node := w.node.wake, turns := w.turns ++ [⟨w.node.time, none⟩] }
  | tick {w : World} {time : Time} (later : w.node.time < time)
      (idle : w.node.status = .running → w.channel = [])
      (deadline : ∀ due, w.node.nextWake? = some due → time ≤ due)
      (arrival : ∀ x ∈ w.ahead.head?, time ≤ x.1) :
      Step w { w with node := { w.node with time } }

/-- What can be reached from the start. -/
def Reached (p : Scenario) (w : World) : Prop := ReflTransGen Step (opening p) w

/-- The messages that the node took, each with the time at which it was taken. -/
def taken (w : World) : List (Time × Message) :=
  w.turns.filterMap fun x => x.message.map (x.time, ·)

end World

/-! ### On the beat -/

/-- Whether some times are the whole periods after a start in their order, with all of them that
come before a horizon. -/
structure Periodic (start period : Time) (times : List Time) (horizon : Time) : Prop where
  each : ∀ (k : Nat) (t : Time), times[k]? = some t → t = start + (k + 1) * period
  all : ∀ k : Nat, start + (k + 1) * period < horizon → k < times.length

/-- Whether the beacons of ours of each interface left a whole number of intervals after the start,
one after the other, and the sweeps were made likewise, none of them missing before a horizon. -/
structure KeepsTime (p : Scenario) (past : List Event) (horizon : Time) : Prop where
  beacons : ∀ (iface : IfaceId) (here : Iface), p.setup.ifaces[iface]? = some here →
    Periodic p.start p.setup.config.interval.toNat
        ((sentFor iface (allSendings past)).map Sending.time) horizon ∧
      ∀ (k : Nat) (y : Sending), (sentFor iface (allSendings past))[k]? = some y →
        y.IsOwn p.setup here (UInt16.ofNat (k + 1))
  sweeps : Periodic p.start p.setup.config.sweepInterval.toNat (sweeps past) horizon

theorem Beating.periodic {start period next horizon : Time} {times : List Time}
    (h : Beating start period times next) (waits : horizon ≤ next) :
    Periodic start period times horizon :=
  ⟨h.each, fun _ before => h.complete waits before⟩

theorem Turn.routine {x : Turn} (goesOn : x.ends = false) : ∀ c ∈ x.calls, c.isRoutine = true := by
  obtain ⟨time, _ | m⟩ := x
  · exact List.forall_mem_singleton.mpr rfl
  · cases m with
    | hangup => cases goesOn
    | command c =>
      cases c with
      | shutdown => cases goesOn
      | _ => simp [calls, Message.calls, Call.isRoutine]

theorem Call.stays {c : Call} (routine : c.isRoutine = true) :
    c.isStart = false ∧ ∀ now, c ≠ .shutdown now := by
  cases c with
  | start => cases routine
  | shutdown => cases routine
  | _ => exact ⟨rfl, nofun⟩

namespace Node

variable {p : Scenario} {n : Node} {past : List Event} {e : Engine}

theorem OnTime.keepsTime (h : n.OnTime p past e) {cs : List Call}
    (calls : past.reverse.map Event.call = .start p.start :: cs)
    (routine : ∀ c ∈ cs, c.isRoutine = true) : KeepsTime p past n.time := by
  have once : starts past = 1 := by
    rw [Engine.starts_eq calls, List.countP_cons_of_pos rfl, List.countP_eq_zero.mpr]
    intro c mem
    rw [(Call.stays (routine c mem)).1]
    nofun
  have up : ∀ x ∈ past, ∀ now, x.call ≠ .shutdown now := by
    intro x mem now ended
    have made : x.call ∈ past.reverse.map Event.call :=
      List.mem_map_of_mem (List.mem_reverse.mpr mem)
    rw [calls, ended] at made
    rcases List.mem_cons.mp made with same | later
    · cases same
    · exact (Call.stays (routine _ later)).2 now rfl
  refine ⟨fun iface here known => ⟨?_, ?_⟩, ?_⟩
  · obtain ⟨t, c, line, beats⟩ := h.timely.own.line iface here known
    have waiting : t ∈ e.waiting iface := (Prod.mk.inj line).1 ▸ List.mem_singleton_self t
    exact beats.periodic (h.waits.tasks t (List.mem_filter.mp waiting).1)
  · obtain ⟨-, beats⟩ := h.follows.history.beats known (Nat.le_of_eq once) up
    exact (beats once).regular.each
  · obtain ⟨next, armed, beats⟩ := h.timely.sweep
    exact beats.periodic (h.waits.sweep next armed)

end Node

namespace World

variable {p : Scenario} {w w' : World} {past : List Event} {e : Engine}

/-! ### What every step keeps -/

/-- How a node stands in a world: it runs, and takes every message when it comes, or a message has
ended it, with the beat kept until then. -/
inductive Stands (p : Scenario) (w : World) (past : List Event) (e : Engine) : Prop where
  | runs (up : w.node.OnTime p past e) (goesOn : ∀ x ∈ w.turns, x.ends = false)
      (prompt : ∀ x ∈ w.channel, x.1 = w.node.time)
  | ended {before : List Turn} {last : Turn} (turns : w.turns = before ++ [last])
      (goesOn : ∀ x ∈ before, x.ends = false) (ends : last.ends = true)
      (beat : KeepsTime p past last.time) (status : w.node.status = .ended e.summary)

/-- Whether a world is where the turns of its node have led it, with no message lost. -/
structure Tracks (p : Scenario) (w : World) (past : List Event) (e : Engine) : Prop where
  follows : w.node.Follows p past e
  settled : w.node.engine = e.drained
  calls : past.reverse.map Event.call = .start p.start :: w.turns.flatMap Turn.calls
  messages : w.taken ++ w.channel ++ w.ahead = p.schedule
  ahead : ∀ x ∈ w.ahead, w.node.time ≤ x.1
  stands : w.Stands p past e

theorem opening_tracks (p : Scenario) (early : p.start ≤ Clock.last) :
    ∃ past e, (opening p).Tracks p past e := by
  obtain ⟨x, e, started, up, settled, time⟩ := Node.spawnAt_onTime p early
  refine ⟨[x], e, up.follows, settled, ?_, rfl, ?_, .runs up nofun nofun⟩
  · exact congrArg (fun c => [c]) started
  · intro y mem
    show (Node.spawnAt p.setup p.jitter p.works p.start).time ≤ y.1
    rw [time]
    exact List.rel_of_pairwise_cons p.sorted (List.mem_map_of_mem mem)

theorem taken_append (w : World) (x : Turn) : { w with turns := w.turns ++ [x] }.taken =
    w.taken ++ (x.message.map (x.time, ·)).toList := by
  unfold taken
  rw [List.filterMap_append]
  cases message : x.message <;> simp [message]

theorem Stands.up (h : w.Stands p past e) (running : w.node.status = .running) :
    w.node.OnTime p past e ∧ (∀ x ∈ w.turns, x.ends = false) ∧
      ∀ x ∈ w.channel, x.1 = w.node.time := by
  cases h with
  | runs up goesOn prompt => exact ⟨up, goesOn, prompt⟩
  | ended _ _ _ _ status => cases running.symm.trans status

theorem Tracks.beat (h : w.Tracks p past e) (running : w.node.status = .running) :
    KeepsTime p past w.node.time := by
  obtain ⟨up, goesOn, -⟩ := h.stands.up running
  refine up.keepsTime h.calls fun c mem => ?_
  obtain ⟨x, taken, made⟩ := List.mem_flatMap.mp mem
  exact Turn.routine (goesOn x taken) c made

theorem Tracks.work (h : w.Tracks p past e) :
    w.node.handovers.map Handover.timed = timedWork past := by
  have work := h.follows.work
  rw [h.settled] at work
  exact (List.append_nil _).symm.trans work

/-- After a turn that does not end the node, it is where it was before but for the calls made. -/
theorem Tracks.turn (h : w.Tracks p past e) {n : Node} {x : Turn} {later : List Event} {e' : Engine}
    {channel : List (Time × Message)} (goesOn : ∀ y ∈ w.turns, y.ends = false)
    (stays : x.ends = false) (calls : later.reverse.map Event.call = x.calls)
    (rests : n.Rests p (later ++ past) e') (time : n.time = w.node.time)
    (messages : (x.message.map (x.time, ·)).toList ++ channel = w.channel)
    (prompt : ∀ y ∈ w.channel, y.1 = w.node.time) :
    { w with node := n, channel, turns := w.turns ++ [x] }.Tracks p (later ++ past) e' where
  follows := rests.follows
  settled := rests.settled
  calls := by
    rw [List.reverse_append, List.map_append, h.calls, calls, List.flatMap_append]
    simp
  messages := by
    rw [← h.messages, ← messages, ← List.append_assoc]
    exact congrArg (· ++ channel ++ w.ahead) (w.taken_append x)
  ahead y mem := by
    show n.time ≤ y.1
    rw [time]
    exact h.ahead y mem
  stands := by
    refine .runs rests.toOnTime ?_ ?_
    · exact List.forall_mem_append.mpr ⟨goesOn, List.forall_mem_singleton.mpr stays⟩
    · intro y mem
      show y.1 = n.time
      rw [time]
      exact prompt y (messages ▸ List.mem_append_right _ mem)

theorem Tracks.finish (h : w.Tracks p past e) {x : Time × Message} {rest : List (Time × Message)}
    (running : w.node.status = .running) (first : w.channel = x :: rest) (ends : x.2.ends = true) :
    ∃ past' e', Tracks p { w with
      node := w.node.finish, channel := rest,
      turns := w.turns ++ [⟨w.node.time, some x.2⟩] } past' e' := by
  obtain ⟨up, goesOn, prompt⟩ := h.stands.up running
  obtain ⟨y, e', call, follows, settled, status, time⟩ := up.finish
  have beat := h.beat running
  refine ⟨y :: past, e', ⟨follows, settled, ?_, ?_, ?_, ?_⟩⟩
  · have made : Turn.calls ⟨w.node.time, some x.2⟩ = [.shutdown w.node.time] := by
      obtain ⟨came, m⟩ := x
      cases m with
      | hangup => rfl
      | command c =>
        cases c with
        | shutdown => rfl
        | _ => cases ends
    rw [List.reverse_cons, List.map_append, h.calls, List.flatMap_append, List.flatMap_singleton,
      made, ← call]
    rfl
  · have came : x.1 = w.node.time := prompt x (first ▸ List.mem_cons_self)
    have taken := w.taken_append ⟨w.node.time, some x.2⟩
    rw [← h.messages, first]
    refine (congrArg (· ++ rest ++ w.ahead) taken).trans ?_
    simp [← came]
  · intro z mem
    show w.node.finish.time ≤ z.1
    rw [time]
    exact h.ahead z mem
  · have quiet : Event.sendings y = [] ∧ Event.sweep? y = none := by
      unfold Event.sendings Event.sweep?
      rw [call]
      exact ⟨rfl, rfl⟩
    have same : KeepsTime p (y :: past) w.node.time := by
      refine ⟨?_, ?_⟩
      · rw [allSendings_cons, quiet.1, List.append_nil]
        exact beat.beacons
      · rw [sweeps_cons, quiet.2, Option.toList_none, List.append_nil]
        exact beat.sweeps
    exact .ended rfl goesOn ends same status

theorem Tracks.sorted (h : w.Tracks p past e) : w.ahead.Pairwise fun x y => x.1 ≤ y.1 := by
  have sorted := List.pairwise_map.mp (List.pairwise_cons.mp p.sorted).2
  rw [← h.messages] at sorted
  exact (List.pairwise_append.mp sorted).2.1

theorem Tracks.step (h : w.Tracks p past e) (threshold : ¬ p.setup.config.NoThreshold)
    (step : Step w w') (early : w.node.time < Clock.last) : ∃ past' e', w'.Tracks p past' e' := by
  cases step with
  | @arrive x rest next due =>
    refine ⟨past, e, ⟨h.follows, h.settled, h.calls, ?_, ?_, ?_⟩⟩
    · rw [← h.messages, next]
      show w.taken ++ (w.channel ++ [x]) ++ rest = _
      simp
    · exact fun y mem => h.ahead y (next ▸ List.mem_cons_of_mem x mem)
    · cases h.stands with
      | ended turns goesOn ends beat status => exact .ended turns goesOn ends beat status
      | runs up goesOn prompt =>
        refine .runs up goesOn (List.forall_mem_append.mpr ⟨prompt, ?_⟩)
        -- It has not come late: the clock waits for what is ahead.
        have came : w.node.time ≤ x.1 := h.ahead x (next ▸ List.mem_cons_self)
        exact List.forall_mem_singleton.mpr (Nat.le_antisymm due came)
  | @take x rest running first =>
    obtain ⟨up, goesOn, prompt⟩ := h.stands.up running
    cases ends : x.2.ends with
    | false =>
      obtain ⟨later, e', calls, rests, time⟩ := up.obey threshold early ends
      have came : x.1 = w.node.time := prompt x (first ▸ List.mem_cons_self)
      refine ⟨_, e', h.turn goesOn ends calls rests time ?_ prompt⟩
      rw [first, ← came]
      rfl
    | true =>
      have ended : w.node.obey x.2 = w.node.finish := w.node.obey_of_ends running ends
      rw [ended]
      exact h.finish running first ends
  | wake deadline ready =>
    obtain ⟨up, goesOn, prompt⟩ := h.stands.up (Node.running_of_nextWake? deadline)
    obtain ⟨x, e', call, rests, time⟩ := up.wake early
    have calls : [x].reverse.map Event.call = Turn.calls ⟨w.node.time, none⟩ :=
      congrArg (fun c => [c]) call
    exact ⟨_, e', h.turn goesOn rfl calls rests time rfl prompt⟩
  | @tick time later idle deadline arrival =>
    have work : w.node.handovers.map Handover.timed ++ w.node.engine.outbox.map (time, ·) =
        timedWork past := by
      rw [h.settled, h.work]
      exact List.append_nil _
    have follows : { w.node with time }.Follows p past e :=
      ⟨h.follows.history, h.follows.engine, work, h.follows.done, h.follows.works⟩
    refine ⟨past, e, ⟨follows, h.settled, h.calls, h.messages, ?_, ?_⟩⟩
    · have sorted := h.sorted
      show ∀ x ∈ w.ahead, time ≤ x.1
      cases ahead : w.ahead with
      | nil => exact nofun
      | cons x rest =>
        have least : time ≤ x.1 := arrival x (by rw [ahead]; rfl)
        rw [ahead] at sorted
        refine List.forall_mem_cons.mpr ⟨least, fun y mem => Nat.le_trans least ?_⟩
        exact List.rel_of_pairwise_cons sorted mem
    · -- The clock stops at the deadline, so nothing was due before what it shows now.
      cases h.stands with
      | ended turns goesOn ends beat status => exact .ended turns goesOn ends beat status
      | runs up goesOn prompt =>
        refine .runs ⟨follows, up.running, up.timely, ?_⟩ goesOn ?_
        · refine (Engine.awaits_iff up.timely.own.ordered).mpr fun due waits => deadline due ?_
          rw [Node.nextWake?_eq up.running h.settled]
          exact waits
        · show ∀ x ∈ w.channel, _
          rw [idle up.running]
          nofun

theorem Step.time_le (h : Step w w') : w.node.time ≤ w'.node.time := by
  cases h with
  | arrive => exact Nat.le_refl _
  | take => exact Nat.le_of_eq (w.node.obey_time _).symm
  | wake => exact Nat.le_of_eq w.node.wake_time.symm
  | tick later => exact Nat.le_of_lt later

/-- Before the end of the clock, whatever can be reached is where the turns have led to. -/
theorem Reached.tracks (h : Reached p w) (threshold : ¬ p.setup.config.NoThreshold)
    (early : w.node.time < Clock.last) : ∃ past e, w.Tracks p past e := by
  induction h with
  | refl =>
    have start : p.start < Clock.last :=
      Nat.lt_of_le_of_lt (Nat.le_of_eq (Node.spawnAt_time _ _ _ _).symm) early
    exact opening_tracks p (Nat.le_of_lt start)
  | tail _ step ih =>
    have before := Nat.lt_of_le_of_lt step.time_le early
    obtain ⟨past, e, tracks⟩ := ih before
    exact tracks.step threshold step before

end World

end BeaconMesh

import BeaconMesh.Proofs.Nodes.Loop

/-!
# Executions of a node

What the surroundings fail to do changes nothing but the note that it failed (`Reached.under`). The
loop can always go on, and no execution stays before a time for ever (`clock_goes_on`). Serving commands
one by one is one of the executions (`serve_reached`). `loop_keeps_time` says what every one of them
has done at any time.
-/

namespace BeaconMesh

open Relation (ReflTransGen)

/-! ### Failures -/

namespace Node

variable {works : Nat → Bool}

/-- A node as it would be in other surroundings. -/
def under (works : Nat → Bool) (n : Node) : Node :=
  { n with works, handovers := n.handovers.mapIdx fun i h => { h with done := works i } }

theorem settle_under (n : Node) : (n.under works).settle = n.settle.under works := by
  unfold settle under handoversFrom
  simp only [List.length_mapIdx, List.mapIdx_append, List.mapIdx_mapIdx, Function.comp_def,
    Nat.add_comm]

theorem under_engine (n : Node) : (n.under works).engine = n.engine := rfl

theorem under_time (n : Node) : (n.under works).time = n.time := rfl

theorem under_isRunning (n : Node) : (n.under works).isRunning = n.isRunning := rfl

theorem wake_under (n : Node) : (n.under works).wake = n.wake.under works := by
  unfold wake
  rw [under_engine, under_time]
  split
  · rename_i engine _ _
    exact settle_under { n with engine }
  · rfl

theorem finish_under (n : Node) : (n.under works).finish = n.finish.under works := by
  have settled : ({ n with engine := n.engine.shutdown n.time }.under works).settle =
      { n with engine := n.engine.shutdown n.time }.settle.under works := settle_under _
  exact congrArg (fun last : Node => { last with status := .ended last.engine.summary }) settled

theorem process_under (n : Node) (c : Command) :
    ((n.under works).process c).1 = (n.process c).1.under works := by
  cases c with
  | packet payload sender iface =>
    unfold process
    dsimp only
    rw [under_engine, under_time]
    split
    · rename_i engine _ _
      exact wake_under { n with engine }
    · rfl
  | frame bytes => exact wake_under { n with engine := (n.engine.receiveFrame bytes n.time).1 }
  | summary => exact wake_under n
  | shutdown => exact finish_under n

theorem obey_under (n : Node) (m : Message) : (n.under works).obey m = (n.obey m).under works := by
  cases m with
  | hangup =>
    unfold obey close
    dsimp only
    rw [under_isRunning]
    split
    · exact finish_under n
    · rfl
  | command c =>
    unfold obey take
    dsimp only
    rw [under_isRunning]
    split
    · exact process_under n c
    · rfl

theorem spawnAt_under (setup : Setup) (jitter : Jitter) (works' : Nat → Bool) (now : Time) :
    spawnAt setup jitter works now = (spawnAt setup jitter works' now).under works := by
  unfold spawnAt
  dsimp only
  split <;> rfl

end Node

/-- The same node in other surroundings. -/
def Scenario.under (works : Nat → Bool) (p : Scenario) : Scenario := { p with works }

namespace World

variable {p : Scenario} {w w' : World} {past : List Event} {e : Engine} {works : Nat → Bool}

/-- A world as it would be in other surroundings. -/
def under (works : Nat → Bool) (w : World) : World := { w with node := w.node.under works }

theorem Step.under (h : Step w w') : Step (w.under works) (w'.under works) := by
  cases h with
  | arrive next due => exact .arrive next due
  | @take x rest running first =>
    have step := Step.take (w := w.under works) running first
    have taken : (w.under works).node.obey x.2 = (w.node.obey x.2).under works :=
      w.node.obey_under x.2
    rw [taken] at step
    exact step
  | wake deadline ready =>
    have step := Step.wake (w := w.under works) deadline ready
    have woken : (w.under works).node.wake = w.node.wake.under works := w.node.wake_under
    rw [woken] at step
    exact step
  | tick later idle deadline arrival =>
    exact Step.tick (w := w.under works) later idle deadline arrival

/-- Whatever fails, everything else goes the same way. -/
theorem Reached.under (h : Reached p w) (works : Nat → Bool) :
    Reached (p.under works) (w.under works) := by
  unfold Reached at h ⊢
  have opening : opening (p.under works) = (opening p).under works :=
    congrArg (fun node : Node => { node, ahead := p.schedule : World })
      (Node.spawnAt_under p.setup p.jitter p.works p.start)
  rw [opening]
  induction h with
  | refl => exact .refl
  | tail _ step ih => exact ih.tail step.under

/-! ### Progress -/

theorem exists_step (w : World) : ∃ w', Step w w' := by
  by_cases busy : w.node.status = .running ∧ w.channel ≠ []
  · obtain ⟨running, waits⟩ := busy
    obtain ⟨x, rest, first⟩ := List.exists_cons_of_ne_nil waits
    exact ⟨_, .take running first⟩
  by_cases ready : ∃ due, w.node.nextWake? = some due ∧ due ≤ w.node.time
  · obtain ⟨due, deadline, ready⟩ := ready
    exact ⟨_, .wake deadline ready⟩
  by_cases comes : ∃ x ∈ w.ahead.head?, x.1 ≤ w.node.time
  · obtain ⟨x, head, due⟩ := comes
    obtain ⟨rest, next⟩ := List.head?_eq_some_iff.mp head
    exact ⟨_, .arrive next due⟩
  · refine ⟨_, .tick (Nat.lt_succ_self w.node.time) (fun running => ?_) ?_ ?_⟩
    · by_contra waits
      exact busy ⟨running, waits⟩
    · exact fun due deadline => Nat.lt_of_not_le fun late => ready ⟨due, deadline, late⟩
    · exact fun x head => Nat.lt_of_not_le fun late => comes ⟨x, head, late⟩

/-- How often the node can wake before time passes: once, if it is due. -/
def wakes (w : World) : Nat :=
  match w.node.nextWake? with
  | some due => if due ≤ w.node.time then 1 else 0
  | none => 0

/-- How much can happen before time passes: every message arrives and is taken, and after each of
these steps the node may wake. -/
def pending (w : World) : Nat := 2 * (2 * w.ahead.length + w.channel.length) + w.wakes

theorem wakes_le (w : World) : w.wakes ≤ 1 := by
  unfold wakes
  split
  · split <;> omega
  · exact Nat.zero_le 1

theorem Tracks.progress (h : w.Tracks p past e) (early : w.node.time < Clock.last)
    (step : Step w w') : w.node.time < w'.node.time ∨
      w'.node.time = w.node.time ∧ w'.pending < w.pending := by
  cases step with
  | @arrive x rest next due =>
    refine .inr ⟨rfl, ?_⟩
    unfold pending
    show 2 * (2 * rest.length + (w.channel ++ [x]).length) + w.wakes < _
    simp only [next, List.length_append, List.length_cons, List.length_nil]
    omega
  | @take x rest running first =>
    refine .inr ⟨w.node.obey_time x.2, ?_⟩
    have few := wakes_le { w with
      node := w.node.obey x.2, channel := rest, turns := w.turns ++ [⟨w.node.time, some x.2⟩] }
    unfold pending
    rw [first, List.length_cons]
    dsimp only at few ⊢
    omega
  | @wake due deadline ready =>
    obtain ⟨up, -, -⟩ := h.stands.up (Node.running_of_nextWake? deadline)
    obtain ⟨y, e', -, rests, time⟩ := up.wake early
    refine .inr ⟨time, ?_⟩
    have one : w.wakes = 1 := by
      unfold wakes
      rw [deadline]
      exact if_pos ready
    have none : wakes { w with
        node := w.node.wake, turns := w.turns ++ [⟨w.node.time, .none⟩] } = 0 := by
      unfold wakes
      dsimp only
      split
      · rename_i next deadline
        have later := rests.lt_of_nextWake? deadline
        exact if_neg (Nat.not_le.mpr later)
      · rfl
    unfold pending
    rw [one, none]
    exact Nat.lt_succ_self _
  | tick later => exact .inl later

/-- No execution stays before a time for ever, as long as the clock has not come to its end. -/
theorem clock_goes_on (threshold : ¬ p.setup.config.NoThreshold) (f : Nat → World)
    (start : Reached p (f 0)) (steps : ∀ n, Step (f n) (f (n + 1))) {time : Time}
    (early : time ≤ Clock.last) : ∃ n, time ≤ (f n).node.time := by
  by_cases done : time ≤ (f 0).node.time
  · exact ⟨0, done⟩
  -- A step moves the clock, or it leaves less to happen before the clock moves.
  · have before : (f 0).node.time < time := Nat.lt_of_not_le done
    have goesOn := Nat.lt_of_lt_of_le before early
    obtain ⟨past, e, tracks⟩ := start.tracks threshold goesOn
    have progress := tracks.progress goesOn (steps 0)
    obtain ⟨n, later⟩ := clock_goes_on threshold (fun n => f (n + 1)) (start.tail (steps 0))
      (fun n => steps (n + 1)) early
    exact ⟨n + 1, later⟩
termination_by (time - (f 0).node.time, (f 0).pending)
decreasing_by
  rcases progress with later | ⟨same, less⟩
  · exact .left _ _ (Nat.sub_lt_sub_left before later)
  · rw [same]
    exact .right _ less

/-! ### Serving -/

/-- A node with nothing in its channel wakes at every deadline up to a time, if it can do so often
enough. -/
theorem Reached.wakeUntil (threshold : ¬ p.setup.config.NoThreshold) {horizon : Time}
    (early : horizon < Clock.last) (limit : Nat) (reached : Reached p w)
    (before : w.node.time ≤ horizon) (arrivals : ∀ x ∈ w.ahead.head?, horizon ≤ x.1)
    (idle : w.node.status = .running → w.channel = [])
    (enough : ∀ due, w.node.nextWake? = some due → horizon < limit + due) :
    ∃ turns, Reached p { w with node := w.node.wakeUntil horizon limit, turns } ∧
      (w.node.wakeUntil horizon limit).time ≤ horizon ∧
      ((w.node.wakeUntil horizon limit).status = .running → w.channel = []) ∧
      ∀ due, (w.node.wakeUntil horizon limit).nextWake? = some due → horizon < due := by
  induction limit generalizing w with
  | zero =>
    refine ⟨w.turns, reached, before, idle, fun due deadline => ?_⟩
    exact Nat.zero_add due ▸ enough due deadline
  | succ limit ih =>
    cases deadline : w.node.nextWake? with
    | none =>
      have stays : w.node.wakeUntil horizon (limit + 1) = w.node := by
        unfold Node.wakeUntil
        rw [deadline]
      rw [stays]
      exact ⟨w.turns, reached, before, idle, fun due found => by cases deadline.symm.trans found⟩
    | some due =>
      by_cases inTime : due ≤ horizon
      · -- One more wake, at the deadline. What is due next is due later, so the limit suffices.
        have last : max w.node.time due ≤ horizon := Nat.max_le.mpr ⟨before, inTime⟩
        let n := { w.node with time := max w.node.time due }
        have ticked : Reached p { w with node := n } := by
          rcases Nat.lt_or_ge w.node.time due with later | late
          · have time : max w.node.time due = due := Nat.max_eq_right (Nat.le_of_lt later)
            refine reached.tail ?_
            dsimp only [n]
            rw [time]
            refine .tick later idle (fun next found => ?_) fun x head => ?_
            · cases deadline.symm.trans found
              exact Nat.le_refl due
            · exact Nat.le_trans inTime (arrivals x head)
          · have time : max w.node.time due = w.node.time := Nat.max_eq_left late
            dsimp only [n]
            rw [time]
            exact reached
        have running : n.status = .running := Node.running_of_nextWake? deadline
        obtain ⟨past, e, tracks⟩ := ticked.tracks threshold (Nat.lt_of_le_of_lt last early)
        obtain ⟨up, -, -⟩ := tracks.stands.up running
        obtain ⟨x, e', -, rests, time⟩ := up.wake (Nat.lt_of_le_of_lt last early)
        have woken := ticked.tail (.wake deadline (Nat.le_max_right _ _))
        have unfolded : w.node.wakeUntil horizon (limit + 1) = n.wake.wakeUntil horizon limit := by
          conv => lhs; unfold Node.wakeUntil
          rw [deadline]
          exact if_pos inTime
        rw [unfolded]
        refine ih woken (Nat.le_trans (Nat.le_of_eq time) last) arrivals (fun _ => idle running) ?_
        intro next found
        have later := rests.lt_of_nextWake? found
        have left := enough due deadline
        have after : due < next := Nat.lt_of_le_of_lt
          (Nat.le_trans (Nat.le_max_right w.node.time due) (Nat.le_of_eq time.symm)) later
        lia
      · have stays : w.node.wakeUntil horizon (limit + 1) = w.node := by
          unfold Node.wakeUntil
          rw [deadline]
          exact if_neg inTime
        rw [stays]
        refine ⟨w.turns, reached, before, idle, fun next found => ?_⟩
        cases deadline.symm.trans found
        exact Nat.lt_of_not_le inTime

theorem Reached.advance (threshold : ¬ p.setup.config.NoThreshold) {horizon : Time}
    (early : horizon < Clock.last) (reached : Reached p w) (before : w.node.time ≤ horizon)
    (arrivals : ∀ x ∈ w.ahead.head?, horizon ≤ x.1)
    (idle : w.node.status = .running → w.channel = []) :
    ∃ turns, Reached p { w with node := w.node.advance horizon, turns } ∧
      (w.node.advance horizon).time = horizon ∧
      ((w.node.advance horizon).status = .running → w.channel = []) := by
  have enough : ∀ due, w.node.nextWake? = some due →
      horizon < horizon + 1 - w.node.time + due := by
    intro due deadline
    obtain ⟨past, e, tracks⟩ := reached.tracks threshold (Nat.lt_of_le_of_lt before early)
    obtain ⟨up, -, -⟩ := tracks.stands.up (Node.running_of_nextWake? deadline)
    rw [Node.nextWake?_eq up.running tracks.settled] at deadline
    have waits := (Engine.awaits_iff up.timely.own.ordered).mp up.waits due deadline
    lia
  obtain ⟨turns, woken, inTime, free, next⟩ :=
    reached.wakeUntil threshold early (horizon + 1 - w.node.time) before arrivals idle enough
  unfold Node.advance
  generalize w.node.wakeUntil horizon (horizon + 1 - w.node.time) = n at woken inTime free next ⊢
  have time : max n.time horizon = horizon := Nat.max_eq_right inTime
  dsimp only
  rw [time]
  refine ⟨turns, ?_, rfl, free⟩
  rcases Nat.lt_or_eq_of_le inTime with later | now
  · exact woken.tail (.tick later free (fun due found => Nat.le_of_lt (next due found)) arrivals)
  · rw [← now]
    exact woken

/-- To serve commands, each when it comes and after what is due by then, is one way to go on. -/
theorem Reached.serve (threshold : ¬ p.setup.config.NoThreshold) (cs : List (Time × Command))
    (reached : Reached p w) (ahead : w.ahead = cs.map fun x => (x.1, .command x.2))
    (early : ∀ x ∈ cs, x.1 < Clock.last) (goesOn : w.node.time < Clock.last)
    (idle : w.node.status = .running → w.channel = []) :
    ∃ w', Reached p w' ∧ w'.node = w.node.serve cs ∧ w'.ahead = [] := by
  induction cs generalizing w with
  | nil => exact ⟨w, reached, rfl, ahead⟩
  | cons x rest ih =>
    obtain ⟨arrival, c⟩ := x
    obtain ⟨inTime, others⟩ := List.forall_mem_cons.mp early
    obtain ⟨past, e, tracks⟩ := reached.tracks threshold goesOn
    have before : w.node.time ≤ arrival := by
      refine tracks.ahead (arrival, .command c) ?_
      rw [ahead]
      exact List.mem_cons_self
    have arrivals : ∀ x ∈ w.ahead.head?, arrival ≤ x.1 := by
      intro x head
      rw [ahead] at head
      cases head
      exact Nat.le_refl arrival
    obtain ⟨turns, advanced, time, free⟩ :=
      reached.advance threshold inTime before arrivals idle
    generalize next : w.node.advance arrival = n at advanced time free
    have arrived := advanced.tail (.arrive ahead (Nat.le_of_eq time.symm))
    have serves : w.node.serve ((arrival, c) :: rest) = (n.take c).1.serve rest := by
      rw [← next]
      rfl
    rw [serves]
    by_cases running : n.status = .running
    · have first : w.channel ++ [(arrival, Message.command c)] = [(arrival, .command c)] := by
        rw [free running, List.nil_append]
      have taken := arrived.tail (.take running first)
      have kept : (n.take c).1.time = n.time := n.obey_time (.command c)
      have soon : (n.take c).1.time < Clock.last := by
        rw [kept, time]
        exact inTime
      exact ih taken rfl others soon fun _ => rfl
    · have refused : (n.take c).1 = n := by
        have down : n.isRunning = false := decide_eq_false running
        unfold Node.take
        rw [down]
        rfl
      rw [refused]
      exact ih arrived rfl others (time ▸ inTime) fun up => absurd up running

theorem serve_reached {p : Scenario} (threshold : ¬ p.setup.config.NoThreshold)
    (cs : List (Time × Command)) (schedule : p.schedule = cs.map fun x => (x.1, .command x.2))
    (start : p.start < Clock.last) (early : ∀ x ∈ cs, x.1 < Clock.last) :
    ∃ w, Reached p w ∧ w.node = (Node.spawnAt p.setup p.jitter p.works p.start).serve cs ∧
      w.ahead = [] := by
  refine Reached.serve threshold cs .refl schedule early ?_ fun _ => rfl
  exact Nat.lt_of_le_of_lt (Nat.le_of_eq (Node.spawnAt_time _ _ _ _)) start

/-! ### The whole -/

/-- What a node has done, by the history of its engine: it handed over what the calls sent, and took
the messages that came, up to one that ends it. -/
structure InStep (p : Scenario) (w : World) (past : List Event) (e : Engine) : Prop where
  history : Engine.History (.new p.setup p.jitter) past e
  calls : past.reverse.map Event.call = .start p.start :: w.turns.flatMap Turn.calls
  engine : w.node.engine = e.drained
  handovers : w.node.handovers.map Handover.timed = timedWork past
  done : ∀ (i : Nat) (h : Handover), w.node.handovers[i]? = some h → h.done = p.works i
  beacons : ∀ iface, ((sentFor iface (allSendings past)).flatMap Sending.timed).Sublist
    (w.node.handovers.map Handover.timed)
  messages : w.taken ++ w.channel ++ w.ahead = p.schedule
  running : w.node.status = .running → KeepsTime p past w.node.time ∧
    (∀ x ∈ w.turns, x.ends = false) ∧ ∀ x ∈ w.channel ++ w.ahead, w.node.time ≤ x.1
  ended : w.node.status ≠ .running → ∃ before last, w.turns = before ++ [last] ∧
    KeepsTime p past last.time ∧ (∀ x ∈ before, x.ends = false) ∧ last.ends = true ∧
      w.node.status = .ended e.summary

theorem Tracks.inStep (h : w.Tracks p past e) : w.InStep p past e where
  history := h.follows.history
  calls := h.calls
  engine := h.settled
  handovers := h.work
  done := h.follows.done
  beacons iface := h.work ▸ h.follows.history.timed_sentFor iface
  messages := h.messages
  running up := by
    obtain ⟨-, goesOn, prompt⟩ := h.stands.up up
    refine ⟨h.beat up, goesOn, List.forall_mem_append.mpr ⟨fun x mem => ?_, h.ahead⟩⟩
    exact Nat.le_of_eq (prompt x mem).symm
  ended down := by
    cases h.stands with
    | runs up => exact absurd up.running down
    | ended turns goesOn ends beat status => exact ⟨_, _, turns, beat, goesOn, ends, status⟩

/-- Until the clock comes to its end, a node keeps its beat whatever fails around it, and time goes
on. -/
theorem loop_keeps_time (threshold : ¬ p.setup.config.NoThreshold) (reached : w.Reached p)
    (early : w.node.time < Clock.last) :
    (∃ (past : List Event) (e : Engine), w.InStep p past e) ∧
      (∀ works, (w.under works).Reached (p.under works)) ∧ (∃ w', Step w w') ∧
        ∀ f : Nat → World, f 0 = w → (∀ n, Step (f n) (f (n + 1))) →
          ∀ time ≤ Clock.last, ∃ n, time ≤ (f n).node.time := by
  refine ⟨?_, reached.under, exists_step w, fun f first steps time le => ?_⟩
  · obtain ⟨past, e, tracks⟩ := reached.tracks threshold early
    exact ⟨past, e, tracks.inStep⟩
  · exact clock_goes_on threshold f (first ▸ reached) steps le

/-- A node without jitter, a greeting from its bridge and the order to end. The first handover fails. -/
def sample : Scenario where
  setup := { Sample.setup with config := { jitter := 0 }, valid := by decide }
  jitter := default
  works i := i ≠ 0
  start := 0
  schedule := [(500, .command (.frame Sample.greeting)), (2500, .command .shutdown)]
  steady := rfl
  sorted := by decide

theorem loop_keeps_time_sample : ¬ sample.setup.config.NoThreshold ∧
    ∃ w : World, w.Reached sample ∧ w.node.time = 2500 ∧
      w.node.handovers.map (fun h => (h.time, h.done)) =
        [(1000, false), (1000, true), (1000, true), (1000, true),
          (2000, true), (2000, true), (2000, true), (2000, true)] ∧
      ∃ (past : List Event) (e : Engine), w.InStep sample past e ∧
        w.node.status = .ended e.summary := by
  have threshold : ¬ sample.setup.config.NoThreshold := by decide
  obtain ⟨w, reached, served, -⟩ := serve_reached threshold
    [(500, .frame Sample.greeting), (2500, .shutdown)] rfl (by decide) (by decide)
  have time : w.node.time = 2500 := by
    rw [served]
    rfl
  have early : w.node.time < Clock.last := by
    rw [time]
    decide
  have down : w.node.isRunning = false := by
    rw [served]
    rfl
  obtain ⟨⟨past, e, inStep⟩, -⟩ := loop_keeps_time threshold reached early
  obtain ⟨_, _, -, -, -, -, ended⟩ := inStep.ended (of_decide_eq_false down)
  refine ⟨threshold, w, reached, time, ?_, past, e, inStep, ended⟩
  rw [served]
  rfl

/-- A node that judges links of which nothing was heard, and a beacon that a neighbour relays. -/
def unguarded : Scenario where
  setup := { Sample.setup with
    config := { jitter := 0, minEchoes := 0, minReceived := 0 }, valid := by decide }
  jitter := default
  works _ := true
  start := 0
  schedule := [(100, .command (.packet (Wire.beaconBytes (Sample.relayed 1 [])) Sample.near 0))]
  steady := rfl
  sorted := by decide

/-- Nobody told the node to end, and its first beacons were due at 1000. -/
theorem loop_divides_by_zero : ∃ w : World, w.Reached unguarded ∧ w.node.time = 2500 ∧
    (∀ x ∈ w.turns, x.ends = false) ∧ w.node.handovers = [] ∧
      w.node.status = .failed .divisionByZero ∧
        ∀ (past : List Event) (e : Engine), ¬ w.InStep unguarded past e := by
  let w := opening unguarded
  have first : w.node.nextWake? = some 1000 := rfl
  have waits : Step w { w with node := { w.node with time := 100 } } := by
    refine .tick (by decide) (fun _ => rfl) (fun due deadline => ?_) fun x head => ?_
    · cases first.symm.trans deadline
      decide
    · cases head
      decide
  have taken := ((ReflTransGen.single waits).tail (.arrive rfl (by decide))).tail (.take rfl rfl)
  have reached := taken.tail (@Step.tick _ 2500 (by decide) nofun nofun nofun)
  refine ⟨_, reached, rfl, by decide, rfl, rfl, fun past e inStep => ?_⟩
  obtain ⟨_, _, -, -, -, -, ended⟩ := inStep.ended nofun
  cases ended

end World

end BeaconMesh

import BeaconMesh.Proofs.Engine.Upkeep
import BeaconMesh.Proofs.Faults.Polls
import BeaconMesh.Proofs.Sending.OwnBeacons

/-!
# Beacons and sweeps on the beat

Without jitter, a beacon of ours is due one interval after the one before it, and a sweep one sweep
interval after the one before it. `Engine.Awaits` says that nothing was due before a time. As long as
every call is made while this holds, beacons and sweeps keep the beat that the start set
(`Timely.step`).
-/

namespace BeaconMesh

/-! ### Beats -/

/-- Whether some times are the first whole periods after a start, and the next one is due a period
after the last. -/
structure Beating (start period : Time) (times : List Time) (next : Time) : Prop where
  each : ∀ (k : Nat) (t : Time), times[k]? = some t → t = start + (k + 1) * period
  next : next = Clock.later (start + times.length * period) period

namespace Beating

variable {start period next t : Time} {times : List Time}

theorem nil (start period : Time) : Beating start period [] (Clock.later start period) := by
  refine ⟨nofun, ?_⟩
  rw [List.length_nil, Nat.zero_mul, Nat.add_zero]

theorem append (h : Beating start period times next) (early : next < Clock.last) :
    Beating start period (times ++ [next]) (Clock.later next period) := by
  have exact : next = start + (times.length + 1) * period := by
    have due := h.next
    unfold Clock.later at due
    rw [Nat.succ_mul]
    lia
  refine ⟨fun k t found => ?_, ?_⟩
  · rcases getElem?_append_singleton_cases found with before | ⟨rfl, rfl⟩
    · exact h.each k t before
    · exact exact
  · rw [List.length_append, List.length_singleton, exact]

theorem complete (h : Beating start period times next) (waits : t ≤ next) {k : Nat}
    (before : start + (k + 1) * period < t) : k < times.length := by
  have due : next ≤ start + (times.length + 1) * period := by
    rw [h.next, Nat.succ_mul, ← Nat.add_assoc]
    exact Nat.min_le_left _ _
  have fewer : (k + 1) * period < (times.length + 1) * period := by lia
  have less := Nat.lt_of_mul_lt_mul_right fewer
  omega

end Beating

/-! ### Sweeps -/

/-- When a call swept, if it did. -/
def Event.sweep? (x : Event) : Option Time :=
  match x.call with
  | .poll now => if x.before.sweepDue now then some now else none
  | .sweep now => some now
  | _ => none

/-- When the calls of a history swept, in their order. -/
def sweeps (past : List Event) : List Time := past.reverse.filterMap Event.sweep?

theorem sweeps_cons (x : Event) (past : List Event) :
    sweeps (x :: past) = sweeps past ++ x.sweep?.toList := by
  unfold sweeps
  rw [List.reverse_cons, List.filterMap_append]
  cases swept : x.sweep? <;> simp [swept]

/-- What happens to a node between its start and its end, but for sweeps that it is told to do. -/
def Call.isRoutine : Call → Bool
  | .packet .. | .beacon .. | .frame .. | .poll _ => true
  | _ => false

namespace Engine

variable {s : Setup} {e e' : Engine} {iface : IfaceId} {here : Iface} {start now time : Time}

theorem Paced.due_eq {due : Time} (h : Paced s now due) (steady : s.config.jitter = 0) :
    due = Clock.later now s.config.interval.toNat := by
  obtain ⟨q, h⟩ := h
  obtain ⟨early, difference, h⟩ := Fault.bind_ok h
  cases Fault.pure_ok h
  have none : s.pacing.jitter = 0 := congrArg UInt64.toNat steady
  rw [none] at difference ⊢
  cases difference
  have span : Clock.times 0 2 = 0 := rfl
  have offset : q.jitter.offset 0 = 0 := Nat.eq_zero_of_le_zero (q.jitter.offset_le 0)
  rw [span, offset]
  exact Nat.min_eq_left (Clock.later_le_last _ _)

/-! ### Deadlines -/

/-- Whether nothing was due before a time. -/
structure Awaits (e : Engine) (time : Time) : Prop where
  tasks : ∀ t ∈ e.scheduler.tasks, time ≤ t.due
  sweep : ∀ due, e.nextSweep = some due → time ≤ due

theorem Awaits.mono {earlier : Time} (h : e.Awaits time) (le : earlier ≤ time) :
    e.Awaits earlier :=
  ⟨fun t mem => Nat.le_trans le (h.tasks t mem), fun due armed => Nat.le_trans le (h.sweep due armed)⟩

theorem Awaits.same (h : e.Awaits time) (queue : SameQueue e e')
    (armed : e'.nextSweep = e.nextSweep) : e'.Awaits time := by
  refine ⟨?_, ?_⟩
  · rw [queue.scheduler]
    exact h.tasks
  · rw [armed]
    exact h.sweep

/-- The deadline of a node is the first time at which anything is due. -/
theorem awaits_iff (ordered : e.InOrder) :
    e.Awaits time ↔ ∀ due, e.nextDeadline? = some due → time ≤ due := by
  have first : (∀ t ∈ e.scheduler.tasks, time ≤ t.due) ↔
      ∀ due, e.scheduler.nextDue? = some due → time ≤ due := by
    unfold InOrder at ordered
    unfold Scheduler.nextDue?
    cases tasks : e.scheduler.tasks with
    | nil => simp
    | cons t rest =>
      rw [tasks] at ordered
      obtain ⟨least, -⟩ := List.pairwise_cons.mp ordered
      refine ⟨fun all due head => ?_, fun head u mem => ?_⟩
      · cases head
        exact all t List.mem_cons_self
      · have early := head t.due rfl
        rcases List.mem_cons.mp mem with rfl | behind
        · exact early
        · exact Nat.le_trans early (least u behind)
  have both : e.Awaits time ↔ (∀ t ∈ e.scheduler.tasks, time ≤ t.due) ∧
      ∀ due, e.nextSweep = some due → time ≤ due := ⟨fun h => ⟨h.1, h.2⟩, fun h => ⟨h.1, h.2⟩⟩
  rw [both, first]
  unfold nextDeadline?
  cases e.scheduler.nextDue? with
  | none => cases e.nextSweep <;> simp
  | some due =>
    cases e.nextSweep with
    | none => simp
    | some armed =>
      simp only [Option.some.injEq, forall_eq']
      exact Nat.le_min.symm

/-! ### Our beacons -/

variable {t : Task} {scheduler : Scheduler} {done : List Sending}

/-- Whether the beacons of every interface have kept the beat, and the next one waits. -/
structure OnBeat (s : Setup) (start : Time) (done : List Sending) (e : Engine) : Prop where
  setup : e.setup = s
  ordered : e.InOrder
  line : ∀ (iface : IfaceId) (here : Iface), s.ifaces[iface]? = some here → ∃ t c,
    e.line iface = ([t], some c) ∧
      Beating start s.config.interval.toNat ((sentFor iface done).map Sending.time) t.due

theorem start_onBeat {jitter : Jitter} (steady : s.config.jitter = 0)
    (h : (Engine.new s jitter).start start = .ok e) : OnBeat s start [] e where
  setup := (start_same h).setup
  ordered := inOrder_invariant.start scheduleOwn_inOrder h List.Pairwise.nil
  line iface here known := by
    obtain ⟨due, paced, line⟩ := start_line known (silent_new jitter known).line h
    rw [Paced.due_eq paced steady] at line
    exact ⟨_, _, line, .nil start _⟩

theorem OnBeat.congr (h : OnBeat s start done e) (setup : e'.setup = e.setup) (ordered : e'.InOrder)
    (line : ∀ iface, e'.line iface = e.line iface) : OnBeat s start done e' where
  setup := setup.trans h.setup
  ordered := ordered
  line iface here known := by
    rw [line]
    exact h.line iface here known

theorem OnBeat.same (h : OnBeat s start done e) (queue : SameQueue e e') :
    OnBeat s start done e' :=
  h.congr queue.setup (inOrder_invariant.same queue h.ordered) queue.line

theorem OnBeat.relay (h : OnBeat s start done e) (relay : t.own = false) :
    OnBeat s start done { e with scheduler := e.scheduler.enqueue t } :=
  h.congr rfl (inOrder_invariant.relay relay h.ordered)
    fun iface => line_enqueue (ownIface?_of_relay relay iface)

/-- A task is performed when it is due, neither earlier nor later. -/
theorem OnBeat.perform (h : OnBeat s start done e) (steady : s.config.jitter = 0)
    (early : now < Clock.last) (waits : ∀ u ∈ e.scheduler.tasks, now ≤ u.due)
    (popped : e.scheduler.pop? now = some (t, scheduler))
    (work : { e with scheduler }.perform t now = .ok e') :
    OnBeat s start (done ++ [⟨now, t, e'.outbox.drop e.outbox.length⟩]) e' := by
  have setup := h.setup
  subst setup
  have same : e'.setup = e.setup := perform_setup (e := { e with scheduler }) work
  refine ⟨same, inOrder_invariant.perform popped work h.ordered, fun iface here known => ?_⟩
  obtain ⟨u, c, line, beats⟩ := h.line iface here known
  rw [sentFor_append]
  by_cases own : t.ownIface? = some iface
  · obtain ⟨rfl, due, paced, line'⟩ := perform_line known line popped work own
    obtain ⟨tasks, ripe⟩ := Scheduler.tasks_of_pop? popped
    have first : u ∈ e.scheduler.tasks := tasks ▸ List.mem_cons_self
    have exact : u.due = now := Nat.le_antisymm ripe (waits u first)
    rw [exact] at beats
    rw [Paced.due_eq paced steady] at line'
    rw [if_pos own, List.map_append]
    exact ⟨_, _, line', beats.append early⟩
  · rw [if_neg own, List.append_nil, perform_line_of_ne popped work own]
    exact ⟨u, c, line, beats⟩

theorem scheduleOwn_waits (le : now ≤ Clock.last) (h : e.scheduleOwn iface now = .ok e')
    (waits : ∀ u ∈ e.scheduler.tasks, now ≤ u.due) : ∀ u ∈ e'.scheduler.tasks, now ≤ u.due := by
  rcases scheduleOwn_cases h with ⟨_, _, due, -, -, timed, rfl⟩ | ⟨-, rfl⟩
  · have paced : Paced e.setup now due := ⟨_, timed⟩
    intro u mem
    rcases Scheduler.mem_insertTask.mp mem with rfl | before
    · exact Nat.le_trans (Clock.le_later le) paced.later_gap_le
    · exact waits u before
  · exact waits

theorem perform_waits (le : now ≤ Clock.last) (popped : e.scheduler.pop? now = some (t, scheduler))
    (work : { e with scheduler }.perform t now = .ok e')
    (waits : ∀ u ∈ e.scheduler.tasks, now ≤ u.due) : ∀ u ∈ e'.scheduler.tasks, now ≤ u.due := by
  obtain ⟨tasks, -⟩ := Scheduler.tasks_of_pop? popped
  have left : ∀ u ∈ scheduler.tasks, now ≤ u.due :=
    fun u mem => waits u (tasks ▸ List.mem_cons_of_mem t mem)
  rcases perform_cases work with ⟨-, rfl⟩ | ⟨iface, -, scheduled⟩
  · exact left
  · exact scheduleOwn_waits le scheduled left

/-! ### Beacons and sweeps -/

/-- Whether beacons and sweeps have kept the beat that a start set. -/
structure Timely (s : Setup) (start : Time) (past : List Event) (e : Engine) : Prop where
  own : OnBeat s start (allSendings past) e
  sweep : ∃ next, e.nextSweep = some next ∧
    Beating start s.config.sweepInterval.toNat (sweeps past) next

theorem timely_start {jitter : Jitter} (steady : s.config.jitter = 0)
    (h : (Engine.new s jitter).start start = .ok e) :
    Timely s start [⟨.new s jitter, .start start, .done, e⟩] e :=
  ⟨start_onBeat steady h, _, (start_upkeep h).2, .nil start _⟩

variable {past : List Event} {r : Reply}

theorem Timely.poll (h : Timely s start past e) (steady : s.config.jitter = 0)
    (early : now < Clock.last) (waits : e.Awaits now)
    (made : e.step (.poll now) = .ok (e', r)) :
    Timely s start (⟨e, .poll now, r, e'⟩ :: past) e' ∧ e'.Awaits (now + 1) := by
  obtain ⟨⟨polled, tasks⟩, work, answer⟩ := Fault.bind_ok made
  obtain ⟨after, -⟩ := Prod.mk.inj (Fault.pure_ok answer)
  subst after
  obtain ⟨settled, drained, swept⟩ := poll_drains work
  -- The drain performs its tasks on the beat, and ends before any that is not due.
  obtain ⟨own, -⟩ := drain_sendings
    (Q := fun done x => OnBeat s start done x ∧ ∀ u ∈ x.scheduler.tasks, now ≤ u.due)
    (fun popped work ⟨own, waits⟩ => ⟨own.perform steady early waits popped work,
      perform_waits (Nat.le_of_lt early) popped work waits⟩)
    (allSendings past) drained ⟨h.own, waits.tasks⟩
  have left : ∀ u ∈ settled.scheduler.tasks, now + 1 ≤ u.due := by
    obtain ⟨_, _, same, empties⟩ := e.drain_ok now e.scheduler.size
    cases same.symm.trans drained
    have none := empties early (e.scheduler.dueCount_le_size now)
    exact fun u mem => Scheduler.due_of_pop?_none own.ordered none mem
  obtain ⟨next, armed, beats⟩ := h.sweep
  have kept : settled.nextSweep = some next :=
    (drain_performs drained).1.upkeep.nextSweep.trans armed
  have due : settled.sweepDue now = decide (next ≤ now) := by
    unfold sweepDue
    rw [kept]
  have sweep? : Event.sweep? ⟨e, .poll now, r, polled⟩ = if next ≤ now then some now else none := by
    show (if e.sweepDue now then some now else none) = _
    unfold sweepDue
    rw [armed]
    simp only [decide_eq_true_eq]
  have sendings : Event.sendings ⟨e, .poll now, r, polled⟩ = e.sendings now e.scheduler.size := rfl
  by_cases ripe : next ≤ now
  · rw [due, if_pos (decide_eq_true ripe)] at swept
    have exact : next = now := Nat.le_antisymm ripe (waits.sweep next armed)
    have rearmed : polled.nextSweep = some (Clock.later now s.config.sweepInterval.toNat) := by
      rw [swept, sweep_nextSweep, kept, own.setup]
      rfl
    have queue : SameQueue settled polled := swept ▸ (sweep_sweeps settled now).queue
    refine ⟨⟨?_, _, rearmed, ?_⟩, ?_, fun due found => ?_⟩
    · rw [allSendings_cons, sendings]
      exact own.same queue
    · rw [sweeps_cons, sweep?, if_pos ripe]
      rw [exact] at beats
      exact beats.append early
    · rw [queue.scheduler]
      exact left
    · cases rearmed.symm.trans found
      have positive : 0 < s.config.sweepInterval.toNat := s.valid.sweepInterval_pos
      unfold Clock.later
      lia
  · rw [due, decide_eq_false ripe, if_neg nofun] at swept
    subst swept
    refine ⟨⟨?_, next, kept, ?_⟩, left, fun due found => ?_⟩
    · rw [allSendings_cons, sendings]
      exact own
    · rw [sweeps_cons, sweep?, if_neg ripe]
      exact (List.append_nil _).symm ▸ beats
    · cases kept.symm.trans found
      exact Nat.lt_of_not_le ripe

/-- Whatever happens before anything is late, the beat is kept and nothing becomes late. -/
theorem Timely.step {c : Call} (h : Timely s start past e) (steady : s.config.jitter = 0)
    (routine : c.isRoutine = true) (early : c.time < Clock.last) (waits : e.Awaits c.time)
    (made : e.step c = .ok (e', r)) :
    Timely s start (⟨e, c, r, e'⟩ :: past) e' ∧ e'.Awaits c.time := by
  have quiet : ∀ {c : Call} {r : Reply} {e' : Engine}, c.isRoutine = true →
      (∀ now, c ≠ .poll now) → OnBeat s start (allSendings past) e' → e'.nextSweep = e.nextSweep →
      Timely s start (⟨e, c, r, e'⟩ :: past) e' := by
    intro c r e' routine other own armed
    have nothing : Event.sendings ⟨e, c, r, e'⟩ = [] ∧ Event.sweep? ⟨e, c, r, e'⟩ = none := by
      cases c with
      | poll now => exact absurd rfl (other now)
      | sweep => cases routine
      | _ => exact ⟨rfl, rfl⟩
    obtain ⟨next, waits, beats⟩ := h.sweep
    refine ⟨?_, next, armed.trans waits, ?_⟩
    · rw [allSendings_cons, nothing.1, List.append_nil]
      exact own
    · rw [sweeps_cons, nothing.2, Option.toList_none, List.append_nil]
      exact beats
  cases step_does made with
  | start => cases routine
  | beacon brought taken =>
    have other : ∀ now, c ≠ .poll now := by
      rintro now rfl
      cases brought
    have armed := taken.nextSweep
    rcases taken.relays with queue | ⟨_, _, settled, _, _, -, queue, -, rfl⟩
    · exact ⟨quiet routine other (h.own.same queue) armed, waits.same queue armed⟩
    · refine ⟨quiet routine other ((h.own.same queue).relay rfl) armed, ?_, ?_⟩
      · intro u mem
        rcases Scheduler.mem_insertTask.mp mem with rfl | before
        · exact Nat.le_of_eq (Call.time_of_reception? brought).symm
        · exact waits.tasks u (queue.scheduler ▸ before)
      · rw [armed]
        exact waits.sweep
  | data other carried =>
    have armed := (packet_upkeep other made).nextSweep
    exact ⟨quiet rfl nofun (h.own.same carried.queue) armed, waits.same carried.queue armed⟩
  | frame bridged =>
    have armed := (frame_upkeep made).nextSweep
    exact ⟨quiet rfl nofun (h.own.same bridged.queue) armed, waits.same bridged.queue armed⟩
  | poll =>
    obtain ⟨timely, later⟩ := h.poll steady early waits made
    exact ⟨timely, later.mono (Nat.le_succ _)⟩
  | sweep => cases routine
  | shutdown => cases routine

end Engine

end BeaconMesh

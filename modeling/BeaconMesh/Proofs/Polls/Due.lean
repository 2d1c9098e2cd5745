import BeaconMesh.Proofs.Nodes.Beats
import BeaconMesh.Proofs.Polls.Arrivals

/-!
# What a poll does

A poll performs exactly the tasks that are due, in the order of their due times and, among equal
ones, in the order in which they came. What it leaves, its successors and the next sweep are due
later; and a poll before the deadline does nothing.
-/

namespace BeaconMesh

/-- Whether a node was started and was not shut down since; the last call comes first. -/
def isUp : List Call → Bool
  | [] => false
  | .start _ :: _ => true
  | .shutdown _ :: _ => false
  | _ :: earlier => isUp earlier

namespace Engine

variable {e e' settled : Engine} {now : Time} {t : Task} {ts : List Task} {r : Reply}

/-! ### The next sweep -/

theorem sweep_armed (armed : e.nextSweep.isSome = true) (now : Time) :
    (e.sweep now).nextSweep.isSome = true := by
  rw [sweep_nextSweep, Option.isSome_map]
  exact armed

theorem poll_end_armed (armed : settled.nextSweep.isSome = true) (now : Time) :
    (if settled.sweepDue now then settled.sweep now else settled).nextSweep.isSome = true := by
  split
  · exact sweep_armed armed now
  · exact armed

theorem History.armed {s : Setup} {jitter : Jitter} {past : List Event}
    (h : History (.new s jitter) past e) (up : isUp (past.map Event.call) = true) :
    e.nextSweep.isSome = true := by
  induction h with
  | nil => cases up
  | @call past e e' c r _ made ih =>
    cases step_does made with
    | start work => rw [(start_upkeep work).2, Option.isSome_some]
    | beacon brought taken =>
      rw [taken.nextSweep]
      cases c with
      | packet => exact ih up
      | beacon => exact ih up
      | _ => cases brought
    | data other _ =>
      rw [(packet_upkeep other made).nextSweep]
      exact ih up
    | frame =>
      rw [(frame_upkeep made).nextSweep]
      exact ih up
    | poll work =>
      apply poll_end_armed
      rw [work.upkeep.nextSweep]
      exact ih up
    | sweep now => exact sweep_armed (ih up) now
    | shutdown => cases up

/-! ### The tasks that are due -/

def due (e : Engine) (now : Time) : List Task := e.scheduler.tasks.filter fun t => t.due ≤ now

theorem perform_due (goesOn : now < Clock.last) (work : e.perform t now = .ok e') :
    e'.due now = e.due now := by
  rcases perform_cases work with ⟨-, rfl⟩ | ⟨iface, -, scheduled⟩
  · rfl
  · rcases scheduleOwn_cases scheduled with ⟨_, _, due, -, -, timed, rfl⟩ | ⟨-, rfl⟩
    · have later : now < due := by
        obtain ⟨due', timed', later⟩ := e.setup.ownDue_ok e.scheduler now
        cases timed.symm.trans timed'
        exact later goesOn
      exact Scheduler.filter_insertTask_of_not (decide_eq_false (Nat.not_le.mpr later))
    · rfl

theorem Performs.due (h : Performs now e ts e') (goesOn : now < Clock.last) :
    e.due now = ts ++ e'.due now := by
  induction h with
  | none => rfl
  | @task e next e' t ts scheduler popped work _ ih =>
    obtain ⟨tasks, ripe⟩ := Scheduler.tasks_of_pop? popped
    have rest : { e with scheduler }.due now = ts ++ e'.due now := by
      rw [← perform_due goesOn work]
      exact ih
    unfold Engine.due at rest ⊢
    rw [tasks, List.filter_cons, if_pos (decide_eq_true ripe), List.cons_append, ← rest]

theorem Inserts.sublist (h : Inserts e e') : e.scheduler.tasks.Sublist e'.scheduler.tasks := by
  rcases h with same | ⟨t, inserted⟩
  · rw [same]
  · rw [inserted]
    exact Scheduler.sublist_insertTask t _

theorem Performs.waiting (h : Performs now e ts e') :
    (e.scheduler.tasks.filter fun t => now < t.due).Sublist e'.scheduler.tasks := by
  induction h with
  | none => exact List.filter_sublist
  | @task e next e' t ts scheduler popped work _ ih =>
    obtain ⟨tasks, ripe⟩ := Scheduler.tasks_of_pop? popped
    rw [tasks, List.filter_cons_of_neg (by simpa using ripe)]
    exact ((perform_inserts work).sublist.filter _).trans ih

theorem InOrder.due_eq_nil (ordered : e.InOrder) (none : e.scheduler.pop? now = none) :
    e.due now = [] := by
  refine List.filter_eq_nil_iff.mpr fun t mem ripe => ?_
  have later := Scheduler.due_of_pop?_none ordered none mem
  exact Nat.not_le.mpr later (of_decide_eq_true ripe)

/-! ### Polls -/

theorem awaits_swept (goesOn : now < Clock.last)
    (waits : ∀ t ∈ settled.scheduler.tasks, now < t.due) :
    (if settled.sweepDue now then settled.sweep now else settled).Awaits (now + 1) := by
  by_cases ripe : settled.sweepDue now = true
  · rw [if_pos ripe]
    refine ⟨?_, fun next armed => ?_⟩
    · rw [(sweep_sweeps settled now).queue.scheduler]
      exact waits
    · rw [sweep_nextSweep] at armed
      obtain ⟨_, -, rfl⟩ := Option.map_eq_some_iff.mp armed
      have positive := settled.setup.valid.sweepInterval_pos
      exact Nat.lt_min.mpr ⟨Nat.lt_add_of_pos_right positive, goesOn⟩
  · rw [if_neg ripe]
    refine ⟨waits, fun next armed => ?_⟩
    unfold sweepDue at ripe
    rw [armed, decide_eq_true_eq] at ripe
    exact Nat.lt_of_not_le ripe

theorem deadline_of_armed (armed : e.nextSweep.isSome = true) :
    ∃ deadline, e.nextDeadline? = some deadline := by
  obtain ⟨next, armed⟩ := Option.isSome_iff_exists.mp armed
  unfold nextDeadline?
  rw [armed]
  cases e.scheduler.nextDue? with
  | none => exact ⟨next, rfl⟩
  | some first => exact ⟨min first next, rfl⟩

theorem SameQueue.poll_end (now : Time) (settled : Engine) :
    SameQueue settled (if settled.sweepDue now then settled.sweep now else settled) := by
  split
  · exact (sweep_sweeps settled now).queue
  · exact .refl settled

theorem Awaits.poll (h : e.Awaits (now + 1)) : e.poll now = .ok (e, 0) := by
  have idle : e.scheduler.pop? now = none := by
    unfold Scheduler.pop?
    split
    · rfl
    · rename_i t rest tasks
      have later := h.tasks t (by rw [tasks]; exact List.mem_cons_self)
      exact if_neg (Nat.not_le.mpr later)
  have awake : e.sweepDue now = false := by
    unfold sweepDue
    split
    · rename_i next armed
      exact decide_eq_false (Nat.not_le.mpr (h.sweep next armed))
    · rfl
  have drained : ∀ limit, e.drain now limit = .ok (e, 0) := by
    intro limit
    cases limit with
    | zero => rfl
    | succ limit => rw [drain, idle]
  have settled : e.performDue now = .ok (e, 0) := by
    unfold performDue
    rw [drained]
    show (if (e.scheduler.pop? now).isSome then _ else _) = _
    rw [idle]
    rfl
  unfold Engine.poll
  rw [settled]
  show Except.ok (if e.sweepDue now then e.sweep now else e, 0) = _
  rw [awake]
  rfl

theorem poll_due (ordered : e.InOrder) (goesOn : now < Clock.last) :
    ∃ settled, Performs now e (e.due now) settled ∧
      (∀ t ∈ settled.scheduler.tasks, now < t.due) ∧
      e.poll now = .ok (if settled.sweepDue now then settled.sweep now else settled,
        (e.due now).length) := by
  obtain ⟨settled, count, work⟩ := e.performDue_ok goesOn
  obtain ⟨performs, rfl, drained⟩ := performDue_performs work
  have after := inOrder_invariant.performs performs ordered
  have exact : e.due now = e.performed now e.scheduler.size := by
    rw [performs.due goesOn, after.due_eq_nil drained, List.append_nil]
  refine ⟨settled, exact ▸ performs, fun t mem => ?_, ?_⟩
  · exact Scheduler.due_of_pop?_none after drained mem
  · unfold Engine.poll
    rw [work, exact]
    rfl

/-- A poll performs exactly the tasks that are due, by their due times and then as they came. -/
theorem poll_performs_due {s : Setup} {jitter : Jitter} {past : List Event} {e : Engine}
    {now : Time} (h : History (.new s jitter) past e) (up : isUp (past.map Event.call) = true)
    (goesOn : now < Clock.last) :
    ∃ settled e', e.poll now = .ok (e', (e.due now).length) ∧
      Performs now e (e.due now) settled ∧
      e' = (if settled.sweepDue now then settled.sweep now else settled) ∧
      (e.due now).Pairwise (fun t u => t.due ≤ u.due) ∧
      (∀ time, ((e.due now).filter fun t => t.due = time) <:+
        (arrivals past).filter fun t => t.due = time) ∧
      (e.scheduler.tasks.filter fun t => now < t.due).Sublist e'.scheduler.tasks ∧
      (∀ t ∈ e'.scheduler.tasks, now < t.due) ∧
      (∃ deadline, e'.nextDeadline? = some deadline ∧ now < deadline) ∧
      ((∀ deadline, e.nextDeadline? = some deadline → now < deadline) →
        e.poll now = .ok (e, 0)) := by
  have queued := h.queued
  have ordered : e.InOrder := queued.ordered
  obtain ⟨settled, performs, later, polled⟩ := poll_due ordered goesOn
  have queue := SameQueue.poll_end now settled
  have waits := awaits_swept goesOn later
  have after := inOrder_invariant.same queue (inOrder_invariant.performs performs ordered)
  refine ⟨settled, _, polled, performs, rfl, ordered.filter _, fun time => ?_, ?_, waits.tasks, ?_,
    fun early => ((awaits_iff ordered).mpr early).poll⟩
  · -- the due tasks of one due time are all or none of those that are queued for it
    by_cases ripe : time ≤ now
    · have all : ((e.due now).filter fun t => t.due = time) =
          e.scheduler.tasks.filter fun t => t.due = time := by
        unfold due
        rw [List.filter_filter]
        refine List.filter_congr fun t _ => ?_
        by_cases same : t.due = time <;> simp [same, ripe]
      rw [all]
      exact queued.last time
    · have none : ((e.due now).filter fun t => t.due = time) = [] := by
        refine List.filter_eq_nil_iff.mpr fun t mem same => ripe ?_
        rw [← of_decide_eq_true same]
        exact of_decide_eq_true (List.mem_filter.mp mem).2
      rw [none]
      exact List.nil_suffix
  · rw [queue.scheduler]
    exact performs.waiting
  · have armed : settled.nextSweep.isSome = true := by
      rw [performs.upkeep.nextSweep]
      exact h.armed up
    obtain ⟨deadline, found⟩ := deadline_of_armed (poll_end_armed armed now)
    exact ⟨deadline, found, (awaits_iff after).mp waits deadline found⟩

/-- After the sample run, two relays wait, and a beacon of ours for each interface at one time. -/
theorem poll_performs_due_sample :
    ∃ past e settled e', (Engine.new Sample.setup default).run Sample.calls = .ok e ∧
      History (.new Sample.setup default) past e ∧
      (e.due 1900).map Task.due = [1002, 1003, 1900, 1900] ∧
      e.poll 1900 = .ok (e', (e.due 1900).length) ∧ Performs 1900 e (e.due 1900) settled ∧
      (∀ time, ((e.due 1900).filter fun t => t.due = time) <:+
        (arrivals past).filter fun t => t.due = time) ∧
      ∃ deadline, e'.nextDeadline? = some deadline ∧ 1900 < deadline := by
  have reached : ∃ e, (Engine.new Sample.setup default).run Sample.calls = .ok e ∧
      (e.due 1900).map Task.due = [1002, 1003, 1900, 1900] :=
    ⟨_, rfl, rfl⟩
  obtain ⟨e, run, waits⟩ := reached
  obtain ⟨past, history, calls⟩ := run_iff_history.mp run
  have up : isUp (past.map Event.call) = true := by
    have reversed : past.map Event.call = Sample.calls.reverse := by
      rw [← calls, List.map_reverse, List.reverse_reverse]
    rw [reversed]
    rfl
  obtain ⟨settled, e', polled, performs, -, -, order, -, -, later, -⟩ :=
    poll_performs_due history up (by decide : 1900 < Clock.last)
  exact ⟨past, e, settled, e', run, history, waits, polled, performs, order, later⟩

end Engine

end BeaconMesh

import BeaconMesh.Proofs.Engine.History
import BeaconMesh.Proofs.Faults.Bounds
import BeaconMesh.Proofs.Faults.Polls
import BeaconMesh.Proofs.Relays.Queue

/-!
# When a poll ends

A beacon of ours that is performed leaves a successor in the queue. Before the end of the clock the
successor is due later, so the drain comes to an end; at the last reading there is no later, and the
successor is due at once. So a poll at that reading ends exactly if no beacon of ours waits
(`poll_ends_iff`).
-/

namespace BeaconMesh.Engine

variable {s : Setup} {e e' : Engine} {now : Time} {t : Task} {scheduler : Scheduler}

/-- Whether there comes a point at which no task is due any more. -/
def DrainEnds (e : Engine) (now : Time) : Prop :=
  ∃ limit mid count, e.drain now limit = .ok (mid, count) ∧ mid.scheduler.pop? now = none

/-- Whether a beacon of ours waits. -/
def OwnWaits (e : Engine) : Prop := ∃ t ∈ e.scheduler.tasks, t.own = true

theorem performed_length_le (e : Engine) (now : Time) (limit : Nat) :
    (e.performed now limit).length ≤ limit := by
  induction limit generalizing e with
  | zero => exact Nat.le_refl 0
  | succ limit ih =>
    unfold performed
    split
    · split
      · exact Nat.succ_le_succ (ih _)
      · exact Nat.zero_le _
    · exact Nat.zero_le _

theorem drain_of_popped {next mid : Engine} {limit count : Nat}
    (popped : e.scheduler.pop? now = some (t, scheduler))
    (work : { e with scheduler }.perform t now = .ok next)
    (tail : next.drain now limit = .ok (mid, count)) :
    e.drain now (limit + 1) = .ok (mid, count + 1) := by
  unfold drain
  rw [popped]
  dsimp only
  rw [work]
  change next.drain now limit >>= _ = _
  rw [tail]
  rfl

/-! ### Without a beacon of ours -/

theorem drain_relays {limit : Nat} (relays : ¬ e.OwnWaits) (few : e.scheduler.size ≤ limit) :
    ∃ mid count, e.drain now limit = .ok (mid, count) ∧ mid.scheduler.pop? now = none := by
  induction limit generalizing e with
  | zero =>
    refine ⟨e, 0, rfl, ?_⟩
    unfold Scheduler.pop?
    rw [List.length_eq_zero_iff.mp (Nat.le_zero.mp few)]
  | succ limit ih =>
    cases popped : e.scheduler.pop? now with
    | none => exact ⟨e, 0, by rw [drain, popped], popped⟩
    | some taken =>
      obtain ⟨t, scheduler⟩ := taken
      obtain ⟨tasks, -⟩ := Scheduler.tasks_of_pop? popped
      have relay : t.ownIface? = none := by
        refine if_neg fun own => relays ⟨t, ?_, own⟩
        rw [tasks]
        exact List.mem_cons_self
      obtain ⟨next, work, -⟩ := { e with scheduler }.perform_ok t now
      have sent : next = { e with scheduler }.send t.beacon (t.targets e.setup.ifaces) := by
        rcases perform_cases work with ⟨-, same⟩ | ⟨iface, own, -⟩
        · exact same
        · cases relay.symm.trans own
      have queue : next.scheduler = scheduler := congrArg Engine.scheduler sent
      obtain ⟨mid, count, tail, done⟩ := ih (e := next)
        (by
          rintro ⟨u, mem, own⟩
          rw [queue] at mem
          exact relays ⟨u, by rw [tasks]; exact List.mem_cons_of_mem t mem, own⟩)
        (by
          rw [queue]
          unfold Scheduler.size at few ⊢
          rw [tasks, List.length_cons] at few
          exact Nat.le_of_succ_le_succ few)
      exact ⟨mid, count + 1, drain_of_popped popped work tail, done⟩

theorem drain_size_ends (ends : now < Clock.last ∨ ¬ e.OwnWaits) :
    ∃ mid count, e.drain now e.scheduler.size = .ok (mid, count) ∧
      mid.scheduler.pop? now = none := by
  rcases ends with goesOn | relays
  · obtain ⟨mid, count, work, done⟩ := e.drain_ok now e.scheduler.size
    exact ⟨mid, count, work, done goesOn (e.scheduler.dueCount_le_size now)⟩
  · exact drain_relays relays (Nat.le_refl _)

theorem poll_of_drain {mid : Engine} {count : Nat}
    (work : e.drain now e.scheduler.size = .ok (mid, count)) :
    e.poll now = if (mid.scheduler.pop? now).isSome then .error .endless
      else .ok (if mid.sweepDue now then mid.sweep now else mid, count) := by
  unfold poll performDue
  rw [work]
  change (if (mid.scheduler.pop? now).isSome then _ else _) >>= _ = _
  split <;> rfl

/-! ### At the end of the clock -/

/-- Whether the beacons of ours in the queue are due on the clock, each for an interface. -/
def OwnTimed (e : Engine) : Prop := ∀ t ∈ e.scheduler.tasks, t.own = true →
  t.due ≤ Clock.last ∧ ∃ iface < e.setup.ifaces.length, t.out = some iface

theorem ownDue_le_last {p : Pacing} {q : Scheduler} {due : Time} (h : q.ownDue p now = .ok due) :
    due ≤ Clock.last := by
  obtain ⟨early, -, h⟩ := Fault.bind_ok h
  cases Fault.pure_ok h
  exact Clock.later_le_last _ _

theorem scheduleOwn_ownTimed {iface : IfaceId} (h : e.scheduleOwn iface now = .ok e')
    (timed : e.OwnTimed) : e'.OwnTimed := by
  rcases scheduleOwn_cases h with ⟨here, counter, due, known, -, drawn, rfl⟩ | ⟨-, rfl⟩
  · obtain ⟨inRange, -⟩ := List.getElem?_eq_some_iff.mp known
    intro t mem own
    rcases Scheduler.mem_insertTask.mp mem with rfl | old
    · exact ⟨ownDue_le_last drawn, iface, inRange, rfl⟩
    · exact timed t old own
  · exact timed

theorem ownTimed_invariant : QueueInvariant OwnTimed where
  same {e e'} queue timed := by
    unfold OwnTimed
    rw [queue.scheduler, queue.setup]
    exact timed
  relay {e t} relay timed u mem own := by
    rcases Scheduler.mem_insertTask.mp mem with rfl | old
    · cases relay.symm.trans own
    · exact timed u old own
  perform {e e' t scheduler now} popped work timed := by
    obtain ⟨tasks, -⟩ := Scheduler.tasks_of_pop? popped
    have rest : { e with scheduler }.OwnTimed := by
      intro u mem own
      exact timed u (by rw [tasks]; exact List.mem_cons_of_mem t mem) own
    rcases perform_cases work with ⟨-, rfl⟩ | ⟨iface, -, scheduled⟩
    · exact rest
    · exact scheduleOwn_ownTimed (e := sendOwn { e with scheduler } t iface) scheduled rest
  clear _ := nofun

/-- Whether a beacon of ours waits, and will have a successor when it is performed. -/
structure Renewing (e : Engine) : Prop where
  counted : e.Counted
  ordered : e.InOrder
  timed : e.OwnTimed
  waits : e.OwnWaits

theorem Renewing.popped (h : e.Renewing) :
    ∃ t scheduler, e.scheduler.pop? Clock.last = some (t, scheduler) := by
  obtain ⟨t, mem, own⟩ := h.waits
  obtain ⟨onClock, -⟩ := h.timed t mem own
  cases popped : e.scheduler.pop? Clock.last with
  | none => exact absurd (Scheduler.due_of_pop?_none h.ordered popped mem) (Nat.not_lt.mpr onClock)
  | some p => exact ⟨p.1, p.2, rfl⟩

theorem scheduleOwn_ownWaits {iface : IfaceId} (counted : e.Counted)
    (inRange : iface < e.setup.ifaces.length) (h : e.scheduleOwn iface now = .ok e') :
    e'.OwnWaits := by
  rcases scheduleOwn_cases h with ⟨_, _, _, -, -, -, rfl⟩ | ⟨unknown | uncounted, -⟩
  · exact ⟨_, Scheduler.mem_insertTask.mpr (.inl rfl), rfl⟩
  · exact absurd inRange (Nat.not_lt.mpr (List.getElem?_eq_none_iff.mp unknown))
  · have few := List.getElem?_eq_none_iff.mp uncounted
    rw [counted] at few
    exact absurd inRange (Nat.not_lt.mpr few)

/-- A task that is performed leaves a beacon of ours: its successor, or the one that waited. -/
theorem Renewing.perform (h : e.Renewing) (popped : e.scheduler.pop? now = some (t, scheduler))
    (work : { e with scheduler }.perform t now = .ok e') : e'.Renewing := by
  refine ⟨counted_invariant.perform popped work h.counted,
    inOrder_invariant.perform popped work h.ordered,
    ownTimed_invariant.perform popped work h.timed, ?_⟩
  obtain ⟨tasks, -⟩ := Scheduler.tasks_of_pop? popped
  rcases perform_cases work with ⟨relay, rfl⟩ | ⟨iface, own, scheduled⟩
  · obtain ⟨u, mem, own⟩ := h.waits
    rw [tasks] at mem
    rcases List.mem_cons.mp mem with rfl | behind
    · obtain ⟨-, iface, -, out⟩ := h.timed u (tasks ▸ List.mem_cons_self) own
      rw [Task.ownIface?, if_pos own, out] at relay
      cases relay
    · exact ⟨u, behind, own⟩
  · have ours : t.own = true ∧ t.out = some iface := by
      unfold Task.ownIface? at own
      split at own
      · rename_i same
        exact ⟨same, own⟩
      · cases own
    obtain ⟨-, _, inRange, out⟩ := h.timed t (tasks ▸ List.mem_cons_self) ours.1
    cases ours.2.symm.trans out
    have counted : (sendOwn { e with scheduler } t iface).Counted :=
      (List.length_modify _ _ _).trans h.counted
    exact scheduleOwn_ownWaits counted inRange scheduled

/-- So at the last reading any number of tasks can be performed, and there is another one. -/
theorem Renewing.drain (h : e.Renewing) (n : Nat) :
    ∃ mid, e.drain Clock.last n = .ok (mid, n) ∧ mid.Renewing := by
  induction n generalizing e with
  | zero => exact ⟨e, rfl, h⟩
  | succ n ih =>
    obtain ⟨t, scheduler, popped⟩ := h.popped
    obtain ⟨next, work, -⟩ := { e with scheduler }.perform_ok t Clock.last
    obtain ⟨mid, tail, renewing⟩ := ih (h.perform popped work)
    exact ⟨mid, drain_of_popped popped work tail, renewing⟩

theorem Renewing.not_drainEnds (h : e.Renewing) : ¬ e.DrainEnds Clock.last := by
  rintro ⟨limit, mid, count, work, idle⟩
  obtain ⟨_, goesOn, renewing⟩ := h.drain limit
  cases goesOn.symm.trans work
  obtain ⟨t, scheduler, popped⟩ := renewing.popped
  cases popped.symm.trans idle

theorem Renewing.poll (h : e.Renewing) : e.poll Clock.last = .error .endless := by
  obtain ⟨mid, work, renewing⟩ := h.drain e.scheduler.size
  obtain ⟨t, scheduler, popped⟩ := renewing.popped
  rw [poll_of_drain work, popped]
  rfl

theorem run_renewing {jitter : Jitter} {cs : List Call}
    (h : (Engine.new s jitter).run cs = .ok e) (waits : e.OwnWaits) : e.Renewing where
  counted := counted_invariant.run (counted_invariant.start scheduleOwn_counted) h
    List.length_replicate
  ordered := run_inOrder h
  timed := ownTimed_invariant.run (ownTimed_invariant.start scheduleOwn_ownTimed) h nofun
  waits := waits

/-- A poll comes to an end exactly if the clock goes on or no beacon of ours waits. -/
theorem poll_ends_iff {jitter : Jitter} {cs : List Call}
    (h : (Engine.new s jitter).run cs = .ok e) (reading : now ≤ Clock.last) :
    (e.DrainEnds now ↔ now < Clock.last ∨ ¬ e.OwnWaits) ∧
    (e.DrainEnds now → ∃ e' count, e.poll now = .ok (e', count) ∧ count ≤ e.scheduler.size) ∧
    (¬ e.DrainEnds now → e.poll now = .error .endless ∧ ∀ n, ∃ mid,
      e.drain now n = .ok (mid, n) ∧ (mid.scheduler.pop? now).isSome = true) := by
  by_cases ends : now < Clock.last ∨ ¬ e.OwnWaits
  · obtain ⟨mid, count, work, idle⟩ := drain_size_ends ends
    have drains : e.DrainEnds now := ⟨_, mid, count, work, idle⟩
    refine ⟨iff_of_true drains ends, fun _ => ?_, fun endless => absurd drains endless⟩
    rw [poll_of_drain work, idle]
    obtain ⟨-, counted⟩ := drain_performs work
    exact ⟨_, count, rfl, counted ▸ e.performed_length_le now _⟩
  · have renewing : e.Renewing := run_renewing h (Classical.not_not.mp fun none => ends (.inr none))
    obtain rfl : now = Clock.last :=
      Nat.le_antisymm reading (Nat.le_of_not_lt fun goesOn => ends (.inl goesOn))
    have endless := renewing.not_drainEnds
    refine ⟨iff_of_false endless ends, fun drains => absurd drains endless, fun _ => ?_⟩
    refine ⟨renewing.poll, fun n => ?_⟩
    obtain ⟨mid, work, next⟩ := renewing.drain n
    obtain ⟨t, scheduler, popped⟩ := next.popped
    exact ⟨mid, work, popped ▸ rfl⟩

/-- After its start a node has beacons of its own in the queue: it can be polled at any reading but
the last. -/
theorem poll_ends_iff_sample :
    ∃ e, (Engine.new Sample.setup default).run Sample.calls = .ok e ∧ e.OwnWaits ∧
      e.DrainEnds 1900 ∧
      (∃ e' count, e.poll 1900 = .ok (e', count) ∧ count ≤ e.scheduler.size) ∧
      ¬ e.DrainEnds Clock.last ∧ e.poll Clock.last = .error .endless := by
  have reached : ∃ e t, (Engine.new Sample.setup default).run Sample.calls = .ok e ∧
      e.scheduler.tasks.getLast? = some t ∧ t.own = true := ⟨_, _, rfl, rfl, rfl⟩
  obtain ⟨e, t, run, last, own⟩ := reached
  have waits : e.OwnWaits := ⟨t, List.mem_of_getLast? last, own⟩
  obtain ⟨before, polled, -⟩ := poll_ends_iff run (by decide : 1900 ≤ Clock.last)
  obtain ⟨atLast, -, endless⟩ := poll_ends_iff run (Nat.le_refl _)
  have drains : e.DrainEnds 1900 := before.mpr (.inl (by decide))
  have goesOn : ¬ e.DrainEnds Clock.last :=
    fun ends => (atLast.mp ends).elim (Nat.lt_irrefl _) (absurd waits)
  exact ⟨e, run, waits, drains, polled drains, goesOn, (endless goesOn).1⟩

/-- A node that has just started, polled at the last reading of the clock. -/
theorem poll_never_ends :
    ∃ e, (Engine.new Sample.setup default).run [.start 0] = .ok e ∧
      ¬ e.DrainEnds Clock.last ∧ e.poll Clock.last = .error .endless := by
  have reached : ∃ e t, (Engine.new Sample.setup default).run [.start 0] = .ok e ∧
      e.scheduler.tasks.getLast? = some t ∧ t.own = true := ⟨_, _, rfl, rfl, rfl⟩
  obtain ⟨e, t, run, last, own⟩ := reached
  have renewing := run_renewing run ⟨t, List.mem_of_getLast? last, own⟩
  exact ⟨e, run, renewing.not_drainEnds, renewing.poll⟩

end BeaconMesh.Engine

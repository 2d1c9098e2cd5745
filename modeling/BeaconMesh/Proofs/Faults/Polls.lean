import BeaconMesh.Proofs.Engine.Calls
import BeaconMesh.Proofs.Faults.Arithmetic

/-!
# Polls end

Any task can be performed, and what it leaves in the queue is due later, as long as the clock goes
on. So every task that a drain performs brings the number of due tasks down by one, and no more are
due at the start than are queued.
-/

namespace BeaconMesh

namespace Scheduler

variable {q q' : Scheduler} {now : Time} {t : Task}

def dueCount (q : Scheduler) (now : Time) : Nat := q.tasks.countP fun t => t.due ≤ now

theorem dueCount_le_size (q : Scheduler) (now : Time) : q.dueCount now ≤ q.size :=
  List.countP_le_length

theorem dueCount_enqueue (later : now < t.due) : (q.enqueue t).dueCount now = q.dueCount now := by
  unfold dueCount enqueue
  rw [(insertTask_perm t q.tasks).countP_eq, List.countP_cons_of_neg]
  simpa using later

theorem dueCount_of_pop? (h : q.pop? now = some (t, q')) :
    q.dueCount now = q'.dueCount now + 1 := by
  obtain ⟨tasks, due⟩ := tasks_of_pop? h
  unfold dueCount
  rw [tasks]
  exact List.countP_cons_of_pos (decide_eq_true due)

theorem pop?_of_dueCount (h : q.dueCount now = 0) : q.pop? now = none := by
  refine Option.eq_none_iff_forall_ne_some.mpr fun ⟨t, q'⟩ popped => ?_
  rw [dueCount_of_pop? popped] at h
  exact absurd h (Nat.succ_ne_zero _)

end Scheduler

namespace Engine

variable {e e' : Engine} {now : Time}

theorem scheduleOwn_ok (e : Engine) (iface : IfaceId) (now : Time) :
    ∃ e', e.scheduleOwn iface now = .ok e' ∧
      (now < Clock.last → e'.scheduler.dueCount now = e.scheduler.dueCount now) := by
  unfold scheduleOwn
  split
  · rename_i here counter _ _
    obtain ⟨due, timed, later⟩ := e.setup.ownDue_ok e.scheduler now
    unfold Scheduler.enqueueOwn
    rw [timed]
    refine ⟨_, rfl, fun goesOn => ?_⟩
    exact Scheduler.dueCount_enqueue (later goesOn)
  · exact ⟨e, rfl, fun _ => rfl⟩

theorem foldlM_scheduleOwn_ok (ifaces : List IfaceId) (e : Engine) (now : Time) :
    ∃ e', ifaces.foldlM (fun e iface => e.scheduleOwn iface now) e = .ok e' := by
  induction ifaces generalizing e with
  | nil => exact ⟨e, rfl⟩
  | cons iface rest ih =>
    obtain ⟨next, first, -⟩ := e.scheduleOwn_ok iface now
    rw [List.foldlM_cons, first]
    exact ih next

theorem start_ok (e : Engine) (now : Time) : ∃ e', e.start now = .ok e' := by
  obtain ⟨started, scheduled⟩ :=
    foldlM_scheduleOwn_ok (List.range e.setup.ifaces.length) e now
  unfold start
  rw [scheduled]
  exact ⟨_, rfl⟩

/-- A task can be performed, and adds nothing to what is due. -/
theorem perform_ok (e : Engine) (t : Task) (now : Time) :
    ∃ e', e.perform t now = .ok e' ∧
      (now < Clock.last → e'.scheduler.dueCount now = e.scheduler.dueCount now) := by
  unfold perform
  dsimp only
  split
  · rename_i iface _
    exact scheduleOwn_ok _ iface now
  · exact ⟨_, rfl, fun _ => rfl⟩

/-- Once as many tasks were performed as were due, nothing is left to do. -/
theorem drain_ok (e : Engine) (now : Time) (limit : Nat) :
    ∃ e' count, e.drain now limit = .ok (e', count) ∧
      (now < Clock.last → e.scheduler.dueCount now ≤ limit → e'.scheduler.pop? now = none) := by
  induction limit generalizing e with
  | zero =>
    refine ⟨e, 0, rfl, fun _ few => ?_⟩
    exact Scheduler.pop?_of_dueCount (Nat.eq_zero_of_le_zero few)
  | succ limit ih =>
    unfold drain
    split
    · rename_i t scheduler popped
      obtain ⟨next, work, same⟩ := { e with scheduler }.perform_ok t now
      obtain ⟨drained, count, tail, done⟩ := ih next
      rw [work]
      change ∃ e' count, (next.drain now limit >>= _) = _ ∧ _
      rw [tail]
      refine ⟨drained, count + 1, rfl, fun goesOn few => done goesOn ?_⟩
      have fewer := Scheduler.dueCount_of_pop? popped
      have kept : next.scheduler.dueCount now = scheduler.dueCount now := same goesOn
      omega
    · rename_i popped
      exact ⟨e, 0, rfl, fun _ _ => popped⟩

theorem performDue_ok (e : Engine) {now : Time} (goesOn : now < Clock.last) :
    ∃ e' count, e.performDue now = .ok (e', count) := by
  obtain ⟨drained, count, work, done⟩ := e.drain_ok now e.scheduler.size
  have none := done goesOn (e.scheduler.dueCount_le_size now)
  unfold performDue
  rw [work]
  change ∃ e' count, (if (drained.scheduler.pop? now).isSome then _ else _) = _
  rw [none]
  exact ⟨drained, count, rfl⟩

theorem poll_ok (e : Engine) {now : Time} (goesOn : now < Clock.last) :
    ∃ e' count, e.poll now = .ok (e', count) := by
  obtain ⟨settled, count, work⟩ := e.performDue_ok goesOn
  unfold poll
  rw [work]
  exact ⟨_, count, rfl⟩

theorem poll_fault {cause : Fault} (h : e.poll now = .error cause) :
    cause = .endless ∧ Clock.last ≤ now := by
  have ended : Clock.last ≤ now := by
    refine Nat.le_of_not_lt fun goesOn => ?_
    obtain ⟨_, _, polled⟩ := e.poll_ok goesOn
    cases h.symm.trans polled
  refine ⟨?_, ended⟩
  rcases Fault.bind_error h with h | ⟨_, _, swept⟩
  · rcases Fault.bind_error h with undone | ⟨⟨drained, count⟩, _, left⟩
    · obtain ⟨_, _, work, -⟩ := e.drain_ok now e.scheduler.size
      cases work.symm.trans undone
    · dsimp only at left
      split at left
      · cases left
        rfl
      · cases left
  · cases swept

end Engine

end BeaconMesh

import BeaconMesh.Proofs.Relays.Queue
import BeaconMesh.Proofs.Sending.OwnBeacons
import Mathlib.Data.Multiset.AddSub

/-!
# Who came first

`arrivals` lists every task that calls put into the queue, in the order in which they did. Tasks of
equal due times leave in that order: what the queue holds of them are the last that came
(`Queued`).
-/

namespace BeaconMesh

/-! ### The queue -/

namespace Scheduler

variable {t : Task} {ts log : List Task}

theorem filter_insertTask (ordered : Ordered ts) (t : Task) :
    ((insertTask t ts).filter fun u => u.due = t.due) =
      (ts.filter fun u => u.due = t.due) ++ [t] := by
  induction ts with
  | nil => simp [insertTask]
  | cons u rest ih =>
    obtain ⟨first, others⟩ := List.pairwise_cons.mp ordered
    unfold insertTask
    split
    · rw [List.filter_cons, ih others, List.filter_cons]
      split <;> rfl
    · rename_i early
      -- everything that stands behind is due later
      have none : ((u :: rest).filter fun v => v.due = t.due) = [] := by
        refine List.filter_eq_nil_iff.mpr fun v mem same => early ?_
        rw [← of_decide_eq_true same]
        rcases List.mem_cons.mp mem with rfl | behind
        · exact Nat.le_refl _
        · exact first v behind
      have first : decide (t.due = t.due) = true := decide_eq_true rfl
      rw [List.filter_cons, if_pos first, none]
      rfl

theorem sublist_insertTask (t : Task) (ts : List Task) : ts.Sublist (insertTask t ts) := by
  induction ts with
  | nil => exact List.nil_sublist _
  | cons u rest ih =>
    unfold insertTask
    split
    · exact ih.cons_cons u
    · exact List.sublist_cons_self t _

/-- Whether a queue is in order, and holds for every due time the last of the tasks that came. -/
structure Queued (log ts : List Task) : Prop where
  ordered : Ordered ts
  last : ∀ due, (ts.filter fun t => t.due = due) <:+ log.filter fun t => t.due = due

theorem queued_nil (log : List Task) : Queued log [] := ⟨.nil, fun _ => List.nil_suffix⟩

theorem Queued.insert (h : Queued log ts) (t : Task) : Queued (log ++ [t]) (insertTask t ts) where
  ordered := ordered_insertTask t h.ordered
  last due := by
    rw [List.filter_append]
    by_cases same : t.due = due
    · subst same
      obtain ⟨earlier, split⟩ := h.last t.due
      have one : ([t].filter fun u => u.due = t.due) = [t] := by simp
      rw [filter_insertTask h.ordered, ← split, one]
      exact ⟨earlier, (List.append_assoc _ _ _).symm⟩
    · rw [filter_insertTask_of_not (decide_eq_false same),
        List.filter_cons_of_neg (by simpa using same), List.filter_nil, List.append_nil]
      exact h.last due

theorem Queued.tail (h : Queued log (t :: ts)) : Queued log ts where
  ordered := (List.pairwise_cons.mp h.ordered).2
  last due := by
    have shorter : (ts.filter fun u => u.due = due) <:+ (t :: ts).filter fun u => u.due = due := by
      rw [List.filter_cons]
      split
      · exact List.suffix_cons _ _
      · exact List.suffix_refl _
    exact shorter.trans (h.last due)

end Scheduler

namespace Engine

open Scheduler (Queued insertTask)

variable {e e' next : Engine} {now : Time} {t : Task} {log : List Task} {iface : IfaceId}

/-! ### What arrives -/

/-- The tasks that the queue of a state has beyond those of another. -/
def added (e e' : Engine) : List Task := e'.scheduler.tasks.diff e.scheduler.tasks

/-- Whether the queues differ by one task at most, which was put into its place. -/
def Inserts (e e' : Engine) : Prop :=
  e'.scheduler.tasks = e.scheduler.tasks ∨
    ∃ t, e'.scheduler.tasks = insertTask t e.scheduler.tasks

theorem added_of_same (same : e'.scheduler.tasks = e.scheduler.tasks) : e.added e' = [] := by
  unfold added
  rw [same]
  refine List.perm_nil.mp (Multiset.coe_eq_coe.mp ?_)
  rw [← Multiset.coe_sub]
  ext u
  rw [Multiset.count_sub, Nat.sub_self]
  rfl

theorem added_of_insert (inserted : e'.scheduler.tasks = insertTask t e.scheduler.tasks) :
    e.added e' = [t] := by
  have perm : (insertTask t e.scheduler.tasks : Multiset Task) = {t} + e.scheduler.tasks :=
    Multiset.coe_eq_coe.mpr (Scheduler.insertTask_perm t e.scheduler.tasks)
  unfold added
  rw [inserted]
  refine List.perm_singleton.mp (Multiset.coe_eq_coe.mp ?_)
  rw [← Multiset.coe_sub, perm, Multiset.add_sub_cancel_right]
  rfl

theorem Inserts.queued (h : Inserts e e') (queued : Queued log e.scheduler.tasks) :
    Queued (log ++ e.added e') e'.scheduler.tasks := by
  rcases h with same | ⟨t, inserted⟩
  · rw [added_of_same same, List.append_nil, same]
    exact queued
  · rw [added_of_insert inserted, inserted]
    exact queued.insert t

theorem SameQueue.inserts (h : SameQueue e e') : Inserts e e' :=
  .inl (congrArg Scheduler.tasks h.scheduler)

theorem scheduleOwn_inserts (h : e.scheduleOwn iface now = .ok e') : Inserts e e' := by
  rcases scheduleOwn_cases h with ⟨_, _, _, -, -, -, rfl⟩ | ⟨-, rfl⟩
  · exact .inr ⟨_, rfl⟩
  · exact .inl rfl

theorem perform_inserts (h : e.perform t now = .ok e') : Inserts e e' := by
  rcases perform_cases h with ⟨-, rfl⟩ | ⟨iface, -, scheduled⟩
  · exact .inl rfl
  · exact scheduleOwn_inserts (e := e.sendOwn t iface) scheduled

theorem Takes.inserts {b : Beacon} {hop : Hop} {outcome : PacketOutcome}
    (h : e.Takes b hop now outcome e') : Inserts e e' := by
  obtain ⟨settled, queue, rfl | ⟨t, -, rfl⟩⟩ := h.queue
  · exact queue.inserts
  · refine .inr ⟨t, ?_⟩
    rw [← queue.scheduler]
    rfl

/-- The tasks that a start puts into the queue, interface by interface. -/
def firstBeacons (e : Engine) (now : Time) : List IfaceId → List Task
  | [] => []
  | iface :: rest =>
    match e.scheduleOwn iface now with
    | .ok next => e.added next ++ next.firstBeacons now rest
    | .error _ => []

/-- The tasks that a drain puts into the queue, task by task. -/
def successors (e : Engine) (now : Time) : Nat → List Task
  | 0 => []
  | limit + 1 =>
    match e.scheduler.pop? now with
    | some (t, scheduler) =>
      match { e with scheduler }.perform t now with
      | .ok next => { e with scheduler }.added next ++ next.successors now limit
      | .error _ => []
    | none => []

theorem firstBeacons_queued {ifaces : List IfaceId}
    (h : ifaces.foldlM (fun e iface => e.scheduleOwn iface now) e = .ok e')
    (queued : Queued log e.scheduler.tasks) :
    Queued (log ++ e.firstBeacons now ifaces) e'.scheduler.tasks := by
  induction ifaces generalizing e log with
  | nil =>
    cases h
    rw [firstBeacons, List.append_nil]
    exact queued
  | cons iface rest ih =>
    rw [List.foldlM_cons] at h
    obtain ⟨next, first, h⟩ := Fault.bind_ok h
    rw [firstBeacons, first]
    dsimp only
    rw [← List.append_assoc]
    exact ih h ((scheduleOwn_inserts first).queued queued)

theorem drain_queued {limit count : Nat} (h : e.drain now limit = .ok (e', count))
    (queued : Queued log e.scheduler.tasks) :
    Queued (log ++ e.successors now limit) e'.scheduler.tasks := by
  induction limit generalizing e log count with
  | zero =>
    cases h
    rw [successors, List.append_nil]
    exact queued
  | succ limit ih =>
    rw [drain] at h
    rw [successors]
    cases popped : e.scheduler.pop? now with
    | some taken =>
      obtain ⟨t, scheduler⟩ := taken
      rw [popped] at h
      obtain ⟨next, work, h⟩ := Fault.bind_ok h
      obtain ⟨⟨drained, rest⟩, tail, h⟩ := Fault.bind_ok h
      cases Fault.pure_ok h
      rw [(Scheduler.tasks_of_pop? popped).1] at queued
      dsimp only
      rw [work]
      dsimp only
      rw [← List.append_assoc]
      exact ih tail ((perform_inserts work).queued queued.tail)
    | none =>
      rw [popped] at h
      cases h
      rw [List.append_nil]
      exact queued

end Engine

/-- The tasks that a call put into the queue, in their order. -/
def Event.arrivals (x : Event) : List Task :=
  match x.call with
  | .start now => x.before.firstBeacons now (List.range x.before.setup.ifaces.length)
  | .poll now => x.before.successors now x.before.scheduler.size
  | .shutdown _ => []
  | _ => x.before.added x.after

/-- The tasks that the calls of a history put into the queue, in their order. -/
def arrivals (past : List Event) : List Task := past.reverse.flatMap Event.arrivals

theorem arrivals_cons (x : Event) (past : List Event) :
    arrivals (x :: past) = arrivals past ++ x.arrivals := by
  simp [arrivals]

namespace Engine

open Scheduler (Queued)

variable {e e' : Engine} {log : List Task}

theorem step_queued {c : Call} {r : Reply} (made : e.step c = .ok (e', r))
    (queued : Queued log e.scheduler.tasks) :
    Queued (log ++ Event.arrivals ⟨e, c, r, e'⟩) e'.scheduler.tasks := by
  cases step_does made with
  | start work =>
    obtain ⟨started, scheduled, queue⟩ := start_cases work
    rw [queue.scheduler]
    exact firstBeacons_queued scheduled queued
  | @beacon _ x outcome _ brought taken =>
    have one : Event.arrivals ⟨e, c, .packet outcome, e'⟩ = e.added e' := by
      cases c with
      | packet => rfl
      | beacon => rfl
      | _ => cases brought
    rw [one]
    exact taken.inserts.queued queued
  | data _ carried => exact carried.queue.inserts.queued queued
  | frame bridged => exact bridged.queue.inserts.queued queued
  | poll =>
    obtain ⟨⟨polled, tasks⟩, work, answer⟩ := Fault.bind_ok made
    cases Fault.pure_ok answer
    obtain ⟨settled, drained, swept⟩ := poll_drains work
    have after := drain_queued drained queued
    rw [swept]
    split
    · rw [(sweep_sweeps settled _).queue.scheduler]
      exact after
    · exact after
  | sweep now => exact (sweep_sweeps e now).queue.inserts.queued queued
  | shutdown => exact Scheduler.queued_nil _

theorem History.queued {s : Setup} {jitter : Jitter} {past : List Event}
    (h : History (.new s jitter) past e) : Queued (arrivals past) e.scheduler.tasks := by
  induction h with
  | nil => exact Scheduler.queued_nil []
  | call _ made ih =>
    rw [arrivals_cons]
    exact step_queued made ih

end Engine

end BeaconMesh

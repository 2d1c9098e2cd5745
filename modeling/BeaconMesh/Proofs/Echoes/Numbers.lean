import BeaconMesh.Proofs.Engine.Calls
import BeaconMesh.Proofs.Engine.History
import Mathlib.Data.List.Range

/-!
# Our own beacons leave in order

Once a node has started, at most one beacon of each interface waits, and it carries the number that
follows the last one sent. `InLine` says so; performing the beacon puts its successor in its place.
-/

namespace BeaconMesh

namespace Scheduler

theorem countP_insertTask (p : Task → Bool) (t : Task) (ts : List Task) :
    (insertTask t ts).countP p = ts.countP p + if p t then 1 else 0 := by
  rw [(insertTask_perm t ts).countP_eq, List.countP_cons]

end Scheduler

def Call.isStart : Call → Bool
  | .start _ => true
  | _ => false

/-- How many of the calls of a history are starts. -/
def starts (past : List Event) : Nat := past.countP fun x => x.call.isStart

namespace Engine

variable {e e' : Engine} {iface other : IfaceId} {now : Time} {t : Task}

/-- The number of the last beacon that left for an interface, if one did. -/
def lastSent? (e : Engine) (iface : IfaceId) : Option Seqno :=
  (e.counters[iface]?).bind Counter.lastSent

/-- Whether no beacon of ours for an interface waits. -/
def Free (e : Engine) (iface : IfaceId) : Prop :=
  ∀ t ∈ e.scheduler.tasks, t.ownIface? ≠ some iface

/-- No beacon of ours waits, and none has left. -/
structure Idle (e : Engine) : Prop where
  free : ∀ iface, e.Free iface
  unsent : ∀ iface, e.lastSent? iface = none

/-- Of each interface at most one beacon waits. The counter goes on after it, and it follows the
last one that left. -/
structure InLine (e : Engine) : Prop where
  single : ∀ iface, e.scheduler.tasks.countP (fun t => t.ownIface? = some iface) ≤ 1
  next : ∀ t ∈ e.scheduler.tasks, ∀ iface c, t.ownIface? = some iface →
    e.counters[iface]? = some c → c.next = t.beacon.seqno + 1
  follows : ∀ t ∈ e.scheduler.tasks, ∀ iface last, t.ownIface? = some iface →
    e.lastSent? iface = some last → t.beacon.seqno = last + 1

theorem countP_eq_zero_of_free (free : e.Free iface) :
    e.scheduler.tasks.countP (fun t => t.ownIface? = some iface) = 0 :=
  List.countP_eq_zero.mpr fun t mem own => free t mem (of_decide_eq_true own)

theorem Idle.inLine (idle : e.Idle) : e.InLine where
  single iface := by
    rw [countP_eq_zero_of_free (idle.free iface)]
    exact Nat.zero_le 1
  next t mem iface _ own := absurd own (idle.free iface t mem)
  follows t mem iface _ own := absurd own (idle.free iface t mem)

theorem idle_new (s : Setup) (jitter : Jitter) : (Engine.new s jitter).Idle where
  free _ := nofun
  unsent iface := by
    unfold lastSent? Engine.new
    rw [List.getElem?_replicate]
    split <;> rfl

/-! ### What queues a beacon of ours -/

theorem lastSent?_congr (counters : e'.counters = e.counters) (iface : IfaceId) :
    e'.lastSent? iface = e.lastSent? iface := by
  unfold lastSent?
  rw [counters]

theorem lastSent?_set {c : Counter} (known : e.counters[iface]? = some c) (next : Seqno)
    (other : IfaceId) :
    (((e.counters.set iface { c with next })[other]?).bind Counter.lastSent) =
      e.lastSent? other := by
  unfold lastSent?
  rw [List.getElem?_set]
  split
  · rename_i same
    obtain ⟨inRange, _⟩ := List.getElem?_eq_some_iff.mp known
    rw [← same, if_pos inRange, known]
    rfl
  · rfl

theorem scheduleOwn_lastSent? (h : e.scheduleOwn iface now = .ok e') (other : IfaceId) :
    e'.lastSent? other = e.lastSent? other := by
  rcases scheduleOwn_cases h with ⟨here, c, due, -, known, -, rfl⟩ | ⟨-, rfl⟩
  · exact lastSent?_set known _ other
  · rfl

theorem scheduleOwn_free (h : e.scheduleOwn iface now = .ok e') (different : iface ≠ other)
    (free : e.Free other) : e'.Free other := by
  rcases scheduleOwn_cases h with ⟨here, c, due, -, -, -, rfl⟩ | ⟨-, rfl⟩
  · intro t mem
    rcases Scheduler.mem_insertTask.mp mem with rfl | old
    · intro own
      exact different (Option.some.inj own)
    · exact free t old
  · exact free

theorem scheduleOwn_inLine (inLine : e.InLine) (free : e.Free iface)
    (ready : ∀ c last, e.counters[iface]? = some c → c.lastSent = some last → c.next = last + 1)
    (h : e.scheduleOwn iface now = .ok e') : e'.InLine := by
  have sent := scheduleOwn_lastSent? h
  rcases scheduleOwn_cases h with ⟨here, c, due, -, known, -, rfl⟩ | ⟨-, rfl⟩
  · refine ⟨fun j => ?_, fun t mem j d own counted => ?_, fun t mem j last own departed => ?_⟩
    · refine Nat.le_trans (Nat.le_of_eq (Scheduler.countP_insertTask _ _ _)) ?_
      by_cases same : iface = j
      · subst same
        have none : e.scheduler.tasks.countP (fun t => t.ownIface? = some iface) = 0 :=
          countP_eq_zero_of_free free
        change e.scheduler.tasks.countP _ + _ ≤ 1
        rw [none]
        split <;> omega
      · have few := inLine.single j
        have foreign : decide ((some iface : Option IfaceId) = some j) = false :=
          decide_eq_false fun eq => same (Option.some.inj eq)
        change e.scheduler.tasks.countP _ + (if decide (some iface = some j) then 1 else 0) ≤ 1
        rw [foreign]
        exact few
    · have counted : (e.counters.set iface { c with next := c.next + 1 })[j]? = some d := counted
      rw [List.getElem?_set] at counted
      rcases Scheduler.mem_insertTask.mp mem with rfl | old
      · cases Option.some.inj own
        obtain ⟨inRange, _⟩ := List.getElem?_eq_some_iff.mp known
        rw [if_pos rfl, if_pos inRange] at counted
        cases counted
        rfl
      · have different : iface ≠ j := by
          rintro rfl
          exact free t old own
        rw [if_neg different] at counted
        exact inLine.next t old j d own counted
    · rw [sent] at departed
      rcases Scheduler.mem_insertTask.mp mem with rfl | old
      · cases Option.some.inj own
        unfold lastSent? at departed
        rw [known] at departed
        exact ready c last known departed
      · exact inLine.follows t old j last own departed
  · exact inLine

theorem foldlM_scheduleOwn_inLine {ifaces : List IfaceId} (distinct : ifaces.Nodup)
    (inLine : e.InLine) (free : ∀ iface ∈ ifaces, e.Free iface)
    (unsent : ∀ iface, e.lastSent? iface = none)
    (h : ifaces.foldlM (fun e iface => e.scheduleOwn iface now) e = .ok e') : e'.InLine := by
  induction ifaces generalizing e with
  | nil =>
    rw [List.foldlM_nil] at h
    rw [← Fault.pure_ok h]
    exact inLine
  | cons iface rest ih =>
    rw [List.foldlM_cons] at h
    obtain ⟨next, first, h⟩ := Fault.bind_ok h
    obtain ⟨fresh, distinct⟩ := List.nodup_cons.mp distinct
    obtain ⟨here, others⟩ := List.forall_mem_cons.mp free
    have ready : ∀ c last, e.counters[iface]? = some c → c.lastSent = some last →
        c.next = last + 1 := by
      intro c last known sent
      have none := unsent iface
      unfold lastSent? at none
      rw [known] at none
      cases none.symm.trans sent
    refine ih distinct (scheduleOwn_inLine inLine here ready first) (fun other mem => ?_)
      (fun other => ?_) h
    · refine scheduleOwn_free first ?_ (others other mem)
      rintro rfl
      exact fresh mem
    · rw [scheduleOwn_lastSent? first]
      exact unsent other

theorem SameQueue.inLine (queue : SameQueue e e') (inLine : e.InLine) : e'.InLine := by
  obtain ⟨-, counters, scheduler⟩ := queue
  refine ⟨?_, ?_, ?_⟩
  · rw [scheduler]
    exact inLine.single
  · rw [scheduler, counters]
    exact inLine.next
  · simp only [scheduler, lastSent?_congr counters]
    exact inLine.follows

theorem start_inLine (idle : e.Idle) (h : e.start now = .ok e') : e'.InLine := by
  obtain ⟨started, scheduled, queue⟩ := start_cases h
  refine queue.inLine (foldlM_scheduleOwn_inLine (List.nodup_range) idle.inLine
    (fun iface _ => idle.free iface) idle.unsent scheduled)

theorem start_lastSent? (h : e.start now = .ok e') (iface : IfaceId) :
    e'.lastSent? iface = e.lastSent? iface := by
  obtain ⟨started, scheduled, queue⟩ := start_cases h
  rw [lastSent?_congr queue.counters]
  refine Fault.foldlM_ok (P := fun x => x.lastSent? iface = e.lastSent? iface)
    (fun work same => ?_) scheduled rfl
  exact (scheduleOwn_lastSent? work iface).trans same

/-! ### What sends one -/

theorem sendOwn_counter (e : Engine) (t : Task) (iface other : IfaceId) :
    (e.sendOwn t iface).counters[other]? = (e.counters[other]?).map fun c =>
      if iface = other then { c with lastSent := some t.beacon.seqno } else c := by
  rw [sendOwn_counters, List.getElem?_modify]
  split <;> rfl

theorem sendOwn_lastSent? (e : Engine) (t : Task) (iface other : IfaceId) :
    (e.sendOwn t iface).lastSent? other = (e.counters[other]?).bind fun c =>
      if iface = other then some t.beacon.seqno else c.lastSent := by
  unfold lastSent?
  rw [sendOwn_counter]
  cases e.counters[other]? with
  | none => rfl
  | some c =>
    dsimp only [Option.map_some, Option.bind_some]
    split <;> rfl

theorem sendOwn_inLine (inLine : e.InLine) (free : e.Free iface) (t : Task) :
    (e.sendOwn t iface).InLine := by
  have different : ∀ u ∈ e.scheduler.tasks, ∀ j, u.ownIface? = some j → iface ≠ j := by
    rintro u mem j own rfl
    exact free u mem own
  refine ⟨inLine.single, fun u mem j c own counted => ?_, fun u mem j last own departed => ?_⟩
  · rw [sendOwn_counter] at counted
    obtain ⟨d, known, rfl⟩ := Option.map_eq_some_iff.mp counted
    rw [if_neg (different u mem j own)]
    exact inLine.next u mem j d own known
  · rw [sendOwn_lastSent?] at departed
    simp only [if_neg (different u mem j own)] at departed
    exact inLine.follows u mem j last own departed

theorem pop_inLine {scheduler : Scheduler} (inLine : e.InLine)
    (popped : e.scheduler.pop? now = some (t, scheduler)) : { e with scheduler }.InLine := by
  obtain ⟨tasks, -⟩ := Scheduler.tasks_of_pop? popped
  refine ⟨fun iface => ?_, fun u mem => ?_, fun u mem => ?_⟩
  · have few := inLine.single iface
    rw [tasks, List.countP_cons] at few
    exact Nat.le_trans (Nat.le_add_right _ _) few
  · exact inLine.next u (tasks ▸ List.mem_cons_of_mem t mem)
  · exact inLine.follows u (tasks ▸ List.mem_cons_of_mem t mem)

theorem pop_free {scheduler : Scheduler} (inLine : e.InLine)
    (popped : e.scheduler.pop? now = some (t, scheduler)) (own : t.ownIface? = some iface) :
    { e with scheduler }.Free iface := by
  obtain ⟨tasks, -⟩ := Scheduler.tasks_of_pop? popped
  intro u mem same
  have few := inLine.single iface
  rw [tasks, List.countP_cons, if_pos (decide_eq_true own)] at few
  have more : 0 < scheduler.tasks.countP fun t => t.ownIface? = some iface :=
    List.countP_pos_iff.mpr ⟨u, mem, decide_eq_true same⟩
  omega

theorem perform_inLine {scheduler : Scheduler} (inLine : e.InLine)
    (popped : e.scheduler.pop? now = some (t, scheduler))
    (work : { e with scheduler }.perform t now = .ok e') : e'.InLine := by
  obtain ⟨tasks, -⟩ := Scheduler.tasks_of_pop? popped
  have first : t ∈ e.scheduler.tasks := tasks ▸ List.mem_cons_self
  have rest := pop_inLine inLine popped
  rcases perform_cases work with ⟨-, rfl⟩ | ⟨iface, own, scheduled⟩
  · exact (send_queue _ _ _).inLine rest
  have free := pop_free inLine popped own
  refine scheduleOwn_inLine (sendOwn_inLine rest free t) free (fun c last counted departed => ?_)
    scheduled
  rw [sendOwn_counter] at counted
  obtain ⟨d, known, rfl⟩ := Option.map_eq_some_iff.mp counted
  rw [if_pos rfl] at departed ⊢
  cases departed
  exact inLine.next t first iface d own known

theorem perform_lastSent? {scheduler : Scheduler} {last : Seqno} (inLine : e.InLine)
    (popped : e.scheduler.pop? now = some (t, scheduler))
    (work : { e with scheduler }.perform t now = .ok e') (sent : e.lastSent? iface = some last) :
    e'.lastSent? iface = some (if t.ownIface? = some iface then last + 1 else last) := by
  obtain ⟨tasks, -⟩ := Scheduler.tasks_of_pop? popped
  have first : t ∈ e.scheduler.tasks := tasks ▸ List.mem_cons_self
  rcases perform_cases work with ⟨other, rfl⟩ | ⟨leaving, own, scheduled⟩
  · rw [other, if_neg nofun]
    exact sent
  · rw [scheduleOwn_lastSent? scheduled, sendOwn_lastSent?, own]
    obtain ⟨c, known, departed⟩ := Option.bind_eq_some_iff.mp sent
    change (e.counters[iface]?).bind _ = _
    rw [known, Option.bind_some]
    by_cases here : leaving = iface
    · subst here
      rw [if_pos rfl, if_pos rfl, inLine.follows t first leaving last own sent]
    · rw [if_neg here, if_neg fun same => here (Option.some.inj same), departed]

theorem clear_inLine (e : Engine) : { e with scheduler := e.scheduler.clear }.InLine where
  single _ := Nat.zero_le 1
  next := nofun
  follows := nofun

/-! ### Every call but a start -/

theorem idle_invariant : QueueInvariant Idle where
  same {e e'} queue idle := by
    refine ⟨fun iface => ?_, fun iface => ?_⟩
    · unfold Free
      rw [queue.scheduler]
      exact idle.free iface
    · rw [lastSent?_congr queue.counters]
      exact idle.unsent iface
  relay {e t} relay idle := by
    refine ⟨fun iface u mem => ?_, idle.unsent⟩
    rcases Scheduler.mem_insertTask.mp mem with rfl | old
    · unfold Task.ownIface?
      rw [relay]
      nofun
    · exact idle.free iface u old
  perform {e e' t scheduler now} popped work idle := by
    obtain ⟨tasks, -⟩ := Scheduler.tasks_of_pop? popped
    rcases perform_cases work with ⟨-, rfl⟩ | ⟨iface, own, -⟩
    · exact ⟨fun iface u mem => idle.free iface u (tasks ▸ List.mem_cons_of_mem t mem), idle.unsent⟩
    · exact absurd own (idle.free iface t (tasks ▸ List.mem_cons_self))
  clear idle := ⟨fun _ => nofun, idle.unsent⟩

theorem inLine_invariant : QueueInvariant InLine where
  same := SameQueue.inLine
  relay {e t} relay inLine := by
    have other : ∀ iface, t.ownIface? ≠ some iface := by
      unfold Task.ownIface?
      rw [relay]
      nofun
    refine ⟨fun iface => ?_, fun u mem iface c own => ?_, fun u mem iface last own => ?_⟩
    · refine Nat.le_trans (Nat.le_of_eq (Scheduler.countP_insertTask _ _ _)) ?_
      rw [decide_eq_false (other iface)]
      exact inLine.single iface
    · rcases Scheduler.mem_insertTask.mp mem with rfl | old
      · exact absurd own (other iface)
      · exact inLine.next u old iface c own
    · rcases Scheduler.mem_insertTask.mp mem with rfl | old
      · exact absurd own (other iface)
      · exact inLine.follows u old iface last own
  perform popped work inLine := perform_inLine inLine popped work
  clear _ := clear_inLine _

theorem History.inLine {s : Setup} {jitter : Jitter} {past : List Event}
    (h : History (.new s jitter) past e) (once : starts past ≤ 1) :
    e.InLine ∧ (starts past = 0 → e.Idle) := by
  induction h with
  | nil => exact ⟨(idle_new s jitter).inLine, fun _ => idle_new s jitter⟩
  | @call past e e' c r earlier made ih =>
    unfold starts at once ⊢
    rw [List.countP_cons] at once ⊢
    obtain ⟨inLine, idle⟩ := ih (Nat.le_trans (Nat.le_add_right _ _) once)
    have does := step_does made
    -- Other calls may come before the start, so `Idle` is carried along until then.
    by_cases begins : ∃ now, c = .start now
    · obtain ⟨now, rfl⟩ := begins
      have first : starts past = 0 := Nat.le_zero.mp (Nat.le_of_succ_le_succ once)
      refine ⟨?_, fun none => absurd none (Nat.succ_ne_zero _)⟩
      cases does with
      | start work => exact start_inLine (idle first) work
      | beacon brought => cases brought
    · have other : ∀ now, c ≠ .start now := fun now same => begins ⟨now, same⟩
      have more : c.isStart = false := by
        cases c with
        | start now => exact absurd rfl (other now)
        | _ => rfl
      rw [more]
      exact ⟨inLine_invariant.does does other inLine,
        fun none => idle_invariant.does does other (idle none)⟩

end Engine

end BeaconMesh

import BeaconMesh.Proofs.Faults.Arithmetic
import BeaconMesh.Proofs.Polls.Arrivals

/-!
# A stable priority queue

`Ledger` keeps account of a queue of its own: every task that entered, in the order in which it did,
and what became of it. Under any calls, at any times, the queue holds the tasks that wait by that
account, in the order of their due times and of equal ones in the order of the account (`Sorts`). So
it can be searched by halves, and what leaves it is the first that came of those due first (`Serves`).
-/

namespace BeaconMesh

namespace Scheduler

variable {t : Task} {ts : List Task} {due : Time} {n lo hi : Nat}

/-! ### Searching by halves -/

/-- The place behind the tasks due by a time, searched by halves between two places. -/
def bisect (ts : List Task) (due : Time) (lo hi : Nat) : Nat :=
  if lo < hi then
    match ts[(lo + hi) / 2]? with
    | some u =>
      if u.due ≤ due then bisect ts due ((lo + hi) / 2 + 1) hi else bisect ts due lo ((lo + hi) / 2)
    | none => lo
  else lo
termination_by hi - lo

/-- Whether a place has the tasks due by a time before it, and those due later behind it. -/
structure Parts (ts : List Task) (due : Time) (n : Nat) : Prop where
  inside : n ≤ ts.length
  before : ∀ i u, i < n → ts[i]? = some u → u.due ≤ due
  behind : ∀ i u, n ≤ i → ts[i]? = some u → due < u.due

theorem Ordered.le_of_le (ordered : Ordered ts) {i j : Nat} {u v : Task} (le : i ≤ j)
    (first : ts[i]? = some u) (second : ts[j]? = some v) : u.due ≤ v.due := by
  obtain ⟨inside, rfl⟩ := List.getElem?_eq_some_iff.mp first
  obtain ⟨inside', rfl⟩ := List.getElem?_eq_some_iff.mp second
  rcases Nat.lt_or_eq_of_le le with lt | rfl
  · exact List.pairwise_iff_getElem.mp ordered i j inside inside' lt
  · exact Nat.le_refl _

/-- Halving keeps the tasks due by the time before the lower place, and the others behind the
upper one. -/
theorem parts_bisect (ordered : Ordered ts) (due : Time) (lo hi : Nat) (le : lo ≤ hi)
    (inside : hi ≤ ts.length) (before : ∀ i u, i < lo → ts[i]? = some u → u.due ≤ due)
    (behind : ∀ i u, hi ≤ i → ts[i]? = some u → due < u.due) :
    Parts ts due (bisect ts due lo hi) := by
  induction lo, hi using bisect.induct ts due with
  | case1 lo hi lt u middle early ih =>
    -- the queue is in order, so all that stand before the middle are due as well
    rw [bisect, if_pos lt, middle]
    dsimp only
    rw [if_pos early]
    refine ih (by omega) inside (fun i v early' at_i => ?_) behind
    exact Nat.le_trans (ordered.le_of_le (Nat.le_of_lt_succ early') at_i middle) early
  | case2 lo hi lt u middle late ih =>
    rw [bisect, if_pos lt, middle]
    dsimp only
    rw [if_neg late]
    refine ih (by omega) (by omega) before fun i v late' at_i => ?_
    exact Nat.lt_of_lt_of_le (Nat.lt_of_not_le late) (ordered.le_of_le late' middle at_i)
  | case3 lo hi lt outside =>
    have none := List.getElem?_eq_none_iff.mp outside
    omega
  | case4 lo hi done =>
    obtain rfl : lo = hi := by omega
    rw [bisect, if_neg done]
    exact ⟨inside, before, behind⟩

theorem insertTask_eq_insertIdx (parts : Parts ts t.due n) : insertTask t ts = ts.insertIdx n t := by
  induction ts generalizing n with
  | nil =>
    obtain rfl : n = 0 := Nat.le_zero.mp parts.inside
    rfl
  | cons u rest ih =>
    unfold insertTask
    cases n with
    | zero =>
      have late : t.due < u.due := parts.behind 0 u (Nat.le_refl 0) rfl
      rw [if_neg (Nat.not_le.mpr late), List.insertIdx_zero]
    | succ n =>
      have early : u.due ≤ t.due := parts.before 0 u (Nat.succ_pos n) rfl
      rw [if_pos early, List.insertIdx_succ_cons, ih]
      exact ⟨Nat.le_of_succ_le_succ parts.inside,
        fun i v lt at_i => parts.before (i + 1) v (Nat.succ_lt_succ lt) at_i,
        fun i v le at_i => parts.behind (i + 1) v (Nat.succ_le_succ le) at_i⟩

theorem enqueue_bisect {q : Scheduler} (ordered : Ordered q.tasks) (t : Task) :
    (q.enqueue t).tasks = q.tasks.insertIdx (bisect q.tasks t.due 0 q.tasks.length) t := by
  refine insertTask_eq_insertIdx (parts_bisect ordered t.due 0 q.tasks.length (Nat.zero_le _)
    (Nat.le_refl _) (fun i u none => absurd none (Nat.not_lt_zero i)) fun i u outside at_i => ?_)
  rw [List.getElem?_eq_none outside] at at_i
  cases at_i

end Scheduler

/-! ### The account -/

/-- What became of the tasks that entered a queue. -/
structure Ledger where
  entered : List Task := []
  popped : List Task := []
  cleared : List Task := []
  /-- The tasks that did not leave, in the order in which they came. -/
  waiting : List Task := []

namespace Ledger

def enter (log : Ledger) (t : Task) : Ledger :=
  { log with entered := log.entered ++ [t], waiting := log.waiting ++ [t] }

def pop (log : Ledger) (t : Task) : Ledger :=
  { log with popped := log.popped ++ [t], waiting := log.waiting.erase t }

def clear (log : Ledger) (ts : List Task) : Ledger :=
  { log with cleared := log.cleared ++ ts, waiting := [] }

end Ledger

inductive QueueCall where
  | enqueue (t : Task)
  | own (beacon : Beacon) (iface : IfaceId) (now : Time)
  | relay (r : Relay) (now : Time)
  | pop (now : Time)
  | clear
  deriving DecidableEq, Repr

namespace QueueCall

/-- The queue after a call, and its account. -/
def apply (p : Pacing) (q : Scheduler) (log : Ledger) :
    QueueCall → Except Fault (Scheduler × Ledger)
  | enqueue t => return (q.enqueue t, log.enter t)
  | own beacon iface now => do
    let due ← q.ownDue p now
    let q' ← q.enqueueOwn p beacon iface now
    return (q', log.enter { due, own := true, beacon, out := some iface })
  | relay r now => do
    let task ← r.task? p now
    let (q', _) ← q.enqueueRelay p r now
    return (q', task.elim log log.enter)
  | pop now =>
    match q.pop? now with
    | some (t, q') => return (q', log.pop t)
    | none => return (q, log)
  | clear => return (q.clear, log.clear q.tasks)

/-- The queue after calls, the first of them first. -/
def applyAll (p : Pacing) (q : Scheduler) (log : Ledger) :
    List QueueCall → Except Fault (Scheduler × Ledger)
  | [] => return (q, log)
  | c :: cs => do
    let (q', log') ← c.apply p q log
    applyAll p q' log' cs

variable {p : Pacing} {q q' : Scheduler} {log log' : Ledger} {c : QueueCall} {cs : List QueueCall}

/-- All that a call can do: a task comes in, the first one leaves, all leave, or none does. -/
theorem apply_cases (h : c.apply p q log = .ok (q', log')) :
    (∃ t, q'.tasks = Scheduler.insertTask t q.tasks ∧ log' = log.enter t) ∨
    (∃ t, q.tasks = t :: q'.tasks ∧ log' = log.pop t) ∨
    (q'.tasks = [] ∧ log' = log.clear q.tasks) ∨ (q' = q ∧ log' = log) := by
  cases c with
  | enqueue t =>
    cases h
    exact .inl ⟨t, rfl, rfl⟩
  | own beacon iface now =>
    obtain ⟨due, timed, h⟩ := Fault.bind_ok h
    obtain ⟨q₁, queued, h⟩ := Fault.bind_ok h
    cases Fault.pure_ok h
    obtain ⟨due', timed', queued⟩ := Fault.bind_ok queued
    cases timed.symm.trans timed'
    cases Fault.pure_ok queued
    exact .inl ⟨_, rfl, rfl⟩
  | relay r now =>
    obtain ⟨task, made, h⟩ := Fault.bind_ok h
    obtain ⟨⟨q₁, accepted⟩, queued, h⟩ := Fault.bind_ok h
    cases Fault.pure_ok h
    obtain ⟨task', made', queued⟩ := Fault.bind_ok queued
    cases made.symm.trans made'
    cases task with
    | none =>
      cases Fault.pure_ok queued
      exact .inr (.inr (.inr ⟨rfl, rfl⟩))
    | some t =>
      cases Fault.pure_ok queued
      exact .inl ⟨t, rfl, rfl⟩
  | pop now =>
    dsimp only [apply] at h
    split at h
    · rename_i t q₁ popped
      cases Fault.pure_ok h
      exact .inr (.inl ⟨t, (Scheduler.tasks_of_pop? popped).1, rfl⟩)
    · cases Fault.pure_ok h
      exact .inr (.inr (.inr ⟨rfl, rfl⟩))
  | clear =>
    cases Fault.pure_ok h
    exact .inr (.inr (.inl ⟨rfl, rfl⟩))

theorem apply_ok {config : Config} (valid : config.IsValid) (c : QueueCall) (q : Scheduler)
    (log : Ledger) : ∃ q' log', c.apply (.ofConfig config) q log = .ok (q', log') := by
  cases c with
  | enqueue t => exact ⟨_, _, rfl⟩
  | own beacon iface now =>
    obtain ⟨due, timed, -⟩ := valid.ownDue_ok q now
    dsimp only [apply, Scheduler.enqueueOwn]
    rw [timed]
    exact ⟨_, _, rfl⟩
  | relay r now =>
    obtain ⟨task, made⟩ := valid.relay_task?_ok r now
    dsimp only [apply, Scheduler.enqueueRelay]
    rw [made]
    cases task with
    | none => exact ⟨_, _, rfl⟩
    | some t => exact ⟨_, _, rfl⟩
  | pop now =>
    dsimp only [apply]
    split
    · exact ⟨_, _, rfl⟩
    · exact ⟨_, _, rfl⟩
  | clear => exact ⟨_, _, rfl⟩

theorem applyAll_ok {config : Config} (valid : config.IsValid) (cs : List QueueCall)
    (q : Scheduler) (log : Ledger) :
    ∃ q' log', applyAll (.ofConfig config) q log cs = .ok (q', log') := by
  induction cs generalizing q log with
  | nil => exact ⟨q, log, rfl⟩
  | cons c cs ih =>
    obtain ⟨q₁, log₁, first⟩ := apply_ok valid c q log
    unfold applyAll
    rw [first]
    exact ih q₁ log₁

end QueueCall

/-! ### The queue and its account -/

/-- Whether a queue holds the tasks that wait by the account, in the order of their due times and of
equal ones in the order of the account, and none was lost or made up. -/
structure Sorts (log : Ledger) (ts : List Task) : Prop where
  ordered : Scheduler.Ordered ts
  stable : ∀ due, (ts.filter fun t => t.due = due) = log.waiting.filter fun t => t.due = due
  came : log.waiting.Sublist log.entered
  conserved : (log.popped ++ log.cleared ++ ts).Perm log.entered

/-- Whether a task came first of those that are due first. -/
def Earliest (t : Task) (ts : List Task) : Prop :=
  ∃ before after, ts = before ++ t :: after ∧ ts.erase t = before ++ after ∧
    (∀ u ∈ before, t.due < u.due) ∧ ∀ u ∈ after, t.due ≤ u.due

namespace Sorts

variable {log log' : Ledger} {ts : List Task} {t u : Task} {q q' : Scheduler} {p : Pacing}

theorem mem_iff (h : Sorts log ts) : u ∈ ts ↔ u ∈ log.waiting := by
  have same : u ∈ (ts.filter fun v => v.due = u.due) ↔
      u ∈ log.waiting.filter fun v => v.due = u.due := by rw [h.stable]
  simpa using same

theorem insert (h : Sorts log ts) (t : Task) : Sorts (log.enter t) (Scheduler.insertTask t ts) where
  ordered := Scheduler.ordered_insertTask t h.ordered
  stable due := by
    unfold Ledger.enter
    rw [List.filter_append, ← h.stable]
    by_cases same : t.due = due
    · subst same
      rw [Scheduler.filter_insertTask h.ordered, List.filter_cons_of_pos (by simp), List.filter_nil]
    · rw [Scheduler.filter_insertTask_of_not (decide_eq_false same),
        List.filter_cons_of_neg (by simpa using same), List.filter_nil, List.append_nil]
  came := h.came.append (.refl [t])
  conserved := by
    have last : (Scheduler.insertTask t ts).Perm (ts ++ [t]) :=
      (Scheduler.insertTask_perm t ts).trans (List.perm_append_singleton t ts).symm
    refine (last.append_left _).trans ?_
    rw [← List.append_assoc]
    exact h.conserved.append_right [t]

/-- The first task of the queue is the first that came of those due first. -/
theorem earliest (h : Sorts log (t :: ts)) : Earliest t log.waiting := by
  obtain ⟨least, -⟩ := List.pairwise_cons.mp h.ordered
  have first : (log.waiting.filter fun u => u.due = t.due) =
      t :: ts.filter fun u => u.due = t.due := by
    rw [← h.stable, List.filter_cons_of_pos (by simp)]
  obtain ⟨before, after, split, others, -, -⟩ := List.filter_eq_cons_iff.mp first
  have atLeast : ∀ u ∈ log.waiting, t.due ≤ u.due := by
    intro u mem
    rcases List.mem_cons.mp (h.mem_iff.mpr mem) with rfl | behind
    · exact Nat.le_refl _
    · exact least u behind
  have later : ∀ u ∈ before, t.due < u.due := by
    intro u mem
    have other : u.due ≠ t.due := by simpa using others u mem
    have le := atLeast u (by rw [split]; exact List.mem_append_left _ mem)
    exact Nat.lt_of_le_of_ne le other.symm
  have absent : t ∉ before := fun mem => Nat.lt_irrefl _ (later t mem)
  refine ⟨before, after, split, ?_, later, fun u mem => atLeast u ?_⟩
  · rw [split, List.erase_append_right _ absent, List.erase_cons_head]
  · rw [split]
    exact List.mem_append_right _ (List.mem_cons_of_mem _ mem)

theorem pop (h : Sorts log (t :: ts)) : Sorts (log.pop t) ts where
  ordered := (List.pairwise_cons.mp h.ordered).2
  stable due := by
    obtain ⟨before, after, split, erased, later, -⟩ := h.earliest
    have whole := h.stable due
    unfold Ledger.pop
    rw [erased]
    rw [split, List.filter_append] at whole
    rw [List.filter_append]
    by_cases same : t.due = due
    · -- nothing before the first that came is due at its time
      have none : (before.filter fun u => u.due = due) = [] := by
        refine List.filter_eq_nil_iff.mpr fun u mem equal => ?_
        have le : u.due ≤ t.due := by rw [same, of_decide_eq_true equal]
        exact Nat.not_lt.mpr le (later u mem)
      rw [none, List.filter_cons_of_pos (by simpa using same),
        List.filter_cons_of_pos (by simpa using same)] at whole
      rw [none]
      exact (List.cons.inj whole).2
    · rw [List.filter_cons_of_neg (by simpa using same),
        List.filter_cons_of_neg (by simpa using same)] at whole
      exact whole
  came := List.erase_sublist.trans h.came
  conserved := by
    have moved : (log.popped ++ [t] ++ log.cleared ++ ts).Perm
        (log.popped ++ log.cleared ++ t :: ts) := by
      rw [List.append_assoc, List.append_assoc, List.append_assoc, List.singleton_append]
      exact List.perm_middle.symm.append_left log.popped
    exact moved.trans h.conserved

theorem clear (h : Sorts log ts) : Sorts (log.clear ts) [] where
  ordered := .nil
  stable _ := rfl
  came := List.nil_sublist _
  conserved := by
    unfold Ledger.clear
    rw [List.append_nil, ← List.append_assoc]
    exact h.conserved

theorem step {c : QueueCall} (h : Sorts log q.tasks) (call : c.apply p q log = .ok (q', log')) :
    Sorts log' q'.tasks := by
  rcases QueueCall.apply_cases call with
    ⟨t, tasks, rfl⟩ | ⟨t, tasks, rfl⟩ | ⟨tasks, rfl⟩ | ⟨rfl, rfl⟩
  · rw [tasks]
    exact h.insert t
  · rw [tasks] at h
    exact h.pop
  · rw [tasks]
    exact h.clear
  · exact h

theorem run {cs : List QueueCall} (h : Sorts log q.tasks)
    (calls : QueueCall.applyAll p q log cs = .ok (q', log')) : Sorts log' q'.tasks := by
  induction cs generalizing q log with
  | nil =>
    cases Fault.pure_ok calls
    exact h
  | cons c cs ih =>
    obtain ⟨⟨q₁, log₁⟩, first, calls⟩ := Fault.bind_ok calls
    exact ih (h.step first) calls

end Sorts

/-- What a queue with an account answers to its next call. -/
structure Serves (log : Ledger) (q : Scheduler) : Prop where
  place : ∀ t, (q.enqueue t).tasks =
    q.tasks.insertIdx (Scheduler.bisect q.tasks t.due 0 q.tasks.length) t
  pops_iff : ∀ now, (∃ t rest, q.pop? now = some (t, rest)) ↔ ∃ t ∈ q.tasks, t.due ≤ now
  pops : ∀ now t rest, q.pop? now = some (t, rest) →
    t.due ≤ now ∧ q.tasks = t :: rest.tasks ∧ Earliest t log.waiting
  next : q.nextDue? = (q.tasks.map Task.due).min?

theorem Sorts.serves {log : Ledger} {q : Scheduler} (h : Sorts log q.tasks) : Serves log q where
  place := Scheduler.enqueue_bisect h.ordered
  pops_iff now := by
    constructor
    · rintro ⟨t, rest, popped⟩
      obtain ⟨tasks, ripe⟩ := Scheduler.tasks_of_pop? popped
      exact ⟨t, by rw [tasks]; exact List.mem_cons_self, ripe⟩
    · rintro ⟨t, mem, ripe⟩
      cases popped : q.pop? now with
      | some result => exact ⟨result.1, result.2, rfl⟩
      | none =>
        have later := Scheduler.due_of_pop?_none h.ordered popped mem
        exact absurd ripe (Nat.not_le.mpr later)
  pops now t rest popped := by
    obtain ⟨tasks, ripe⟩ := Scheduler.tasks_of_pop? popped
    rw [tasks] at h
    exact ⟨ripe, tasks, h.earliest⟩
  next := by
    have ordered := h.ordered
    unfold Scheduler.nextDue?
    cases tasks : q.tasks with
    | nil => rfl
    | cons t rest =>
      rw [tasks] at ordered
      obtain ⟨least, -⟩ := List.pairwise_cons.mp ordered
      refine (List.min?_eq_some_iff.mpr ⟨List.mem_cons_self, fun due mem => ?_⟩).symm
      rcases List.mem_cons.mp mem with rfl | mem
      · exact Nat.le_refl _
      · obtain ⟨u, behind, rfl⟩ := List.mem_map.mp mem
        exact least u behind

/-- A queue serves its tasks by their due times and then as they came, and loses none. -/
theorem Scheduler.stable_priority_queue (config : Config) (jitter : Jitter) (cs : List QueueCall) :
    (config.IsValid →
      ∃ q log, QueueCall.applyAll (.ofConfig config) { jitter } {} cs = .ok (q, log)) ∧
    ∀ q log, QueueCall.applyAll (.ofConfig config) { jitter } {} cs = .ok (q, log) →
      Sorts log q.tasks ∧ Serves log q := by
  refine ⟨fun valid => QueueCall.applyAll_ok valid cs _ _, fun q log calls => ?_⟩
  have empty : Sorts {} ({ jitter } : Scheduler).tasks :=
    ⟨.nil, fun _ => rfl, .refl [], .refl []⟩
  have sorts := empty.run calls
  exact ⟨sorts, sorts.serves⟩

/-- Two equal tasks leave before one that is due with them and one that came before all. -/
theorem Scheduler.stable_priority_queue_sample :
    let t : Task := { due := 3, own := false, beacon := Sample.relayed 1 [], out := some 0 }
    let r : Relay := { beacon := Sample.relayed 2 [], sender := Sample.near, iface := 1 }
    ({} : Config).IsValid ∧ ∃ q log, QueueCall.applyAll (.ofConfig {}) { jitter := default } {}
        [.enqueue { t with due := 5 }, .enqueue t, .enqueue t, .relay r 3, .pop 4, .pop 2, .pop 3,
          .own (Sample.relayed 3 []) 0 2, .clear] = .ok (q, log) ∧
      log.popped = [t, t] ∧ log.cleared.map Task.due = [3, 5, 902] ∧
      Sorts log q.tasks ∧ Serves log q := by
  intro t r
  have valid := Config.isValid_default
  obtain ⟨runs, keeps⟩ := stable_priority_queue {} default
    [.enqueue { t with due := 5 }, .enqueue t, .enqueue t, .relay r 3, .pop 4, .pop 2, .pop 3,
      .own (Sample.relayed 3 []) 0 2, .clear]
  obtain ⟨q, log, ran⟩ := runs valid
  obtain ⟨sorts, serves⟩ := keeps q log ran
  refine ⟨valid, q, log, ran, ?_, ?_, sorts, serves⟩
  · cases ran
    rfl
  · cases ran
    rfl

end BeaconMesh

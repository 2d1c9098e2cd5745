import BeaconMesh.Proofs.Engine.Calls

/-!
# What is queued is sent

The queue stays in the order of due times, and only polls and shutdowns take a task from it. So a
poll performs every task that is due, and `poll_covers` says that every beacon of such a task that can
be written leaves on the interfaces of the task.
-/

namespace BeaconMesh

/-- Whether a call takes no task from the queue. -/
def Call.keepsQueue : Call → Bool
  | .poll _ | .shutdown _ => false
  | _ => true

theorem Scheduler.due_of_pop?_none {q : Scheduler} {now : Time} (ordered : Ordered q.tasks)
    (none : q.pop? now = none) {t : Task} (mem : t ∈ q.tasks) : now < t.due := by
  unfold pop? at none
  split at none
  · rename_i empty
    rw [empty] at mem
    cases mem
  · rename_i first rest tasks
    split at none
    · cases none
    · rename_i later
      rw [tasks] at ordered mem
      obtain ⟨least, -⟩ := List.pairwise_cons.mp ordered
      rcases List.mem_cons.mp mem with rfl | behind
      · exact Nat.lt_of_not_le later
      · exact Nat.lt_of_lt_of_le (Nat.lt_of_not_le later) (least t behind)

namespace Engine

variable {e e' : Engine} {now : Time} {t u : Task} {ts : List Task} {scheduler : Scheduler}

/-! ### Order -/

/-- Whether the tasks of a node stand in the order of their due times. -/
def InOrder (e : Engine) : Prop := Scheduler.Ordered e.scheduler.tasks

theorem scheduleOwn_inOrder {iface : IfaceId} (h : e.scheduleOwn iface now = .ok e')
    (ordered : e.InOrder) : e'.InOrder := by
  rcases scheduleOwn_cases h with ⟨_, _, _, _, _, _, rfl⟩ | ⟨-, rfl⟩
  · exact Scheduler.ordered_insertTask _ ordered
  · exact ordered

theorem inOrder_invariant : QueueInvariant InOrder where
  same {e e'} queue ordered := by
    unfold InOrder
    rw [queue.scheduler]
    exact ordered
  relay _ ordered := Scheduler.ordered_insertTask _ ordered
  perform {e e' t scheduler now} popped work ordered := by
    obtain ⟨tasks, -⟩ := Scheduler.tasks_of_pop? popped
    have rest : Scheduler.Ordered scheduler.tasks := by
      unfold InOrder at ordered
      rw [tasks] at ordered
      exact (List.pairwise_cons.mp ordered).2
    rcases perform_cases work with ⟨-, rfl⟩ | ⟨iface, -, scheduled⟩
    · exact rest
    · exact scheduleOwn_inOrder scheduled rest
  clear _ := List.Pairwise.nil

theorem run_inOrder {s : Setup} {jitter : Jitter} {cs : List Call}
    (h : (Engine.new s jitter).run cs = .ok e) : e.InOrder :=
  inOrder_invariant.run (inOrder_invariant.start scheduleOwn_inOrder) h List.Pairwise.nil

/-! ### Waiting -/

theorem scheduleOwn_keeps {iface : IfaceId} (h : e.scheduleOwn iface now = .ok e')
    (mem : t ∈ e.scheduler.tasks) : t ∈ e'.scheduler.tasks := by
  rcases scheduleOwn_cases h with ⟨_, _, _, _, _, _, rfl⟩ | ⟨-, rfl⟩
  · exact Scheduler.mem_insertTask.mpr (.inr mem)
  · exact mem

theorem SameQueue.keeps (h : SameQueue e e') (mem : t ∈ e.scheduler.tasks) :
    t ∈ e'.scheduler.tasks := by
  rw [h.scheduler]
  exact mem

theorem Does.keeps {c : Call} {r : Reply} (h : Does e c r e') (quiet : c.keepsQueue = true)
    (mem : t ∈ e.scheduler.tasks) : t ∈ e'.scheduler.tasks := by
  cases h with
  | start work =>
    obtain ⟨started, scheduled, queue⟩ := start_cases work
    refine queue.keeps ?_
    exact Fault.foldlM_ok (P := fun x => t ∈ x.scheduler.tasks) scheduleOwn_keeps scheduled mem
  | beacon _ taken =>
    obtain ⟨settled, queue, rfl | ⟨u, -, rfl⟩⟩ := taken.queue
    · exact queue.keeps mem
    · exact Scheduler.mem_insertTask.mpr (.inr (queue.keeps mem))
  | data _ carried => exact carried.queue.keeps mem
  | frame bridged => exact bridged.queue.keeps mem
  | poll => cases quiet
  | sweep => exact (sweep_sweeps e _).queue.keeps mem
  | shutdown => cases quiet

theorem run_keeps {cs : List Call} (h : e.run cs = .ok e')
    (quiet : ∀ c ∈ cs, c.keepsQueue = true) (mem : t ∈ e.scheduler.tasks) :
    t ∈ e'.scheduler.tasks := by
  induction cs generalizing e with
  | nil =>
    cases h
    exact mem
  | cons c cs ih =>
    obtain ⟨⟨next, r⟩, first, h⟩ := Fault.bind_ok h
    obtain ⟨here, later⟩ := List.forall_mem_cons.mp quiet
    exact ih h later ((step_does first).keeps here mem)

/-! ### Leaving -/

/-- Whether a beacon is among the actions, on every target on which it can be written. -/
def Covers (sent : List Action) (b : Beacon) (targets : List (IfaceId × UInt8)) : Prop :=
  ∀ target ∈ targets, ∀ payload, Wire.encodeBeacon { b with flags := target.2 } = .ok payload →
    .transmit target.1 .broadcast payload ∈ sent

theorem Covers.mono {sent sent' : List Action} {b : Beacon} {targets : List (IfaceId × UInt8)}
    (h : Covers sent b targets) (more : sent ⊆ sent') : Covers sent' b targets :=
  fun target mem payload written => more (h target mem payload written)

theorem send_covers (e : Engine) (b : Beacon) (targets : List (IfaceId × UInt8)) :
    ∃ sent, (e.send b targets).outbox = e.outbox ++ sent ∧ Covers sent b targets := by
  refine ⟨_, rfl, fun target mem payload written => ?_⟩
  refine List.mem_filterMap.mpr ⟨target, mem, ?_⟩
  rw [written]

theorem scheduleOwn_outbox {iface : IfaceId} (h : e.scheduleOwn iface now = .ok e') :
    e'.outbox = e.outbox := by
  rcases scheduleOwn_cases h with ⟨_, _, _, _, _, _, rfl⟩ | ⟨-, rfl⟩ <;> rfl

theorem perform_setup (h : e.perform t now = .ok e') : e'.setup = e.setup := by
  rcases perform_cases h with ⟨-, rfl⟩ | ⟨iface, -, scheduled⟩
  · rfl
  · exact (scheduleOwn_same scheduled).setup

/-- Whether performing tasks sent the beacon of every relay among them. -/
def SendsRelays (e : Engine) (ts : List Task) (e' : Engine) : Prop :=
  ∃ sent, e'.outbox = e.outbox ++ sent ∧
    ∀ t ∈ ts, t.ownIface? = none → Covers sent t.beacon (t.targets e.setup.ifaces)

theorem perform_covers (h : e.perform t now = .ok e') : SendsRelays e [t] e' := by
  rcases perform_cases h with ⟨-, rfl⟩ | ⟨iface, own, scheduled⟩
  · obtain ⟨sent, outbox, covers⟩ := e.send_covers t.beacon (t.targets e.setup.ifaces)
    refine ⟨sent, outbox, fun u mem _ => ?_⟩
    rw [List.mem_singleton.mp mem]
    exact covers
  · obtain ⟨sent, outbox, -⟩ := (e.departOwn t.beacon iface).1.send_covers
      (e.departOwn t.beacon iface).2 (t.targets e.setup.ifaces)
    refine ⟨sent, (scheduleOwn_outbox scheduled).trans outbox, fun u mem relay => ?_⟩
    rw [List.mem_singleton.mp mem, own] at relay
    cases relay

theorem SendsRelays.trans {e₁ e₂ e₃ : Engine} {us : List Task} (setup : e₂.setup = e₁.setup)
    (h : SendsRelays e₁ ts e₂) (h' : SendsRelays e₂ us e₃) : SendsRelays e₁ (ts ++ us) e₃ := by
  obtain ⟨first, outbox, here⟩ := h
  obtain ⟨others, outbox', there⟩ := h'
  rw [setup] at there
  refine ⟨first ++ others, ?_, fun t mem relay => ?_⟩
  · rw [outbox', outbox, List.append_assoc]
  · rcases List.mem_append.mp mem with before | behind
    · exact (here t before relay).mono (List.subset_append_left first others)
    · exact (there t behind relay).mono (List.subset_append_right first others)

theorem performs_cover (h : Performs now e ts e') : SendsRelays e ts e' := by
  induction h with
  | none e => exact ⟨[], (List.append_nil _).symm, nofun⟩
  | @task e next e' t ts scheduler popped work rest ih =>
    obtain ⟨sent, outbox, covers⟩ := perform_covers work
    have first : SendsRelays e [t] next := ⟨sent, outbox, covers⟩
    have setup := perform_setup work
    exact first.trans setup ih

theorem Performs.left (h : Performs now e ts e') (mem : t ∈ e.scheduler.tasks) :
    t ∈ ts ∨ t ∈ e'.scheduler.tasks := by
  induction h with
  | none => exact .inr mem
  | @task e next e' u ts scheduler popped work _ ih =>
    obtain ⟨tasks, -⟩ := Scheduler.tasks_of_pop? popped
    rw [tasks] at mem
    rcases List.mem_cons.mp mem with rfl | behind
    · exact .inl List.mem_cons_self
    · have kept : t ∈ next.scheduler.tasks := by
        rcases perform_cases work with ⟨-, rfl⟩ | ⟨iface, -, scheduled⟩
        · exact behind
        · exact scheduleOwn_keeps scheduled behind
      exact (ih kept).imp_left (List.mem_cons_of_mem u)

theorem poll_covers {count : Nat} (ordered : e.InOrder) (h : e.poll now = .ok (e', count))
    (mem : t ∈ e.scheduler.tasks) (due : t.due ≤ now) (relay : t.ownIface? = none) :
    ∃ sent, e'.outbox = e.outbox ++ sent ∧ Covers sent t.beacon (t.targets e.setup.ifaces) := by
  obtain ⟨⟨settled, _⟩, work, h⟩ := Fault.bind_ok h
  obtain ⟨performs, -, drained⟩ := performDue_performs work
  -- The drain ends at a task that is not due, and the queue is in order behind it.
  have done : t ∈ e.performed now e.scheduler.size := by
    rcases performs.left mem with done | waits
    · exact done
    · have after := inOrder_invariant.performs performs ordered
      have late := Scheduler.due_of_pop?_none after drained waits
      exact absurd due (Nat.not_le.mpr late)
  obtain ⟨sent, outbox, covers⟩ := performs_cover performs
  have swept : e'.outbox = settled.outbox := by
    cases Fault.pure_ok h
    split
    · exact (sweep_sweeps settled now).outbox
    · rfl
  exact ⟨sent, swept.trans outbox, covers t done relay⟩

end Engine

end BeaconMesh

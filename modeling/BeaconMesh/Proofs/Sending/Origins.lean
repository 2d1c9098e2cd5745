import BeaconMesh.Proofs.Relays.Sources
import BeaconMesh.Proofs.Sending.Sendings

/-!
# Where sent beacons come from

Every task in the queue stems from a reception, or is our own (`History.stems`). So does every
sending (`History.sendings_stem`).
-/

namespace BeaconMesh

/-! ### What waits in the queue -/

namespace Task

variable {t : Task}

/-- How a task came into the queue: as a beacon of ours for an interface, or as the relay of a
reception, and then as an echo only if the originator itself was heard. -/
inductive Stems (s : Setup) (past : List Reception) (t : Task) : Prop where
  | own {iface : IfaceId} {here : Iface} (own : t.own = true) (known : s.ifaces[iface]? = some here)
      (out : t.out = some iface) (plain : t.direct = false ∧ t.oneWay = false)
  | relay {r : Reception} (relay : t.own = false) (foreign : s.isMine t.beacon.orig = false)
      (heard : r ∈ past) (orig : t.beacon.orig = r.beacon.orig)
      (seqno : t.beacon.seqno = r.beacon.seqno) (prev : t.beacon.prev = r.hop.addr)
      (out : t.out = some r.hop.iface)
      (straight : t.direct = true → r.beacon.orig = r.hop.addr)
      (echo : t.oneWay = true → t.direct = true)

theorem Stems.mono {s : Setup} {past past' : List Reception} (h : t.Stems s past)
    (more : past ⊆ past') : t.Stems s past' := by
  cases h with
  | own own known out plain => exact .own own known out plain
  | relay relay foreign heard orig seqno prev out straight echo =>
    exact .relay relay foreign (more heard) orig seqno prev out straight echo

theorem Stems.ownIface? {s : Setup} {past : List Reception} (h : t.Stems s past)
    (mine : s.isMine t.beacon.orig = true) :
    ∃ iface here, s.ifaces[iface]? = some here ∧ t.ownIface? = some iface := by
  cases h with
  | own own known out =>
    refine ⟨_, _, known, ?_⟩
    unfold Task.ownIface?
    rw [if_pos own, out]
  | relay _ foreign => cases foreign.symm.trans mine

end Task

namespace Engine

variable {e e' : Engine} {s : Setup} {past : List Reception} {t : Task} {now : Time}

/-- Every task came into the queue in one of these ways. -/
structure Stems (s : Setup) (past : List Reception) (e : Engine) : Prop where
  setup : e.setup = s
  tasks : ∀ t ∈ e.scheduler.tasks, t.Stems s past

theorem SameQueue.stems (queue : SameQueue e e') (stems : e.Stems s past) : e'.Stems s past := by
  refine ⟨queue.setup.trans stems.setup, ?_⟩
  rw [queue.scheduler]
  exact stems.tasks

theorem Stems.enqueue (stems : e.Stems s past) (entering : t.Stems s past) :
    { e with scheduler := e.scheduler.enqueue t }.Stems s past := by
  refine ⟨stems.setup, fun u mem => ?_⟩
  rcases Scheduler.mem_insertTask.mp mem with rfl | old
  · exact entering
  · exact stems.tasks u old

theorem scheduleOwn_stems {iface : IfaceId} (h : e.scheduleOwn iface now = .ok e')
    (stems : e.Stems s past) : e'.Stems s past := by
  rcases scheduleOwn_cases h with ⟨here, counter, due, known, -, -, rfl⟩ | ⟨-, rfl⟩
  · rw [stems.setup] at known
    refine ⟨stems.setup, fun t mem => ?_⟩
    rcases Scheduler.mem_insertTask.mp mem with rfl | old
    · exact .own rfl known rfl ⟨rfl, rfl⟩
    · exact stems.tasks t old
  · exact stems

theorem perform_stems {scheduler : Scheduler}
    (popped : e.scheduler.pop? now = some (t, scheduler))
    (work : { e with scheduler }.perform t now = .ok e') (stems : e.Stems s past) :
    t.Stems s past ∧ e'.Stems s past := by
  obtain ⟨tasks, -⟩ := Scheduler.tasks_of_pop? popped
  obtain ⟨first, others⟩ := List.forall_mem_cons.mp (tasks ▸ stems.tasks)
  refine ⟨first, ?_⟩
  rcases perform_cases work with ⟨-, rfl⟩ | ⟨iface, -, scheduled⟩
  · exact ⟨stems.setup, others⟩
  · exact scheduleOwn_stems scheduled ⟨stems.setup, others⟩

theorem Performs.stems {ts : List Task} (h : Performs now e ts e') (stems : e.Stems s past) :
    e'.Stems s past := by
  induction h with
  | none => exact stems
  | task popped work _ ih => exact ih (perform_stems popped work stems).2

theorem relayMode?_straight {b : Beacon} {sender : Addr} {duplicate twoWay : Bool}
    {mode : RelayMode} (h : e.relayMode? b sender duplicate twoWay = some mode) :
    (mode.direct = true → b.orig = sender) ∧ (mode.oneWay = true → mode.direct = true) := by
  unfold relayMode? at h
  dsimp only at h
  split at h
  · rename_i straight
    cases h
    exact ⟨fun _ => straight, fun _ => rfl⟩
  · split at h
    · split at h
      · cases h
        exact ⟨nofun, nofun⟩
      · cases h
    · cases h

theorem Takes.stems {r : Reception} {c : Call} {outcome : PacketOutcome}
    (brought : c.reception? false = some r) (taken : e.Takes r.beacon r.hop r.now outcome e')
    (stems : e.Stems s past) :
    e'.Stems s ((received? c (.packet outcome)).toList ++ past) := by
  have before : e.Stems s ((received? c (.packet outcome)).toList ++ past) :=
    ⟨stems.setup, fun t mem => (stems.tasks t mem).mono (List.subset_append_right _ past)⟩
  rcases taken.relays with
    queue | ⟨duplicate, estimate, settled, mode, quality, relays, queue, rfl, rfl⟩
  · exact queue.stems before
  have received : received? c (.packet (.beacon duplicate estimate.twoWay true)) = some r :=
    brought
  have foreign : s.isMine r.beacon.orig = false := stems.setup ▸ relays.admitted.orig
  obtain ⟨straight, echo⟩ := relayMode?_straight relays.chosen
  refine (queue.stems before).enqueue (.relay rfl foreign ?_ rfl rfl rfl rfl straight echo)
  rw [received]
  exact List.mem_cons_self

theorem Does.stems {c : Call} {reply : Reply} (h : Does e c reply e') (stems : e.Stems s past) :
    e'.Stems s ((received? c reply).toList ++ past) := by
  have later : ∀ {x : Engine}, x.Stems s past → x.Stems s ((received? c reply).toList ++ past) :=
    fun stems => ⟨stems.setup, fun t mem =>
      (stems.tasks t mem).mono (List.subset_append_right _ past)⟩
  cases h with
  | start work =>
    obtain ⟨started, scheduled, queue⟩ := start_cases work
    exact later (queue.stems (Fault.foldlM_ok scheduleOwn_stems scheduled stems))
  | beacon brought taken => exact taken.stems brought stems
  | data _ carried => exact later (carried.queue.stems stems)
  | frame bridged => exact later (bridged.queue.stems stems)
  | @poll now settled work =>
    have performed := work.stems stems
    split
    · exact later ((sweep_sweeps settled now).queue.stems performed)
    · exact later performed
  | sweep now => exact later ((sweep_sweeps e now).queue.stems stems)
  | shutdown now =>
    obtain ⟨swept, kept, cleared⟩ := e.shutdown_queue now
    exact later (cleared.stems ⟨(kept.stems stems).setup, nofun⟩)

theorem History.stems {jitter : Jitter} {past : List Event} (h : History (.new s jitter) past e) :
    e.Stems s (receptions past) := by
  induction h with
  | nil => exact ⟨rfl, nofun⟩
  | call before made ih =>
    rw [receptions_cons]
    exact (step_does made).stems ih

end Engine

/-! ### What is sent -/

/-- Whether a sending sent the beacon of a task that came into the queue in one of these ways, with
hosts that can be counted if the beacon is ours. -/
structure Sending.Stems (s : Setup) (past : List Reception) (y : Sending) : Prop where
  task : y.task.Stems s past
  sent : ∃ hosts, (y.task.own = true → hosts.length ≤ Wire.maxHosts) ∧
    y.sent = { y.task.beacon with hosts }.transmissions (y.task.targets s.ifaces)

theorem Sending.Stems.mono {s : Setup} {past past' : List Reception} {y : Sending}
    (h : y.Stems s past) (more : past ⊆ past') : y.Stems s past' :=
  ⟨h.task.mono more, h.sent⟩

namespace Engine

variable {e e' : Engine} {s : Setup} {past : List Reception} {t : Task} {now : Time}

theorem perform_stem {scheduler : Scheduler}
    (popped : e.scheduler.pop? now = some (t, scheduler))
    (work : { e with scheduler }.perform t now = .ok e') (stems : e.Stems s past)
    (fits : e.hosts.Fits) :
    Sending.Stems s past ⟨now, t, e'.outbox.drop e.outbox.length⟩ := by
  obtain ⟨stem, -⟩ := perform_stems popped work stems
  refine ⟨stem, ?_⟩
  obtain ⟨hosts, leaves, few⟩ := leaving_hosts { e with scheduler } t
  have grown := perform_outbox work
  rw [leaves] at grown
  refine ⟨hosts, fun own => few ?_ fits, ?_⟩
  · cases stem with
    | own _ _ out =>
      unfold Task.ownIface?
      rw [if_pos own, out]
      rfl
    | relay relay => simp [relay] at own
  · show e'.outbox.drop e.outbox.length = _
    rw [grown, List.drop_left]
    exact stems.setup ▸ rfl

theorem drain_stems {limit count : Nat} (h : e.drain now limit = .ok (e', count))
    (stems : e.Stems s past) (fits : e.hosts.Fits) :
    ∀ y ∈ e.sendings now limit, y.Stems s past := by
  have kept := drain_sendings
    (Q := fun done x => x.Stems s past ∧ x.hosts.Fits ∧ ∀ y ∈ done, y.Stems s past)
    (fun {done x x' t scheduler} popped work ⟨stems, fits, sent⟩ => ?_) [] h ⟨stems, fits, nofun⟩
  · exact kept.2.2
  · refine ⟨(perform_stems popped work stems).2, (perform_hosts work).fits fits, fun y mem => ?_⟩
    rcases List.mem_append.mp mem with old | new
    · exact sent y old
    · rw [List.mem_singleton.mp new]
      exact perform_stem popped work stems fits

theorem History.sendings_stem {jitter : Jitter} {earlier : List Event} {x : Event}
    (before : History (.new s jitter) earlier x.before)
    (made : x.before.step x.call = .ok (x.after, x.reply)) :
    ∀ y ∈ x.sendings, y.Stems s (receptions earlier) := by
  unfold Event.sendings
  split
  · rename_i now call
    rw [call] at made
    obtain ⟨⟨polled, tasks⟩, work, -⟩ := Fault.bind_ok made
    obtain ⟨settled, drained, -⟩ := poll_drains work
    exact drain_stems drained before.stems before.fits
  · nofun

theorem History.allSendings_stem {jitter : Jitter} {past : List Event}
    (h : History (.new s jitter) past e) : ∀ y ∈ allSendings past, y.Stems s (receptions past) := by
  induction h with
  | nil => nofun
  | @call past e e' c r before made ih =>
    intro y mem
    have more : receptions past ⊆ receptions (⟨e, c, r, e'⟩ :: past) := by
      rw [receptions_cons]
      exact List.subset_append_right _ _
    rw [allSendings_cons] at mem
    rcases List.mem_append.mp mem with old | new
    · exact (ih y old).mono more
    · exact (before.sendings_stem (x := ⟨e, c, r, e'⟩) made y new).mono more

end Engine

end BeaconMesh

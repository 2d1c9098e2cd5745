import BeaconMesh.Proofs.Faults.Polls
import BeaconMesh.Proofs.Sending.Addressed

/-!
# No task is lost when it is due

A task could fail to be sent in two ways: it could need an interface and have none, and its beacon
could have more hosts than can be counted. `Task.Sendable` rules both out. Every task that enters
the queue is sendable as long as beacons come in as packets, so each one that a poll takes from the
queue leaves on all its targets (`every_task_is_sent`).
-/

namespace BeaconMesh

variable {s : Setup}

theorem Setup.ids (s : Setup) : s.ifaces.map Iface.id = List.range s.ifaces.length := by
  apply List.ext_getElem
  · simp
  · intro i inRange _
    rw [List.length_map] at inRange
    rw [List.getElem_map, List.getElem_range, s.numbered i inRange]

/-! ### Tasks that can be sent -/

namespace Task

variable {t : Task}

/-- Whether a task has an interface of ours, a hop left, and hosts that can be counted, and is the
echo to a neighbour if it is one over a one-way link. -/
structure Sendable (s : Setup) (t : Task) : Prop where
  out : ∃ here ∈ s.ifaces, t.out = some here.id
  hops : 1 ≤ t.beacon.ttl.toNat
  few : t.beacon.hosts.length ≤ Wire.maxHosts
  echo : t.oneWay = true → t.direct = true

theorem Sendable.targets_cases (h : t.Sendable s) :
    (∃ here ∈ s.ifaces, ∃ flags, t.targets s.ifaces = [(here.id, flags)]) ∨
      t.targets s.ifaces = s.ifaces.map fun i => (i.id, t.flagsOn i.id) := by
  obtain ⟨here, known, out⟩ := h.out
  unfold targets
  rw [out]
  split
  · exact .inl ⟨here, known, _, rfl⟩
  split
  · exact .inl ⟨here, known, _, rfl⟩
  · rw [Option.isNone_some, Bool.and_false, if_neg Bool.false_ne_true]
    exact .inr rfl

theorem Sendable.targets (h : t.Sendable s) : t.targets s.ifaces ≠ [] ∧
    ((t.targets s.ifaces).map Prod.fst).Nodup ∧
      ∀ target ∈ t.targets s.ifaces, ∃ here ∈ s.ifaces, here.id = target.1 := by
  rcases h.targets_cases with ⟨here, known, flags, alone⟩ | everywhere
  · rw [alone]
    exact ⟨nofun, List.nodup_singleton _, List.forall_mem_singleton.mpr ⟨here, known, rfl⟩⟩
  · rw [everywhere]
    refine ⟨fun none => s.nonempty (List.map_eq_nil_iff.mp none), ?_, ?_⟩
    · rw [List.map_map]
      exact s.ids ▸ List.nodup_range
    · exact List.forall_mem_map.mpr fun here known => ⟨here, known, rfl⟩

end Task

/-- Whether a call brings a beacon that was not read from a packet. -/
def Call.handsBeacon : Call → Bool
  | .beacon _ _ _ _ => true
  | _ => false

theorem Call.hosts_of_reception? {c : Call} {r : Reception} (read : c.handsBeacon = false)
    (brought : c.reception? false = some r) : r.beacon.hosts.length ≤ Wire.maxHosts := by
  cases c with
  | packet payload sender iface now =>
    unfold Call.reception? at brought
    dsimp only at brought
    split at brought
    · rename_i b decoded
      cases brought
      exact (Wire.encodeBeacon_eq_ok.mp (Wire.encode_of_decode decoded)).1
    · cases brought
  | beacon => cases read
  | _ => cases brought

namespace Engine

variable {e e' : Engine} {t : Task} {now : Time}

/-- Whether every task in the queue can be sent. -/
structure Ready (s : Setup) (e : Engine) : Prop where
  setup : e.setup = s
  tasks : ∀ t ∈ e.scheduler.tasks, t.Sendable s

theorem Ready.same (ready : e.Ready s) (queue : SameQueue e e') : e'.Ready s := by
  refine ⟨queue.setup.trans ready.setup, ?_⟩
  rw [queue.scheduler]
  exact ready.tasks

theorem Ready.enqueue (ready : e.Ready s) (entering : t.Sendable s) :
    { e with scheduler := e.scheduler.enqueue t }.Ready s := by
  refine ⟨ready.setup, fun u mem => ?_⟩
  rcases Scheduler.mem_insertTask.mp mem with rfl | old
  · exact entering
  · exact ready.tasks u old

theorem scheduleOwn_ready {iface : IfaceId} (h : e.scheduleOwn iface now = .ok e')
    (ready : e.Ready s) : e'.Ready s := by
  rcases scheduleOwn_cases h with ⟨here, counter, due, known, -, -, rfl⟩ | ⟨-, rfl⟩
  · rw [ready.setup] at known
    obtain ⟨inRange, -⟩ := List.getElem?_eq_some_iff.mp known
    obtain ⟨iface, listed, rfl⟩ := Setup.iface_of_lt inRange
    refine ⟨ready.setup, fun t mem => ?_⟩
    rcases Scheduler.mem_insertTask.mp mem with rfl | old
    · refine ⟨⟨iface, listed, rfl⟩, ?_, Nat.zero_le _, nofun⟩
      show 1 ≤ e.setup.config.ttl.toNat
      exact Nat.le_of_lt e.setup.valid.two_le_ttl
    · exact ready.tasks t old
  · exact ready

theorem perform_ready {scheduler : Scheduler}
    (popped : e.scheduler.pop? now = some (t, scheduler))
    (work : { e with scheduler }.perform t now = .ok e') (ready : e.Ready s) :
    t.Sendable s ∧ e'.Ready s := by
  obtain ⟨tasks, -⟩ := Scheduler.tasks_of_pop? popped
  obtain ⟨first, others⟩ := List.forall_mem_cons.mp (tasks ▸ ready.tasks)
  refine ⟨first, ?_⟩
  rcases perform_cases work with ⟨-, rfl⟩ | ⟨iface, -, scheduled⟩
  · exact ⟨ready.setup, others⟩
  · exact scheduleOwn_ready scheduled ⟨ready.setup, others⟩

theorem Performs.ready {ts : List Task} (h : Performs now e ts e') (ready : e.Ready s) :
    e'.Ready s := by
  induction h with
  | none => exact ready
  | task popped work _ ih => exact ih (perform_ready popped work ready).2

theorem Takes.ready {b : Beacon} {hop : Hop} {outcome : PacketOutcome}
    (taken : e.Takes b hop now outcome e') (few : b.hosts.length ≤ Wire.maxHosts)
    (ready : e.Ready s) : e'.Ready s := by
  rcases taken.relays with
    queue | ⟨duplicate, estimate, settled, mode, quality, relays, queue, -, rfl⟩
  · exact ready.same queue
  obtain ⟨here, known, same⟩ := Setup.iface_of_lt (ready.setup ▸ relays.admitted.iface)
  refine (ready.same queue).enqueue ⟨⟨here, known, ?_⟩, relays.ttl.2, few, ?_⟩
  · rw [same]
    rfl
  · exact (relayMode?_straight relays.chosen).2

theorem Does.ready {c : Call} {reply : Reply} (h : Does e c reply e')
    (read : c.handsBeacon = false) (ready : e.Ready s) : e'.Ready s := by
  cases h with
  | start work =>
    obtain ⟨started, scheduled, queue⟩ := start_cases work
    have begun : started.Ready s := Fault.foldlM_ok scheduleOwn_ready scheduled ready
    exact begun.same queue
  | beacon brought taken => exact taken.ready (c.hosts_of_reception? read brought) ready
  | data _ carried => exact ready.same carried.queue
  | frame bridged => exact ready.same bridged.queue
  | @poll now settled work =>
    have performed := work.ready ready
    split
    · exact performed.same (sweep_sweeps settled now).queue
    · exact performed
  | sweep now => exact ready.same (sweep_sweeps e now).queue
  | shutdown now =>
    obtain ⟨swept, kept, cleared⟩ := e.shutdown_queue now
    have empty : { swept with scheduler := swept.scheduler.clear }.Ready s :=
      ⟨(ready.same kept).setup, nofun⟩
    exact empty.same cleared

theorem run_ready {cs : List Call} (h : e.run cs = .ok e')
    (read : ∀ c ∈ cs, c.handsBeacon = false) (ready : e.Ready s) : e'.Ready s := by
  induction cs generalizing e with
  | nil =>
    cases h
    exact ready
  | cons c cs ih =>
    obtain ⟨⟨next, r⟩, first, h⟩ := Fault.bind_ok h
    obtain ⟨here, later⟩ := List.forall_mem_cons.mp read
    exact ih h later ((step_does first).ready here ready)

end Engine

/-! ### What leaves -/

/-- The interface that an action uses. -/
def Action.iface? : Action → Option IfaceId
  | .transmit iface _ _ => some iface
  | .deliver _ => none

/-- Whether a sending has one packet for every target of its task, at most one per interface, with
the beacon of the task but for its flags, and for its hosts if it is ours. -/
structure Sending.Complete (s : Setup) (y : Sending) : Prop where
  targets : y.sent.map Action.iface? = (y.task.targets s.ifaces).map fun target => some target.1
  some : y.sent ≠ []
  once : (y.sent.map Action.iface?).Nodup
  each : ∀ action ∈ y.sent, ∃ here ∈ s.ifaces, ∃ payload flags hosts,
    action = .transmit here.id .broadcast payload ∧
    Wire.decode payload = .ok (.beacon { y.task.beacon with flags, hosts }) ∧
    (y.task.own = false → hosts = y.task.beacon.hosts)

namespace Engine

variable {e e' : Engine} {t : Task} {now : Time}

theorem leaving_few (e : Engine) (fits : e.hosts.Fits) (sendable : t.Sendable s) :
    ∃ hosts, e.leaving t = { t.beacon with hosts } ∧ hosts.length ≤ Wire.maxHosts ∧
      (t.own = false → hosts = t.beacon.hosts) := by
  unfold leaving
  cases own : t.ownIface? with
  | none => exact ⟨t.beacon.hosts, rfl, sendable.few, fun _ => rfl⟩
  | some iface =>
    refine ⟨_, rfl, fits.refresh.buffer, fun relay => ?_⟩
    rw [Task.ownIface?, relay] at own
    cases own

theorem transmissions_complete {hosts : List Addr} (sendable : t.Sendable s)
    (few : hosts.length ≤ Wire.maxHosts) (kept : t.own = false → hosts = t.beacon.hosts) :
    Sending.Complete s
      ⟨now, t, { t.beacon with hosts }.transmissions (t.targets s.ifaces)⟩ := by
  obtain ⟨some, once, known⟩ := sendable.targets
  rw [Beacon.transmissions_eq few]
  have ifaces : ((t.targets s.ifaces).map fun target => Action.transmit target.1 .broadcast
      (Wire.beaconBytes { t.beacon with hosts, flags := target.2 })).map Action.iface? =
        (t.targets s.ifaces).map fun target => Option.some target.1 := by
    rw [List.map_map]
    rfl
  refine ⟨ifaces, fun none => some (List.map_eq_nil_iff.mp none), ?_, ?_⟩
  · rw [ifaces]
    have distinct := once.map fun _ _ => Option.some.inj
    rwa [List.map_map] at distinct
  · intro action mem
    obtain ⟨target, listed, rfl⟩ := List.mem_map.mp mem
    obtain ⟨here, mine, same⟩ := known target listed
    rw [← same]
    have written : Wire.encode (.beacon { t.beacon with hosts, flags := target.2 }) = .ok _ :=
      Wire.encodeBeacon_eq_ok.mpr ⟨few, rfl⟩
    exact ⟨here, mine, _, target.2, hosts, rfl, Wire.decode_of_encode written, kept⟩

theorem perform_complete {scheduler : Scheduler}
    (popped : e.scheduler.pop? now = some (t, scheduler))
    (work : { e with scheduler }.perform t now = .ok e') (ready : e.Ready s) (fits : e.hosts.Fits) :
    Sending.Complete s ⟨now, t, e'.outbox.drop e.outbox.length⟩ := by
  obtain ⟨sendable, -⟩ := perform_ready popped work ready
  obtain ⟨hosts, leaves, few, kept⟩ := { e with scheduler }.leaving_few fits sendable
  have grown := perform_outbox work
  rw [leaves] at grown
  have sent : e'.outbox.drop e.outbox.length =
      { t.beacon with hosts }.transmissions (t.targets s.ifaces) := by
    rw [grown, List.drop_left]
    exact ready.setup ▸ rfl
  rw [sent]
  exact transmissions_complete sendable few kept

theorem drain_complete {limit count : Nat} (h : e.drain now limit = .ok (e', count))
    (ready : e.Ready s) (fits : e.hosts.Fits) : ∀ y ∈ e.sendings now limit, y.Complete s := by
  have kept := drain_sendings
    (Q := fun done x => x.Ready s ∧ x.hosts.Fits ∧ ∀ y ∈ done, y.Complete s)
    (fun {done x x' t scheduler} popped work ⟨ready, fits, sent⟩ => ?_) [] h ⟨ready, fits, nofun⟩
  · exact kept.2.2
  · refine ⟨(perform_ready popped work ready).2, (perform_hosts work).fits fits, ?_⟩
    refine List.forall_mem_append.mpr ⟨sent, List.forall_mem_singleton.mpr ?_⟩
    exact perform_complete popped work ready fits

theorem task_of_sendings (e : Engine) (now : Time) (limit : Nat) :
    (e.sendings now limit).map Sending.task = e.performed now limit := by
  induction limit generalizing e with
  | zero => rfl
  | succ limit ih =>
    cases popped : e.scheduler.pop? now with
    | none =>
      rw [sendings_of_idle popped, performed_of_none popped]
      rfl
    | some taken =>
      obtain ⟨next, work, -⟩ := { e with scheduler := taken.2 }.perform_ok taken.1 now
      rw [sendings_of_popped popped work, performed_of_some popped work, List.map_cons, ih]

theorem length_sendings {limit count : Nat} (h : e.drain now limit = .ok (e', count)) :
    (e.sendings now limit).length = count := by
  obtain ⟨-, counted⟩ := drain_performs h
  rw [counted, ← e.task_of_sendings now limit, List.length_map]

/-- Every task that is taken from the queue leaves on all its targets, of which there is one at
least. -/
theorem every_task_is_sent {jitter : Jitter} {cs : List Call}
    (h : (Engine.new s jitter).run cs = .ok e) (read : ∀ c ∈ cs, c.handsBeacon = false) :
    (∀ t ∈ e.scheduler.tasks, t.Sendable s ∧ t.targets s.ifaces ≠ []) ∧
    (∀ (now : Time) (limit : Nat) (mid : Engine) (count : Nat),
      e.drain now limit = .ok (mid, count) →
        (e.sendings now limit).length = count ∧
        mid.outbox = e.outbox ++ (e.sendings now limit).flatMap Sending.sent ∧
        ∀ y ∈ e.sendings now limit, y.Complete s) ∧
    ∀ (now : Time) (e' : Engine) (count : Nat), e.poll now = .ok (e', count) →
      (e.sendings now e.scheduler.size).length = count ∧
      e'.outbox = e.outbox ++ (e.sendings now e.scheduler.size).flatMap Sending.sent ∧
      ∀ y ∈ e.sendings now e.scheduler.size, y.Complete s := by
  have ready : e.Ready s := run_ready h read ⟨rfl, nofun⟩
  obtain ⟨past, history, -⟩ := run_iff_history.mp h
  have drains : ∀ (now : Time) (limit : Nat) (mid : Engine) (count : Nat),
      e.drain now limit = .ok (mid, count) →
        (e.sendings now limit).length = count ∧
        mid.outbox = e.outbox ++ (e.sendings now limit).flatMap Sending.sent ∧
        ∀ y ∈ e.sendings now limit, y.Complete s :=
    fun now limit mid count work =>
      ⟨length_sendings work, drain_outbox work, drain_complete work ready history.fits⟩
  refine ⟨fun t mem => ?_, drains, fun now e' count polled => ?_⟩
  · have sendable := ready.tasks t mem
    exact ⟨sendable, sendable.targets.1⟩
  · obtain ⟨settled, work, rfl⟩ := poll_drains polled
    obtain ⟨counted, sent, complete⟩ := drains _ _ _ _ work
    refine ⟨counted, ?_, complete⟩
    rw [← sent]
    split
    · exact (sweep_sweeps settled now).outbox
    · rfl

/-- Packets of the neighbour: a beacon before and after it echoes ours, and one that it relays. -/
def packetCalls : List Call :=
  let near (seqno : Seqno) : Beacon := { ttl := 50, quality := 255, seqno, orig := Sample.near }
  [.start 0, .poll 1000, .packet (Wire.beaconBytes (near 7)) Sample.near 0 1001,
    .packet (Wire.beaconBytes
      { flags := Beacon.directFlag, orig := Sample.setup.primary, seqno := 1 }) Sample.near 0 1002,
    .packet (Wire.beaconBytes (near 8)) Sample.near 0 1003,
    .packet (Wire.beaconBytes (Sample.relayed 1 [Sample.host])) Sample.near 0 1004]

theorem every_task_is_sent_sample :
    ∃ e e', (Engine.new Sample.setup default).run packetCalls = .ok e ∧
      (∀ c ∈ packetCalls, c.handsBeacon = false) ∧
      e.scheduler.tasks.map Task.oneWay = [true, false, false, false, false] ∧
      (∀ t ∈ e.scheduler.tasks, t.Sendable Sample.setup) ∧ e.poll 1900 = .ok (e', 5) ∧
      (e.sendings 1900 e.scheduler.size).length = 5 ∧
      ∀ y ∈ e.sendings 1900 e.scheduler.size, y.Complete Sample.setup := by
  have reached : ∃ e e', (Engine.new Sample.setup default).run packetCalls = .ok e ∧
      e.scheduler.tasks.map Task.oneWay = [true, false, false, false, false] ∧
      e.poll 1900 = .ok (e', 5) := ⟨_, _, rfl, rfl, rfl⟩
  obtain ⟨e, e', run, oneWay, polled⟩ := reached
  have read : ∀ c ∈ packetCalls, c.handsBeacon = false := by decide
  obtain ⟨queued, -, polls⟩ := every_task_is_sent run read
  obtain ⟨counted, -, complete⟩ := polls 1900 e' 5 polled
  exact ⟨e, e', run, read, oneWay, fun t mem => (queued t mem).1, polled, counted, complete⟩

end Engine

end BeaconMesh

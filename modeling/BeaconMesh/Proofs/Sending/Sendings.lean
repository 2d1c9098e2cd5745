import BeaconMesh.Proofs.Engine.Upkeep
import BeaconMesh.Proofs.Hosts.Announced
import BeaconMesh.Proofs.Relays.Queue
import BeaconMesh.Proofs.Wire.Canonical

/-!
# What leaves a node

A `Sending` is a task that a poll performed, with what that added to the outbox. Beacons leave by
sendings alone (`step_sent`), as the transmissions of the task's beacon on its targets.
-/

namespace BeaconMesh

/-! ### Transmissions -/

/-- The beacon that an action sends, with the interface it leaves on. -/
def Action.beacon? : Action → Option (IfaceId × Beacon)
  | .transmit iface _ payload =>
    match Wire.decode payload with
    | .ok (.beacon b) => some (iface, b)
    | _ => none
  | .deliver _ => none

theorem Action.beacon?_transmit {iface : IfaceId} {dest : Addr} {payload : Bytes} {p : Packet}
    (written : Wire.encode p = .ok payload) : (Action.transmit iface dest payload).beacon? =
      match p with
      | .beacon b => some (iface, b)
      | _ => none := by
  rw [beacon?, Wire.decode_of_encode written]
  cases p <;> rfl

/-- What sends a beacon on its targets, with the flags for each; nothing if it has more hosts than
can be counted. -/
def Beacon.transmissions (b : Beacon) (targets : List (IfaceId × UInt8)) : List Action :=
  targets.filterMap fun target =>
    match Wire.encodeBeacon { b with flags := target.2 } with
    | .ok payload => some (.transmit target.1 .broadcast payload)
    | .error _ => none

namespace Beacon

variable {b : Beacon} {targets : List (IfaceId × UInt8)}

theorem transmissions_eq (few : b.hosts.length ≤ Wire.maxHosts) :
    b.transmissions targets = targets.map fun target =>
      .transmit target.1 .broadcast (Wire.beaconBytes { b with flags := target.2 }) := by
  have written : ∀ flags, Wire.encodeBeacon { b with flags } =
      .ok (Wire.beaconBytes { b with flags }) :=
    fun flags => Wire.encodeBeacon_eq_ok.mpr ⟨few, rfl⟩
  simp only [transmissions, written]
  exact congrFun List.filterMap_eq_map targets

theorem transmissions_of_many (many : Wire.maxHosts < b.hosts.length) :
    b.transmissions targets = [] := by
  have unwritten : ∀ flags, Wire.encodeBeacon { b with flags } =
      .error (.tooManyHosts b.hosts.length) := fun flags => if_pos many
  simp only [transmissions, unwritten]
  exact List.filterMap_eq_nil_iff.mpr fun _ _ => rfl

theorem mem_transmissions {action : Action} : action ∈ b.transmissions targets ↔
    ∃ target ∈ targets, b.hosts.length ≤ Wire.maxHosts ∧
      action = .transmit target.1 .broadcast (Wire.beaconBytes { b with flags := target.2 }) := by
  by_cases few : b.hosts.length ≤ Wire.maxHosts
  · simp [transmissions_eq few, few, eq_comm]
  · simp [transmissions_of_many (Nat.not_le.mp few), few]

theorem beacon?_of_transmission {action : Action} (mem : action ∈ b.transmissions targets) :
    ∃ iface flags, (iface, flags) ∈ targets ∧ action.beacon? = some (iface, { b with flags }) := by
  obtain ⟨⟨iface, flags⟩, target, few, rfl⟩ := mem_transmissions.mp mem
  have written : Wire.encode (.beacon { b with flags }) =
      .ok (Wire.beaconBytes { b with flags }) := Wire.encodeBeacon_eq_ok.mpr ⟨few, rfl⟩
  exact ⟨iface, flags, target, Action.beacon?_transmit written⟩

end Beacon

theorem Task.targets_plain {t : Task} (plain : t.direct = false ∧ t.oneWay = false)
    (ifaces : List Iface) : t.targets ifaces = ifaces.map fun here => (here.id, 0) := by
  simp [Task.targets, flagsOn, plain]

/-! ### Sendings -/

/-- A task that was performed: when, and what that sent. -/
structure Sending where
  time : Time
  task : Task
  sent : List Action

namespace Engine

variable {e e' : Engine} {t : Task} {now : Time}

/-- The tasks that a drain performs, with what each sends. -/
def sendings (e : Engine) (now : Time) : Nat → List Sending
  | 0 => []
  | limit + 1 =>
    match e.scheduler.pop? now with
    | some (t, scheduler) =>
      match { e with scheduler }.perform t now with
      | .ok next =>
        { time := now, task := t, sent := next.outbox.drop e.outbox.length } ::
          next.sendings now limit
      | .error _ => []
    | none => []

theorem sendings_of_popped {scheduler : Scheduler}
    (popped : e.scheduler.pop? now = some (t, scheduler))
    (work : { e with scheduler }.perform t now = .ok e') (limit : Nat) :
    e.sendings now (limit + 1) =
      ⟨now, t, e'.outbox.drop e.outbox.length⟩ :: e'.sendings now limit := by
  simp only [sendings, popped, work]

theorem sendings_of_idle (idle : e.scheduler.pop? now = none) (limit : Nat) :
    e.sendings now (limit + 1) = [] := by
  simp only [sendings, idle]

/-- The beacon of a task as it leaves: one of ours carries the hosts that we announce. -/
def leaving (e : Engine) (t : Task) : Beacon :=
  if t.ownIface?.isSome then { t.beacon with hosts := Wire.hostsOf e.hosts.refresh.buffer }
  else t.beacon

theorem perform_outbox (h : e.perform t now = .ok e') :
    e'.outbox = e.outbox ++ (e.leaving t).transmissions (t.targets e.setup.ifaces) := by
  unfold leaving
  rcases perform_cases h with ⟨other, rfl⟩ | ⟨iface, own, scheduled⟩
  · rw [other, Option.isSome_none, if_neg nofun]
    rfl
  · rw [scheduleOwn_outbox scheduled, own, Option.isSome_some, if_pos rfl]
    rfl

theorem leaving_hosts (e : Engine) (t : Task) : ∃ hosts, e.leaving t = { t.beacon with hosts } ∧
    (t.ownIface?.isSome = true → e.hosts.Fits → hosts.length ≤ Wire.maxHosts) := by
  unfold leaving
  cases own : t.ownIface? with
  | none => exact ⟨t.beacon.hosts, rfl, nofun⟩
  | some iface => exact ⟨_, rfl, fun _ fits => fits.refresh.buffer⟩

/-- What every task keeps that is performed holds after a drain, with the sendings so far. -/
theorem drain_sendings {Q : List Sending → Engine → Prop}
    (performs : ∀ {done : List Sending} {e e' : Engine} {t : Task} {scheduler : Scheduler},
      e.scheduler.pop? now = some (t, scheduler) → { e with scheduler }.perform t now = .ok e' →
      Q done e → Q (done ++ [⟨now, t, e'.outbox.drop e.outbox.length⟩]) e')
    (done : List Sending) {limit count : Nat} (h : e.drain now limit = .ok (e', count))
    (holds : Q done e) : Q (done ++ e.sendings now limit) e' := by
  induction limit generalizing e done count with
  | zero =>
    cases h
    rwa [sendings, List.append_nil]
  | succ limit ih =>
    unfold drain at h
    split at h
    · rename_i t scheduler popped
      obtain ⟨next, work, h⟩ := Fault.bind_ok h
      obtain ⟨⟨drained, rest⟩, tail, h⟩ := Fault.bind_ok h
      cases Fault.pure_ok h
      have later := ih _ tail (performs popped work holds)
      rwa [sendings_of_popped popped work, ← List.singleton_append, ← List.append_assoc]
    · rename_i idle
      cases h
      rwa [sendings_of_idle idle, List.append_nil]

theorem poll_drains {count : Nat} (h : e.poll now = .ok (e', count)) :
    ∃ settled, e.drain now e.scheduler.size = .ok (settled, count) ∧
      e' = if settled.sweepDue now then settled.sweep now else settled := by
  obtain ⟨⟨settled, performed⟩, due, h⟩ := Fault.bind_ok h
  cases Fault.pure_ok h
  obtain ⟨⟨drained, counted⟩, work, due⟩ := Fault.bind_ok due
  dsimp only at due
  split at due
  · cases due
  · cases Fault.pure_ok due
    exact ⟨settled, work, rfl⟩

theorem drain_outbox {limit count : Nat} (h : e.drain now limit = .ok (e', count)) :
    e'.outbox = e.outbox ++ (e.sendings now limit).flatMap Sending.sent := by
  have start : e.outbox = e.outbox ++ ([] : List Sending).flatMap Sending.sent :=
    (List.append_nil _).symm
  refine drain_sendings (Q := fun done x => x.outbox = e.outbox ++ done.flatMap Sending.sent) ?_ []
    h start
  intro done x x' t scheduler _ work same
  have grown := perform_outbox work
  rw [List.flatMap_append, ← List.append_assoc, ← same]
  simp [grown]

end Engine

/-- The tasks that a call performed. -/
def Event.sendings (x : Event) : List Sending :=
  match x.call with
  | .poll now => x.before.sendings now x.before.scheduler.size
  | _ => []

/-- The sendings of a history, in their order. -/
def allSendings (past : List Event) : List Sending := past.reverse.flatMap Event.sendings

theorem allSendings_cons (x : Event) (past : List Event) :
    allSendings (x :: past) = allSendings past ++ x.sendings := by
  simp [allSendings]

/-- What a call added to the outbox. -/
def Event.sent (x : Event) : List Action := x.after.outbox.drop x.before.outbox.length

theorem Event.sent_eq {x : Event} {sent : List Action}
    (grown : x.after.outbox = x.before.outbox ++ sent) : x.sent = sent := by
  rw [Event.sent, grown, List.drop_left]

/-! ### Frames and data -/

namespace Engine

variable {e e' : Engine} {b : Beacon} {hop : Hop} {now : Time} {P : Action → Prop}

/-- The outbox may have grown, by actions with a property. -/
def Sends (P : Action → Prop) (e e' : Engine) : Prop :=
  ∃ sent, e'.outbox = e.outbox ++ sent ∧ ∀ action ∈ sent, P action

theorem Sends.of_outbox (same : e'.outbox = e.outbox) : Sends P e e' :=
  ⟨[], same.trans (List.append_nil _).symm, nofun⟩

/-- Whether everything that frames and data can send has a property. -/
structure Traffic (P : Action → Prop) (e : Engine) : Prop where
  deliver : ∀ frame, P (.deliver frame)
  along : ∀ {u : Unicast} {l : Link}, e.route? u.dest = some l →
    P (.transmit l.hop.iface l.hop.addr (Wire.unicastBytes u))
  flood : ∀ here ∈ e.setup.ifaces, ∀ f : Flood,
    P (.transmit here.id .broadcast (Wire.floodBytes f))

theorem Traffic.sendAlong (traffic : e.Traffic P) (u : Unicast) (outcome : FrameOutcome) :
    Sends P e (e.sendAlong u outcome).1 := by
  unfold Engine.sendAlong
  split
  · rename_i l route
    exact ⟨_, rfl, List.forall_mem_singleton.mpr (traffic.along route)⟩
  · exact .of_outbox rfl

theorem Traffic.everywhere (traffic : e.Traffic P) (f : Flood) :
    ∀ action ∈ e.setup.ifaces.map fun here =>
      Action.transmit here.id .broadcast (Wire.floodBytes f), P action := by
  intro action mem
  obtain ⟨here, known, rfl⟩ := List.mem_map.mp mem
  exact traffic.flood here known f

theorem Traffic.receiveFrame (traffic : e.Traffic P) (frame : Bytes) (now : Time) :
    Sends P e (e.receiveFrame frame now).1 := by
  unfold Engine.receiveFrame
  split
  · exact .of_outbox rfl
  · rename_i header _
    let learned := { e with hosts := e.hosts.learn header.source now }
    have traffic' : learned.Traffic P := ⟨traffic.deliver, traffic.along, traffic.flood⟩
    dsimp only
    split
    · exact ⟨_, rfl, traffic.everywhere _⟩
    · split
      · exact .of_outbox rfl
      · exact traffic'.sendAlong _ _

theorem Traffic.receiveUnicast (traffic : e.Traffic P) (u : Unicast) :
    Sends P e (e.receiveUnicast u).1 := by
  unfold Engine.receiveUnicast
  split
  · exact ⟨_, rfl, List.forall_mem_singleton.mpr (traffic.deliver _)⟩
  · split
    · exact .of_outbox rfl
    · exact traffic.sendAlong _ _

theorem Traffic.receiveFlood (traffic : e.Traffic P) (f : Flood) :
    Sends P e (e.receiveFlood f).1 := by
  unfold Engine.receiveFlood
  split
  · exact .of_outbox rfl
  · split
    · exact .of_outbox rfl
    · split
      · exact .of_outbox rfl
      · refine ⟨_, List.append_assoc _ _ _, List.forall_mem_append.mpr ⟨?_, ?_⟩⟩
        · exact List.forall_mem_singleton.mpr (traffic.deliver _)
        · exact traffic.everywhere f

theorem receiveData_sends (sender : Addr) (receive : Engine → Engine × FrameOutcome)
    (sends : Sends P e (receive e).1) : Sends P e (e.receiveData sender receive).1 := by
  unfold receiveData
  split
  · exact .of_outbox rfl
  · exact sends

theorem Traffic.receive (traffic : e.Traffic P) {payload : Bytes} {sender : Addr} {iface : IfaceId}
    {outcome : PacketOutcome} (h : e.receive payload sender iface now = .ok (e', outcome)) :
    Sends P e e' := by
  unfold Engine.receive at h
  split at h
  · cases h
    exact .of_outbox rfl
  split at h
  · cases h
    exact .of_outbox rfl
  · rename_i b _
    have taken : e.Takes b ⟨sender, iface⟩ now outcome e' := receiveBeacon_takes h
    exact .of_outbox taken.outbox
  · rename_i u _
    have sends := receiveData_sends sender (·.receiveUnicast u) (traffic.receiveUnicast u)
    rwa [Except.ok.inj h] at sends
  · rename_i f _
    have sends := receiveData_sends sender (·.receiveFlood f) (traffic.receiveFlood f)
    rwa [Except.ok.inj h] at sends

theorem start_outbox (h : e.start now = .ok e') : e'.outbox = e.outbox := by
  obtain ⟨started, scheduled, h⟩ := Fault.bind_ok h
  rw [← Fault.pure_ok h]
  exact Fault.foldlM_ok (P := fun x => x.outbox = e.outbox)
    (fun work same => (scheduleOwn_outbox work).trans same) scheduled rfl

theorem shutdown_outbox (e : Engine) (now : Time) : (e.shutdown now).outbox = e.outbox := by
  have swept := (sweep_sweeps { e with nextSweep := none } (e.flushTime now)).outbox
  unfold shutdown
  generalize sweep _ _ = flushed at swept ⊢
  exact swept

/-- A call other than a poll sends nothing but what frames and data send. -/
theorem Traffic.step (traffic : e.Traffic P) {c : Call} {r : Reply} (h : e.step c = .ok (e', r))
    (other : ∀ now, c ≠ .poll now) : Sends P e e' := by
  cases c with
  | start now =>
    obtain ⟨started, work, h⟩ := Fault.bind_ok h
    cases Fault.pure_ok h
    exact .of_outbox (start_outbox work)
  | packet payload sender iface now =>
    obtain ⟨⟨received, outcome⟩, work, h⟩ := Fault.bind_ok h
    cases Fault.pure_ok h
    exact traffic.receive work
  | beacon b sender iface now =>
    obtain ⟨⟨received, outcome⟩, work, h⟩ := Fault.bind_ok h
    cases Fault.pure_ok h
    have taken : e.Takes b ⟨sender, iface⟩ now outcome e' := receiveBeacon_takes work
    exact .of_outbox taken.outbox
  | frame bytes now =>
    cases h
    exact traffic.receiveFrame bytes now
  | poll now => exact absurd rfl (other now)
  | sweep now =>
    obtain ⟨rfl, rfl⟩ := Prod.mk.inj (Except.ok.inj h)
    exact .of_outbox (sweep_sweeps e now).outbox
  | shutdown now =>
    obtain ⟨rfl, rfl⟩ := Prod.mk.inj (Except.ok.inj h)
    exact .of_outbox (shutdown_outbox e now)

theorem traffic_beacon? (e : Engine) : e.Traffic fun action => action.beacon? = none where
  deliver _ := rfl
  along {u _} _ := Action.beacon?_transmit (p := .unicast u) rfl
  flood _ _ f := Action.beacon?_transmit (p := .flood f) rfl

/-- What a call adds to the outbox are the sendings of a poll, or what frames and data send. -/
theorem Traffic.sent {x : Event} (traffic : x.before.Traffic P)
    (made : x.before.step x.call = .ok (x.after, x.reply)) :
    x.after.outbox = x.before.outbox ++ x.sent ∧
      (x.sent = x.sendings.flatMap Sending.sent ∨
        x.sendings = [] ∧ ∀ action ∈ x.sent, P action) := by
  by_cases polls : ∃ now, x.call = .poll now
  · obtain ⟨now, call⟩ := polls
    rw [call] at made
    obtain ⟨⟨polled, tasks⟩, work, answer⟩ := Fault.bind_ok made
    obtain ⟨after, -⟩ := Prod.mk.inj (Fault.pure_ok answer)
    obtain ⟨settled, drained, same⟩ := poll_drains work
    have swept : polled.outbox = settled.outbox := by
      rw [same]
      split
      · exact (sweep_sweeps settled now).outbox
      · rfl
    have sendings : x.sendings = x.before.sendings now x.before.scheduler.size := by
      rw [Event.sendings, call]
    have grown : x.after.outbox = x.before.outbox ++ x.sendings.flatMap Sending.sent := by
      rw [← after, swept, drain_outbox drained, sendings]
    rw [Event.sent_eq grown]
    exact ⟨grown, .inl rfl⟩
  · obtain ⟨sent, grown, holds⟩ := traffic.step made fun now call => polls ⟨now, call⟩
    rw [Event.sent_eq grown]
    refine ⟨grown, .inr ⟨?_, holds⟩⟩
    unfold Event.sendings
    split
    · rename_i now call
      exact absurd ⟨now, call⟩ polls
    · rfl

theorem step_sent {x : Event} (made : x.before.step x.call = .ok (x.after, x.reply)) :
    x.after.outbox = x.before.outbox ++ x.sent ∧
      (x.sent = x.sendings.flatMap Sending.sent ∨
        x.sendings = [] ∧ ∀ action ∈ x.sent, action.beacon? = none) :=
  (traffic_beacon? x.before).sent made

theorem History.beacons {s : Setup} {jitter : Jitter} {past : List Event}
    (h : History (.new s jitter) past e) :
    e.outbox.filterMap Action.beacon? =
      ((allSendings past).flatMap Sending.sent).filterMap Action.beacon? := by
  induction h with
  | nil => rfl
  | @call past e e' c r before made ih =>
    obtain ⟨grown, sent⟩ := step_sent (x := ⟨e, c, r, e'⟩) made
    have grown : e'.outbox = e.outbox ++ Event.sent ⟨e, c, r, e'⟩ := grown
    rw [grown, allSendings_cons, List.flatMap_append, List.filterMap_append, List.filterMap_append,
      ih]
    congr 1
    rcases sent with sent | ⟨quiet, none⟩
    · rw [sent]
    · rw [quiet]
      exact List.filterMap_eq_nil_iff.mpr none

/-! ### What holds of the sendings so far -/

/-- A property of the beacons to send, the counters and the sendings so far, that every call keeps
but a start and a shutdown. -/
structure SendingInvariant (Q : List Sending → Engine → Prop) : Prop where
  same : ∀ {done : List Sending} {e e' : Engine}, SameQueue e e' → Q done e → Q done e'
  relay : ∀ {done : List Sending} {e : Engine} {t : Task}, t.own = false → Q done e →
    Q done { e with scheduler := e.scheduler.enqueue t }
  perform : ∀ {done : List Sending} {e e' : Engine} {t : Task} {scheduler : Scheduler} {now : Time},
    e.scheduler.pop? now = some (t, scheduler) → { e with scheduler }.perform t now = .ok e' →
    e.hosts.Fits → Q done e → Q (done ++ [⟨now, t, e'.outbox.drop e.outbox.length⟩]) e'

namespace SendingInvariant

variable {Q : List Sending → Engine → Prop} {done : List Sending}

theorem drain (inv : SendingInvariant Q) {limit count : Nat}
    (h : e.drain now limit = .ok (e', count)) (fits : e.hosts.Fits) (holds : Q done e) :
    Q (done ++ e.sendings now limit) e' := by
  have kept := drain_sendings (Q := fun done x => x.hosts.Fits ∧ Q done x)
    (fun {done x x' t scheduler} popped work ⟨fits, holds⟩ => ?_) done h ⟨fits, holds⟩
  · exact kept.2
  · exact ⟨(perform_hosts work).fits fits, inv.perform popped work fits holds⟩

theorem step (inv : SendingInvariant Q) {c : Call} {r : Reply} (made : e.step c = .ok (e', r))
    (goesOn : ∀ now, c ≠ .start now ∧ c ≠ .shutdown now) (fits : e.hosts.Fits)
    (holds : Q done e) : Q (done ++ Event.sendings ⟨e, c, r, e'⟩) e' := by
  cases step_does made with
  | start => exact absurd rfl (goesOn _).1
  | @beacon _ _ outcome _ brought taken =>
    have quiet : Event.sendings ⟨e, c, .packet outcome, e'⟩ = [] := by
      cases c with
      | poll => cases brought
      | _ => rfl
    rw [quiet, List.append_nil]
    obtain ⟨settled, queue, rfl | ⟨t, relay, rfl⟩⟩ := taken.queue
    · exact inv.same queue holds
    · exact inv.relay relay (inv.same queue holds)
  | data _ carried => exact (List.append_nil done).symm ▸ inv.same carried.queue holds
  | frame bridged => exact (List.append_nil done).symm ▸ inv.same bridged.queue holds
  | @poll now =>
    obtain ⟨⟨polled, tasks⟩, work, answer⟩ := Fault.bind_ok made
    obtain ⟨after, -⟩ := Prod.mk.inj (Fault.pure_ok answer)
    obtain ⟨drained, performed, swept⟩ := poll_drains work
    have settled := inv.drain performed fits holds
    rw [← after, swept]
    show Q (done ++ e.sendings now e.scheduler.size) _
    split
    · exact inv.same (sweep_sweeps drained now).queue settled
    · exact settled
  | sweep now => exact (List.append_nil done).symm ▸ inv.same (sweep_sweeps e now).queue holds
  | shutdown now => exact absurd rfl (goesOn now).2

end SendingInvariant

end Engine

end BeaconMesh

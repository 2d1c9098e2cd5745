import BeaconMesh.Proofs.Hosts.Current
import BeaconMesh.Proofs.Sending.Origins

/-!
# Own beacons announce the hosts of the moment

A beacon of ours is given its hosts when it leaves. They are those on our bridge in the state that
the tasks before it in the same poll have led to, in ascending order and as many as fit. So the
beacon always has bytes, and they fit into a packet.
-/

namespace BeaconMesh

/-- How many hosts there is room for in a beacon of ours. -/
def Setup.room (s : Setup) : Nat := min 255 ((s.config.maxPacketSize.toNat - 21) / 6)

/-- Whether a sending sent a beacon with the hosts that a table announces, as bytes that fit into
a packet, on every interface. -/
structure Sending.Announces (s : Setup) (table : HostTable) (y : Sending) (b : Beacon)
    (payload : Bytes) : Prop where
  hosts : table.Announces s.room b.hosts
  beacon : b = { y.task.beacon with hosts := b.hosts, flags := 0 }
  encoded : Wire.encodeBeacon b = .ok payload
  fits : payload.length ≤ s.config.maxPacketSize.toNat
  sent : y.sent = s.ifaces.map fun here => .transmit here.id .broadcast payload

theorem Sending.Announces.read {s : Setup} {table : HostTable} {y : Sending} {b c : Beacon}
    {payload : Bytes} {action : Action} {iface : IfaceId} (h : y.Announces s table b payload)
    (mem : action ∈ y.sent) (read : action.beacon? = some (iface, c)) : c = b := by
  rw [h.sent] at mem
  obtain ⟨here, -, rfl⟩ := List.mem_map.mp mem
  have carried : (Action.transmit here.id .broadcast payload).beacon? = some (here.id, b) :=
    Action.beacon?_transmit (p := .beacon b) h.encoded
  cases read.symm.trans carried
  rfl

theorem Beacon.length_le {s : Setup} {b : Beacon} (few : b.hosts.length ≤ s.room) :
    b.hosts.length ≤ Wire.maxHosts ∧
      (Wire.beaconBytes b).length ≤ s.config.maxPacketSize.toNat := by
  have header : 21 ≤ s.config.maxPacketSize.toNat := s.valid.header_le
  have length : (Wire.beaconBytes b).length = 21 + b.hosts.length * 6 := Wire.length_beaconBytes b
  unfold Setup.room at few
  refine ⟨Nat.le_trans few (Nat.min_le_left _ _), ?_⟩
  omega

namespace Engine

variable {s : Setup} {jitter : Jitter} {e e' : Engine} {now : Time}

/-! ### The announcement list along a run -/

theorem new_current (s : Setup) (jitter : Jitter) : (Engine.new s jitter).hosts.Current s.room := by
  refine ⟨Nat.min_comm _ _, fun _ => ?_⟩
  have none : (Engine.new s jitter).hosts.localHosts = [] := rfl
  rw [none, List.take_nil]
  rfl

theorem run_current {cs : List Call} (h : (Engine.new s jitter).run cs = .ok e) :
    e.hosts.Current s.room :=
  run_of_step (P := fun e => e.hosts.Current s.room)
    (fun made current => (step_hosts made).current current) h (new_current s jitter)

/-! ### One sending of a poll -/

theorem sendings_getElem? {limit k : Nat} {y : Sending}
    (h : (e.sendings now limit)[k]? = some y) :
    ∃ mid scheduler next, e.drain now k = .ok (mid, k) ∧
      mid.scheduler.pop? now = some (y.task, scheduler) ∧
      { mid with scheduler }.perform y.task now = .ok next ∧
      y = ⟨now, y.task, next.outbox.drop mid.outbox.length⟩ := by
  induction limit generalizing e k with
  | zero => cases h
  | succ limit ih =>
    unfold sendings at h
    split at h
    · rename_i t scheduler popped
      split at h
      · rename_i next work
        cases k with
        | zero =>
          cases h
          exact ⟨e, scheduler, next, rfl, popped, work, rfl⟩
        | succ k =>
          obtain ⟨mid, left, after, drained, rest⟩ := ih h
          refine ⟨mid, left, after, ?_, rest⟩
          unfold drain
          rw [popped]
          show ({ e with scheduler }.perform t now >>= _) = _
          rw [work]
          show (next.drain now k >>= _) = _
          rw [drained]
          rfl
      · cases h
    · cases h

theorem perform_announces {y : Sending} {scheduler : Scheduler} (setup : e.setup = s)
    (current : e.hosts.Current s.room) (own : y.task.ownIface?.isSome = true)
    (plain : y.task.direct = false ∧ y.task.oneWay = false)
    (work : { e with scheduler }.perform y.task now = .ok e')
    (sent : y.sent = e'.outbox.drop e.outbox.length) :
    ∃ b payload, y.Announces s e.hosts b payload := by
  let hosts := e.hosts.localHosts.take s.room
  have leaves : { e with scheduler }.leaving y.task = { y.task.beacon with hosts } := by
    unfold leaving
    rw [if_pos own, current.refreshed, Wire.hostsOf_hostBytes]
  have few : hosts.length ≤ s.room := by
    rw [List.length_take]
    exact Nat.min_le_left _ _
  obtain ⟨countable, fits⟩ := Beacon.length_le
    (b := { y.task.beacon with hosts, flags := 0 }) few
  have grown := perform_outbox work
  rw [leaves, Task.targets_plain plain,
    Beacon.transmissions_eq (b := { y.task.beacon with hosts }) countable, List.map_map] at grown
  refine ⟨_, _, e.hosts.announces_localHosts s.room, rfl,
    Wire.encodeBeacon_eq_ok.mpr ⟨countable, rfl⟩, fits, ?_⟩
  rw [sent, grown, List.drop_left]
  exact setup ▸ rfl

/-! ### The whole -/

theorem own_of_mine {past : List Reception} {y : Sending} {action : Action} {iface : IfaceId}
    {b : Beacon} (stems : y.Stems s past) (mem : action ∈ y.sent)
    (read : action.beacon? = some (iface, b)) (mine : s.isMine b.orig = true) :
    y.task.own = true := by
  obtain ⟨hosts, -, sent⟩ := stems.sent
  rw [sent] at mem
  obtain ⟨_, _, _, carried⟩ := Beacon.beacon?_of_transmission mem
  cases carried.symm.trans read
  -- a relay never carries a beacon of ours
  cases stems.task with
  | own own => exact own
  | relay _ foreign => cases foreign.symm.trans mine

theorem History.sending_announces {earlier : List Event} {x : Event}
    (before : History (.new s jitter) earlier x.before)
    (made : x.before.step x.call = .ok (x.after, x.reply)) {k : Nat} {y : Sending}
    (found : x.sendings[k]? = some y) (own : y.task.own = true) :
    ∃ mid b payload, x.call = .poll y.time ∧ x.before.drain y.time k = .ok (mid, k) ∧
      y.Announces s mid.hosts b payload := by
  have stems := before.sendings_stem made y (List.mem_of_getElem? found)
  have known : y.task.ownIface?.isSome = true ∧ y.task.direct = false ∧ y.task.oneWay = false := by
    cases stems.task with
    | own _ _ out plain =>
      refine ⟨?_, plain⟩
      unfold Task.ownIface?
      rw [if_pos own, out]
      rfl
    | relay relay => cases relay.symm.trans own
  unfold Event.sendings at found
  split at found
  · rename_i now call
    -- the tasks before this one may change the table, so it is read in the state that they leave
    obtain ⟨mid, scheduler, next, drained, -, work, sending⟩ := sendings_getElem? found
    have time : y.time = now := congrArg Sending.time sending
    have current : mid.hosts.Current s.room := by
      have waiting := run_current (run_of_history before)
      exact (drain_performs drained).1.hosts.current waiting
    have setup : mid.setup = s := (setup_invariant s).updates (drain_updates k drained) before.setup
    obtain ⟨b, payload, announces⟩ :=
      perform_announces setup current known.1 known.2 work (congrArg Sending.sent sending)
    rw [time]
    exact ⟨mid, b, payload, call, drained, announces⟩
  · cases found

/-- A beacon of ours carries the hosts on our bridge as they are when its task is performed, and is
always sent. -/
theorem own_beacons_current {cs : List Call} (h : (Engine.new s jitter).run cs = .ok e) :
    (e.hosts.changed = false →
      ∃ hosts, e.hosts.Announces s.room hosts ∧ e.hosts.buffer = Wire.hostBytes hosts) ∧
    ∃ past, History (.new s jitter) past e ∧ past.reverse.map Event.call = cs ∧
      ∀ later x earlier, past = later ++ x :: earlier →
        (∀ action ∈ x.sent, ∀ iface b, action.beacon? = some (iface, b) →
          s.isMine b.orig = true →
          ∃ (k : Nat) (y : Sending) (mid : Engine) (payload : Bytes),
            x.sendings[k]? = some y ∧ action ∈ y.sent ∧ x.call = .poll y.time ∧
            x.before.drain y.time k = .ok (mid, k) ∧ y.Announces s mid.hosts b payload) ∧
        ∀ (k : Nat) (y : Sending), x.sendings[k]? = some y → y.task.own = true →
          ∃ (mid : Engine) (b : Beacon) (payload : Bytes), x.call = .poll y.time ∧
            x.before.drain y.time k = .ok (mid, k) ∧ y.Announces s mid.hosts b payload := by
  refine ⟨fun unchanged => ?_, ?_⟩
  · have current := run_current h
    exact ⟨_, e.hosts.announces_localHosts s.room, current.buffer unchanged⟩
  obtain ⟨past, history, calls⟩ := run_iff_history.mp h
  refine ⟨past, history, calls, ?_⟩
  intro later x earlier split
  subst split
  obtain ⟨before, made⟩ := history.cut
  refine ⟨?_, fun k y found own => before.sending_announces made found own⟩
  intro action mem iface b read mine
  rcases (step_sent made).2 with sent | ⟨-, none⟩
  · rw [sent] at mem
    obtain ⟨y, performed, here⟩ := List.mem_flatMap.mp mem
    have own := own_of_mine (before.sendings_stem made y performed) here read mine
    obtain ⟨k, found⟩ := List.getElem?_of_mem performed
    obtain ⟨mid, b', payload, call, drained, announces⟩ := before.sending_announces made found own
    cases announces.read here read
    exact ⟨k, y, mid, payload, found, here, call, drained, announces⟩
  · rw [none action mem] at read
    cases read

/-- A node whose beacons have room for one host. -/
def narrowSetup : Setup where
  config := { maxPacketSize := 30 }
  ifaces := Sample.setup.ifaces
  valid := by decide
  nonempty := Sample.setup.nonempty
  numbered := Sample.setup.numbered

/-- Two hosts on our bridge send frames, the one that is later in the order first. -/
def twoHosts : List Call :=
  [.start 0, .frame (Sample.far.toBytes ++ [6, 0, 0, 0, 0, 3] ++ [8, 0]) 10,
    .frame (Sample.far.toBytes ++ Sample.host.toBytes ++ [8, 0]) 20]

/-- The beacon that leaves first. -/
def narrowBeacon : Beacon :=
  { ttl := 50, quality := 255, seqno := 1, orig := narrowSetup.primary, hosts := [Sample.host] }

theorem own_beacons_current_sample :
    ∃ e x earlier, (Engine.new narrowSetup default).run (twoHosts ++ [.poll 1000]) = .ok e ∧
      History (.new narrowSetup default) (x :: earlier) e ∧
      Action.transmit 0 .broadcast (Wire.beaconBytes narrowBeacon) ∈ x.sent ∧
      ∃ (k : Nat) (mid : Engine), x.before.drain 1000 k = .ok (mid, k) ∧
        mid.hosts.Announces 1 [Sample.host] := by
  have reached : ∃ e₀ e, (Engine.new narrowSetup default).run twoHosts = .ok e₀ ∧
      (Engine.new narrowSetup default).run (twoHosts ++ [.poll 1000]) = .ok e ∧
      e₀.outbox = [] ∧
      .transmit 0 .broadcast (Wire.beaconBytes narrowBeacon) ∈ e.outbox :=
    ⟨_, _, rfl, rfl, rfl, by decide⟩
  obtain ⟨e₀, e, earlierRun, run, none, listed⟩ := reached
  obtain ⟨-, past, history, calls, current⟩ := own_beacons_current run
  obtain ⟨x, earlier, rfl, call, rfl, before, firsts⟩ := history.ends calls
  have start := run_of_history before
  rw [firsts, earlierRun] at start
  cases start
  have sent : .transmit 0 .broadcast (Wire.beaconBytes narrowBeacon) ∈ x.sent := by
    unfold Event.sent
    rw [none]
    exact listed
  obtain ⟨own, -⟩ := current [] x earlier rfl
  obtain ⟨k, y, mid, _, -, -, polled, drained, announces⟩ :=
    own _ sent 0 narrowBeacon (by rfl) (by decide)
  rw [Call.poll.inj (polled.symm.trans call)] at drained
  exact ⟨_, x, earlier, run, history, sent, k, mid, drained, announces.hosts⟩

end Engine

end BeaconMesh

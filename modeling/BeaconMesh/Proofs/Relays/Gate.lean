import BeaconMesh.Proofs.Engine.Calls
import BeaconMesh.Proofs.Engine.History
import Mathlib.Data.List.Chain
import Mathlib.Data.Multiset.ZeroCons

/-!
# The gate for relays, and the end of every flood

A beacon is relayed once at most, and only if it passes a `Gate`. One that came from another node
than its originator goes on with exactly one hop less, since the route in use leads through its
sender. A relay that is performed transmits what `Task.Sends` speaks of (`perform_sends`). A node
relays no beacon of its own, so the hops go down for every relay of a relay, and `relays_pass_gate`
concludes that a flood ends before the hops of its first relay are used up.
-/

namespace BeaconMesh

/-! ### Queues that a task entered -/

namespace Scheduler

theorem enqueue_ne (s : Scheduler) (t : Task) : s.enqueue t ≠ s := by
  intro same
  have tasks : insertTask t s.tasks = s.tasks := congrArg Scheduler.tasks same
  have longer := (insertTask_perm t s.tasks).length_eq
  rw [tasks, List.length_cons] at longer
  omega

theorem enqueue_inj {s : Scheduler} {t u : Task} (same : s.enqueue t = s.enqueue u) : t = u := by
  have tasks : insertTask t s.tasks = insertTask u s.tasks := congrArg Scheduler.tasks same
  have perm : (t :: s.tasks).Perm (u :: s.tasks) := by
    apply (insertTask_perm t s.tasks).symm.trans
    rw [tasks]
    exact insertTask_perm u s.tasks
  apply (Multiset.cons_inj_left (s.tasks : Multiset Task)).mp
  exact Multiset.coe_eq_coe.mpr perm

end Scheduler

/-! ### Beacons on the air -/

/-- A beacon on the air, with the address it was sent from. -/
structure Transit where
  beacon : Beacon
  sender : Addr

/-- Whether a task puts a beacon on the air: from an address of the node, with the flags for one of
the interfaces that the task is sent on. -/
structure Task.Sends (t : Task) (s : Setup) (x : Transit) : Prop where
  mine : s.isMine x.sender = true
  beacon : ∃ target ∈ t.targets s.ifaces, x.beacon = { t.beacon with flags := target.2 }

/-- Whether an action transmits a beacon that a task puts on the air, whatever address of the node
the link sends it from. -/
def Task.Transmits (t : Task) (s : Setup) (action : Action) : Prop :=
  ∃ iface beacon payload, (∀ sender, s.isMine sender = true → t.Sends s ⟨beacon, sender⟩) ∧
    Wire.encodeBeacon beacon = .ok payload ∧ action = .transmit iface .broadcast payload

namespace Engine

variable {e e' settled : Engine} {b : Beacon} {hop : Hop} {now : Time} {duplicate : Bool}
  {estimate : Estimate} {mode : RelayMode} {quality : UInt8}

/-- A relay that is performed transmits nothing else. -/
theorem perform_sends {t : Task} (relay : t.own = false) (h : e.perform t now = .ok e') :
    ∃ sent, e'.outbox = e.outbox ++ sent ∧ ∀ action ∈ sent, t.Transmits e.setup action := by
  rcases perform_cases h with ⟨-, rfl⟩ | ⟨iface, own, -⟩
  · refine ⟨_, rfl, ?_⟩
    intro action mem
    obtain ⟨target, listed, written⟩ := List.mem_filterMap.mp mem
    split at written
    · rename_i payload encoded
      cases written
      exact ⟨target.1, _, payload, fun sender mine => ⟨mine, target, listed, rfl⟩, encoded, rfl⟩
    · cases written
  · simp [Task.ownIface?, relay] at own

/-! ### What is relayed, and how -/

/-- A beacon that came through others is relayed if the route in use leads through its sender, and
a duplicate only if it has nearly as many hops left as the first. -/
theorem relayMode?_through {sender : Addr} {twoWay : Bool}
    (h : e.relayMode? b sender duplicate twoWay = some mode) (other : sender ≠ b.orig) :
    twoWay = true ∧ (∃ l, e.route? b.orig = some l ∧ l.hop.addr = sender) ∧
      (duplicate = true → ∃ o, e.origins.get? b.orig = some o ∧
        o.lastTtl.toNat ≤ b.ttl.toNat + 3) := by
  unfold relayMode? at h
  dsimp only at h
  rw [if_neg (Ne.symm other)] at h
  split at h
  · rename_i onRoute
    obtain ⟨usable, via⟩ := Bool.and_eq_true_iff.mp onRoute
    unfold routesVia at via
    cases used : e.route? b.orig with
    | none => simp [used] at via
    | some l =>
      have through : l.hop.addr = sender := by simpa [used] using via
      refine ⟨usable, ⟨l, rfl, through⟩, ?_⟩
      intro again
      obtain ⟨o, known, -⟩ := Option.bind_eq_some_iff.mp used
      refine ⟨o, known, ?_⟩
      split at h
      · rename_i near
        simpa [again, known] using near
      · cases h
  · cases h

theorem relayHops_of_route {sender : Addr} {l : Link} (used : e.route? b.orig = some l)
    (through : l.hop.addr = sender) : e.relayHops b sender = b.ttl := by
  unfold relayHops substitute?
  rw [used]
  simp [through]

/-- What a beacon that is relayed has passed, and what its relay is if it came through others. -/
structure Gate (e : Engine) (b : Beacon) (sender : Addr) (now : Time) (outcome : PacketOutcome)
    (t : Task) (e' : Engine) : Prop where
  inTime : ∀ p, (e.origins.getOrNew b.orig now).arrival b.seqno ≠ .late p
  answered : b.isOneWay = false
  foreign : e.isMine b.orig = false
  other : e.isMine b.prev = false
  hops : 2 ≤ b.ttl.toNat
  through : sender ≠ b.orig → ∃ duplicate, outcome = .beacon duplicate true true ∧
    (∃ l, e'.route? b.orig = some l ∧ l.hop.addr = sender) ∧
    (duplicate = true → ∃ o, e'.origins.get? b.orig = some o ∧
      o.lastTtl.toNat ≤ b.ttl.toNat + 3) ∧
    t.beacon.ttl.toNat + 1 = b.ttl.toNat

theorem Relays.gate (h : e.Relays b hop now duplicate estimate settled mode quality) :
    Gate e b hop.addr now (.beacon duplicate estimate.twoWay true)
      (settled.relayTask (b.judged estimate) hop mode quality now) settled := by
  have enough : 2 ≤ b.ttl.toNat := by
    by_contra few
    apply h.left
    apply Or.inl
    rw [UInt8.le_iff_toNat_le]
    show b.ttl.toNat ≤ 1
    omega
  refine ⟨?_, h.admitted.twoWay, h.admitted.orig, h.other, enough, ?_⟩
  · intro p late
    rw [h.arrival] at late
    cases duplicate <;> simp at late
  · intro other
    obtain ⟨usable, ⟨l, used, through⟩, near⟩ := relayMode?_through h.chosen other
    refine ⟨duplicate, by rw [usable], ⟨l, used, through⟩, near, ?_⟩
    rw [h.ttl.1, relayHops_of_route used through]
    rfl

theorem receiveBeacon_relays {sender : Addr} {iface : IfaceId} {outcome : PacketOutcome} {t : Task}
    (h : e.receiveBeacon b sender iface now = .ok (e', outcome))
    (queued : e'.scheduler = e.scheduler.enqueue t) :
    Gate e b sender now outcome t e' ∧ t.own = false ∧ t.beacon.orig = b.orig ∧
      1 ≤ t.beacon.ttl.toNat := by
  have taken : e.Takes b ⟨sender, iface⟩ now outcome e' := receiveBeacon_takes h
  rcases taken.relays with
    quiet | ⟨duplicate, estimate, settled, mode, quality, relays, queue, rfl, rfl⟩
  · rw [quiet.scheduler] at queued
    exact absurd queued.symm (e.scheduler.enqueue_ne t)
  · let task := settled.relayTask (b.judged estimate) ⟨sender, iface⟩ mode quality now
    have entered : settled.scheduler.enqueue task = e.scheduler.enqueue t := queued
    rw [queue.scheduler] at entered
    rw [← Scheduler.enqueue_inj entered]
    obtain ⟨inTime, answered, foreign, other, hops, through⟩ := relays.gate
    exact ⟨⟨inTime, answered, foreign, other, hops, through⟩, rfl, rfl, relays.ttl.2⟩

end Engine

/-! ### Chains of relays -/

/-- Whether a beacon on the air is a relay: not sent by its originator, with hops left. -/
structure Transit.IsRelay (x : Transit) : Prop where
  foreign : x.sender ≠ x.beacon.orig
  hops : 1 ≤ x.beacon.ttl.toNat

/-- Whether a node, in some state that it comes to, receives a beacon from the air and queues the
task that puts the second one on the air. -/
def Transit.Relayed (x y : Transit) : Prop :=
  ∃ (s : Setup) (jitter : Jitter) (cs : List Call) (e e' : Engine) (iface : IfaceId) (now : Time)
    (outcome : PacketOutcome) (t : Task), (Engine.new s jitter).run cs = .ok e ∧
      e.receiveBeacon x.beacon x.sender iface now = .ok (e', outcome) ∧
      e'.scheduler = e.scheduler.enqueue t ∧ t.Sends e.setup y

/-- Whether a beacon on the air has one hop less than another. -/
def Transit.OneHopLess (x y : Transit) : Prop := y.beacon.ttl.toNat + 1 = x.beacon.ttl.toNat

namespace Engine

theorem sends_isRelay {e e' : Engine} {b : Beacon} {sender : Addr} {iface : IfaceId} {now : Time}
    {outcome : PacketOutcome} {t : Task} {y : Transit}
    (h : e.receiveBeacon b sender iface now = .ok (e', outcome))
    (queued : e'.scheduler = e.scheduler.enqueue t) (sends : t.Sends e.setup y) :
    y.beacon.ttl = t.beacon.ttl ∧ y.IsRelay := by
  obtain ⟨gate, -, orig, hops⟩ := receiveBeacon_relays h queued
  obtain ⟨mine, target, -, beacon⟩ := sends
  rw [beacon]
  refine ⟨rfl, ⟨?_, ?_⟩⟩
  -- The originator is another node, and the relay is sent from an address of this one.
  · intro same
    have foreign : e.setup.isMine t.beacon.orig = false := by
      rw [orig]
      exact gate.foreign
    rw [same, beacon] at mine
    simp [foreign] at mine
  · rw [beacon]
    exact hops

end Engine

namespace Transit

variable {x y : Transit}

theorem Relayed.step (h : Relayed x y) (relay : x.IsRelay) : x.OneHopLess y ∧ y.IsRelay := by
  obtain ⟨_, _, _, e, e', iface, now, outcome, t, -, received, queued, sends⟩ := h
  obtain ⟨gate, -⟩ := Engine.receiveBeacon_relays received queued
  obtain ⟨_, -, -, -, less⟩ := gate.through relay.foreign
  obtain ⟨same, again⟩ := Engine.sends_isRelay received queued sends
  refine ⟨?_, again⟩
  unfold OneHopLess
  rw [same]
  exact less

/-- A chain of relays loses one hop at every step, so the hops of its first one bound its length. -/
theorem IsRelay.chain {rest : List Transit} (relay : x.IsRelay)
    (chain : (x :: rest).IsChain Relayed) :
    (x :: rest).IsChain OneHopLess ∧ rest.length < x.beacon.ttl.toNat := by
  induction rest generalizing x with
  | nil => exact ⟨List.isChain_singleton x, relay.hops⟩
  | cons y rest ih =>
    obtain ⟨first, others⟩ := List.isChain_cons_cons.mp chain
    obtain ⟨less, again⟩ := first.step relay
    obtain ⟨lower, short⟩ := ih again others
    refine ⟨List.isChain_cons_cons.mpr ⟨less, lower⟩, ?_⟩
    unfold OneHopLess at less
    simp only [List.length_cons]
    omega

end Transit

/-! ### The whole -/

namespace Engine

/-- A beacon that comes in queues one relay at most, which has passed the gate; and the hops go down
along every chain of relays that starts with what this one transmits. -/
theorem relays_pass_gate {e e' : Engine} {b : Beacon} {sender : Addr} {iface : IfaceId} {now : Time}
    {outcome : PacketOutcome} (h : e.receiveBeacon b sender iface now = .ok (e', outcome)) :
    (e'.scheduler = e.scheduler ∨ ∃ t, e'.scheduler = e.scheduler.enqueue t) ∧
      ∀ t, e'.scheduler = e.scheduler.enqueue t →
        e.Gate b sender now outcome t e' ∧
        (∀ (next next' : Engine) (later : Time), next.setup = e.setup →
          next.perform t later = .ok next' → ∃ sent, next'.outbox = next.outbox ++ sent ∧
            ∀ action ∈ sent, t.Transmits e.setup action) ∧
        ∀ y rest, t.Sends e.setup y → (y :: rest).IsChain Transit.Relayed →
          (y :: rest).IsChain Transit.OneHopLess ∧ rest.length < y.beacon.ttl.toNat := by
  constructor
  · have taken : e.Takes b ⟨sender, iface⟩ now outcome e' := receiveBeacon_takes h
    obtain ⟨settled, queue, rfl | ⟨t, -, rfl⟩⟩ := taken.queue
    · exact .inl queue.scheduler
    · exact .inr ⟨t, by rw [queue.scheduler]⟩
  · intro t queued
    obtain ⟨gate, relay, -⟩ := receiveBeacon_relays h queued
    refine ⟨gate, ?_, ?_⟩
    · intro next next' later setup performed
      rw [← setup]
      exact perform_sends relay performed
    · intro y rest sends chain
      obtain ⟨-, isRelay⟩ := sends_isRelay h queued sends
      exact isRelay.chain chain

/-- A node that hears the first one, on a scale so coarse that one beacon is enough. -/
def onward : Setup where
  config := { maxQuality := 10, hopPenalty := 1 }
  ifaces := [⟨0, "mesh0", ⟨2, 0, 0, 0, 0, 3⟩⟩]
  valid := by decide
  nonempty := by decide
  numbered := by decide

/-- The first node echoes the beacon of this one, and sends its own. -/
def onwardCalls : List Call :=
  [.start 0, .poll 1000,
    .beacon { flags := Beacon.directFlag, orig := onward.primary, seqno := 1 } Sample.setup.primary
      0 1001,
    .beacon { ttl := 50, quality := 255, seqno := 1, orig := Sample.setup.primary }
      Sample.setup.primary 0 1002]

/-- A beacon from behind the neighbour. -/
def farBeacon : Beacon :=
  { ttl := 49, quality := 255, seqno := 2, orig := Sample.far, prev := Sample.far }

/-- What the first node sends of it, and what the other one sends of that. -/
def farRelays : Transit × Transit :=
  (⟨{ farBeacon with ttl := 48, quality := 11, prev := Sample.near }, Sample.setup.primary⟩,
    ⟨{ farBeacon with ttl := 47, quality := 0, prev := Sample.setup.primary }, onward.primary⟩)

/-- The task that sends such a beacon. -/
def relayOf (x : Transit) (due : Time) : Task :=
  { due, own := false, beacon := x.beacon, out := some 0 }

theorem relays_pass_gate_sample :
    ∃ e e', (Engine.new Sample.setup default).run Sample.calls = .ok e ∧
      e.receiveBeacon farBeacon Sample.near 0 1006 = .ok (e', .beacon false true true) ∧
      e'.scheduler = e.scheduler.enqueue (relayOf farRelays.1 1006) ∧
      (∃ action, (relayOf farRelays.1 1006).Transmits e.setup action) ∧
      (relayOf farRelays.1 1006).Sends e.setup farRelays.1 ∧
      [farRelays.1, farRelays.2].IsChain Transit.Relayed ∧
      e.Gate farBeacon Sample.near 1006 (.beacon false true true) (relayOf farRelays.1 1006) e' ∧
      [farRelays.1, farRelays.2].IsChain Transit.OneHopLess ∧
      1 < farRelays.1.beacon.ttl.toNat := by
  have heard : ∃ e e', (Engine.new Sample.setup default).run Sample.calls = .ok e ∧
      e.receiveBeacon farBeacon Sample.near 0 1006 = .ok (e', .beacon false true true) ∧
      e'.scheduler = e.scheduler.enqueue (relayOf farRelays.1 1006) ∧
      (relayOf farRelays.1 1006).Sends e.setup farRelays.1 :=
    ⟨_, _, rfl, rfl, rfl, ⟨rfl, _, List.mem_cons_self, rfl⟩⟩
  have heardNext : ∃ e e', (Engine.new onward default).run onwardCalls = .ok e ∧
      e.receiveBeacon farRelays.1.beacon Sample.setup.primary 0 1003 =
        .ok (e', .beacon false true true) ∧
      e'.scheduler = e.scheduler.enqueue (relayOf farRelays.2 1003) ∧
      (relayOf farRelays.2 1003).Sends e.setup farRelays.2 :=
    ⟨_, _, rfl, rfl, rfl, ⟨rfl, _, List.mem_cons_self, rfl⟩⟩
  obtain ⟨e, e', run, received, queued, sends⟩ := heard
  obtain ⟨next, next', runNext, receivedNext, queuedNext, sendsNext⟩ := heardNext
  have relayed : Transit.Relayed farRelays.1 farRelays.2 :=
    ⟨onward, default, onwardCalls, next, next', 0, 1003, _, _, runNext, receivedNext, queuedNext,
      sendsNext⟩
  have chain : [farRelays.1, farRelays.2].IsChain Transit.Relayed :=
    List.isChain_cons_cons.mpr ⟨relayed, List.isChain_singleton _⟩
  obtain ⟨-, passes⟩ := relays_pass_gate received
  obtain ⟨gate, transmits, ends⟩ := passes _ queued
  obtain ⟨sent, grown, each⟩ := transmits e _ 1006 rfl rfl
  have some : sent ≠ [] := by
    have setup : e.setup = Sample.setup := (setup_invariant Sample.setup).run run rfl
    rw [← List.append_cancel_left grown, setup]
    decide
  obtain ⟨action, listed⟩ := List.exists_mem_of_ne_nil sent some
  obtain ⟨lower, short⟩ := ends _ _ sends chain
  exact ⟨e, e', run, received, queued, ⟨action, each action listed⟩, sends, chain, gate, lower,
    short⟩

end Engine

end BeaconMesh

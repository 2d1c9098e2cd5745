import BeaconMesh.Proofs.Engine.Moves

/-!
# What each call does

`step_does` takes a call apart into the functions that change the state, with what they were
applied to. A beacon is refused, taken as an echo, late, or judged; a poll performs tasks until none
is due, and then sweeps if that is due.
-/

namespace BeaconMesh

/-- A beacon as it is relayed: with the quality of the path to here. -/
def Beacon.judged (b : Beacon) (x : Estimate) : Beacon :=
  { b with quality := UInt8.ofNat x.quality }

/-- When a call is made. -/
def Call.time : Call → Time
  | .start now | .poll now | .sweep now | .shutdown now => now
  | .packet _ _ _ now | .beacon _ _ _ now | .frame _ now => now

theorem Call.time_of_reception? {c : Call} {late : Bool} {x : Reception}
    (h : c.reception? late = some x) : x.now = c.time := by
  unfold Call.reception? at h
  split at h
  · split at h
    · cases h
      rfl
    · cases h
  · cases h
    rfl
  · cases h

namespace Engine

/-! ### Beacons that come in -/

/-- The state once a beacon was ranked, if its link is usable, and heeded, both if it is fresh. -/
def adopt (e : Engine) (b : Beacon) (hop : Hop) (duplicate twoWay : Bool) (now : Time) : Engine :=
  if duplicate then e else (if twoWay then e.rank b hop else e).heed b now

variable {e e' : Engine} {b : Beacon} {hop : Hop} {now : Time} {duplicate : Bool}

theorem judge_eq_ok {outcome : PacketOutcome} :
    e.judge b hop duplicate now = .ok (e', outcome) ↔
      ∃ assessed estimate relayed, e.assess b hop now = .ok (assessed, estimate) ∧
        (assessed.adopt (b.judged estimate) hop duplicate estimate.twoWay now).considerRelay
          (b.judged estimate) hop duplicate estimate.twoWay now = .ok (e', relayed) ∧
        outcome = .beacon duplicate estimate.twoWay relayed := by
  constructor
  · intro h
    obtain ⟨⟨assessed, estimate⟩, judged, h⟩ := Fault.bind_ok h
    obtain ⟨⟨after, relayed⟩, considered, h⟩ := Fault.bind_ok h
    cases Fault.pure_ok h
    exact ⟨assessed, estimate, relayed, judged, considered, rfl⟩
  · rintro ⟨assessed, estimate, relayed, judged, considered, rfl⟩
    unfold judge
    rw [judged]
    change ((assessed.adopt (b.judged estimate) hop duplicate estimate.twoWay now).considerRelay
      (b.judged estimate) hop duplicate estimate.twoWay now >>= _) = _
    rw [considered]
    rfl

/-- The hops that a relay starts from: those of the route, if it leads elsewhere. -/
def relayHops (e : Engine) (b : Beacon) (sender : Addr) : UInt8 :=
  ((e.substitute? b.orig sender).getD (b.quality, b.ttl)).2

/-- The quality that a relay starts from: that of the route, if it leads elsewhere. -/
def relayQuality (e : Engine) (b : Beacon) (sender : Addr) : UInt8 :=
  ((e.substitute? b.orig sender).getD (b.quality, b.ttl)).1

/-- The task that relays a beacon, once its quality was penalized. -/
def relayTask (e : Engine) (b : Beacon) (hop : Hop) (mode : RelayMode) (quality : UInt8)
    (now : Time) : Task :=
  { due := now, own := false, out := some hop.iface, direct := mode.direct, oneWay := mode.oneWay,
    beacon := { b with
      ttl := e.relayHops b hop.addr - 1, prev := hop.addr, quality, flags := 0 } }

/-- A relay is queued unless its beacon, or the route in its place, has no hops left. -/
theorem relay_queues {mode : RelayMode} {relayed : Bool}
    (h : e.relay b hop mode now = .ok (e', relayed)) :
    relayed = false ∧ (b.ttl ≤ 1 ∨ e.relayHops b hop.addr ≤ 1) ∧ e' = e ∨
      relayed = true ∧ ¬ (b.ttl ≤ 1 ∨ e.relayHops b hop.addr ≤ 1) ∧ ∃ quality,
        Relay.penalized e.setup.pacing (e.relayQuality b hop.addr) = .ok quality ∧
        e' = { e with scheduler := e.scheduler.enqueue (e.relayTask b hop mode quality now) } := by
  obtain ⟨⟨scheduler, sent⟩, queued, h⟩ := Fault.bind_ok h
  cases Fault.pure_ok h
  obtain ⟨task, made, queued⟩ := Fault.bind_ok queued
  unfold Relay.task? at made
  split at made
  · rename_i spent
    cases made
    cases Fault.pure_ok queued
    exact .inl ⟨rfl, spent, rfl⟩
  · rename_i left
    obtain ⟨quality, penalized, made⟩ := Fault.bind_ok made
    cases Fault.pure_ok made
    cases Fault.pure_ok queued
    exact .inr ⟨rfl, left, quality, penalized, rfl⟩

theorem considerRelay_queues {twoWay relayed : Bool}
    (h : e.considerRelay b hop duplicate twoWay now = .ok (e', relayed)) :
    relayed = false ∧ e' = e ∨
      relayed = true ∧ e.isMine b.prev = false ∧ ¬ (b.ttl ≤ 1 ∨ e.relayHops b hop.addr ≤ 1) ∧
        ∃ mode quality, e.relayMode? b hop.addr duplicate twoWay = some mode ∧
          Relay.penalized e.setup.pacing (e.relayQuality b hop.addr) = .ok quality ∧
          e' = { e with scheduler := e.scheduler.enqueue (e.relayTask b hop mode quality now) } := by
  unfold considerRelay at h
  split at h
  · cases h
    exact .inl ⟨rfl, rfl⟩
  · rename_i other
    split at h
    · rename_i mode chosen
      rcases relay_queues h with ⟨dropped, -, same⟩ | ⟨sent, left, quality, penalized, queued⟩
      · exact .inl ⟨dropped, same⟩
      · exact .inr ⟨sent, Bool.eq_false_iff.mpr other, left, mode, quality, chosen, penalized,
          queued⟩
    · cases h
      exact .inl ⟨rfl, rfl⟩

/-- What becomes of a beacon, by what is answered. -/
inductive Takes (e : Engine) (b : Beacon) (hop : Hop) (now : Time) :
    PacketOutcome → Engine → Prop where
  | refused {reason : DropReason} (other : reason ≠ .ownBeacon) :
      Takes e b hop now (.dropped reason) e
  | echo {here : Iface} (known : e.setup.ifaces[hop.iface]? = some here)
      (peer : e.setup.IsPeer hop.addr) (mine : e.isMine b.orig = true) :
      Takes e b hop now (.dropped .ownBeacon) (e.hearEcho b hop.addr here now)
  | late {p : Nat} (admitted : e.setup.Admits b hop)
      (arrival : (e.origins.getOrNew b.orig now).arrival b.seqno = .late p) :
      Takes e b hop now .late (e.hear b hop now)
  | judged {e' : Engine} {duplicate twoWay relayed : Bool} (admitted : e.setup.Admits b hop)
      (arrival : (e.origins.getOrNew b.orig now).arrival b.seqno =
        if duplicate then .duplicate else .fresh)
      (work : (e.hear b hop now).judge b hop duplicate now =
        .ok (e', .beacon duplicate twoWay relayed)) :
      Takes e b hop now (.beacon duplicate twoWay relayed) e'

theorem accept_takes {outcome : PacketOutcome} (admitted : e.setup.Admits b hop)
    (h : e.accept b hop now = .ok (e', outcome)) : e.Takes b hop now outcome e' := by
  unfold accept at h
  split at h
  · rename_i p arrival
    cases h
    exact .late admitted arrival
  · rename_i arrival
    obtain ⟨_, estimate, relayed, _, _, rfl⟩ := judge_eq_ok.mp h
    refine .judged admitted ?_ h
    exact arrival
  · rename_i arrival
    obtain ⟨_, estimate, relayed, _, _, rfl⟩ := judge_eq_ok.mp h
    refine .judged admitted ?_ h
    exact arrival

theorem receiveBeacon_takes {outcome : PacketOutcome}
    (h : e.receiveBeacon b hop.addr hop.iface now = .ok (e', outcome)) :
    e.Takes b hop now outcome e' := by
  unfold receiveBeacon at h
  split at h
  · cases h
    exact .refused nofun
  rename_i here known
  split at h
  · rename_i reason refused
    cases h
    refine .refused ?_
    rintro rfl
    unfold refusal? at refused
    split at refused
    · cases refused
    · split at refused <;> cases refused
  rename_i accepted
  have peer := isPeer_of_refusal? accepted
  split at h
  · rename_i mine
    cases h
    exact .echo known peer mine
  rename_i foreign
  split at h
  · cases h
    exact .refused nofun
  rename_i twoWay
  obtain ⟨inRange, _⟩ := List.getElem?_eq_some_iff.mp known
  exact accept_takes
    ⟨inRange, peer, Bool.eq_false_iff.mpr foreign, Bool.eq_false_iff.mpr twoWay⟩ h

theorem receiveBeacon_of_admits (admitted : e.setup.Admits b hop) :
    e.receiveBeacon b hop.addr hop.iface now = e.accept b hop now := by
  obtain ⟨inRange, ⟨foreign, single⟩, other, twoWay⟩ := admitted
  have accepted : e.refusal? hop.addr = none := by
    unfold refusal? isMine
    rw [foreign, if_neg nofun, if_neg single]
  unfold receiveBeacon isMine
  rw [List.getElem?_eq_getElem inRange, accepted, other, twoWay]
  rfl

/-! ### Beacons that leave -/

theorem scheduleOwn_cases {iface : IfaceId} (h : e.scheduleOwn iface now = .ok e') :
    (∃ here counter due, e.setup.ifaces[iface]? = some here ∧
      e.counters[iface]? = some counter ∧ e.scheduler.ownDue e.setup.pacing now = .ok due ∧
      e' = { e with
        scheduler := e.scheduler.drawn.enqueue
          { due, own := true, beacon := ownBeacon e.setup.config here counter.next,
            out := some iface }
        counters := e.counters.set iface { counter with next := counter.next + 1 } }) ∨
    (e.setup.ifaces[iface]? = none ∨ e.counters[iface]? = none) ∧ e' = e := by
  unfold scheduleOwn at h
  split at h
  · rename_i here counter known counted
    obtain ⟨scheduler, queued, h⟩ := Fault.bind_ok h
    obtain ⟨due, timed, queued⟩ := Fault.bind_ok queued
    cases Fault.pure_ok queued
    cases Fault.pure_ok h
    exact .inl ⟨here, counter, due, known, counted, timed, rfl⟩
  · rename_i missing
    cases h
    refine .inr ⟨?_, rfl⟩
    cases known : e.setup.ifaces[iface]? with
    | none => exact .inl rfl
    | some here =>
      cases counted : e.counters[iface]? with
      | none => exact .inr rfl
      | some counter => exact absurd counted (missing here counter known)

/-- The state once a beacon of ours was sent, before the next one is queued. -/
def sendOwn (e : Engine) (t : Task) (iface : IfaceId) : Engine :=
  (e.departOwn t.beacon iface).1.send (e.departOwn t.beacon iface).2 (t.targets e.setup.ifaces)

theorem sendOwn_counters (e : Engine) (t : Task) (iface : IfaceId) :
    (e.sendOwn t iface).counters =
      e.counters.modify iface fun c => { c with lastSent := some t.beacon.seqno } := rfl

theorem sendOwn_origins (e : Engine) (t : Task) (iface : IfaceId) :
    (e.sendOwn t iface).origins = e.origins.map fun o => o.ageEchoes iface := rfl

theorem perform_cases {t : Task} (h : e.perform t now = .ok e') :
    t.ownIface? = none ∧ e' = e.send t.beacon (t.targets e.setup.ifaces) ∨
      ∃ iface, t.ownIface? = some iface ∧
        (e.sendOwn t iface).scheduleOwn iface now = .ok e' := by
  unfold perform at h
  dsimp only at h
  split at h
  · rename_i iface own
    exact .inr ⟨iface, own, h⟩
  · rename_i other
    cases h
    exact .inl ⟨other, rfl⟩

/-- Due tasks leave the queue one by one, and each is performed before the next. -/
inductive Performs (now : Time) : Engine → List Task → Engine → Prop where
  | none (e : Engine) : Performs now e [] e
  | task {e next e' : Engine} {t : Task} {ts : List Task} {scheduler : Scheduler}
      (popped : e.scheduler.pop? now = some (t, scheduler))
      (work : { e with scheduler }.perform t now = .ok next) (rest : Performs now next ts e') :
      Performs now e (t :: ts) e'

/-- The tasks that a drain performs, in their order. -/
def performed (e : Engine) (now : Time) : Nat → List Task
  | 0 => []
  | limit + 1 =>
    match e.scheduler.pop? now with
    | some (t, scheduler) =>
      match { e with scheduler }.perform t now with
      | .ok next => t :: next.performed now limit
      | .error _ => []
    | none => []

theorem performed_of_none (popped : e.scheduler.pop? now = none) (limit : Nat) :
    e.performed now (limit + 1) = [] := by
  rw [performed, popped]

theorem performed_of_some {t : Task} {scheduler : Scheduler} {next : Engine}
    (popped : e.scheduler.pop? now = some (t, scheduler))
    (work : { e with scheduler }.perform t now = .ok next) (limit : Nat) :
    e.performed now (limit + 1) = t :: next.performed now limit := by
  rw [performed, popped]
  dsimp only
  rw [work]

theorem drain_performs {limit count : Nat} (h : e.drain now limit = .ok (e', count)) :
    Performs now e (e.performed now limit) e' ∧ count = (e.performed now limit).length := by
  induction limit generalizing e count with
  | zero =>
    cases h
    exact ⟨.none _, rfl⟩
  | succ limit ih =>
    unfold drain at h
    split at h
    · rename_i t scheduler popped
      obtain ⟨next, work, h⟩ := Fault.bind_ok h
      obtain ⟨⟨drained, rest⟩, tail, h⟩ := Fault.bind_ok h
      cases Fault.pure_ok h
      obtain ⟨performs, counted⟩ := ih tail
      rw [performed_of_some popped work]
      refine ⟨.task popped work performs, ?_⟩
      rw [counted, List.length_cons]
    · rename_i popped
      cases h
      rw [performed_of_none popped]
      exact ⟨.none _, rfl⟩

theorem performDue_performs {count : Nat} (h : e.performDue now = .ok (e', count)) :
    Performs now e (e.performed now e.scheduler.size) e' ∧
      count = (e.performed now e.scheduler.size).length ∧ e'.scheduler.pop? now = none := by
  obtain ⟨⟨drained, _⟩, work, h⟩ := Fault.bind_ok h
  dsimp only at h
  split at h
  · cases h
  · rename_i left
    cases Fault.pure_ok h
    obtain ⟨performs, counted⟩ := drain_performs work
    exact ⟨performs, counted, Option.not_isSome_iff_eq_none.mp left⟩

theorem Performs.updates {ts : List Task} (h : Performs now e ts e') : Updates e e' := by
  induction h with
  | none => exact .refl
  | @task e _ _ _ _ scheduler popped work _ ih =>
    have taken : SameTables e { e with scheduler } := ⟨rfl, rfl, rfl, rfl, rfl⟩
    exact taken.updates.trans ((perform_updates work).trans ih)

/-! ### What the other calls leave alone -/

/-- The two states have the same beacons to send and the same counters. -/
structure SameQueue (e e' : Engine) : Prop where
  setup : e'.setup = e.setup
  counters : e'.counters = e.counters
  scheduler : e'.scheduler = e.scheduler

theorem SameQueue.refl (e : Engine) : SameQueue e e := ⟨rfl, rfl, rfl⟩

theorem SameQueue.trans {e₁ e₂ e₃ : Engine} (h : SameQueue e₁ e₂) (h' : SameQueue e₂ e₃) :
    SameQueue e₁ e₃ :=
  ⟨h'.setup.trans h.setup, h'.counters.trans h.counters, h'.scheduler.trans h.scheduler⟩

/-- A data packet came in: the outbox and what was seen of a node's floods may differ. -/
structure Carries (e e' : Engine) : Prop where
  queue : SameQueue e e'
  hosts : e'.hosts = e.hosts
  origins : e'.origins = e.origins ∨ ∃ (o : Originator) (f : Flood),
    e.origins.get? f.orig = some o ∧ e'.origins = e.origins.insert f.orig (o.hearFlood f.seqno)

/-- A frame came from the bridge: the outbox may differ, and a host may be known. -/
structure Bridges (now : Time) (e e' : Engine) : Prop where
  queue : SameQueue e e'
  origins : e'.origins = e.origins
  hosts : e'.hosts = e.hosts ∨ ∃ host, e'.hosts = e.hosts.learn host now

/-- A sweep leaves what is to be sent alone. -/
structure Sweeps (e e' : Engine) : Prop where
  queue : SameQueue e e'
  outbox : e'.outbox = e.outbox

theorem Sweeps.trans {e₁ e₂ e₃ : Engine} (h : Sweeps e₁ e₂) (h' : Sweeps e₂ e₃) : Sweeps e₁ e₃ :=
  ⟨h.queue.trans h'.queue, h'.outbox.trans h.outbox⟩

theorem Carries.refl (e : Engine) : Carries e e := ⟨.refl e, rfl, .inl rfl⟩

theorem sendAlong_carries (e : Engine) (u : Unicast) (outcome : FrameOutcome) :
    SameQueue e (e.sendAlong u outcome).1 ∧ (e.sendAlong u outcome).1.hosts = e.hosts ∧
      (e.sendAlong u outcome).1.origins = e.origins := by
  unfold sendAlong
  split <;> exact ⟨⟨rfl, rfl, rfl⟩, rfl, rfl⟩

theorem receiveUnicast_carries (e : Engine) (u : Unicast) : Carries e (e.receiveUnicast u).1 := by
  unfold receiveUnicast
  split
  · exact ⟨⟨rfl, rfl, rfl⟩, rfl, .inl rfl⟩
  · split
    · exact .refl e
    · obtain ⟨queue, hosts, origins⟩ := sendAlong_carries e { u with ttl := u.ttl - 1 } .forwarded
      exact ⟨queue, hosts, .inl origins⟩

theorem receiveFlood_carries (e : Engine) (f : Flood) : Carries e (e.receiveFlood f).1 := by
  unfold receiveFlood
  split
  · exact .refl e
  · split
    · exact .refl e
    · rename_i o known
      split
      · exact .refl e
      · exact ⟨⟨rfl, rfl, rfl⟩, rfl, .inr ⟨o, f, known, rfl⟩⟩

theorem receiveData_carries (sender : Addr) (receive : Engine → Engine × FrameOutcome)
    (carries : Carries e (receive e).1) : Carries e (e.receiveData sender receive).1 := by
  unfold receiveData
  split
  · exact .refl e
  · exact carries

theorem receiveFrame_bridges (e : Engine) (frame : Bytes) (now : Time) :
    Bridges now e (e.receiveFrame frame now).1 := by
  unfold receiveFrame
  split
  · exact ⟨.refl e, rfl, .inl rfl⟩
  · rename_i header _
    dsimp only
    split
    · exact ⟨⟨rfl, rfl, rfl⟩, rfl, .inr ⟨header.source, rfl⟩⟩
    · split
      · exact ⟨⟨rfl, rfl, rfl⟩, rfl, .inr ⟨header.source, rfl⟩⟩
      · rename_i dest _
        obtain ⟨queue, hosts, origins⟩ :=
          sendAlong_carries { e with hosts := e.hosts.learn header.source now }
            { ttl := e.setup.config.ttl, dest, frame } .sent
        exact ⟨⟨queue.setup, queue.counters, queue.scheduler⟩, origins, .inr ⟨header.source, hosts⟩⟩

theorem foldl_forget_sweeps (now : Time) (as : List Addr) (e : Engine) :
    Sweeps e (as.foldl (forget now) e) := by
  induction as generalizing e with
  | nil => exact ⟨.refl e, rfl⟩
  | cons a as ih =>
    have first : Sweeps e (e.forget now a) := by
      unfold forget
      split <;> exact ⟨⟨rfl, rfl, rfl⟩, rfl⟩
    exact first.trans (ih _)

theorem chooseGateway_sweeps (e : Engine) (now : Time) : Sweeps e (e.chooseGateway now) := by
  unfold chooseGateway
  dsimp only
  split <;> exact ⟨⟨rfl, rfl, rfl⟩, rfl⟩

theorem pruneLinks_sweeps (e : Engine) (now : Time) : Sweeps e (e.pruneLinks now) :=
  ⟨⟨rfl, rfl, rfl⟩, rfl⟩

theorem expireHosts_sweeps (e : Engine) (now : Time) : Sweeps e (e.expireHosts now) :=
  ⟨⟨rfl, rfl, rfl⟩, rfl⟩

theorem rearm_sweeps (e : Engine) (now : Time) : Sweeps e (e.rearm now) :=
  ⟨⟨rfl, rfl, rfl⟩, rfl⟩

theorem sweep_sweeps (e : Engine) (now : Time) : Sweeps e (e.sweep now) := by
  have forgotten : Sweeps e (e.forgetStale now) := foldl_forget_sweeps now _ e
  have settled := (forgotten.trans (pruneLinks_sweeps _ now)).trans (expireHosts_sweeps _ now)
  exact (settled.trans (chooseGateway_sweeps _ now)).trans (rearm_sweeps _ now)

/-! ### Calls -/

/-- What a call does to the state, by what it answers. -/
inductive Does (e : Engine) : Call → Reply → Engine → Prop where
  | start {e' : Engine} {now : Time} (work : e.start now = .ok e') : Does e (.start now) .done e'
  | beacon {c : Call} {x : Reception} {outcome : PacketOutcome} {e' : Engine}
      (brought : c.reception? false = some x)
      (taken : e.Takes x.beacon x.hop x.now outcome e') : Does e c (.packet outcome) e'
  | data {payload : Bytes} {sender : Addr} {iface : IfaceId} {now : Time}
      {outcome : PacketOutcome} {e' : Engine}
      (other : (Call.packet payload sender iface now).reception? false = none)
      (carried : Carries e e') : Does e (.packet payload sender iface now) (.packet outcome) e'
  | frame {bytes : Bytes} {now : Time} {outcome : FrameOutcome} {e' : Engine}
      (bridged : Bridges now e e') : Does e (.frame bytes now) (.frame outcome) e'
  | poll {now : Time} {settled : Engine}
      (work : Performs now e (e.performed now e.scheduler.size) settled)
      (drained : settled.scheduler.pop? now = none) :
      Does e (.poll now) (.performed (e.performed now e.scheduler.size).length)
        (if settled.sweepDue now then settled.sweep now else settled)
  | sweep (now : Time) : Does e (.sweep now) .done (e.sweep now)
  | shutdown (now : Time) : Does e (.shutdown now) .done (e.shutdown now)

theorem receive_does {payload : Bytes} {sender : Addr} {iface : IfaceId}
    {outcome : PacketOutcome} (h : e.receive payload sender iface now = .ok (e', outcome)) :
    Does e (.packet payload sender iface now) (.packet outcome) e' := by
  unfold receive at h
  split at h
  · cases h
    cases brought : (Call.packet payload sender iface now).reception? false with
    | none => exact .data brought (.refl e)
    | some x => exact .beacon brought (.refused nofun)
  split at h
  · rename_i cause undecoded
    cases h
    refine .data ?_ (.refl e)
    unfold Call.reception?
    simp only [undecoded]
  · rename_i b decoded
    refine .beacon (x := ⟨b, ⟨sender, iface⟩, now, false⟩) ?_ (receiveBeacon_takes h)
    unfold Call.reception?
    simp only [decoded]
  · rename_i u decoded
    have carries := receiveData_carries sender (receiveUnicast · u) (receiveUnicast_carries e u)
    rw [Except.ok.inj h] at carries
    refine .data ?_ carries
    unfold Call.reception?
    simp only [decoded]
  · rename_i f decoded
    have carries := receiveData_carries sender (receiveFlood · f) (receiveFlood_carries e f)
    rw [Except.ok.inj h] at carries
    refine .data ?_ carries
    unfold Call.reception?
    simp only [decoded]

theorem step_does {c : Call} {r : Reply} (h : e.step c = .ok (e', r)) : Does e c r e' := by
  cases c with
  | start now =>
    obtain ⟨started, work, h⟩ := Fault.bind_ok h
    cases Fault.pure_ok h
    exact .start work
  | packet payload sender iface now =>
    obtain ⟨⟨received, outcome⟩, work, h⟩ := Fault.bind_ok h
    cases Fault.pure_ok h
    exact receive_does work
  | beacon b sender iface now =>
    obtain ⟨⟨received, outcome⟩, work, h⟩ := Fault.bind_ok h
    cases Fault.pure_ok h
    exact .beacon (x := ⟨b, ⟨sender, iface⟩, now, false⟩) rfl (receiveBeacon_takes work)
  | frame bytes now =>
    cases h
    exact .frame (receiveFrame_bridges e bytes now)
  | poll now =>
    obtain ⟨⟨polled, tasks⟩, work, h⟩ := Fault.bind_ok h
    cases Fault.pure_ok h
    obtain ⟨⟨settled, count⟩, due, work⟩ := Fault.bind_ok work
    cases Fault.pure_ok work
    obtain ⟨performs, rfl, drained⟩ := performDue_performs due
    exact .poll performs drained
  | sweep now =>
    obtain ⟨rfl, rfl⟩ := Prod.mk.inj (Except.ok.inj h)
    exact .sweep now
  | shutdown now =>
    obtain ⟨rfl, rfl⟩ := Prod.mk.inj (Except.ok.inj h)
    exact .shutdown now

theorem Does.takes {c : Call} {r : Reply} {x : Reception} (h : Does e c r e')
    (brought : c.reception? false = some x) :
    ∃ outcome, r = .packet outcome ∧ e.Takes x.beacon x.hop x.now outcome e' := by
  cases h with
  | beacon found taken =>
    cases found.symm.trans brought
    exact ⟨_, rfl, taken⟩
  | data other =>
    rw [other] at brought
    cases brought
  | _ => cases brought

/-! ### What is true of the queue -/

theorem send_queue (e : Engine) (b : Beacon) (targets : List (IfaceId × UInt8)) :
    SameQueue e (e.send b targets) := ⟨rfl, rfl, rfl⟩

theorem hearEcho_queue (e : Engine) (b : Beacon) (sender : Addr) (here : Iface) (now : Time) :
    SameQueue e (e.hearEcho b sender here now) := by
  unfold hearEcho
  split <;> exact ⟨rfl, rfl, rfl⟩

theorem hear_queue (e : Engine) (b : Beacon) (hop : Hop) (now : Time) :
    SameQueue e (e.hear b hop now) := ⟨rfl, rfl, rfl⟩

theorem rank_queue (e : Engine) (b : Beacon) (hop : Hop) : SameQueue e (e.rank b hop) := by
  unfold rank
  split <;> exact ⟨rfl, rfl, rfl⟩

theorem adopt_queue (e : Engine) (b : Beacon) (hop : Hop) (duplicate twoWay : Bool) (now : Time) :
    SameQueue e (e.adopt b hop duplicate twoWay now) := by
  unfold adopt
  cases duplicate with
  | true => exact .refl e
  | false =>
    cases twoWay with
    | true => exact (rank_queue e b hop).trans ⟨rfl, rfl, rfl⟩
    | false => exact ⟨rfl, rfl, rfl⟩

theorem assess_queue {estimate : Estimate} (h : e.assess b hop now = .ok (e', estimate)) :
    SameQueue e e' := by
  obtain ⟨_, _, h⟩ := Fault.bind_ok h
  cases Fault.pure_ok h
  exact ⟨rfl, rfl, rfl⟩

/-- How a beacon came to be relayed: it was judged, `settled` is the state by then, and the relay
takes its hops and its quality from there. -/
structure Relays (e : Engine) (b : Beacon) (hop : Hop) (now : Time) (duplicate : Bool)
    (estimate : Estimate) (settled : Engine) (mode : RelayMode) (quality : UInt8) : Prop where
  admitted : e.setup.Admits b hop
  arrival : (e.origins.getOrNew b.orig now).arrival b.seqno =
    if duplicate then .duplicate else .fresh
  judged : ∃ assessed, (e.hear b hop now).assess b hop now = .ok (assessed, estimate) ∧
    settled = assessed.adopt (b.judged estimate) hop duplicate estimate.twoWay now
  other : e.isMine b.prev = false
  left : ¬ (b.ttl ≤ 1 ∨ settled.relayHops (b.judged estimate) hop.addr ≤ 1)
  chosen : settled.relayMode? (b.judged estimate) hop.addr duplicate estimate.twoWay = some mode
  penalized : Relay.penalized e.setup.pacing
    (settled.relayQuality (b.judged estimate) hop.addr) = .ok quality

/-- The task of a relay has one hop less than the relay started from, and some left. -/
theorem Relays.ttl {estimate : Estimate} {settled : Engine} {mode : RelayMode} {quality : UInt8}
    (h : e.Relays b hop now duplicate estimate settled mode quality) :
    (settled.relayTask (b.judged estimate) hop mode quality now).beacon.ttl.toNat + 1 =
        (settled.relayHops (b.judged estimate) hop.addr).toNat ∧
      1 ≤ (settled.relayTask (b.judged estimate) hop mode quality now).beacon.ttl.toNat := by
  have left : ¬ settled.relayHops (b.judged estimate) hop.addr ≤ 1 :=
    fun spent => h.left (.inr spent)
  show (settled.relayHops (b.judged estimate) hop.addr - 1).toNat + 1 = _ ∧
    1 ≤ (settled.relayHops (b.judged estimate) hop.addr - 1).toNat
  generalize settled.relayHops (b.judged estimate) hop.addr = hops at left ⊢
  rw [UInt8.le_iff_toNat_le] at left
  have more : 1 < hops.toNat := Nat.not_le.mp left
  have one : (1 : UInt8) ≤ hops := UInt8.le_iff_toNat_le.mpr (Nat.le_of_lt more)
  have less : (hops - 1).toNat = hops.toNat - 1 := UInt8.toNat_sub_of_le _ _ one
  omega

theorem Takes.relays {outcome : PacketOutcome} (h : e.Takes b hop now outcome e') :
    SameQueue e e' ∨ ∃ duplicate estimate settled mode quality,
      e.Relays b hop now duplicate estimate settled mode quality ∧ SameQueue e settled ∧
        outcome = .beacon duplicate estimate.twoWay true ∧
        e' = { settled with
          scheduler := settled.scheduler.enqueue
            (settled.relayTask (b.judged estimate) hop mode quality now) } := by
  cases h with
  | refused => exact .inl (.refl e)
  | echo => exact .inl (hearEcho_queue _ _ _ _ _)
  | late => exact .inl (hear_queue _ _ _ _)
  | @judged _ duplicate _ _ admitted arrival work =>
    obtain ⟨assessed, estimate, relayed, judged, considered, answered⟩ := judge_eq_ok.mp work
    have adopted := adopt_queue assessed (b.judged estimate) hop duplicate estimate.twoWay now
    have queue := ((hear_queue e b hop now).trans (assess_queue judged)).trans adopted
    rcases considerRelay_queues considered with
      ⟨-, rfl⟩ | ⟨rfl, other, left, mode, quality, chosen, penalized, rfl⟩
    · exact .inl queue
    · have foreign : e.isMine b.prev = false := by
        unfold isMine at other ⊢
        rwa [queue.setup] at other
      rw [queue.setup] at penalized
      exact .inr ⟨duplicate, estimate, _, mode, quality,
        ⟨admitted, arrival, ⟨assessed, judged, rfl⟩, foreign, left, chosen, penalized⟩, queue,
        answered, rfl⟩

theorem Takes.queue {outcome : PacketOutcome} (h : e.Takes b hop now outcome e') :
    ∃ settled, SameQueue e settled ∧ (e' = settled ∨ ∃ t : Task, t.own = false ∧
      e' = { settled with scheduler := settled.scheduler.enqueue t }) := by
  rcases h.relays with queue | ⟨_, _, settled, _, _, _, queue, -, rfl⟩
  · exact ⟨e', queue, .inl rfl⟩
  · exact ⟨settled, queue, .inr ⟨_, rfl, rfl⟩⟩

theorem start_cases (h : e.start now = .ok e') :
    ∃ started, (List.range e.setup.ifaces.length).foldlM (fun e iface => e.scheduleOwn iface now)
      e = .ok started ∧ SameQueue started e' := by
  obtain ⟨started, scheduled, h⟩ := Fault.bind_ok h
  cases Fault.pure_ok h
  exact ⟨started, scheduled, rfl, rfl, rfl⟩

theorem shutdown_queue (e : Engine) (now : Time) :
    ∃ swept, SameQueue e swept ∧
      SameQueue { swept with scheduler := swept.scheduler.clear } (e.shutdown now) := by
  have sweeps := sweep_sweeps { e with nextSweep := none } (e.flushTime now)
  exact ⟨_, ⟨sweeps.queue.setup, sweeps.queue.counters, sweeps.queue.scheduler⟩, .refl _⟩

/-- A property of the beacons to send and the counters that everything but a start keeps. -/
structure QueueInvariant (P : Engine → Prop) : Prop where
  same : ∀ {e e' : Engine}, SameQueue e e' → P e → P e'
  relay : ∀ {e : Engine} {t : Task}, t.own = false → P e →
    P { e with scheduler := e.scheduler.enqueue t }
  perform : ∀ {e e' : Engine} {t : Task} {scheduler : Scheduler} {now : Time},
    e.scheduler.pop? now = some (t, scheduler) → { e with scheduler }.perform t now = .ok e' →
    P e → P e'
  clear : ∀ {e : Engine}, P e → P { e with scheduler := e.scheduler.clear }

namespace QueueInvariant

variable {P : Engine → Prop}

theorem takes (inv : QueueInvariant P) {outcome : PacketOutcome}
    (h : e.Takes b hop now outcome e') (holds : P e) : P e' := by
  obtain ⟨settled, queue, rfl | ⟨t, relay, rfl⟩⟩ := h.queue
  · exact inv.same queue holds
  · exact inv.relay relay (inv.same queue holds)

theorem performs (inv : QueueInvariant P) {ts : List Task} (h : Performs now e ts e')
    (holds : P e) : P e' := by
  induction h with
  | none => exact holds
  | task popped work _ ih => exact ih (inv.perform popped work holds)

theorem does (inv : QueueInvariant P) {c : Call} {r : Reply} (h : Does e c r e')
    (other : ∀ now, c ≠ .start now) (holds : P e) : P e' := by
  cases h with
  | start => exact absurd rfl (other _)
  | beacon _ taken => exact inv.takes taken holds
  | data _ carried => exact inv.same carried.queue holds
  | frame bridged => exact inv.same bridged.queue holds
  | poll work =>
    have settled := inv.performs work holds
    split
    · exact inv.same (sweep_sweeps _ _).queue settled
    · exact settled
  | sweep now => exact inv.same (sweep_sweeps e now).queue holds
  | shutdown now =>
    obtain ⟨swept, kept, cleared⟩ := e.shutdown_queue now
    exact inv.same cleared (inv.clear (inv.same kept holds))

theorem start (inv : QueueInvariant P)
    (own : ∀ {e e' : Engine} {iface : IfaceId}, e.scheduleOwn iface now = .ok e' → P e → P e')
    (h : e.start now = .ok e') (holds : P e) : P e' := by
  obtain ⟨started, scheduled, queue⟩ := start_cases h
  exact inv.same queue (Fault.foldlM_ok own scheduled holds)

/-- A property that starts keep too holds along every run. -/
theorem run (inv : QueueInvariant P) (start : ∀ {e e' : Engine} {now : Time},
    e.start now = .ok e' → P e → P e') {cs : List Call} (h : e.run cs = .ok e') (holds : P e) :
    P e' := by
  induction cs generalizing e with
  | nil =>
    cases h
    exact holds
  | cons c cs ih =>
    obtain ⟨⟨next, r⟩, first, h⟩ := Fault.bind_ok h
    have done := step_does first
    refine ih h ?_
    by_cases starts : ∃ time, c = .start time
    · obtain ⟨time, rfl⟩ := starts
      cases done with
      | start work => exact start work holds
      | beacon brought => cases brought
    · exact inv.does done (fun time same => starts ⟨time, same⟩) holds

end QueueInvariant

end Engine

end BeaconMesh

import BeaconMesh.Proofs.Faults.Runs
import BeaconMesh.Proofs.Relays.Queue

/-!
# Echoes to direct neighbours

A beacon that comes straight from its originator is echoed on the interface that it came in on,
whether it is a duplicate or not and wherever the route to the originator leads. The echo takes the
hops of that route, though, and when the route has none left there is no echo.
-/

namespace BeaconMesh

/-- Whether a task echoes a beacon of a direct neighbour on an interface. -/
structure Task.Echoes (t : Task) (b : Beacon) (iface : IfaceId) (now : Time) : Prop where
  due : t.due = now
  relay : t.own = false
  out : t.out = some iface
  direct : t.direct = true
  orig : t.beacon.orig = b.orig
  seqno : t.beacon.seqno = b.seqno
  prev : t.beacon.prev = b.orig
  hosts : t.beacon.hosts = b.hosts

theorem Task.targets_direct {s : Setup} {t : Task} {iface : IfaceId}
    (known : iface < s.ifaces.length) (out : t.out = some iface) (direct : t.direct = true) :
    ∃ flags, (iface, flags) ∈ t.targets s.ifaces ∧ flags &&& Beacon.directFlag ≠ 0 := by
  unfold targets
  rw [out, direct]
  by_cases oneWay : t.oneWay = true
  · rw [if_pos oneWay]
    exact ⟨_, List.mem_singleton.mpr rfl, by decide⟩
  rw [if_neg oneWay]
  by_cases lastHop : t.beacon.ttl = 1
  · rw [if_pos (by simp [lastHop])]
    exact ⟨_, List.mem_singleton.mpr rfl, by decide⟩
  rw [if_neg (by simp [lastHop]), if_neg (by simp)]
  have flagged : t.flagsOn iface = Beacon.directFlag := by simp [flagsOn, out, direct]
  refine ⟨t.flagsOn iface, List.mem_map.mpr ⟨s.ifaces[iface], List.getElem_mem known, ?_⟩, ?_⟩
  · rw [s.numbered iface known]
  · rw [flagged]
    decide

namespace Engine

variable {e e' : Engine} {b : Beacon} {hop : Hop} {now : Time} {duplicate : Bool}

/-! ### What is queued -/

/-- Whether the route to a node leads through another one and has no hops left. -/
def RouteSpent (e : Engine) (a : Addr) : Prop :=
  ∃ l, e.route? a = some l ∧ l.hop.addr ≠ a ∧ l.lastTtl ≤ 1

theorem considerRelay_straight (straight : b.orig = hop.addr) (other : e.isMine b.prev = false)
    (duplicate twoWay : Bool) (now : Time) :
    ∃ oneWay, e.considerRelay b hop duplicate twoWay now =
      e.relay b hop { direct := true, oneWay } now := by
  refine ⟨! (twoWay && e.routesVia b.orig hop.addr), ?_⟩
  unfold considerRelay relayMode?
  rw [other, if_neg nofun]
  dsimp only
  rw [if_pos straight]

/-- The hops of an echo are spent exactly if those of the route in its place are. -/
theorem relayHops_le_one_iff (usable : ∀ l, e.route? b.orig = some l → l.average ≠ 0)
    (hops : ¬ b.ttl ≤ 1) : e.relayHops b b.orig ≤ 1 ↔ e.RouteSpent b.orig := by
  unfold relayHops substitute?
  constructor
  · intro spent
    split at spent
    · rename_i l used
      split at spent
      · exact absurd spent hops
      · rename_i elsewhere
        rw [not_or] at elsewhere
        exact ⟨l, used, elsewhere.1, spent⟩
    · exact absurd spent hops
  · rintro ⟨l, used, elsewhere, spent⟩
    have kept : ¬ (l.hop.addr = b.orig ∨ l.average = 0) := not_or.mpr ⟨elsewhere, usable l used⟩
    rw [used]
    dsimp only
    rw [if_neg kept]
    exact spent

/-- The judgement of a beacon that came straight from its originator queues the echo, unless the
route has no hops left. -/
theorem judge_straight {outcome : PacketOutcome} (straight : b.orig = hop.addr)
    (hops : ¬ b.ttl ≤ 1) (other : e.isMine b.prev = false)
    (h : e.judge b hop duplicate now = .ok (e', outcome))
    (usable : ∀ l, e'.route? b.orig = some l → l.average ≠ 0) :
    ∃ twoWay relayed, outcome = .beacon duplicate twoWay relayed ∧
      (e'.RouteSpent b.orig ∧ relayed = false ∧ e'.scheduler = e.scheduler ∨
        ¬ e'.RouteSpent b.orig ∧ relayed = true ∧
          ∃ t : Task, t.Echoes b hop.iface now ∧ e'.scheduler = e.scheduler.enqueue t) := by
  obtain ⟨assessed, estimate, relayed, judged, considered, rfl⟩ := judge_eq_ok.mp h
  have adopted := adopt_queue assessed (b.judged estimate) hop duplicate estimate.twoWay now
  have queue := (assess_queue judged).trans adopted
  generalize assessed.adopt (b.judged estimate) hop duplicate estimate.twoWay now = settled at *
  have foreign : settled.isMine (b.judged estimate).prev = false := by
    unfold isMine
    rw [queue.setup]
    exact other
  have path : (b.judged estimate).orig = hop.addr := straight
  obtain ⟨oneWay, relay⟩ := considerRelay_straight path foreign duplicate estimate.twoWay now
  rw [relay] at considered
  refine ⟨estimate.twoWay, relayed, rfl, ?_⟩
  -- A relay changes the queue only, so the route after it is the one that decided.
  rcases relay_queues considered with ⟨rfl, spent, rfl⟩ | ⟨rfl, left, quality, -, rfl⟩
  · rw [← straight] at spent
    have same := relayHops_le_one_iff (e := e') (b := b.judged estimate) usable hops
    exact .inl ⟨same.mp (spent.resolve_left hops), rfl, queue.scheduler⟩
  · rw [← straight] at left
    have same := relayHops_le_one_iff (e := settled) (b := b.judged estimate) usable hops
    let t := settled.relayTask (b.judged estimate) hop { direct := true, oneWay } quality now
    have echoes : t.Echoes b hop.iface now :=
      ⟨rfl, rfl, rfl, rfl, rfl, rfl, straight.symm, rfl⟩
    have queued : settled.scheduler.enqueue t = e.scheduler.enqueue t := by rw [queue.scheduler]
    exact .inr ⟨fun spent => left (.inr (same.mpr spent)), rfl, t, echoes, queued⟩

theorem accept_inTime (hop : Hop)
    (inTime : ∀ p, (e.origins.getOrNew b.orig now).arrival b.seqno ≠ .late p) :
    ∃ duplicate, e.accept b hop now = (e.hear b hop now).judge b hop duplicate now := by
  unfold accept
  cases arrival : (e.origins.getOrNew b.orig now).arrival b.seqno with
  | late p => exact absurd arrival (inTime p)
  | duplicate => exact ⟨true, rfl⟩
  | fresh => exact ⟨false, rfl⟩

/-- Whatever the thresholds are, a beacon that came straight from its originator can be judged. -/
theorem receiveBeacon_straight (keyed : e.origins.Keyed) (admitted : e.setup.Admits b hop)
    (straight : b.orig = hop.addr)
    (inTime : ∀ p, (e.origins.getOrNew b.orig now).arrival b.seqno ≠ .late p) :
    ∃ duplicate e' outcome, e.receiveBeacon b hop.addr hop.iface now = .ok (e', outcome) ∧
      (e.hear b hop now).judge b hop duplicate now = .ok (e', outcome) := by
  obtain ⟨duplicate, judges⟩ := accept_inTime hop inTime
  refine ⟨duplicate, ?_⟩
  rw [← judges, ← receiveBeacon_of_admits admitted]
  cases work : e.receiveBeacon b hop.addr hop.iface now with
  | error cause =>
    obtain ⟨-, unjudged⟩ := (receiveBeacon_error_iff keyed).mp work
    exact absurd straight unjudged.relayed
  | ok r => exact ⟨r.1, r.2, rfl, rfl⟩

/-! ### What the next poll sends -/

/-- Whether the next poll, unless it is one from the past, sends the echo of a beacon on an
interface, whatever else than polls and shutdowns comes before it. -/
def NextPollEchoes (e : Engine) (b : Beacon) (iface : IfaceId) (now : Time) : Prop :=
  ∀ (between : List Call) (waiting : Engine) (later : Time),
    (∀ c ∈ between, c.keepsQueue = true) → e.run between = .ok waiting → now ≤ later →
      (later < Clock.last → ∃ r, waiting.poll later = .ok r) ∧
      ∀ polled count, waiting.poll later = .ok (polled, count) →
        ∃ sent echo payload, polled.outbox = waiting.outbox ++ sent ∧
          .transmit iface .broadcast payload ∈ sent ∧ Wire.encodeBeacon echo = .ok payload ∧
          echo.isDirect = true ∧ echo.orig = b.orig ∧ echo.seqno = b.seqno ∧ echo.prev = b.orig

theorem run_trans {last : Engine} {cs ds : List Call} (h : e.run cs = .ok e')
    (h' : e'.run ds = .ok last) : e.run (cs ++ ds) = .ok last := by
  rw [run_append, h]
  exact h'

theorem run_beacon {outcome : PacketOutcome} {cs : List Call} {start : Engine}
    (run : start.run cs = .ok e)
    (h : e.receiveBeacon b hop.addr hop.iface now = .ok (e', outcome)) :
    start.run (cs ++ [.beacon b hop.addr hop.iface now]) = .ok e' := by
  refine run_trans run ?_
  change (e.receiveBeacon b hop.addr hop.iface now >>= _) >>= _ = _
  rw [h]
  rfl

theorem run_usable {s : Setup} {jitter : Jitter} {cs : List Call}
    (run : (Engine.new s jitter).run cs = .ok e) {a : Addr} {l : Link}
    (used : e.route? a = some l) : l.average ≠ 0 := by
  obtain ⟨o, known, linked⟩ := Option.bind_eq_some_iff.mp used
  obtain ⟨hop, route, found⟩ := Option.bind_eq_some_iff.mp linked
  have sound := ((Originator.sound_invariant s).run run).each known
  obtain ⟨_, found', positive⟩ := sound.route_link route
  cases found.symm.trans found'
  exact positive

theorem nextPollEchoes {s : Setup} {jitter : Jitter} {cs : List Call}
    (run : (Engine.new s jitter).run cs = .ok e) {iface : IfaceId}
    (known : iface < s.ifaces.length) {t : Task} (queued : t ∈ e.scheduler.tasks)
    (echoes : t.Echoes b iface now) (few : b.hosts.length ≤ Wire.maxHosts) :
    e.NextPollEchoes b iface now := by
  intro between waiting later quiet waits late
  refine ⟨fun goesOn => ?_, fun polled count work => ?_⟩
  · obtain ⟨polled, count, work⟩ := waiting.poll_ok goesOn
    exact ⟨_, work⟩
  have reached := run_trans run waits
  have setup : waiting.setup = s := ((Originator.sound_invariant s).run reached).setup
  have due : t.due ≤ later := echoes.due ▸ late
  have relay : t.ownIface? = none := by
    unfold Task.ownIface?
    rw [echoes.relay]
    rfl
  obtain ⟨sent, outbox, covers⟩ :=
    poll_covers (run_inOrder reached) work (run_keeps waits quiet queued) due relay
  rw [setup] at covers
  obtain ⟨flags, target, flagged⟩ := Task.targets_direct known echoes.out echoes.direct
  let echo : Beacon := { t.beacon with flags }
  have written : Wire.encodeBeacon echo = .ok (Wire.beaconBytes echo) := by
    refine if_neg (Nat.not_lt.mpr ?_)
    change t.beacon.hosts.length ≤ _
    rw [echoes.hosts]
    exact few
  exact ⟨sent, echo, _, outbox, covers _ target _ written, written, decide_eq_true flagged,
    echoes.orig, echoes.seqno, echoes.prev⟩

/-! ### The whole -/

/-- A beacon straight from a neighbour is echoed by the next poll, unless the route to the neighbour
leads elsewhere and has no hops left. -/
theorem direct_neighbour_echoed {s : Setup} {jitter : Jitter} {cs : List Call} {e : Engine}
    (run : (Engine.new s jitter).run cs = .ok e) {b : Beacon} {iface : IfaceId} {now : Time}
    (known : iface < s.ifaces.length) (peer : s.IsPeer b.orig) (answered : b.isOneWay = false)
    (hops : 2 ≤ b.ttl.toNat) (other : s.isMine b.prev = false)
    (inTime : ∀ p, (e.origins.getOrNew b.orig now).arrival b.seqno ≠ .late p) :
    ∃ e' duplicate twoWay relayed,
      e.receiveBeacon b b.orig iface now = .ok (e', .beacon duplicate twoWay relayed) ∧
      (e'.RouteSpent b.orig ∧ relayed = false ∧ e'.scheduler = e.scheduler ∨
        ¬ e'.RouteSpent b.orig ∧ relayed = true ∧ ∃ t : Task, t.Echoes b iface now ∧
          e'.scheduler = e.scheduler.enqueue t ∧
          (b.hosts.length ≤ Wire.maxHosts → e'.NextPollEchoes b iface now)) := by
  have setup : e.setup = s := ((Originator.sound_invariant s).run run).setup
  let hop : Hop := ⟨b.orig, iface⟩
  have toGo : ¬ b.ttl ≤ 1 := fun spent => by
    have few : b.ttl.toNat ≤ 1 := UInt8.le_iff_toNat_le.mp spent
    omega
  have admitted : e.setup.Admits b hop := setup ▸ ⟨known, peer, peer.1, answered⟩
  obtain ⟨duplicate, e', outcome, received, judged⟩ :=
    receiveBeacon_straight (run_keyed run) admitted rfl inTime
  have after := run_beacon run received
  have foreign : (e.hear b hop now).isMine b.prev = false := by
    unfold isMine
    rw [(hear_queue e b hop now).setup, setup]
    exact other
  obtain ⟨twoWay, relayed, rfl, settled⟩ :=
    judge_straight rfl toGo foreign judged fun l => run_usable after
  rw [(hear_queue e b hop now).scheduler] at settled
  refine ⟨e', duplicate, twoWay, relayed, received, settled.imp_right ?_⟩
  rintro ⟨left, sent, t, echoes, queued⟩
  have waiting : t ∈ e'.scheduler.tasks := by
    rw [queued]
    exact Scheduler.mem_insertTask.mpr (.inl rfl)
  exact ⟨left, sent, t, echoes, queued, nextPollEchoes after known waiting echoes⟩

/-- A beacon that its originator sends itself. -/
def ownOf (orig : Addr) (seqno : Seqno) : Beacon := { ttl := 50, quality := 255, seqno, orig }

theorem direct_neighbour_echoed_sample :
    ∃ e, (Engine.new Sample.setup default).run Sample.calls = .ok e ∧
      0 < Sample.setup.ifaces.length ∧ Sample.setup.IsPeer Sample.near ∧
      (ownOf Sample.near 8).isOneWay = false ∧ 2 ≤ (ownOf Sample.near 8).ttl.toNat ∧
      Sample.setup.isMine (ownOf Sample.near 8).prev = false ∧
      (∀ p, (e.origins.getOrNew Sample.near 1006).arrival 8 ≠ .late p) ∧
      ∃ e' duplicate twoWay relayed,
        e.receiveBeacon (ownOf Sample.near 8) Sample.near 0 1006 =
          .ok (e', .beacon duplicate twoWay relayed) ∧
        (e'.RouteSpent Sample.near ∧ relayed = false ∧ e'.scheduler = e.scheduler ∨
          ¬ e'.RouteSpent Sample.near ∧ relayed = true ∧
            ∃ t : Task, t.Echoes (ownOf Sample.near 8) 0 1006 ∧
              e'.scheduler = e.scheduler.enqueue t ∧
              ((ownOf Sample.near 8).hosts.length ≤ Wire.maxHosts →
                e'.NextPollEchoes (ownOf Sample.near 8) 0 1006)) := by
  have reached : ∃ e, (Engine.new Sample.setup default).run Sample.calls = .ok e ∧
      (e.origins.getOrNew Sample.near 1006).arrival 8 = .fresh := ⟨_, rfl, rfl⟩
  obtain ⟨e, run, fresh⟩ := reached
  have known : 0 < Sample.setup.ifaces.length := by decide
  have peer : Sample.setup.IsPeer Sample.near := ⟨rfl, by decide⟩
  have hops : 2 ≤ (ownOf Sample.near 8).ttl.toNat := by decide
  have inTime : ∀ p, (e.origins.getOrNew Sample.near 1006).arrival 8 ≠ .late p := by
    intro p late
    cases fresh.symm.trans late
  exact ⟨e, run, known, peer, rfl, hops, rfl, inTime,
    direct_neighbour_echoed run known peer rfl hops rfl inTime⟩

/-- A neighbour echoes our beacon and sends its own, and then relays one of another node that has
one hop left. -/
def lastHop : List Call :=
  [.start 0, .poll 1000,
    .beacon { flags := Beacon.directFlag, orig := Sample.setup.primary, seqno := 1 } Sample.near 0
      1001,
    .beacon (ownOf Sample.near 1) Sample.near 0 1002,
    .beacon { ttl := 1, quality := 255, seqno := 7, orig := Sample.far, prev := Sample.far }
      Sample.near 0 1003]

/-- The other node becomes a neighbour, and its beacon is not echoed. -/
theorem direct_neighbour_not_echoed :
    ∃ e e', (Engine.new Sample.setup default).run lastHop = .ok e ∧
      0 < Sample.setup.ifaces.length ∧ Sample.setup.IsPeer Sample.far ∧
      (ownOf Sample.far 8).isOneWay = false ∧ 2 ≤ (ownOf Sample.far 8).ttl.toNat ∧
      Sample.setup.isMine (ownOf Sample.far 8).prev = false ∧
      e.receiveBeacon (ownOf Sample.far 8) Sample.far 0 1004 =
        .ok (e', .beacon false false false) ∧
      e'.scheduler.tasks = e.scheduler.tasks :=
  ⟨_, _, rfl, by decide, ⟨rfl, by decide⟩, rfl, by decide, rfl, rfl, rfl⟩

end Engine

end BeaconMesh

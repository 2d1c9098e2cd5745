import BeaconMesh.Proofs.Faults.Arithmetic
import BeaconMesh.Proofs.Routes.Rankings

/-!
# Where relays come from

A relay repeats a beacon that was just received. Its hops and its quality come from that beacon or
from the route in use, and what counts for a route comes from beacons that were received before.
`Ranking.Backed` is the invariant, and `relays_trace_to_receptions` the result: a relay has one hop
less than some beacon of its originator, and no better quality than the best of them.
-/

namespace BeaconMesh

/-- The receptions of a history, the last first. -/
def receptions (past : List Event) : List Reception := past.filterMap Event.reception?

/-- The best quality that a reception of an originator carried, on a scale up to `most`. -/
def bestCarried (most : Nat) (a : Addr) : List Reception → Nat
  | [] => 0
  | r :: rs =>
    if r.beacon.orig = a then max (min r.beacon.quality.toNat most) (bestCarried most a rs)
    else bestCarried most a rs

theorem bestCarried_le_cons (most : Nat) (a : Addr) (r : Reception) (rs : List Reception) :
    bestCarried most a rs ≤ bestCarried most a (r :: rs) := by
  rw [bestCarried]
  split
  · exact Nat.le_max_right _ _
  · exact Nat.le_refl _

theorem carried_le_bestCarried (most : Nat) (r : Reception) (rs : List Reception) :
    min r.beacon.quality.toNat most ≤ bestCarried most r.beacon.orig (r :: rs) := by
  rw [bestCarried, if_pos rfl]
  exact Nat.le_max_left _ _

theorem receptions_cons (x : Event) (past : List Event) :
    receptions (x :: past) = x.reception?.toList ++ receptions past := by
  unfold receptions
  rw [List.filterMap_cons]
  cases x.reception? <;> rfl

/-- Whether a call put a task into the queue. -/
def Event.queues (x : Event) (t : Task) : Prop :=
  x.before.scheduler.tasks.count t < x.after.scheduler.tasks.count t

/-- Whether a task relays a reception, with hops and a quality that it or an earlier reception of
the same originator bears out. -/
structure Task.Traces (t : Task) (s : Setup) (r : Reception) (earlier : List Reception) : Prop where
  orig : t.beacon.orig = r.beacon.orig
  seqno : t.beacon.seqno = r.beacon.seqno
  gatewayClass : t.beacon.gatewayClass = r.beacon.gatewayClass
  hosts : t.beacon.hosts = r.beacon.hosts
  prev : t.beacon.prev = r.hop.addr
  out : t.out = some r.hop.iface
  hops : 1 ≤ t.beacon.ttl.toNat ∧ ∃ q ∈ r :: earlier, q.beacon.orig = r.beacon.orig ∧
    t.beacon.ttl.toNat + 1 = q.beacon.ttl.toNat
  quality : t.beacon.quality.toNat ≤
    bestCarried s.config.maxQuality.toNat r.beacon.orig (r :: earlier) *
      (s.config.maxQuality.toNat - s.config.hopPenalty.toNat) / s.config.maxQuality.toNat

/-! ### Qualities -/

theorem toNat_ofNat_le (n : Nat) : (UInt8.ofNat n).toNat ≤ n := by
  rw [UInt8.toNat_ofNat']
  exact Nat.mod_le _ _

theorem Link.average_le {l : Link} {most : Nat} (h : ∀ q ∈ l.samples, q.toNat ≤ most) :
    l.average ≤ most := by
  have usable : l.IsUsable 0 most := fun q mem => ⟨Nat.zero_le _, h q mem⟩
  rcases Link.average_bounds usable with zero | ⟨-, le⟩
  · omega
  · exact le

theorem Link.samples_ne_nil {l : Link} (h : l.average ≠ 0) : l.samples ≠ [] := by
  intro none
  apply h
  rw [average, none]
  rfl

theorem Relay.penalized_le {p : Pacing} {quality kept : UInt8}
    (h : Relay.penalized p quality = .ok kept) {most : Nat} (le : quality.toNat ≤ most) :
    kept.toNat ≤ most * (p.maxQuality - p.hopPenalty) / p.maxQuality := by
  obtain ⟨left, taken, h⟩ := Fault.bind_ok h
  obtain ⟨product, scaled, h⟩ := Fault.bind_ok h
  cases Fault.pure_ok h
  unfold Fault.difference at taken
  unfold Fault.quotient at scaled
  split at taken
  · cases taken
  · split at scaled
    · cases scaled
    · cases taken
      cases scaled
      apply Nat.le_trans (toNat_ofNat_le _)
      exact Nat.div_le_div_right (Nat.mul_le_mul_right _ le)

namespace Engine

variable {e e' : Engine} {b : Beacon} {hop : Hop} {now : Time} {t : Task}

theorem relay_source (e : Engine) (b : Beacon) (sender : Addr) :
    e.relayHops b sender = b.ttl ∧ e.relayQuality b sender = b.quality ∨
      ∃ l, e.route? b.orig = some l ∧ l.average ≠ 0 ∧ e.relayHops b sender = l.lastTtl ∧
        e.relayQuality b sender = UInt8.ofNat l.average := by
  unfold relayHops relayQuality substitute?
  cases used : e.route? b.orig with
  | none => exact .inl ⟨rfl, rfl⟩
  | some l =>
    dsimp only
    by_cases straight : l.hop.addr = sender ∨ l.average = 0
    · rw [if_pos straight]
      exact .inl ⟨rfl, rfl⟩
    · rw [if_neg straight]
      exact .inr ⟨l, rfl, fun zero => straight (.inr zero), rfl, rfl⟩

end Engine

/-! ### What was received bears out what counts for routes -/

/-- Whether no quality of a ranking is better than what beacons of the originator carried, and the
hops beside them are those of such a beacon. -/
structure Ranking.Backed (k : Ranking) (most : Nat) (a : Addr) (past : List Reception) : Prop where
  quality : ∀ q ∈ k.samples, q.toNat ≤ bestCarried most a past
  hops : k.samples ≠ [] → ∃ r ∈ past, r.beacon.orig = a ∧ k.lastTtl = r.beacon.ttl

namespace Ranking

variable {k : Ranking} {most : Nat} {a : Addr} {past : List Reception}

theorem backed_blank : Backed {} most a past := ⟨nofun, fun some => absurd rfl some⟩

theorem Backed.cons (h : k.Backed most a past) (r : Reception) : k.Backed most a (r :: past) := by
  constructor
  · intro q mem
    exact Nat.le_trans (h.quality q mem) (bestCarried_le_cons most a r past)
  · intro some
    obtain ⟨q, mem, orig, ttl⟩ := h.hops some
    exact ⟨q, List.mem_cons_of_mem r mem, orig, ttl⟩

theorem Backed.add {r : Reception} {b : Beacon} (h : k.Backed most r.beacon.orig past)
    (quality : b.quality.toNat ≤ min r.beacon.quality.toNat most) (ttl : b.ttl = r.beacon.ttl) :
    (k.add b).Backed most r.beacon.orig (r :: past) := by
  constructor
  · intro q mem
    rcases List.mem_cons.mp (List.mem_of_mem_take mem) with rfl | old
    · exact Nat.le_trans quality (carried_le_bestCarried most r past)
    · exact (h.cons r).quality q old
  · intro _
    exact ⟨r, List.mem_cons_self, rfl, ttl⟩

end Ranking

namespace Engine

variable {e e' : Engine} {b : Beacon} {hop : Hop} {now : Time} {t : Task}

theorem Judges.quality_le {r : Reception} {assessed : Engine} {estimate : Estimate}
    (h : e.Judges r assessed estimate) :
    (r.beacon.judged estimate).quality.toNat ≤
      min r.beacon.quality.toNat e.setup.config.maxQuality.toNat := by
  obtain ⟨_, _, judged⟩ := assess_estimate h
  obtain ⟨le, -⟩ := Estimator.estimate_bounds judged
  exact Nat.le_trans (toNat_ofNat_le _) le

theorem History.backed {s : Setup} {jitter : Jitter} {past : List Event}
    (h : History (.new s jitter) past e) (a : Addr) (hop : Hop) :
    (e.ranking a hop).Backed s.config.maxQuality.toNat a (receptions past) := by
  induction h with
  | nil => exact Ranking.backed_blank
  | @call past e e' c reply before made ih =>
    rw [receptions_cons]
    cases (step_does made).reranks before.sound a hop with
    | same kept =>
      have still : e'.ranking a hop = e.ranking a hop := kept
      rw [still]
      cases Event.reception? ⟨e, c, reply, e'⟩ with
      | none => exact ih
      | some r => exact ih.cons r
    | forgotten blank =>
      have gone : e'.ranking a hop = {} := blank
      rw [gone]
      exact Ranking.backed_blank
    | @added r assessed estimate ranked judged orig here more =>
      -- The new quality is bounded by what its own beacon carried.
      have grown : e'.ranking a hop = (e.ranking a hop).add (r.beacon.judged estimate) := more
      have le := judged.quality_le
      rw [before.setup] at le
      rw [grown, Event.reception?_of_ranked? ranked]
      subst orig
      exact ih.add le rfl

/-! ### What enters the queue -/

theorem scheduleOwn_count {iface : IfaceId} (relay : t.own = false)
    (h : e.scheduleOwn iface now = .ok e') :
    e'.scheduler.tasks.count t = e.scheduler.tasks.count t := by
  rcases scheduleOwn_cases h with ⟨here, counter, due, -, -, -, rfl⟩ | ⟨-, rfl⟩
  · show (Scheduler.insertTask _ e.scheduler.tasks).count t = _
    rw [(Scheduler.insertTask_perm _ _).count_eq, List.count_cons_of_ne]
    intro same
    rw [← same] at relay
    cases relay
  · rfl

theorem start_count (relay : t.own = false) (h : e.start now = .ok e') :
    e'.scheduler.tasks.count t = e.scheduler.tasks.count t := by
  obtain ⟨started, scheduled, queue⟩ := start_cases h
  rw [queue.scheduler]
  exact Fault.foldlM_ok (P := fun x => x.scheduler.tasks.count t = e.scheduler.tasks.count t)
    (fun step same => (scheduleOwn_count relay step).trans same) scheduled rfl

theorem Performs.count_le {ts : List Task} (relay : t.own = false) (h : Performs now e ts e') :
    e'.scheduler.tasks.count t ≤ e.scheduler.tasks.count t := by
  induction h with
  | none => exact Nat.le_refl _
  | @task e next e' u ts scheduler popped work _ ih =>
    obtain ⟨tasks, -⟩ := Scheduler.tasks_of_pop? popped
    have left : scheduler.tasks.count t ≤ e.scheduler.tasks.count t := by
      rw [tasks]
      exact List.count_le_count_cons
    have performed : next.scheduler.tasks.count t = scheduler.tasks.count t := by
      rcases perform_cases work with ⟨-, rfl⟩ | ⟨iface, -, scheduled⟩
      · rfl
      · exact scheduleOwn_count relay scheduled
    omega

theorem Takes.queues {outcome : PacketOutcome} (h : e.Takes b hop now outcome e')
    (more : e.scheduler.tasks.count t < e'.scheduler.tasks.count t) :
    ∃ duplicate estimate settled mode quality,
      e.Relays b hop now duplicate estimate settled mode quality ∧
        outcome = .beacon duplicate estimate.twoWay true ∧ e'.origins = settled.origins ∧
        t = settled.relayTask (b.judged estimate) hop mode quality now := by
  rcases h.relays with
    quiet | ⟨duplicate, estimate, settled, mode, quality, relays, queue, rfl, rfl⟩
  · rw [quiet.scheduler] at more
    exact absurd more (Nat.lt_irrefl _)
  · refine ⟨duplicate, estimate, settled, mode, quality, relays, rfl, rfl, ?_⟩
    by_contra other
    have grown : e.scheduler.tasks.count t < (Scheduler.insertTask
      (settled.relayTask (b.judged estimate) hop mode quality now)
      settled.scheduler.tasks).count t := more
    rw [(Scheduler.insertTask_perm _ _).count_eq, List.count_cons_of_ne (Ne.symm other),
      queue.scheduler] at grown
    exact Nat.lt_irrefl _ grown

theorem Does.queues {c : Call} {reply : Reply} (h : Does e c reply e') (relay : t.own = false)
    (more : e.scheduler.tasks.count t < e'.scheduler.tasks.count t) :
    ∃ r outcome, reply = .packet outcome ∧ c.reception? false = some r ∧
      e.Takes r.beacon r.hop r.now outcome e' := by
  have same : ∀ {x : Engine}, x.scheduler = e.scheduler →
      ¬ e.scheduler.tasks.count t < x.scheduler.tasks.count t := by
    intro x still
    rw [still]
    exact Nat.lt_irrefl _
  cases h with
  | start work =>
    have := start_count relay work
    omega
  | beacon brought taken => exact ⟨_, _, rfl, brought, taken⟩
  | data _ carried => exact absurd more (same carried.queue.scheduler)
  | frame bridged => exact absurd more (same bridged.queue.scheduler)
  | @poll now settled work =>
    have fewer := work.count_le relay
    split at more
    · rw [(sweep_sweeps settled now).queue.scheduler] at more
      omega
    · omega
  | sweep now => exact absurd more (same (sweep_sweeps e now).queue.scheduler)
  | shutdown now =>
    have none : (e.shutdown now).scheduler.tasks = [] := rfl
    rw [none] at more
    simp at more

/-- The task of a relay traces its beacon, if what counts for the routes is backed. -/
theorem Relays.traces {r : Reception} {duplicate : Bool} {estimate : Estimate} {settled : Engine}
    {mode : RelayMode} {quality : UInt8} {past : List Reception}
    (h : e.Relays r.beacon r.hop r.now duplicate estimate settled mode quality)
    (backed : ∀ a hop,
      (settled.ranking a hop).Backed e.setup.config.maxQuality.toNat a (r :: past)) :
    (settled.relayTask (r.beacon.judged estimate) r.hop mode quality r.now).Traces e.setup r
      past := by
  obtain ⟨less, some⟩ := h.ttl
  obtain ⟨assessed, judged, -⟩ := h.judged
  have elsewhere : ∀ {l : Link}, settled.route? (r.beacon.judged estimate).orig = Option.some l →
      l.ranking.Backed e.setup.config.maxQuality.toNat r.beacon.orig (r :: past) := by
    intro l used
    rw [← ranking_of_route? used]
    exact backed _ _
  refine ⟨rfl, rfl, rfl, rfl, rfl, rfl, ⟨some, ?_⟩, ?_⟩
  · rw [less]
    rcases settled.relay_source (r.beacon.judged estimate) r.hop.addr with
      ⟨hops, -⟩ | ⟨l, used, positive, hops, -⟩
    · rw [hops]
      exact ⟨r, List.mem_cons_self, rfl, rfl⟩
    · rw [hops]
      obtain ⟨q, mem, orig, ttl⟩ := (elsewhere used).hops (Link.samples_ne_nil positive)
      exact ⟨q, mem, orig, congrArg UInt8.toNat ttl⟩
  · apply Relay.penalized_le h.penalized
    rcases settled.relay_source (r.beacon.judged estimate) r.hop.addr with
      ⟨-, same⟩ | ⟨l, used, -, -, same⟩
    · rw [same]
      have carried : e.Judges r assessed estimate := judged
      exact Nat.le_trans carried.quality_le (carried_le_bestCarried _ r past)
    · rw [same]
      exact Nat.le_trans (toNat_ofNat_le _) (Link.average_le (elsewhere used).quality)

/-! ### The whole -/

/-- A relay repeats a beacon that was received, with one hop less than this or an earlier one had,
and is no better than the best of them. -/
theorem relays_trace_to_receptions {s : Setup} {jitter : Jitter} {cs : List Call} {e : Engine}
    (h : (Engine.new s jitter).run cs = .ok e) :
    ∃ past, History (.new s jitter) past e ∧ past.reverse.map Event.call = cs ∧
      ∀ later x earlier, past = later ++ x :: earlier → ∀ t, x.queues t → t.own = false →
        ∃ r, x.reception? = some r ∧ t.Traces s r (receptions earlier) := by
  obtain ⟨past, history, calls⟩ := run_iff_history.mp h
  refine ⟨past, history, calls, ?_⟩
  intro later x earlier split t queued relay
  subst split
  obtain ⟨before, made⟩ := history.cut
  obtain ⟨r, outcome, reply, brought, taken⟩ := (step_does made).queues relay queued
  obtain ⟨duplicate, estimate, settled, mode, quality, relays, rfl, origins, rfl⟩ :=
    taken.queues queued
  have received : x.reception? = some r := by
    unfold Event.reception?
    rw [reply]
    exact brought
  refine ⟨r, received, ?_⟩
  have after : History (.new s jitter) (x :: earlier) x.after := before.call made
  have backed : ∀ a hop, (settled.ranking a hop).Backed s.config.maxQuality.toNat a
      (r :: receptions earlier) := by
    intro a hop
    have known := after.backed a hop
    rw [receptions_cons, received, ranking_congr origins] at known
    exact known
  rw [← before.setup] at backed ⊢
  exact relays.traces backed

theorem relays_trace_to_receptions_sample :
    ∃ e past, (Engine.new Sample.setup default).run Sample.calls = .ok e ∧
      (∃ t ∈ e.scheduler.tasks, t.own = false ∧ t.beacon.orig = Sample.far) ∧
      History (.new Sample.setup default) past e ∧ past.reverse.map Event.call = Sample.calls ∧
      ∀ later x earlier, past = later ++ x :: earlier → ∀ t, x.queues t → t.own = false →
        ∃ r, x.reception? = some r ∧ t.Traces Sample.setup r (receptions earlier) := by
  have reached : ∃ e t, (Engine.new Sample.setup default).run Sample.calls = .ok e ∧
      e.scheduler.tasks[1]? = some t ∧ t.own = false ∧ t.beacon.orig = Sample.far :=
    ⟨_, _, rfl, rfl, rfl, rfl⟩
  obtain ⟨e, t, run, queued, relay, orig⟩ := reached
  obtain ⟨past, history, calls, traces⟩ := relays_trace_to_receptions run
  have mem := List.mem_of_getElem? queued
  exact ⟨e, past, run, ⟨t, mem, relay, orig⟩, history, calls, traces⟩

end Engine

end BeaconMesh

import BeaconMesh.Proofs.Ageing.Staleness
import BeaconMesh.Proofs.Gateways.Agreement
import BeaconMesh.Proofs.Routes.Published

/-!
# The end of a node

A node ends with a sweep at a time so late that everything is stale by then. It forgets the nodes one
by one, each with its route, its hosts and its gateway entry, and the rest of the sweep finds nothing
left to do. `shutdown_flushes` says what the node has then, and what it told its observers.
-/

namespace BeaconMesh

theorem Config.IsValid.interval_pos {c : Config} (h : c.IsValid) : 0 < c.interval.toNat :=
  Nat.lt_of_le_of_lt (Nat.zero_le _) h.jitter_lt

namespace Originator

variable {s : Setup} {o o' : Originator} {p : Time → Prop}

theorem Decay.seen (h : Decay s o o') (seen : o.Seen p) : o'.Seen p := by
  cases h with
  | prune now =>
    obtain ⟨_, frame⟩ := o.prune_frame now s.timeout
    rw [seen_iff] at seen
    rw [frame, seen_iff]
    exact ⟨seen.1, fun l mem => seen.2 l (List.mem_filter.mp mem).1⟩
  | _ => exact seen

theorem isStale_of_le {now flush timeout : Time} (heard : o.lastSeen ≤ now)
    (far : now + 2 * timeout < flush) : o.isStale flush timeout = true := by
  have limit : Clock.times timeout 2 ≤ 2 * timeout := Nat.mul_comm 2 timeout ▸ Nat.min_le_left _ _
  have ends : Clock.later o.lastSeen (Clock.times timeout 2) ≤
      o.lastSeen + Clock.times timeout 2 := Nat.min_le_left _ _
  have past : Clock.later o.lastSeen (Clock.times timeout 2) < flush := by lia
  exact decide_eq_true past

end Originator

namespace GatewayList

theorem choose_of_unknown {origins : Origins} (unknown : ∀ a, origins.get? a = none)
    (t : GatewayList) (routingClass : UInt8) (preferred : Option Addr) :
    t.choose origins routingClass preferred = none := by
  have unrouted : ∀ a, routedQuality? origins a = none := by
    intro a
    rw [routedQuality?, unknown]
    rfl
  have ineligible : preferred.filter (t.isEligible origins) = none := by
    refine Option.filter_eq_none_iff.mpr fun a _ => ?_
    unfold isEligible
    simp [unrouted a]
  have unscored : ∀ gs : List Gateway, gs.foldl (betterOf origins routingClass) none = none := by
    intro gs
    induction gs with
    | nil => rfl
    | cons g gs ih =>
      rw [List.foldl_cons, betterOf, unrouted]
      exact ih
  unfold choose
  split
  · rfl
  · rw [ineligible, unscored]
    rfl

theorem Lists.activeCount_of_blank {t : GatewayList} {level : Addr → UInt8} (h : t.Lists level)
    (blank : ∀ a, level a = 0) : t.activeCount = 0 := by
  refine List.countP_eq_zero.mpr fun g mem live => ?_
  obtain ⟨some, same⟩ := h.active g mem live
  exact some (same.symm.trans (blank g.orig))

end GatewayList

/-- Changes that leave no routes remove each route once, and tell nothing else. -/
theorem RouteTable.Leads.mem_iff_of_none {cs : List RouteChange} {old new : Addr → Option Hop}
    (h : Leads cs old new) (none : ∀ d, new d = none) (c : RouteChange) :
    c ∈ cs ↔ ∃ hop, old c.dest = some hop ∧
      c = { dest := c.dest, previous := some hop, next := Option.none } := by
  have removes : ∀ c ∈ cs, ∃ hop, old c.dest = some hop ∧
      c = { dest := c.dest, previous := some hop, next := Option.none } := by
    rintro ⟨dest, previous, next⟩ mem
    obtain ⟨start, goal, news⟩ := h.moved _ mem
    dsimp only at start goal news ⊢
    rw [none] at goal
    subst goal
    obtain ⟨hop, rfl⟩ := Option.ne_none_iff_exists'.mp news.symm
    exact ⟨hop, start, rfl⟩
  refine ⟨removes c, ?_⟩
  rintro ⟨hop, had, is⟩
  have moved : c.dest ∈ cs.map RouteChange.dest := by
    by_contra absent
    rw [← h.kept c.dest absent, none] at had
    cases had
  obtain ⟨c', mem, same⟩ := List.mem_map.mp moved
  obtain ⟨hop', had', is'⟩ := removes c' mem
  rw [same, had] at had'
  cases had'
  rw [is, ← same, ← is']
  exact mem

namespace Engine

open RouteTable (Leads leads_nil)

variable {s : Setup} {e e' : Engine} {p : Time → Prop} {now : Time}

/-! ### When nodes were heard -/

theorem Decays.nodesSeen (h : Decays e e') (seen : e.NodesSeen p) : e'.NodesSeen p := by
  induction h with
  | refl => exact seen
  | @tail before after _ last ih =>
    intro a
    cases found : after.origins.get? a with
    | none =>
      rw [Origins.field_of_none found]
      trivial
    | some o' =>
      obtain ⟨o, known, change⟩ := last.entry found
      have held := ih a
      rw [Origins.field_of_get? known] at held
      rw [Origins.field_of_get? found]
      exact change.seen held

/-- What is true of the time of a call is true of when nodes were heard by it. -/
theorem step_nodesSeen {c : Call} {r : Reply} (made : e.step c = .ok (e', r)) (current : p c.time)
    (seen : e.NodesSeen p) : e'.NodesSeen p := by
  cases step_does made with
  | start work => exact seen.same (.of_origins (start_same work).origins)
  | beacon brought taken => exact taken.nodesSeen (Call.time_of_reception? brought ▸ current) seen
  | data _ carried => exact seen.same (carried.sameField fun _ _ _ => rfl)
  | frame bridged => exact seen.same (.of_origins bridged.origins)
  | poll work =>
    have performed := seen.same (work.sameField fun _ _ => rfl)
    split
    · exact (sweep_decays _ _).nodesSeen performed
    · exact performed
  | sweep now => exact (sweep_decays e now).nodesSeen seen
  | shutdown now => exact (shutdown_decays e now).nodesSeen seen

theorem run_nodesSeen {cs : List Call} (h : e.run cs = .ok e') (current : ∀ c ∈ cs, p c.time)
    (seen : e.NodesSeen p) : e'.NodesSeen p := by
  induction cs generalizing e with
  | nil =>
    cases h
    exact seen
  | cons c cs ih =>
    obtain ⟨⟨next, r⟩, first, h⟩ := Fault.bind_ok h
    obtain ⟨here, others⟩ := List.forall_mem_cons.mp current
    exact ih h others (step_nodesSeen first here seen)

/-! ### Forgetting everybody -/

theorem Decays.unknown (h : Decays e e') (unknown : ∀ a, e.origins.get? a = none) (a : Addr) :
    e'.origins.get? a = none := by
  induction h with
  | refl => exact unknown a
  | @tail _ after _ last ih =>
    refine Option.eq_none_iff_forall_not_mem.mpr fun o found => ?_
    obtain ⟨_, known, -⟩ := last.entry found
    rw [ih] at known
    cases known

/-- What is forgotten node by node loses each route once. -/
theorem foldl_forget_publishes (sound : Sound s e) (as : List Addr) (now : Time) :
    Publishes e (as.foldl (forget now) e) := by
  induction as generalizing e with
  | nil => exact publishes_nothing rfl fun _ => rfl
  | cons a as ih =>
    have kept := (Originator.sound_invariant s).invariant.decay (.forget e a now) sound
    obtain ⟨cs, first, leads⟩ := forget_publishes sound a now
    obtain ⟨ds, others, rest⟩ := ih kept
    refine ⟨cs ++ ds, ?_, leads.append rest fun d => ?_⟩
    · rw [List.foldl_cons, others, first, List.append_assoc]
    -- the node that is forgotten first keeps no route, and comes back with none
    by_cases same : a = d
    · subst same
      have gone : (e.forget now a).origins.get? a = none :=
        (get?_forget e now a a).trans (if_pos rfl)
      have stays : (as.foldl (forget now) (e.forget now a)).origins.get? a = none := by
        rw [get?_foldl_forget, gone, ite_self]
      refine .inr ?_
      rw [List.foldl_cons, Origins.hop?_eq, Origins.hop?_eq, gone, stays]
    · refine .inl ?_
      unfold forget
      split
      · exact (Origins.hop?_erase _ a d).trans (if_neg same)
      · rfl

theorem forgetStale_publishes (sound : Sound s e) (now : Time) : Publishes e (e.forgetStale now) :=
  foldl_forget_publishes sound _ now

theorem forgetStale_unknown (stale : ∀ a o, e.origins.get? a = some o →
    o.isStale now e.setup.timeout = true) (a : Addr) : (e.forgetStale now).origins.get? a = none := by
  rw [get?_forgetStale, Option.filter_eq_none_iff]
  intro o known
  rw [stale a o known]
  exact Bool.false_ne_true

theorem toList_of_unknown {t : Origins} (unknown : ∀ a, t.get? a = none) : t.toList = [] := by
  have empty : t.entries = .empty := AddrMap.ext unknown
  rw [Origins.toList, empty]
  rfl

/-! ### The gateway in use -/

/-- A node that wants no gateway uses none. -/
theorem unused_invariant (s : Setup) : Invariant fun e =>
    e.setup = s ∧ (s.config.routingClass = 0 → e.gateways.current = none) where
  hear _ _ holds := holds
  update {e e'} move holds := by
    refine ⟨move.setup.trans holds.1, fun off => ?_⟩
    have none := holds.2 off
    cases move with
    | quiet same => rwa [same.gateways]
    | assess _ judged => rwa [(assess_upkeep judged).gateways]
    | rank hop => rwa [(rank_upkeep e _ hop).gateways]
    | @heed b now =>
      show (e.gateways.update b.orig b.gatewayClass now).current = Option.none
      unfold GatewayList.update
      split
      · exact none
      · split <;> exact none
    | _ => exact none
  decay {e e'} move holds := by
    refine ⟨move.setup.trans holds.1, fun off => ?_⟩
    have none := holds.2 off
    cases move with
    | quiet same => rwa [same.gateways]
    | forget a now =>
      unfold forget
      split
      · show e.gateways.current.filter _ = Option.none
        rw [none]
        rfl
      · exact none
    | gateway now =>
      unfold chooseGateway
      dsimp only
      rw [holds.1, if_pos off]
      exact none
    | _ => exact none

theorem chooseGateway_current (unknown : ∀ a, e.origins.get? a = none)
    (unused : e.setup.config.routingClass = 0 → e.gateways.current = none) (now : Time) :
    (e.chooseGateway now).gateways.current = none := by
  unfold chooseGateway
  dsimp only
  split
  · rename_i off
    exact unused off
  · exact GatewayList.choose_of_unknown unknown _ _ _

/-! ### The end -/

/-- Whether everything is stale, and no more sweeps are due. -/
structure Ending (s : Setup) (e : Engine) (flush : Time) : Prop where
  setup : e.setup = s
  idle : e.nextSweep = none
  stale : ∀ a o, e.origins.get? a = some o → o.isStale flush e.setup.timeout = true

variable {flush : Time}

theorem Ending.unknown (h : Ending s e flush) (a : Addr) : (e.sweep flush).origins.get? a = none :=
  (forgetStale_decays e flush).unknown (forgetStale_unknown h.stale) a

/-- A sweep that finds everything stale has no more to tell than what it forgets. -/
theorem Ending.publishes (h : Ending s e flush) (sound : Sound s e) :
    Publishes e (e.sweep flush) := by
  have nobody := forgetStale_unknown h.stale
  obtain ⟨removals, told, leads⟩ := forgetStale_publishes sound flush
  have pruned : ((e.forgetStale flush).pruneLinks flush).notices =
      (e.forgetStale flush).notices := by
    unfold pruneLinks
    rw [toList_of_unknown nobody]
    exact List.append_nil _
  have swept : (e.sweep flush).notices = (e.forgetStale flush).notices :=
    (rearm_same _ flush).notices.trans ((chooseGateway_tables _ flush).2.2.2.trans pruned)
  have routes : (e.sweep flush).origins.hop? = (e.forgetStale flush).origins.hop? := by
    funext d
    rw [Origins.hop?_eq, Origins.hop?_eq, h.unknown, nobody]
  refine ⟨removals, swept.trans told, ?_⟩
  rw [routes]
  exact leads

theorem Ending.current (h : Ending s e flush)
    (unused : s.config.routingClass = 0 → e.gateways.current = none) :
    (e.sweep flush).gateways.current = none := by
  let left := ((e.forgetStale flush).pruneLinks flush).expireHosts flush
  have pruned : Decays (e.forgetStale flush) left :=
    .tail (.single (.prune _ flush)) (.expire _ flush)
  have forgotten : Decays e (e.forgetStale flush) := foldl_forget_decays flush _ e
  obtain ⟨setup, off⟩ := (unused_invariant s).decays (forgotten.trans pruned) ⟨h.setup, unused⟩
  have chosen : (e.sweep flush).gateways = (left.chooseGateway flush).gateways :=
    (rearm_same _ flush).gateways
  rw [chosen]
  rw [← setup] at off
  exact chooseGateway_current (pruned.unknown (forgetStale_unknown h.stale)) off flush

theorem run_ending {jitter : Jitter} {cs : List Call} (h : (Engine.new s jitter).run cs = .ok e)
    (before : ∀ c ∈ cs, c.time ≤ now)
    (early : now + 5 * s.timeout + s.config.interval.toNat ≤ Clock.last) :
    Ending s { e with nextSweep := none } (e.flushTime now) := by
  have setup : e.setup = s := (setup_invariant s).run h rfl
  have seen : e.NodesSeen (· ≤ now) := run_nodesSeen h before fun _ => trivial
  have positive := s.valid.interval_pos
  have flush : e.flushTime now = now + 5 * s.timeout + s.config.interval.toNat := by
    have times : Clock.times e.setup.timeout 5 = 5 * s.timeout := by
      rw [setup, Clock.times, Nat.mul_comm]
      exact Nat.min_eq_left (by lia)
    have first : Clock.later now (5 * s.timeout) = now + 5 * s.timeout :=
      Clock.later_eq (by lia)
    rw [flushTime, times, setup, first, Clock.later_eq early]
  refine ⟨setup, rfl, fun a o known => ?_⟩
  have heard := seen a
  rw [Origins.field_of_get? known, Originator.seen_iff] at heard
  refine Originator.isStale_of_le heard.1 ?_
  show now + 2 * e.setup.timeout < _
  rw [flush, setup]
  lia

theorem shutdown_eq (e : Engine) (now : Time) : e.shutdown now =
    { { e with nextSweep := none }.sweep (e.flushTime now) with
      scheduler := ({ e with nextSweep := none }.sweep (e.flushTime now)).scheduler.clear } := rfl

theorem nextDeadline?_of_idle (empty : e.scheduler.tasks = []) (never : e.nextSweep = none) :
    e.nextDeadline? = none := by
  rw [nextDeadline?, Scheduler.nextDue?, empty, never]
  rfl

/-- A node that ends has nothing left and nothing to do, and has taken back every route. -/
theorem shutdown_flushes {s : Setup} {jitter : Jitter} {cs : List Call} {e : Engine} {now : Time}
    (h : (Engine.new s jitter).run cs = .ok e) (before : ∀ c ∈ cs, c.time ≤ now)
    (early : now + 5 * s.timeout + s.config.interval.toNat ≤ Clock.last) :
    (e.shutdown now).origins.entries = .empty ∧
      RouteTable.followAll .empty (e.shutdown now).notices = .empty ∧
      (e.shutdown now).scheduler.tasks = [] ∧ (e.shutdown now).nextDeadline? = none ∧
      (∀ host a, (e.shutdown now).hosts.owner? host ≠ some (.node a)) ∧
      (e.shutdown now).gateways.activeCount = 0 ∧ (e.shutdown now).gateways.current = none ∧
      ∃ removals, (e.shutdown now).notices = e.notices ++ removals ∧
        (removals.map RouteChange.dest).Nodup ∧
        ∀ c, c ∈ removals ↔ ∃ hop, (e.origins.get? c.dest).bind Originator.route = some hop ∧
          c = { dest := c.dest, previous := some hop, next := none } := by
  have ending := run_ending h before early
  have decays := shutdown_decays e now
  obtain ⟨sound, mirrored⟩ := run_mirrored h
  have unused := (unused_invariant s).run h ⟨rfl, fun _ => rfl⟩
  have sound' : Sound s { e with nextSweep := none } := ⟨sound.setup, sound.ifaces, sound.each⟩
  have unknown := ending.unknown
  obtain ⟨removals, told, leads⟩ := ending.publishes sound'
  have current := ending.current unused.2
  have idle := sweep_nextSweep { e with nextSweep := none } (e.flushTime now)
  have mirrored := ((mirrored_invariant s).decays decays ⟨sound, mirrored⟩).2
  have coherent := coherent_invariant.decays decays (run_coherent h)
  have agree := decays.gatewaysAgree (run_gatewaysAgree h)
  -- from here on it does not matter how the last sweep was made
  rw [shutdown_eq] at mirrored coherent agree ⊢
  generalize sweep _ _ = swept at *
  have routes : ∀ d, swept.origins.hop? d = none := fun d => Origins.field_of_none (unknown d)
  refine ⟨AddrMap.ext unknown, AddrMap.ext fun d => (mirrored.agrees d).trans (routes d), rfl, ?_,
    fun host a owned => ?_, ?_, current, removals, told, leads.distinct, fun c => ?_⟩
  · exact nextDeadline?_of_idle rfl idle
  · have announced := (coherent.owned a host).mp owned
    unfold Origins.Announces at announced
    rw [Origins.field_of_none (unknown a)] at announced
    cases announced
  · exact agree.activeCount_of_blank fun a => Origins.field_of_none (unknown a)
  · have gone := leads.mem_iff_of_none routes c
    rwa [Origins.hop?_eq] at gone

theorem shutdown_flushes_sample :
    ∃ e removals, (Engine.new Sample.setup default).run Sample.calls = .ok e ∧
      e.origins.size = 2 ∧ (e.hosts.owner? Sample.host).isSome = true ∧
      (e.shutdown 2000).origins.entries = .empty ∧
      (e.shutdown 2000).notices = e.notices ++ removals ∧
      ({ dest := Sample.far, previous := some ⟨Sample.near, 0⟩, next := none } : RouteChange) ∈
        removals := by
  have reached : ∃ e, (Engine.new Sample.setup default).run Sample.calls = .ok e ∧
      e.origins.size = 2 ∧ (e.hosts.owner? Sample.host).isSome = true ∧
      (e.origins.get? Sample.far).bind Originator.route = some ⟨Sample.near, 0⟩ :=
    ⟨_, rfl, rfl, rfl, rfl⟩
  obtain ⟨e, run, size, owned, route⟩ := reached
  have before : ∀ c ∈ Sample.calls, c.time ≤ 2000 := by decide
  obtain ⟨empty, -, -, -, -, -, -, removals, told, -, iff⟩ :=
    shutdown_flushes run before (by decide)
  exact ⟨e, removals, run, size, owned, empty, told, (iff _).mpr ⟨_, route, rfl⟩⟩

end Engine

end BeaconMesh

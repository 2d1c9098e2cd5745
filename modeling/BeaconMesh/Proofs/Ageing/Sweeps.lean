import BeaconMesh.Proofs.Ageing.Staleness
import BeaconMesh.Proofs.Hosts.Current
import BeaconMesh.Proofs.Routes.Pruning

/-!
# What a sweep removes

A sweep purges nodes, links, hosts and gateways in turn, and each purge feeds the next one.
`Engine.Swept` says of all of them which entries are left; everything else is as it was, and a second
sweep at the same time finds nothing to do.
-/

namespace BeaconMesh

theorem Clock.not_overdue_iff {since limit now : Time} :
    overdue since limit now = false ↔ now ≤ later since limit := by
  rw [overdue, decide_eq_false_iff_not, Nat.not_lt]

namespace Engine

open HostTable (Coherent)

variable {e e' : Engine} {now : Time} {a : Addr}

/-! ### What may differ -/

/-- Whether nothing but entries of tables, the gateway in use and the time of the next sweep
differs, and notices were only added. -/
structure Ages (e e' : Engine) : Prop where
  setup : e'.setup = e.setup
  counters : e'.counters = e.counters
  floodSeqno : e'.floodSeqno = e.floodSeqno
  scheduler : e'.scheduler = e.scheduler
  outbox : e'.outbox = e.outbox
  ifaces : e'.origins.ifaces = e.origins.ifaces
  buffer : e'.hosts.buffer = e.hosts.buffer
  capacity : e'.hosts.capacity = e.hosts.capacity
  own : e'.hosts.own = e.hosts.own
  notices : e.notices <+: e'.notices

theorem Ages.refl (e : Engine) : Ages e e :=
  ⟨rfl, rfl, rfl, rfl, rfl, rfl, rfl, rfl, rfl, List.prefix_refl _⟩

theorem Ages.trans {e₁ e₂ e₃ : Engine} (h : Ages e₁ e₂) (h' : Ages e₂ e₃) : Ages e₁ e₃ where
  setup := h'.setup.trans h.setup
  counters := h'.counters.trans h.counters
  floodSeqno := h'.floodSeqno.trans h.floodSeqno
  scheduler := h'.scheduler.trans h.scheduler
  outbox := h'.outbox.trans h.outbox
  ifaces := h'.ifaces.trans h.ifaces
  buffer := h'.buffer.trans h.buffer
  capacity := h'.capacity.trans h.capacity
  own := h'.own.trans h.own
  notices := h.notices.trans h'.notices

theorem forget_ages (e : Engine) (now : Time) (a : Addr) : Ages e (e.forget now a) := by
  unfold forget
  split
  · exact ⟨rfl, rfl, rfl, rfl, rfl, rfl, rfl, rfl, rfl, List.prefix_append _ _⟩
  · exact .refl e

theorem foldl_forget_ages (now : Time) (as : List Addr) (e : Engine) :
    Ages e (as.foldl (forget now) e) := by
  induction as generalizing e with
  | nil => exact .refl e
  | cons a as ih => exact (forget_ages e now a).trans (ih _)

theorem pruneLinks_ages (e : Engine) (now : Time) : Ages e (e.pruneLinks now) :=
  ⟨rfl, rfl, rfl, rfl, rfl, rfl, rfl, rfl, rfl, List.prefix_append _ _⟩

theorem expireHosts_ages (e : Engine) (now : Time) : Ages e (e.expireHosts now) := by
  obtain ⟨entries, changed, eq⟩ := HostTable.foldl_forget_frame
    (e.hosts.expired now e.setup.config.hostAge.toNat) (e.hosts, e.origins)
  have hosts : (e.expireHosts now).hosts = { e.hosts with entries, changed } := eq
  refine ⟨rfl, rfl, rfl, rfl, rfl, ?_, ?_, ?_, ?_, List.prefix_refl _⟩
  · exact (HostTable.purge_sameButHosts _ _ _ _).1
  all_goals rw [hosts]

theorem chooseGateway_ages (e : Engine) (now : Time) : Ages e (e.chooseGateway now) := by
  unfold chooseGateway
  dsimp only
  split <;> exact ⟨rfl, rfl, rfl, rfl, rfl, rfl, rfl, rfl, rfl, List.prefix_refl _⟩

theorem rearm_ages (e : Engine) (now : Time) : Ages e (e.rearm now) :=
  ⟨rfl, rfl, rfl, rfl, rfl, rfl, rfl, rfl, rfl, List.prefix_refl _⟩

theorem sweep_ages (e : Engine) (now : Time) : Ages e (e.sweep now) := by
  have forgotten : Ages e (e.forgetStale now) := foldl_forget_ages now _ e
  have expired := (forgotten.trans (pruneLinks_ages _ now)).trans (expireHosts_ages _ now)
  exact (expired.trans (chooseGateway_ages _ now)).trans (rearm_ages _ now)

/-! ### What is left -/

/-- Whether a node was known before and is not known after. -/
def loses (e e' : Engine) (a : Addr) : Bool := e.origins.contains a && ! e'.origins.contains a

/-- Whether a host is one of our own addresses or was refreshed within its age limit. -/
def KeepsHost (e : Engine) (now : Time) (x : HostEntry) : Prop :=
  e.setup.isMine x.host = true ∨
    now ≤ Clock.later x.lastRefresh e.setup.config.hostAge.toNat

/-- What is left after a sweep of what was known before. -/
structure Swept (now : Time) (e e' : Engine) : Prop where
  known : ∀ a, e'.origins.contains a = true ↔
    ∃ o, e.origins.get? a = some o ∧
      now ≤ Clock.later o.lastSeen (Clock.times e.setup.timeout 2)
  /-- Of a node that is left, only stale links, expired hosts and the route may differ. -/
  nodes : ∀ a o o', e.origins.get? a = some o → e'.origins.get? a = some o' →
    o.Pruned now e.setup.timeout o' ∧
    (∀ host, o'.hosts.contains host = true ↔
      o.hosts.contains host = true ∧ ∀ x, e.hosts.get? host = some x → e.KeepsHost now x) ∧
    o' = { o with links := o'.links, route := o'.route, hosts := o'.hosts }
  hosts : ∀ host x, e'.hosts.get? host = some x ↔
    e.hosts.get? host = some x ∧ (∀ a, x.owner = .node a → e.loses e' a = false) ∧
      e.KeepsHost now x
  /-- The gateways of forgotten nodes are deleted now, unless they were deleted before. -/
  gateways : e'.gateways.entries =
    (e.gateways.entries.map fun g =>
      if e.loses e' g.orig then GatewayList.retire now g else g).filter fun g =>
        g.deleted.all fun since => now ≤ Clock.later since (Clock.times e.setup.timeout 3)
  rest : Ages e e'

variable {s : Setup}

theorem run_own {jitter : Jitter} {cs : List Call} (h : (Engine.new s jitter).run cs = .ok e) :
    e.hosts.own = .ofList (s.ifaces.map Iface.addr) :=
  run_of_step (P := fun e => e.hosts.own = .ofList (s.ifaces.map Iface.addr))
    (fun made own => (step_hosts made).own.trans own) h rfl

theorem isMine_eq_contains (a : Addr) :
    AddrMap.contains (AddrSet.ofList (s.ifaces.map Iface.addr)) a = s.isMine a := by
  refine Bool.eq_iff_iff.mpr ⟨isMine_of_contains, fun mine => ?_⟩
  obtain ⟨i, mem, same⟩ := List.any_eq_true.mp mine
  exact AddrSet.contains_ofList.mpr (List.mem_map.mpr ⟨i, mem, of_decide_eq_true same⟩)

/-- The state of a node, with what is known to hold of it. -/
structure Reached (s : Setup) (e : Engine) : Prop where
  setup : e.setup = s
  coherent : Coherent e.hosts e.origins
  own : e.hosts.own = .ofList (s.ifaces.map Iface.addr)
  sound : ∀ {a o}, e.origins.get? a = some o →
    o.Sound s.config.twoWayLimit.toNat s.config.maxQuality.toNat a

theorem run_reached {jitter : Jitter} {cs : List Call}
    (h : (Engine.new s jitter).run cs = .ok e) : Reached s e where
  setup := (setup_invariant s).run h rfl
  coherent := run_coherent h
  own := run_own h
  sound := ((Originator.sound_invariant s).run h).each

theorem Reached.isExpired_eq_false (h : Reached s e) {x : HostEntry} :
    e.hosts.isExpired now e.setup.config.hostAge.toNat x = false ↔ e.KeepsHost now x := by
  unfold HostTable.isExpired KeepsHost
  rw [h.own, isMine_eq_contains, h.setup, Bool.and_eq_false_iff, Bool.not_eq_false',
    Clock.not_overdue_iff]

/-! ### Purge by purge -/

/-- A node that is left has its links pruned, and its host set may differ. -/
theorem sweep_entry {o' : Originator} (left : (e.sweep now).origins.get? a = some o') :
    ∃ o hosts, e.origins.get? a = some o ∧
      o' = { (o.prune now e.setup.timeout).1 with hosts } := by
  rw [sweep_origins] at left
  obtain ⟨p, hosts, there, same⟩ := (expireHosts_sameButHosts (e.pruned now) now).entry left
  rw [pruned_get?] at there
  split at there
  · cases there
  · obtain ⟨o, known, rfl⟩ := Option.map_eq_some_iff.mp there
    exact ⟨o, hosts, known, same⟩

theorem sweep_contains (e : Engine) (now : Time) (a : Addr) :
    (e.sweep now).origins.contains a = true ↔
      e.origins.contains a = true ∧ a ∉ e.origins.stale now e.setup.timeout := by
  have left := (expireHosts_sameButHosts (e.pruned now) now).known a
  rw [← sweep_origins, pruned_get?] at left
  change ((e.sweep now).origins.get? a).isSome = true ↔ (e.origins.get? a).isSome = true ∧ _
  rw [left]
  split
  · rename_i stale
    exact iff_of_false nofun fun both => both.2 stale
  · rename_i fresh
    rw [Option.isSome_map, and_iff_left fresh]

theorem loses_sweep (e : Engine) (now : Time) (a : Addr) :
    e.loses (e.sweep now) a = true ↔ a ∈ e.origins.stale now e.setup.timeout := by
  unfold loses
  rw [Bool.and_eq_true, Bool.not_eq_true', Bool.eq_false_iff, Ne, sweep_contains]
  constructor
  · rintro ⟨known, lost⟩
    exact Classical.not_not.mp fun fresh => lost ⟨known, fresh⟩
  · intro stale
    obtain ⟨o, known, -⟩ := Origins.mem_stale_iff.mp stale
    exact ⟨AddrMap.contains_iff.mpr ⟨o, known⟩, fun both => both.2 stale⟩

theorem not_mem_stale_iff {o : Originator} (known : e.origins.get? a = some o) :
    a ∉ e.origins.stale now e.setup.timeout ↔
      now ≤ Clock.later o.lastSeen (Clock.times e.setup.timeout 2) := by
  rw [← Clock.not_overdue_iff, Origins.mem_stale_iff, known]
  simp [Originator.isStale]

theorem chooseGateway_entries (e : Engine) (now : Time) :
    (e.chooseGateway now).gateways.entries =
      e.gateways.entries.filter fun g => ! GatewayList.isOld now e.setup.timeout g := by
  unfold chooseGateway
  dsimp only
  split <;> rfl

theorem not_isOld_eq (now timeout : Time) :
    (fun g => ! GatewayList.isOld now timeout g) =
      fun g => g.deleted.all fun since => now ≤ Clock.later since (Clock.times timeout 3) := by
  funext g
  unfold GatewayList.isOld
  cases g.deleted with
  | none => rfl
  | some since =>
    show (! Clock.overdue since (Clock.times timeout 3) now) = _
    rw [Clock.overdue, Option.all_some, ← decide_not]
    exact decide_eq_decide.mpr Nat.not_lt

theorem Reached.coherent_pruned (h : Reached s e) (now : Time) :
    Coherent (e.pruned now).hosts (e.pruned now).origins :=
  coherent_invariant.decays ((foldl_forget_decays now _ e).tail (.prune _ now)) h.coherent

theorem Reached.isExpired_pruned (h : Reached s e) {x : HostEntry} :
    (e.pruned now).hosts.isExpired now (e.pruned now).setup.config.hostAge.toNat x = false ↔
      e.KeepsHost now x := by
  have own : (e.pruned now).hosts.own = e.hosts.own :=
    ((foldl_forget_ages now _ e).trans (pruneLinks_ages _ now)).own
  rw [HostTable.isExpired_congr own, pruned_setup, h.isExpired_eq_false]

theorem pruned_host {host : Addr} {x : HostEntry} :
    (e.pruned now).hosts.get? host = some x ↔
      e.hosts.get? host = some x ∧ ∀ a, x.owner = .node a → e.loses (e.sweep now) a = false := by
  show (e.forgetStale now).hosts.get? host = some x ↔ _
  rw [(forgetStale_forgets e now).hosts, Option.filter_eq_some_iff, decide_eq_true_eq,
    and_congr_right_iff]
  rintro -
  simp only [Bool.eq_false_iff, Ne, loses_sweep]
  constructor
  · intro kept a owned stale
    exact kept a stale owned
  · intro kept a stale owned
    exact kept a owned stale

theorem Reached.sweep_host (h : Reached s e) {host : Addr} {x : HostEntry} :
    (e.sweep now).hosts.get? host = some x ↔
      e.hosts.get? host = some x ∧ (∀ a, x.owner = .node a → e.loses (e.sweep now) a = false) ∧
        e.KeepsHost now x := by
  have purged := HostTable.get?_purge (h.coherent_pruned now).named (e.pruned now).origins now
    (e.pruned now).setup.config.hostAge.toNat host
  have left : ((e.pruned now).expireHosts now).hosts.get? host = _ := purged
  rw [sweep_hosts, left, Option.filter_eq_some_iff, Bool.not_eq_true', h.isExpired_pruned, pruned_host,
    and_assoc]

theorem Reached.sweep_announces (h : Reached s e) {o o' : Originator}
    (known : e.origins.get? a = some o) (left : (e.sweep now).origins.get? a = some o')
    (host : Addr) :
    o'.hosts.contains host = true ↔
      o.hosts.contains host = true ∧ ∀ x, e.hosts.get? host = some x → e.KeepsHost now x := by
  have fresh := ((sweep_contains e now a).mp (Origins.contains_iff.mpr ⟨o', left⟩)).2
  have between : (e.pruned now).origins.get? a = some (o.prune now e.setup.timeout).1 := by
    rw [pruned_get?, if_neg fresh, known, Option.map_some]
  have announced : (e.pruned now).origins.Announces a host ↔ o.hosts.contains host = true := by
    obtain ⟨_, frame⟩ := o.prune_frame now e.setup.timeout
    rw [Origins.Announces, Origins.field_of_get? between, frame]
  have kept : o'.hosts.contains host = true ↔ (e.sweep now).origins.Announces a host := by
    rw [Origins.Announces, Origins.field_of_get? left]
  have coherent := h.coherent_pruned now
  rw [kept, sweep_origins]
  refine (HostTable.announces_purge coherent).trans ?_
  rw [announced, and_congr_right_iff]
  intro before
  -- the entry is not that of a forgotten node, so it is the same before and after
  have owned := (coherent.owned a host).mpr (announced.mpr before)
  obtain ⟨y, entry, -⟩ := Option.map_eq_some_iff.mp owned
  have stored := (pruned_host.mp entry).1
  constructor
  · intro expires x found
    rw [stored] at found
    cases found
    exact h.isExpired_pruned.mp (expires y entry)
  · intro keeps x found
    exact h.isExpired_pruned.mpr (keeps x (pruned_host.mp found).1)

theorem sweep_gateways (e : Engine) (now : Time) : (e.sweep now).gateways.entries =
    (e.gateways.entries.map fun g =>
      if e.loses (e.sweep now) g.orig then GatewayList.retire now g else g).filter fun g =>
        g.deleted.all fun since => now ≤ Clock.later since (Clock.times e.setup.timeout 3) := by
  have purged := chooseGateway_entries ((e.pruned now).expireHosts now) now
  have setup : ((e.pruned now).expireHosts now).setup = e.setup := pruned_setup e now
  refine purged.trans ?_
  rw [setup, not_isOld_eq]
  congr 1
  refine (forgetStale_forgets e now).gateways.trans (List.map_congr_left fun g _ => ?_)
  exact if_congr (loses_sweep e now g.orig).symm rfl rfl

theorem Reached.swept (h : Reached s e) (now : Time) : Swept now e (e.sweep now) where
  known a := by
    rw [sweep_contains, Origins.contains_iff]
    constructor
    · rintro ⟨⟨o, known⟩, fresh⟩
      exact ⟨o, known, (not_mem_stale_iff known).mp fresh⟩
    · rintro ⟨o, known, recent⟩
      exact ⟨⟨o, known⟩, (not_mem_stale_iff known).mpr recent⟩
  nodes a o o' known left := by
    obtain ⟨_, hosts, before, same⟩ := sweep_entry left
    cases before.symm.trans known
    have links := (h.sound known).pruned now e.setup.timeout
    refine ⟨links.congr (by rw [same]) (by rw [same]), h.sweep_announces known left, ?_⟩
    obtain ⟨_, frame⟩ := o.prune_frame now e.setup.timeout
    rw [same, frame]
  hosts _ _ := h.sweep_host
  gateways := sweep_gateways e now
  rest := sweep_ages e now

/-! ### Nothing to do -/

/-- Whether nothing that is known is too old, and no route has to be selected anew. -/
structure Tidy (now : Time) (e : Engine) : Prop where
  heard : ∀ a o, e.origins.get? a = some o → o.isStale now e.setup.timeout = false
  linked : ∀ a o, e.origins.get? a = some o → o.prune now e.setup.timeout = (o, none)
  hosts : ∀ host x, e.hosts.get? host = some x →
    e.hosts.isExpired now e.setup.config.hostAge.toNat x = false

theorem forgetStale_of_heard
    (heard : ∀ a o, e.origins.get? a = some o → o.isStale now e.setup.timeout = false) :
    e.forgetStale now = e := by
  have none : e.origins.stale now e.setup.timeout = [] := by
    refine List.eq_nil_iff_forall_not_mem.mpr fun a stale => ?_
    obtain ⟨o, known, late⟩ := Origins.mem_stale_iff.mp stale
    rw [heard a o known] at late
    cases late
  unfold forgetStale
  rw [none]
  rfl

theorem pruneLinks_of_linked
    (linked : ∀ a o, e.origins.get? a = some o → o.prune now e.setup.timeout = (o, none)) :
    e.pruneLinks now = e := by
  have entries : (e.origins.entries.map fun o => (o.prune now e.setup.timeout).1) =
      e.origins.entries := by
    apply AddrMap.ext
    intro a
    rw [AddrMap.get?_map]
    cases known : e.origins.entries.get? a with
    | none => rfl
    | some o => rw [Option.map_some, linked a o known]
  have quiet : (e.origins.toList.filterMap fun o => (o.prune now e.setup.timeout).2) = [] := by
    refine List.filterMap_eq_nil_iff.mpr fun o listed => ?_
    obtain ⟨⟨a, _⟩, stored, rfl⟩ := List.mem_map.mp listed
    rw [linked a _ (AddrMap.mem_toList_iff.mp stored)]
  unfold pruneLinks Origins.map notify
  dsimp only
  rw [entries, quiet, List.append_nil]

theorem expireHosts_of_fresh (hosts : ∀ host x, e.hosts.get? host = some x →
    e.hosts.isExpired now e.setup.config.hostAge.toNat x = false) : e.expireHosts now = e := by
  have none : e.hosts.expired now e.setup.config.hostAge.toNat = [] := by
    refine List.filter_eq_nil_iff.mpr fun x listed => ?_
    obtain ⟨⟨host, _⟩, stored, rfl⟩ := List.mem_map.mp listed
    rw [hosts host _ (AddrMap.mem_toList_iff.mp stored)]
    nofun
  unfold expireHosts HostTable.purge
  rw [none]
  rfl

theorem Tidy.sweep_eq (h : Tidy now e) : e.sweep now = (e.chooseGateway now).rearm now := by
  unfold sweep
  rw [forgetStale_of_heard h.heard, pruneLinks_of_linked h.linked, expireHosts_of_fresh h.hosts]

theorem purge_twice (t : GatewayList) (now timeout : Time) :
    (t.purge now timeout).purge now timeout = t.purge now timeout := by
  unfold GatewayList.purge
  dsimp only
  rw [List.filter_filter]
  simp only [Bool.and_self]

/-- The gateway is chosen among the entries that are left, whichever was in use before. -/
theorem chooseGateway_twice (e : Engine) (now : Time) :
    (((e.chooseGateway now).rearm now).chooseGateway now).rearm now =
      (e.chooseGateway now).rearm now := by
  have timer : ∀ interval : Time,
      (e.nextSweep.map fun _ => Clock.later now interval).map (fun _ => Clock.later now interval) =
        e.nextSweep.map fun _ => Clock.later now interval := by
    intro interval
    cases e.nextSweep <;> rfl
  have chosen : ∀ (t : GatewayList) (choice : Option Addr) (timeout : Time),
      (t.setCurrent choice).purge now timeout = (t.purge now timeout).setCurrent choice :=
    fun _ _ _ => rfl
  have again : ∀ (t : GatewayList) (choice : Option Addr) (level : UInt8) (preferred : Option Addr),
      (t.setCurrent choice).choose e.origins level preferred =
        t.choose e.origins level preferred := fun _ _ _ _ => rfl
  unfold chooseGateway
  dsimp only
  split
  · rename_i off
    simp only [rearm, off, if_true, purge_twice, timer]
  · rename_i on
    simp only [rearm, on, if_false, chosen, again, purge_twice, timer]
    rfl

theorem Reached.tidy (h : Reached s e) (swept : Reached s (e.sweep now)) :
    Tidy now (e.sweep now) := by
  have after := h.swept now
  have setup := after.rest.setup
  have before : ∀ {a o'}, (e.sweep now).origins.get? a = some o' → ∃ o, e.origins.get? a = some o ∧
      now ≤ Clock.later o.lastSeen (Clock.times e.setup.timeout 2) :=
    fun left => (after.known _).mp (Origins.contains_iff.mpr ⟨_, left⟩)
  refine ⟨fun a o' left => ?_, fun a o' left => ?_, fun host x left => ?_⟩
  · obtain ⟨o, known, recent⟩ := before left
    obtain ⟨-, -, same⟩ := after.nodes a o o' known left
    rw [setup, same]
    exact Clock.not_overdue_iff.mpr recent
  · obtain ⟨o, known, -⟩ := before left
    rw [setup]
    apply Originator.prune_of_fresh (swept.sound left).routed
    refine List.any_eq_false.mpr fun l mem => ?_
    rw [(after.nodes a o o' known left).1.links] at mem
    have fresh := of_decide_eq_true (List.mem_filter.mp mem).2
    rw [Link.isStale, Clock.not_overdue_iff.mpr fresh]
    exact Bool.false_ne_true
  · apply swept.isExpired_eq_false.mpr
    unfold KeepsHost
    rw [setup]
    exact ((after.hosts host x).mp left).2.2

/-- A sweep removes exactly what is too old, and a second one at the same time changes nothing. -/
theorem sweep_removes_stale {s : Setup} {jitter : Jitter} {cs : List Call} {e : Engine}
    (h : (Engine.new s jitter).run cs = .ok e) (now : Time) :
    Swept now e (e.sweep now) ∧ (e.sweep now).sweep now = e.sweep now := by
  have more : (Engine.new s jitter).run (cs ++ [.sweep now]) = .ok (e.sweep now) := by
    rw [run_append, h]
    rfl
  have reached := run_reached h
  refine ⟨reached.swept now, ?_⟩
  rw [(reached.tidy (run_reached more)).sweep_eq]
  exact chooseGateway_twice _ now

/-- After the sample run, a sweep that forgets our neighbour and one of the two links over which the
node behind it was heard. -/
theorem sweep_removes_stale_sample :
    ∃ e, (Engine.new Sample.setup default).run Sample.calls = .ok e ∧
      e.origins.contains Sample.near = true ∧
      (e.sweep 401004).origins.contains Sample.near = false ∧
      ((e.sweep 401004).origins.get? Sample.far).map (fun o => o.links.map Link.hop) =
        some [⟨Sample.near, 1⟩] ∧
      (e.sweep 401004).hosts.get? Sample.host = none ∧
      Swept 401004 e (e.sweep 401004) ∧ (e.sweep 401004).sweep 401004 = e.sweep 401004 := by
  have reached : ∃ e, (Engine.new Sample.setup default).run Sample.calls = .ok e ∧
      e.origins.contains Sample.near = true ∧
      (e.sweep 401004).origins.contains Sample.near = false ∧
      ((e.sweep 401004).origins.get? Sample.far).map (fun o => o.links.map Link.hop) =
        some [⟨Sample.near, 1⟩] ∧
      (e.sweep 401004).hosts.get? Sample.host = none :=
    ⟨_, rfl, rfl, rfl, rfl, rfl⟩
  obtain ⟨e, run, known, lost, links, dropped⟩ := reached
  exact ⟨e, run, known, lost, links, dropped, sweep_removes_stale run 401004⟩

end Engine

end BeaconMesh

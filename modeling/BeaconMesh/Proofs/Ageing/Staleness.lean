import BeaconMesh.Proofs.Ageing.Forgetting
import BeaconMesh.Proofs.Engine.Fields
import BeaconMesh.Proofs.Engine.Upkeep
import BeaconMesh.Proofs.Faults.Arithmetic
import BeaconMesh.Proofs.Routes.Optimal

/-!
# Bounded staleness

What is known is checked for its age in sweeps only. A sweep leaves nothing that is older than it
may be, whatever comes in later is newer, and the next sweep is due one sweep interval later. So
after a poll nothing is older than it may be by more than that interval.
-/

namespace BeaconMesh

namespace Clock

theorem le_of_not_overdue {since limit now : Time} (h : overdue since limit now = false) :
    now ≤ since + limit := by
  have reached : now ≤ later since limit := Nat.not_lt.mp (of_decide_eq_false h)
  exact Nat.le_trans reached (Nat.min_le_left _ _)

theorem le_of_not_overdue_times {since duration now : Time} {k : Nat}
    (h : overdue since (times duration k) now = false) : now ≤ since + k * duration := by
  -- at the end of the clock the limit is less than the multiple, which is fine here
  have limit : times duration k ≤ k * duration := Nat.mul_comm k _ ▸ Nat.min_le_left _ _
  exact Nat.le_trans (le_of_not_overdue h) (Nat.add_le_add_left limit since)

end Clock

/-! ### Originators and links -/

namespace Originator

/-- When the node was last heard, over any link and over each of its links. -/
def sightings (o : Originator) : List Time := o.lastSeen :: o.links.map Link.lastSeen

/-- Whether the node and its links were all last heard at times with a property. -/
def Seen (p : Time → Prop) (o : Originator) : Prop := ∀ t ∈ o.sightings, p t

/-- Whether the node and its links were all heard at most `limit` before a time. -/
def Recent (limit since : Time) (o : Originator) : Prop := ∀ t ∈ o.sightings, since ≤ t + limit

variable {limit since now timeout : Time} {o : Originator} {p : Time → Prop}

theorem seen_iff : o.Seen p ↔ p o.lastSeen ∧ ∀ l ∈ o.links, p l.lastSeen := by
  unfold Seen sightings
  rw [List.forall_mem_cons, List.forall_mem_map]

theorem recent_iff : o.Recent limit since ↔
    since ≤ o.lastSeen + limit ∧ ∀ l ∈ o.links, since ≤ l.lastSeen + limit := seen_iff

theorem seen_new (a : Addr) (ifaces : Nat) (current : p now) : (new a ifaces now).Seen p :=
  seen_iff.mpr ⟨current, nofun⟩

theorem mem_links_touched {hop : Hop} {f : Link → Link} {l : Link}
    (mem : l ∈ ((o.ensureLink hop now).modifyLink hop f).links)
    (touches : ∀ l, (f l).lastSeen = now) : l.lastSeen = now ∨ l ∈ o.links := by
  obtain ⟨before, known, rfl⟩ := List.mem_map.mp mem
  split
  · exact .inl (touches before)
  · unfold ensureLink at known
    split at known
    · exact .inr known
    · rcases List.mem_append.mp known with old | new
      · exact .inr old
      · rw [List.mem_singleton.mp new]
        exact .inl rfl

theorem ensureLink_lastSeen (o : Originator) (hop : Hop) (now : Time) :
    (o.ensureLink hop now).lastSeen = o.lastSeen := by
  obtain ⟨_, frame⟩ := o.ensureLink_frame hop now
  rw [frame]

theorem Seen.hearLate (h : o.Seen p) (position : Nat) (hop : Hop) (current : p now) :
    (o.hearLate position hop now).Seen p := by
  rw [seen_iff] at h ⊢
  refine ⟨?_, ?_⟩
  · show p (ensureLink _ hop now).lastSeen
    rw [ensureLink_lastSeen]
    exact current
  · intro l mem
    rcases mem_links_touched mem (fun _ => rfl) with touched | known
    · rw [touched]
      exact current
    · exact h.2 l known

theorem Seen.hearNewest (h : o.Seen p) (seqno : Seqno) (hop : Hop) (current : p now) :
    (o.hearNewest seqno hop now).Seen p := by
  rw [seen_iff] at h ⊢
  refine ⟨?_, ?_⟩
  · show p (ensureLink _ hop now).lastSeen
    rw [ensureLink_lastSeen]
    exact current
  · intro l mem
    obtain ⟨before, kept, rfl⟩ := List.mem_map.mp mem
    show p before.lastSeen
    rcases mem_links_touched kept (fun _ => rfl) with touched | known
    · rw [touched]
      exact current
    · exact h.2 before known

theorem Seen.hear (h : o.Seen p) (seqno : Seqno) (ttl : UInt8) (hop : Hop) (current : p now) :
    (o.hear seqno ttl hop now).Seen p := by
  unfold Originator.hear
  split
  · exact h.hearLate _ hop current
  · exact h.hearNewest seqno hop current
  · exact h.hearNewest seqno hop current

theorem sightings_ranked (o : Originator) (b : Beacon) (hop : Hop) :
    (Engine.ranked o b hop).1.sightings = o.sightings := by
  obtain ⟨_, frame⟩ := o.ranked_frame b hop
  rw [frame]
  show o.lastSeen :: (List.map _ o.links).map Link.lastSeen = o.sightings
  unfold sightings
  rw [List.map_map]
  congr 2
  funext l
  dsimp only [Function.comp]
  split <;> rfl

theorem recent_prune (heard : o.isStale now timeout = false) :
    (o.prune now timeout).1.Recent (2 * timeout) now := by
  obtain ⟨_, frame⟩ := o.prune_frame now timeout
  rw [frame, recent_iff]
  refine ⟨Clock.le_of_not_overdue_times heard, ?_⟩
  intro l mem
  have kept := (List.mem_filter.mp mem).2
  rw [Bool.not_eq_true'] at kept
  exact Clock.le_of_not_overdue_times kept

end Originator

/-! ### Hosts -/

namespace HostTable

variable {t t' : HostTable} {age since now : Time}

/-- Whether every host but our own addresses was refreshed at most `age` before a time. -/
def Recent (age since : Time) (t : HostTable) : Prop :=
  ∀ host x, t.get? host = some x → t.own.contains host = true ∨ since ≤ x.lastRefresh + age

theorem Recent.put (h : t.Recent age since) {x : HostEntry} (current : since ≤ x.lastRefresh) :
    (t.put x).Recent age since := by
  intro host y found
  unfold get? HostTable.put at found
  rw [AddrMap.get?_insert] at found
  split at found
  · cases found
    exact .inr (Nat.le_add_right_of_le current)
  · exact h host y found

theorem Change.recent (h : Change now t t') (later : since ≤ now) (recent : t.Recent age since) :
    t'.Recent age since := by
  cases h with
  | drop host =>
    intro other x found
    unfold get? without at found
    rw [AddrMap.get?_erase] at found
    split at found
    · cases found
    · exact recent other x found
  | assign => exact recent.put later
  | renew => exact recent.put later
  | touch host =>
    intro other x found
    unfold get? at found
    rw [AddrMap.get?_modify] at found
    split at found
    · obtain ⟨y, known, rfl⟩ := Option.map_eq_some_iff.mp found
      split
      · exact .inr (Nat.le_add_right_of_le later)
      · exact recent other y known
    · exact recent other x found
  | leave orig =>
    intro other x found
    unfold get? removeOwner at found
    rw [AddrMap.get?_filter] at found
    exact recent other x (Option.filter_eq_some_iff.mp found).1
  | list =>
    unfold HostTable.refresh
    split <;> exact recent

theorem Changes.recent (h : Changes now t t') (later : since ≤ now) (recent : t.Recent age since) :
    t'.Recent age since := by
  induction h with
  | refl => exact recent
  | tail _ last ih => exact last.recent later ih

theorem recent_purge (named : t.Named) (origins : Origins) (now age : Time) :
    (t.purge origins now age).1.Recent age now := by
  intro host x found
  rw [get?_purge named, Option.filter_eq_some_iff, Bool.not_eq_true'] at found
  obtain ⟨known, fresh⟩ := found
  unfold isExpired at fresh
  rw [(named host x known).1, Bool.and_eq_false_iff, Bool.not_eq_false'] at fresh
  rw [(purge_changes now t origins now age).own]
  exact fresh.imp_right Clock.le_of_not_overdue

end HostTable

namespace Engine

open HostTable (Coherent)

variable {s : Setup} {e e' : Engine} {b : Beacon} {hop : Hop} {limit since now : Time}

/-- Whether every known node was last heard, with its links, at times with a property. -/
def NodesSeen (p : Time → Prop) (e : Engine) : Prop :=
  ∀ a, e.origins.field (Originator.Seen p) True a

/-- Whether every known node is recent, with its links. -/
def NodesRecent (limit since : Time) (e : Engine) : Prop :=
  ∀ a, e.origins.field (Originator.Recent limit since) True a

variable {p : Time → Prop}

theorem NodesSeen.same (h : e.NodesSeen p) (same : SameField (Originator.Seen p) True e e') :
    e'.NodesSeen p := by
  intro a
  rw [same a]
  exact h a

/-! ### Beacons that come in -/

theorem NodesSeen.hear (h : e.NodesSeen p) (b : Beacon) (hop : Hop) (current : p now) :
    (e.hear b hop now).NodesSeen p := by
  have new : Originator.Seen p (.new b.orig e.origins.ifaces now) = True :=
    eq_true (Originator.seen_new b.orig e.origins.ifaces current)
  have before : (e.origins.getOrNew b.orig now).Seen p := by
    rw [Origins.field_getOrNew new]
    exact h b.orig
  intro a
  show (e.origins.insert b.orig _).field _ True a
  rw [Origins.field_insert]
  split
  · exact before.hear b.seqno b.ttl hop current
  · exact h a

theorem Takes.nodesSeen {outcome : PacketOutcome} (h : e.Takes b hop now outcome e')
    (current : p now) (seen : e.NodesSeen p) : e'.NodesSeen p := by
  have new : ∀ a, Originator.Seen p (.new a e.origins.ifaces now) = True :=
    fun a => eq_true (Originator.seen_new a e.origins.ifaces current)
  cases h with
  | refused => exact seen
  | echo => exact seen.same (hearEcho_sameField _ _ _ _ _ (new _) fun _ _ _ => rfl)
  | late => exact seen.hear b hop current
  | judged _ _ work =>
    refine (seen.hear b hop current).same (judge_sameField work (new _) ?_ ?_ ?_)
    · exact fun _ _ _ => rfl
    · intro b o
      unfold Originator.Seen
      rw [Originator.sightings_ranked]
    · exact fun _ _ _ _ => rfl

/-! ### Sweeps -/

theorem sweep_nodesRecent (e : Engine) (now : Time) :
    (e.sweep now).NodesRecent (2 * e.setup.timeout) now := by
  intro a
  rw [sweep_origins, (expireHosts_sameButHosts (e.pruned now) now).field fun _ _ => rfl]
  show ((e.forgetStale now).origins.map fun o =>
    (o.prune now (e.forgetStale now).setup.timeout).1).field _ True a
  unfold Origins.field
  rw [Origins.get?_map, forgetStale_setup]
  cases found : (e.forgetStale now).origins.get? a with
  | none => trivial
  | some o =>
    rw [get?_forgetStale, Option.filter_eq_some_iff, Bool.not_eq_true'] at found
    exact Originator.recent_prune found.2

theorem sweep_hostsRecent (coherent : Coherent e.hosts e.origins) (now : Time) :
    (e.sweep now).hosts.Recent e.setup.config.hostAge.toNat now := by
  have decays : Decays e (e.pruned now) := (foldl_forget_decays now _ e).tail (.prune _ now)
  rw [sweep_hosts, ← pruned_setup e now]
  exact HostTable.recent_purge (coherent_invariant.decays decays coherent).named _ _ _

/-! ### Calls and runs -/

/-- Whether the start or the last sweep was at a time, what is known is recent since, and the next
sweep is due one interval after it. -/
structure Tended (s : Setup) (since : Time) (e : Engine) : Prop where
  setup : e.setup = s
  coherent : Coherent e.hosts e.origins
  own : e.hosts.own = .ofList (s.ifaces.map Iface.addr)
  nodes : e.NodesRecent (2 * s.timeout) since
  hosts : e.hosts.Recent s.config.hostAge.toNat since
  armed : e.nextSweep = some (Clock.later since s.config.sweepInterval.toNat)

theorem tended_start {jitter : Jitter} (h : (Engine.new s jitter).start now = .ok e) :
    Tended s now e := by
  have same := start_same h
  refine ⟨same.setup, ?_, ?_, ?_, ?_, (start_upkeep h).2⟩
  · rw [same.hosts, same.origins]
    exact ⟨nofun, fun a host => iff_of_false nofun nofun⟩
  · rw [same.hosts]
    rfl
  · intro a
    rw [same.origins]
    trivial
  · intro host x found
    rw [same.hosts] at found
    cases found

theorem Tended.keep {c : Call} {r : Reply} (h : Tended s since e) (later : since ≤ c.time)
    (made : e.step c = .ok (e', r)) (nodes : e'.NodesRecent (2 * s.timeout) since)
    (armed : e'.nextSweep = e.nextSweep) : Tended s since e' where
  setup := (setup_invariant s).step made h.setup
  coherent := coherent_invariant.step made h.coherent
  own := (step_hosts made).own.trans h.own
  nodes := nodes
  hosts := (step_hosts made).recent later h.hosts
  armed := armed.trans h.armed

theorem Tended.performs {ts : List Task} (h : Tended s since e) (later : since ≤ now)
    (work : Performs now e ts e') : Tended s since e' where
  setup := (setup_invariant s).updates work.updates h.setup
  coherent := coherent_invariant.updates work.updates h.coherent
  own := work.hosts.own.trans h.own
  nodes := NodesSeen.same h.nodes (work.sameField fun _ _ => rfl)
  hosts := work.hosts.recent later h.hosts
  armed := work.upkeep.nextSweep.trans h.armed

theorem Tended.sweep (h : Tended s since e) (now : Time) : Tended s now (e.sweep now) := by
  refine ⟨?_, ?_, ?_, ?_, ?_, ?_⟩
  · exact (sweep_sweeps e now).queue.setup.trans h.setup
  · exact coherent_invariant.decays (sweep_decays e now) h.coherent
  · exact (Decays.hosts (sweep_decays e now) now).own.trans h.own
  · rw [← h.setup]
    exact sweep_nodesRecent e now
  · rw [← h.setup]
    exact sweep_hostsRecent h.coherent now
  · rw [sweep_nextSweep, h.armed, h.setup]
    rfl

/-- After a poll, the start or the last sweep is less than a sweep interval ago. -/
theorem Tended.poll {r : Reply} (h : Tended s since e) (later : since ≤ now)
    (made : e.step (.poll now) = .ok (e', r)) :
    ∃ swept, Tended s swept e' ∧ swept ≤ now ∧ now < swept + s.config.sweepInterval.toNat := by
  cases step_does made with
  | beacon brought => cases brought
  | @poll _ settled work =>
    have tended := h.performs later work
    split
    · exact ⟨now, tended.sweep now, Nat.le_refl now,
        Nat.lt_add_of_pos_right s.valid.sweepInterval_pos⟩
    · rename_i waits
      refine ⟨since, tended, later, ?_⟩
      unfold sweepDue at waits
      rw [tended.armed, decide_eq_true_eq, Nat.not_le] at waits
      exact Nat.lt_of_lt_of_le waits (Nat.min_le_left _ _)

theorem Tended.step {c : Call} {r : Reply} (h : Tended s since e) (later : since ≤ c.time)
    (up : ∀ time, c ≠ .start time ∧ c ≠ .shutdown time) (made : e.step c = .ok (e', r)) :
    ∃ swept, Tended s swept e' ∧ swept ≤ c.time := by
  cases step_does made with
  | start => exact absurd rfl (up _).1
  | beacon brought taken =>
    have current : since ≤ c.time + 2 * s.timeout := Nat.le_add_right_of_le later
    have nodes := Takes.nodesSeen taken (Call.time_of_reception? brought ▸ current) h.nodes
    exact ⟨since, h.keep later made nodes taken.nextSweep, later⟩
  | data other carried =>
    exact ⟨since, h.keep later made (NodesSeen.same h.nodes (carried.sameField fun _ _ _ => rfl))
      (packet_upkeep other made).nextSweep, later⟩
  | frame bridged =>
    exact ⟨since, h.keep later made (NodesSeen.same h.nodes (.of_origins bridged.origins))
      (frame_upkeep made).nextSweep, later⟩
  | poll =>
    obtain ⟨swept, tended, before, -⟩ := h.poll later made
    exact ⟨swept, tended, before⟩
  | sweep now => exact ⟨now, h.sweep now, Nat.le_refl now⟩
  | shutdown => exact absurd rfl (up _).2

theorem Tended.run {cs : List Call} {time : Time} (h : Tended s since e)
    (sorted : (since :: cs.map Call.time ++ [time]).Pairwise (· ≤ ·))
    (up : ∀ c ∈ cs, ∀ time, c ≠ .start time ∧ c ≠ .shutdown time) (ran : e.run cs = .ok e') :
    ∃ swept, Tended s swept e' ∧ swept ≤ time := by
  -- the last sweep moves along with the calls, and is never ahead of the next one
  induction cs generalizing e since with
  | nil =>
    cases ran
    exact ⟨since, h, by simpa using sorted⟩
  | cons c cs ih =>
    obtain ⟨⟨next, r⟩, first, ran⟩ := Fault.bind_ok ran
    obtain ⟨here, others⟩ := List.forall_mem_cons.mp up
    obtain ⟨ahead, rest⟩ := List.pairwise_cons.mp sorted
    obtain ⟨swept, tended, before⟩ := h.step (ahead c.time (by simp)) here first
    have later := (List.pairwise_cons.mp rest).1
    have sorted' : (swept :: cs.map Call.time ++ [time]).Pairwise (· ≤ ·) :=
      List.pairwise_cons.mpr
        ⟨fun t mem => Nat.le_trans before (later t mem), (List.pairwise_cons.mp rest).2⟩
    exact ih tended sorted' others ran

theorem isMine_of_contains {a : Addr}
    (h : AddrMap.contains (AddrSet.ofList (s.ifaces.map Iface.addr)) a = true) :
    s.isMine a = true := by
  obtain ⟨i, mem, same⟩ := List.mem_map.mp (AddrSet.contains_ofList.mp h)
  exact List.any_eq_true.mpr ⟨i, mem, decide_eq_true same⟩

/-- After a poll, nothing that a node knows is older than its age limit and one sweep interval. -/
theorem staleness_bounded {s : Setup} {jitter : Jitter} {first now : Time} {cs : List Call}
    {e : Engine} (up : ∀ time, Call.start time ∉ cs ∧ Call.shutdown time ∉ cs)
    (sorted : (first :: cs.map Call.time ++ [now]).Pairwise (· ≤ ·))
    (h : (Engine.new s jitter).run (.start first :: cs ++ [.poll now]) = .ok e) :
    (∀ a o, e.origins.get? a = some o →
      now < o.lastSeen + 2 * s.timeout + s.config.sweepInterval.toNat ∧
      (∀ l ∈ o.links, now < l.lastSeen + 2 * s.timeout + s.config.sweepInterval.toNat) ∧
      ∀ hop, o.route = some hop → ∃ l ∈ o.links, l.hop = hop ∧
        now < l.lastSeen + 2 * s.timeout + s.config.sweepInterval.toNat) ∧
    ∀ host x, e.hosts.get? host = some x → s.isMine host = false →
      now < x.lastRefresh + s.config.hostAge.toNat + s.config.sweepInterval.toNat := by
  have sound := (Originator.sound_invariant s).run h
  obtain ⟨⟨started, r⟩, begun, ran⟩ := Fault.bind_ok h
  obtain ⟨_, work, made⟩ := Fault.bind_ok begun
  cases Fault.pure_ok made
  have split : started.run (cs ++ [.poll now]) = .ok e := ran
  rw [run_append] at split
  obtain ⟨waiting, ran, polled⟩ := Fault.bind_ok split
  obtain ⟨⟨_, answer⟩, polled, ended⟩ := Fault.bind_ok polled
  cases ended
  have goesOn : ∀ c ∈ cs, ∀ time, c ≠ .start time ∧ c ≠ .shutdown time := by
    rintro c mem time
    exact ⟨fun same => (up time).1 (same ▸ mem), fun same => (up time).2 (same ▸ mem)⟩
  obtain ⟨since, tended, before⟩ := (tended_start work).run sorted goesOn ran
  obtain ⟨swept, tended, -, soon⟩ := tended.poll before polled
  have bound : ∀ {t limit : Time}, swept ≤ t + limit →
      now < t + limit + s.config.sweepInterval.toNat :=
    fun recent => Nat.lt_of_lt_of_le soon (Nat.add_le_add_right recent _)
  refine ⟨?_, ?_⟩
  · intro a o known
    have recent := tended.nodes a
    rw [Origins.field_of_get? known, Originator.recent_iff] at recent
    refine ⟨bound recent.1, fun l mem => bound (recent.2 l mem), ?_⟩
    intro hop used
    obtain ⟨l, found, -⟩ := (sound.each known).route_link used
    have mem : l ∈ o.links := List.mem_of_find?_eq_some found
    exact ⟨l, mem, Originator.hop_of_link? found, bound (recent.2 l mem)⟩
  · intro host x known other
    rcases tended.hosts host x known with own | recent
    · rw [tended.own] at own
      rw [isMine_of_contains own] at other
      cases other
    · exact bound recent

/-- After the sample run nothing more is heard, and the second poll comes before a sweep is due. -/
def silence : List Call := Sample.calls.tail ++ [.poll 201000]

theorem staleness_bounded_sample :
    ∃ e, (Engine.new Sample.setup default).run (.start 0 :: silence ++ [.poll 201500]) = .ok e ∧
      (∃ x, e.hosts.get? Sample.host = some x ∧
        Clock.overdue x.lastRefresh Sample.setup.config.hostAge.toNat 201500 = true ∧
        201500 < x.lastRefresh + Sample.setup.config.hostAge.toNat +
          Sample.setup.config.sweepInterval.toNat) ∧
      ∃ o, e.origins.get? Sample.far = some o ∧ ∃ l ∈ o.links, l.hop = ⟨Sample.near, 0⟩ ∧
        201500 < l.lastSeen + 2 * Sample.setup.timeout +
          Sample.setup.config.sweepInterval.toNat := by
  have reached : ∃ e, (Engine.new Sample.setup default).run
      (.start 0 :: silence ++ [.poll 201500]) = .ok e ∧
      (e.hosts.get? Sample.host).map HostEntry.lastRefresh = some 1004 ∧
      (e.origins.get? Sample.far).map Originator.route = some (some ⟨Sample.near, 0⟩) :=
    ⟨_, rfl, rfl, rfl⟩
  obtain ⟨e, run, host, route⟩ := reached
  obtain ⟨x, kept, refreshed⟩ := Option.map_eq_some_iff.mp host
  obtain ⟨o, known, used⟩ := Option.map_eq_some_iff.mp route
  have up : ∀ time, Call.start time ∉ silence ∧ Call.shutdown time ∉ silence := by
    simp [silence, Sample.calls]
  obtain ⟨nodes, hosts⟩ := staleness_bounded up (by decide) run
  obtain ⟨-, -, routes⟩ := nodes Sample.far o known
  refine ⟨e, run, ⟨x, kept, ?_, hosts Sample.host x kept rfl⟩, o, known, routes _ used⟩
  rw [refreshed]
  rfl

end Engine

end BeaconMesh

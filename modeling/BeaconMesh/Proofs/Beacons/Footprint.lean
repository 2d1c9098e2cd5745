import BeaconMesh.Proofs.Drops.NoTrace
import BeaconMesh.Proofs.Engine.Upkeep
import BeaconMesh.Proofs.Hosts.RemoteLists
import BeaconMesh.Proofs.Routes.Published
import BeaconMesh.Proofs.Windows.Log

/-!
# What a beacon touches

A beacon changes what is known of its originator, and the judgement of the link to its sender. The
others lose at most hosts that it lists (`Footprint`). A late beacon leaves a mark in the windows of
its originator, and that is all (`TookLate`).
-/

namespace BeaconMesh

/-! ### Originators that lose hosts -/

/-- Whether an originator lost some of the listed hosts at most; everything else is the same. -/
structure Originator.Loses (hosts : List Addr) (o o' : Originator) : Prop where
  rest : o' = { o with hosts := o'.hosts }
  kept : ∀ host, o'.hosts.contains host = true → o.hosts.contains host = true
  lost : ∀ host, o.hosts.contains host = true → o'.hosts.contains host = false → host ∈ hosts

namespace Originator

variable {hosts : List Addr} {o o' : Originator}

theorem Loses.refl (hosts : List Addr) (o : Originator) : Loses hosts o o :=
  ⟨rfl, fun _ announced => announced, fun _ announced gone => by rw [announced] at gone; cases gone⟩

theorem loses_refl (hosts : List Addr) (o? : Option Originator) :
    Option.Rel (Loses hosts) o? o? := by
  cases o? with
  | none => exact .none
  | some o => exact .some (.refl hosts o)

theorem Loses.route (h : Loses hosts o o') :
    o'.route = o.route ∧ o'.routeLink? = o.routeLink? := by
  rw [h.rest]
  exact ⟨rfl, rfl⟩

theorem Loses.eq_new {a : Addr} {ifaces : Nat} {now : Time} (h : Loses hosts (.new a ifaces now) o') :
    o' = .new a ifaces now := by
  have none : o'.hosts = .empty := by
    apply AddrSet.ext
    intro host
    exact ⟨h.kept host, nofun⟩
  rw [h.rest, none]
  rfl

end Originator

open Originator (Loses)

theorem HostTable.applyRemote_loses (t : HostTable) (origins : Origins) {orig d : Addr}
    (other : d ≠ orig) (hosts : List Addr) (now : Time) :
    Option.Rel (Loses hosts) (origins.get? d)
      ((t.applyRemote origins orig hosts now).2.get? d) := by
  cases known : origins.get? orig with
  | none =>
    unfold applyRemote
    rw [known]
    exact Originator.loses_refl hosts _
  | some _ =>
    obtain ⟨sets, same⟩ := (t.applyRemote_sameButHosts origins orig hosts now).2 d
    cases found : origins.get? d with
    | none =>
      rw [same, found]
      exact .none
    | some o =>
      rw [found, Option.map_some] at same
      have announces : ∀ host, (sets o).contains host = true ↔ o.hosts.contains host = true ∧
          ¬ (Listed hosts host ∧ t.owner? host = some (.node d)) := by
        intro host
        have change : (t.applyRemote origins orig hosts now).2.Announces d host ↔ _ :=
          announces_applyRemote_ne known other host
        rw [Origins.Announces, Origins.field_of_get? same, Origins.Announces,
          Origins.field_of_get? found] at change
        exact change
      rw [same]
      refine .some ⟨rfl, fun host left => ((announces host).mp left).1, fun host held gone => ?_⟩
      refine Decidable.byContradiction fun unlisted => ?_
      have left := (announces host).mpr ⟨held, fun taken => unlisted taken.1.1⟩
      rw [gone] at left
      cases left

/-! ### The judgement of a new link -/

theorem Estimator.estimate_blank {est : Estimator} {carried : Nat} {x : Estimate}
    (h : est.estimate carried 0 0 = .ok x) : x.link = 0 ∧ x.symmetry = 0 := by
  obtain ⟨link, shared, h⟩ := Fault.bind_ok h
  obtain ⟨product, -, h⟩ := Fault.bind_ok h
  cases Fault.pure_ok h
  constructor
  · unfold linkQuality at shared
    split at shared
    · cases shared
      rfl
    · cases shared
  · have whole : est.max * cube Window.size / cube Window.size = est.max :=
      Nat.mul_div_cancel _ (by decide)
    show est.max - est.max * cube Window.size / cube Window.size = 0
    rw [whole, Nat.sub_self]

theorem Originator.assess_new {est : Estimator} {a : Addr} {ifaces : Nat} {now : Time}
    {iface : IfaceId} {carried : UInt8} {o' : Originator} {x : Estimate}
    (h : (Originator.new a ifaces now).assess est iface carried = .ok (o', x)) :
    o' = .new a ifaces now := by
  have unechoed : (Originator.new a ifaces now).echoCount iface = 0 := by
    unfold echoCount echoes? Originator.new
    dsimp only
    rw [List.getElem?_replicate]
    split
    · rename_i w found
      split at found
      · cases found
        exact Window.isEmpty_iff_count.mp rfl
      · cases found
    · rfl
  obtain ⟨estimate, judged, h⟩ := Fault.bind_ok h
  cases Fault.pure_ok h
  -- a new originator has no link either, so nothing was received
  rw [unechoed] at judged
  obtain ⟨link, symmetry⟩ := Estimator.estimate_blank judged
  rw [link, symmetry]
  rfl

/-! ### Late beacons -/

theorem Window.has_record_inside {w : Window} {p : Nat} (inside : p < Window.size) (q : Nat) :
    (w.record p).has q = true ↔ w.has q = true ∨ q = p := by
  rw [has_record, Bool.or_eq_true, decide_eq_true_eq]
  constructor
  · rintro (old | ⟨rfl, -⟩)
    · exact .inl old
    · exact .inr rfl
  · rintro (old | rfl)
    · exact .inl old
    · exact .inr ⟨rfl, inside⟩

/-- Whether an originator took one more late beacon, which marks a place behind the newest in its
window and in that of the link. -/
structure Originator.TookLate (hop : Hop) (now : Time) (p : Nat) (o o' : Originator) : Prop where
  behind : 0 < p ∧ p < Window.size
  rest : o' = { o with received := o'.received, links := o'.links, lastSeen := now }
  received : ∀ q, o'.received.has q = true ↔ o.received.has q = true ∨ q = p
  link : let l := (o.link? hop).getD { hop, lastSeen := now }
    ∃ l', o'.link? hop = some l' ∧
      l' = { l with window := l'.window, received := l'.window.count, lastSeen := now } ∧
      ∀ q, l'.window.has q = true ↔ l.window.has q = true ∨ q = p
  others : ∀ other, other ≠ hop → o'.link? other = o.link? other
  hops : o'.links.map Link.hop =
    o.links.map Link.hop ++ if (o.link? hop).isSome then [] else [hop]

namespace Originator

variable {o : Originator} {hop other : Hop} {now : Time} {p : Nat}

theorem link?_modifyLink (o : Originator) (hop : Hop) {f : Link → Link}
    (keeps : ∀ l, (f l).hop = l.hop) (other : Hop) :
    (o.modifyLink hop f).link? other =
      (o.link? other).map fun l => if other = hop then f l else l := by
  have kept : ∀ l : Link, (if l.hop = hop then f l else l).hop = l.hop := by
    intro l
    split
    · exact keeps l
    · rfl
  rw [link?_of_map kept rfl]
  cases found : o.link? other with
  | none => rfl
  | some l =>
    rw [Option.map_some, Option.map_some, hop_of_link? found]

theorem hops_ensureLink (o : Originator) (hop : Hop) (now : Time) :
    (o.ensureLink hop now).links.map Link.hop =
      o.links.map Link.hop ++ if (o.link? hop).isSome then [] else [hop] := by
  have known : (o.link? hop).isSome = o.links.any fun l => decide (l.hop = hop) :=
    List.isSome_find?
  rw [known]
  unfold ensureLink
  split
  · rw [List.append_nil]
  · rw [List.map_append]
    rfl

theorem hearLate_tookLate (o : Originator) (hop : Hop) (now : Time)
    (behind : 0 < p ∧ p < Window.size) : TookLate hop now p o (o.hearLate p hop now) := by
  let marked : Originator := { o with received := o.received.record p, lastSeen := now }
  let l : Link := (o.link? hop).getD { hop, lastSeen := now }
  have keeps : ∀ l : Link, ((l.hearLate p).touch now).hop = l.hop := fun _ => rfl
  have links : ∀ other, (o.hearLate p hop now).link? other =
      ((marked.ensureLink hop now).link? other).map fun l =>
        if other = hop then (l.hearLate p).touch now else l :=
    link?_modifyLink _ hop keeps
  obtain ⟨ensured, frame⟩ := ensureLink_frame marked hop now
  have heard : o.hearLate p hop now = { o with
      received := o.received.record p
      links := ensured.map fun l => if l.hop = hop then (l.hearLate p).touch now else l
      lastSeen := now } := by
    show (marked.ensureLink hop now).modifyLink hop _ = _
    rw [frame]
    rfl
  refine ⟨behind, ?_, fun q => ?_, ?_, fun other foreign => ?_, ?_⟩
  · rw [heard]
  · rw [heard]
    exact Window.has_record_inside behind.2 q
  · refine ⟨(l.hearLate p).touch now, ?_, rfl, Window.has_record_inside behind.2⟩
    rw [links, link?_ensureLink, Option.map_some, if_pos rfl]
    rfl
  · rw [links, link?_ensureLink_of_ne _ now foreign.symm]
    simp only [if_neg foreign, Option.map_id']
    rfl
  · have hops := hops_ensureLink marked hop now
    rw [frame] at hops
    rw [heard, List.map_map]
    refine Eq.trans (List.map_congr_left fun l _ => ?_) hops
    show (if l.hop = hop then (l.hearLate p).touch now else l).hop = l.hop
    split <;> rfl

end Originator

namespace Engine

open Originator (TookLate)

variable {e e' : Engine} {b : Beacon} {hop : Hop} {now : Time} {outcome : PacketOutcome}

/-- What a beacon leaves alone: everything but its originator and the judgement of its sender. -/
structure Footprint (b : Beacon) (sender : Addr) (now : Time) (e e' : Engine) : Prop where
  frame : e' = { e with
    origins := e'.origins, hosts := e'.hosts, gateways := e'.gateways, notices := e'.notices,
    scheduler := e'.scheduler }
  others : ∀ d, d ≠ b.orig → d ≠ sender →
    Option.Rel (Loses b.hosts) (e.origins.get? d) (e'.origins.get? d)
  newcomer : sender ≠ b.orig → e.origins.get? sender = none →
    e'.origins.get? sender = none ∨
      e'.origins.get? sender = some (.new sender e.origins.ifaces now)
  neighbour : sender ≠ b.orig → ∀ o, e.origins.get? sender = some o →
    ∃ o' linkQuality symmetry, e'.origins.get? sender = some o' ∧
      Loses b.hosts { o with linkQuality, symmetry } o'
  routes : ∀ d, d ≠ b.orig → e'.origins.hop? d = e.origins.hop? d ∧ e'.route? d = e.route? d
  notices : ∃ changes, e'.notices = e.notices ++ changes ∧ ∀ c ∈ changes, c.dest = b.orig
  actions : e'.outbox = e.outbox

/-- What a late beacon leaves alone: everything but the windows of its originator. -/
structure LateFootprint (b : Beacon) (hop : Hop) (now : Time) (e e' : Engine) : Prop where
  frame : e' = { e with origins := e'.origins }
  ifaces : e'.origins.ifaces = e.origins.ifaces
  others : ∀ d, d ≠ b.orig → e'.origins.get? d = e.origins.get? d
  orig : ∃ o o', e.origins.get? b.orig = some o ∧ e'.origins.get? b.orig = some o' ∧
    TookLate hop now (Seqno.behind o.newest b.seqno) o o' ∧ (o'.links.map Link.hop).Nodup

/-! ### Stage by stage -/

theorem hear_get?_ne (e : Engine) (hop : Hop) (now : Time) {d : Addr} (other : d ≠ b.orig) :
    (e.hear b hop now).origins.get? d = e.origins.get? d := by
  refine (Origins.get?_upsert _ _ _ _ _).trans ?_
  rw [if_neg other.symm]

theorem assess_get? {estimate : Estimate} (h : e.assess b hop now = .ok (e', estimate)) :
    ∃ o', (e.origins.getOrNew hop.addr now).assess e.setup.estimator hop.iface b.quality =
        .ok (o', estimate) ∧
      ∀ d, e'.origins.get? d = if hop.addr = d then some o' else e.origins.get? d := by
  obtain ⟨⟨o', _⟩, judged, h⟩ := Fault.bind_ok h
  cases Fault.pure_ok h
  exact ⟨o', judged, fun d => Origins.get?_insert _ _ _ _⟩

theorem rank_get?_ne (e : Engine) (b : Beacon) (hop : Hop) {d : Addr} (other : d ≠ b.orig) :
    (e.rank b hop).origins.get? d = e.origins.get? d := by
  unfold rank
  split
  · refine (Origins.get?_insert _ _ _ _).trans ?_
    rw [if_neg other.symm]
  · rfl

theorem heed_loses (e : Engine) (b : Beacon) (now : Time) {d : Addr} (other : d ≠ b.orig) :
    Option.Rel (Loses b.hosts) (e.origins.get? d) ((e.heed b now).origins.get? d) := by
  have noted : (e.heed b now).origins.get? d =
      (e.hosts.applyRemote e.origins b.orig b.hosts now).2.get? d := by
    refine (Origins.get?_modify _ _ _ _).trans ?_
    rw [if_neg other.symm]
    rfl
  rw [noted]
  exact e.hosts.applyRemote_loses e.origins other b.hosts now

theorem adopt_loses (e : Engine) (b : Beacon) (hop : Hop) (duplicate twoWay : Bool) (now : Time)
    {d : Addr} (other : d ≠ b.orig) :
    Option.Rel (Loses b.hosts) (e.origins.get? d)
      ((e.adopt b hop duplicate twoWay now).origins.get? d) := by
  unfold adopt
  cases duplicate with
  | true => exact Originator.loses_refl b.hosts _
  | false =>
    cases twoWay with
    | true =>
      rw [← rank_get?_ne e b hop other]
      exact heed_loses (e.rank b hop) b now other
    | false => exact heed_loses e b now other

theorem adopt_notices {s : Setup} (sound : Sound s e) (b : Beacon) (hop : Hop)
    (duplicate twoWay : Bool) (now : Time) :
    ∃ changes, (e.adopt b hop duplicate twoWay now).notices = e.notices ++ changes ∧
      ∀ c ∈ changes, c.dest = b.orig := by
  have quiet : ∃ changes, e.notices = e.notices ++ changes ∧ ∀ c ∈ changes, c.dest = b.orig :=
    ⟨[], (List.append_nil _).symm, nofun⟩
  unfold adopt
  cases duplicate with
  | true => exact quiet
  | false =>
    cases twoWay with
    | false => exact quiet
    | true =>
      show ∃ changes, (e.rank b hop).notices = e.notices ++ changes ∧ _
      unfold rank
      split
      · rename_i o known
        refine ⟨(ranked o b hop).2.toList, rfl, fun c reported => ?_⟩
        have report := Option.mem_toList.mp reported
        rw [Originator.ranked_eq, (sound.each known).key] at report
        rw [(Originator.routeReport_eq_some report).2]
      · exact quiet

/-! ### Whole beacons -/

theorem routes_of_loses {hosts : List Addr} {d : Addr}
    (h : Option.Rel (Loses hosts) (e.origins.get? d) (e'.origins.get? d)) :
    e'.origins.hop? d = e.origins.hop? d ∧ e'.route? d = e.route? d := by
  rw [Origins.hop?_eq, Origins.hop?_eq, route?, route?]
  generalize e.origins.get? d = o?, e'.origins.get? d = o?' at h
  cases h with
  | none => exact ⟨rfl, rfl⟩
  | some loses => exact loses.route

/-- What a beacon that is not late leaves of the other originators. -/
structure JudgedFootprint (b : Beacon) (sender : Addr) (now : Time) (e e' : Engine) : Prop where
  others : ∀ d, d ≠ b.orig → d ≠ sender →
    Option.Rel (Loses b.hosts) (e.origins.get? d) (e'.origins.get? d)
  neighbour : sender ≠ b.orig → ∃ o o' iface carried estimate,
    (e.origins.getOrNew sender now).assess e.setup.estimator iface carried = .ok (o, estimate) ∧
      e'.origins.get? sender = some o' ∧ Loses b.hosts o o'
  notices : ∃ changes, e'.notices = e.notices ++ changes ∧ ∀ c ∈ changes, c.dest = b.orig

theorem judge_footprint {s : Setup} (sound : Sound s e) (admitted : e.setup.Admits b hop)
    {duplicate : Bool} (work : (e.hear b hop now).judge b hop duplicate now = .ok (e', outcome)) :
    JudgedFootprint b hop.addr now e e' := by
  obtain ⟨assessed, estimate, relayed, judged, considered, -⟩ := judge_eq_ok.mp work
  obtain ⟨neighbour, counted, entries⟩ := assess_get? judged
  have same := considerRelay_same considered
  have soundHeard : Sound s (e.hear b hop now) :=
    (Originator.sound_invariant s).invariant.hear now admitted sound
  have peer : (e.hear b hop now).setup.IsPeer hop.addr := admitted.sender
  have soundAssessed : Sound s assessed :=
    (Originator.sound_invariant s).invariant.update (.assess peer judged) soundHeard
  have loses : ∀ d, d ≠ b.orig →
      Option.Rel (Loses b.hosts) (assessed.origins.get? d) (e'.origins.get? d) := by
    intro d other
    rw [same.origins]
    exact adopt_loses assessed (b.judged estimate) hop duplicate estimate.twoWay now other
  refine ⟨fun d other foreign => ?_, fun other => ?_, ?_⟩
  · have before := loses d other
    rw [entries, if_neg foreign.symm, hear_get?_ne e hop now other] at before
    exact before
  · have before := loses hop.addr other
    rw [entries, if_pos rfl] at before
    -- the windows of the originator say nothing of its sender
    have unheard : (e.hear b hop now).origins.getOrNew hop.addr now =
        e.origins.getOrNew hop.addr now := by
      unfold Origins.getOrNew
      rw [hear_get?_ne e hop now other]
      rfl
    rw [unheard] at counted
    generalize e'.origins.get? hop.addr = o? at before ⊢
    cases before with
    | some lost => exact ⟨neighbour, _, hop.iface, b.quality, estimate, counted, rfl, lost⟩
  · obtain ⟨changes, noted, dests⟩ :=
      adopt_notices soundAssessed (b.judged estimate) hop duplicate estimate.twoWay now
    refine ⟨changes, ?_, dests⟩
    rw [same.notices, noted]
    obtain ⟨_, _, judged⟩ := Fault.bind_ok judged
    cases Fault.pure_ok judged
    rfl

theorem JudgedFootprint.footprint (h : JudgedFootprint b hop.addr now e e')
    (taken : e.Takes b hop now outcome e') : Footprint b hop.addr now e e' where
  frame := by
    obtain ⟨_, _, _, _, _, rfl⟩ := taken.frame
    rfl
  others := h.others
  newcomer other unknown := by
    obtain ⟨o, o', iface, carried, estimate, judged, found, loses⟩ := h.neighbour other
    rw [Origins.getOrNew, unknown, Option.getD_none] at judged
    cases Originator.assess_new judged
    rw [found, loses.eq_new]
    exact .inr rfl
  neighbour other before known := by
    obtain ⟨o, o', iface, carried, estimate, judged, found, loses⟩ := h.neighbour other
    rw [Origins.getOrNew_of_get? known] at judged
    obtain ⟨linkQuality, symmetry, rfl⟩ := Originator.assess_frame judged
    exact ⟨o', linkQuality, symmetry, found, loses⟩
  routes d other := by
    by_cases here : d = hop.addr
    · subst here
      obtain ⟨o, o', iface, carried, estimate, judged, found, loses⟩ := h.neighbour other
      obtain ⟨route, link⟩ := loses.route
      obtain ⟨linkQuality, symmetry, rfl⟩ := Originator.assess_frame judged
      rw [Origins.hop?_eq, Origins.hop?_eq, route?, route?, found, Option.bind_some,
        Option.bind_some, route, link]
      unfold Origins.getOrNew
      cases e.origins.get? hop.addr with
      | none => exact ⟨rfl, rfl⟩
      | some o => exact ⟨rfl, rfl⟩
    · exact routes_of_loses (h.others d other here)
  notices := h.notices
  actions := taken.outbox

theorem LateFootprint.loses (h : LateFootprint b hop now e e') {d : Addr} (other : d ≠ b.orig) :
    Option.Rel (Loses b.hosts) (e.origins.get? d) (e'.origins.get? d) := by
  rw [h.others d other]
  exact Originator.loses_refl b.hosts _

theorem LateFootprint.footprint (h : LateFootprint b hop now e e') :
    Footprint b hop.addr now e e' where
  frame := by
    rw [h.frame]
  others _ other _ := h.loses other
  newcomer other unknown := by
    rw [h.others _ other]
    exact .inl unknown
  neighbour other o known := by
    rw [h.others _ other]
    exact ⟨o, o.linkQuality, o.symmetry, known, .refl b.hosts o⟩
  routes _ other := routes_of_loses (h.loses other)
  notices := ⟨[], by rw [h.frame, List.append_nil], nofun⟩
  actions := by
    rw [h.frame]

theorem hear_lateFootprint {s : Setup} (sound : Sound s (e.hear b hop now)) {p : Nat}
    (arrival : (e.origins.getOrNew b.orig now).arrival b.seqno = .late p) :
    LateFootprint b hop now e (e.hear b hop now) := by
  obtain ⟨history, back, near, place⟩ := Originator.arrival_late_iff.mp arrival
  cases known : e.origins.get? b.orig with
  | none =>
    -- no beacon is late for a node without history
    rw [Origins.getOrNew, known, Option.getD_none] at history
    cases history
  | some o =>
    rw [Origins.getOrNew_of_get? known] at arrival back near place
    have same : p = Seqno.behind o.newest b.seqno := by
      have forward := Seqno.behind_eq o.newest b.seqno
      have turned := Seqno.ahead_emod b.seqno o.newest
      have size : Window.size = 64 := rfl
      omega
    have behind : 0 < p ∧ p < Window.size := by omega
    have heard : (e.hear b hop now).origins.get? b.orig = some (o.hearLate p hop now) := by
      refine (Origins.get?_upsert _ _ _ _ _).trans ?_
      rw [if_pos rfl, Origins.getOrNew_of_get? known, Originator.hear, arrival]
    refine ⟨rfl, rfl, fun d other => hear_get?_ne e hop now other, o, _, known, heard, ?_,
      (sound.each heard).distinct⟩
    rw [← same]
    exact Originator.hearLate_tookLate o hop now behind

theorem Takes.footprint {s : Setup} (sound : Sound s e) (h : e.Takes b hop now outcome e')
    (kept : outcome.dropReason? = none) :
    Footprint b hop.addr now e e' ∧ (outcome = .late → LateFootprint b hop now e e') := by
  have taken := h
  cases h with
  | refused => cases kept
  | echo => cases kept
  | late admitted arrival =>
    have heard : Sound s (e.hear b hop now) :=
      (Originator.sound_invariant s).invariant.hear now admitted sound
    have late := hear_lateFootprint heard arrival
    exact ⟨late.footprint, fun _ => late⟩
  | judged admitted _ work => exact ⟨(judge_footprint sound admitted work).footprint taken, nofun⟩

/-- A beacon touches its originator, its sender and the hosts that it lists; a late one touches just
the windows, and when both were heard. -/
theorem beacon_footprint {s : Setup} {jitter : Jitter} {cs : List Call} {e : Engine}
    (h : (Engine.new s jitter).run cs = .ok e) {c : Call} {r : Reception}
    (brought : c.reception? false = some r) {e' : Engine} {outcome : PacketOutcome}
    (made : e.step c = .ok (e', .packet outcome)) (kept : outcome.dropReason? = none) :
    Footprint r.beacon r.hop.addr r.now e e' ∧
      (outcome = .late → LateFootprint r.beacon r.hop r.now e e') := by
  obtain ⟨sound, -⟩ := run_mirrored h
  obtain ⟨_, answered, taken⟩ := (step_does made).takes brought
  cases answered
  exact taken.footprint sound kept

/-- A beacon of another node, which announces the host of the far node. -/
def handOver : Beacon := { orig := ⟨2, 0, 0, 0, 0, 5⟩, ttl := 9, hosts := [Sample.host] }

/-- After the sample run one more beacon of the far node comes late. The far node then relays the
beacon that announces its host, and loses the host. -/
theorem beacon_footprint_sample :
    ∃ e e₁ e₂ outcome, (Engine.new Sample.setup default).run Sample.calls = .ok e ∧
      e.step (.beacon (Sample.relayed 0 []) Sample.near 0 2000) = .ok (e₁, .packet .late) ∧
      LateFootprint (Sample.relayed 0 []) ⟨Sample.near, 0⟩ 2000 e e₁ ∧
      e.step (.beacon handOver Sample.far 0 2000) = .ok (e₂, .packet outcome) ∧
      outcome.dropReason? = none ∧ Footprint handOver Sample.far 2000 e e₂ ∧
      e.origins.Announces Sample.far Sample.host ∧
      ¬ e₂.origins.Announces Sample.far Sample.host := by
  have reached : ∃ e e₁ e₂ outcome, (Engine.new Sample.setup default).run Sample.calls = .ok e ∧
      e.step (.beacon (Sample.relayed 0 []) Sample.near 0 2000) = .ok (e₁, .packet .late) ∧
      e.step (.beacon handOver Sample.far 0 2000) = .ok (e₂, .packet outcome) ∧
      outcome.dropReason? = none ∧ e.origins.Announces Sample.far Sample.host ∧
      (e₂.origins.field Originator.hosts .empty Sample.far).contains Sample.host = false :=
    ⟨_, _, _, _, rfl, rfl, rfl, rfl, rfl, rfl⟩
  obtain ⟨e, e₁, e₂, outcome, run, madeLate, madeHandOver, kept, announced, gone⟩ := reached
  obtain ⟨-, late⟩ :=
    beacon_footprint run (c := .beacon (Sample.relayed 0 []) Sample.near 0 2000) rfl madeLate rfl
  obtain ⟨taken, -⟩ :=
    beacon_footprint run (c := .beacon handOver Sample.far 0 2000) rfl madeHandOver kept
  exact ⟨e, e₁, e₂, outcome, run, madeLate, late rfl, madeHandOver, kept, taken, announced,
    Bool.eq_false_iff.mp gone⟩

end Engine

end BeaconMesh

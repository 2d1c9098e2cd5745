import BeaconMesh.Proofs.Engine.Entries
import BeaconMesh.Proofs.Engine.History
import BeaconMesh.Proofs.Routes.Selection
import Mathlib.Data.List.Nodup

/-!
# Routes are valid and optimal

In every state that a node comes to, the links of an originator have different hops, their
averages are zero or usable qualities, and the route is the hop of a best link. `Sound` is the
invariant, and `routes_valid_and_optimal` the result.
-/

namespace BeaconMesh

/-! ### Qualities -/

namespace Estimator

theorem estimate_quality {est : Estimator} {carried echoes received : Nat} {x : Estimate}
    (h : est.estimate carried echoes received = .ok x) :
    x.quality ≤ est.max ∧ (x.twoWay = true → est.limit ≤ x.quality) := by
  obtain ⟨_, _, h⟩ := Fault.bind_ok h
  obtain ⟨_, _, h⟩ := Fault.bind_ok h
  cases Fault.pure_ok h
  exact ⟨Nat.min_le_right _ _, of_decide_eq_true⟩

end Estimator

theorem Setup.usable_quality {s : Setup} {carried echoes received : Nat} {x : Estimate}
    (h : s.estimator.estimate carried echoes received = .ok x) (usable : x.twoWay = true) :
    s.config.twoWayLimit.toNat ≤ (UInt8.ofNat x.quality).toNat ∧
      (UInt8.ofNat x.quality).toNat ≤ s.config.maxQuality.toNat := by
  obtain ⟨high, low⟩ := Estimator.estimate_quality h
  have high : x.quality ≤ s.config.maxQuality.toNat := high
  have low : s.config.twoWayLimit.toNat ≤ x.quality := low usable
  have byte := s.config.maxQuality.toNat_lt
  have fits : (UInt8.ofNat x.quality).toNat = x.quality := by
    rw [UInt8.toNat_ofNat']
    exact Nat.mod_eq_of_lt (by omega)
  rw [fits]
  exact ⟨low, high⟩

namespace Link

/-- Whether every remembered quality is usable. -/
def IsUsable (low high : Nat) (l : Link) : Prop :=
  ∀ q ∈ l.samples, low ≤ q.toNat ∧ q.toNat ≤ high

theorem total_bounds {low high : Nat} {qs : List UInt8}
    (h : ∀ q ∈ qs, low ≤ q.toNat ∧ q.toNat ≤ high) :
    low * qs.length ≤ total qs ∧ total qs ≤ qs.length * high := by
  induction qs with
  | nil => exact ⟨Nat.le_refl _, Nat.zero_le _⟩
  | cons q rest ih =>
    obtain ⟨first, others⟩ := List.forall_mem_cons.mp h
    obtain ⟨least, most⟩ := ih others
    rw [total, List.length_cons, Nat.mul_succ, Nat.succ_mul]
    omega

theorem average_bounds {low high : Nat} {l : Link} (h : l.IsUsable low high) :
    l.average = 0 ∨ low ≤ l.average ∧ l.average ≤ high := by
  unfold average
  obtain ⟨least, most⟩ := total_bounds h
  cases Nat.eq_zero_or_pos l.samples.length with
  | inl none => exact .inl (by rw [none, Nat.div_zero])
  | inr positive =>
    exact .inr ⟨(Nat.le_div_iff_mul_le positive).mpr least, Nat.div_le_of_le_mul most⟩

theorem average_new (hop : Hop) (now : Time) : ({ hop, lastSeen := now } : Link).average = 0 :=
  Nat.zero_div _

theorem addSample_isUsable {low high : Nat} {l : Link} {q : UInt8} (h : l.IsUsable low high)
    (usable : low ≤ q.toNat ∧ q.toNat ≤ high) : (l.addSample q).IsUsable low high := by
  intro r hr
  rcases List.mem_cons.mp (List.mem_of_mem_take hr) with rfl | hr
  · exact usable
  · exact h r hr

/-- Whether a change of links leaves the hop and the qualities alone. -/
def KeepsQuality (f : Link → Link) : Prop := ∀ l, (f l).hop = l.hop ∧ (f l).samples = l.samples

theorem KeepsQuality.average {f : Link → Link} (h : KeepsQuality f) (l : Link) :
    (f l).average = l.average := by
  rw [Link.average, Link.average, (h l).2]

end Link

/-! ### Links that change -/

namespace Link

theorem IsBest.map {ls : List Link} {best : Option Link} {f : Link → Link} (keeps : KeepsQuality f)
    (h : IsBest ls best) : IsBest (ls.map f) (best.map f) := by
  cases best with
  | none =>
    refine List.forall_mem_map.mpr fun l hl => ?_
    rw [keeps.average]
    exact h l hl
  | some b =>
    refine ⟨List.mem_map_of_mem h.1, ?_, List.forall_mem_map.mpr fun l hl => ?_⟩
    · rw [keeps.average]
      exact h.2.1
    · rw [keeps.average, keeps.average]
      exact h.2.2 l hl

theorem IsBest.append {ls : List Link} {best : Option Link} {l : Link} (zero : l.average = 0)
    (h : IsBest ls best) : IsBest (ls ++ [l]) best := by
  have worse := isBest_better h l
  unfold Originator.better at worse
  rwa [if_pos zero] at worse

end Link

namespace Originator

theorem IsRoute.map {ls : List Link} {hop : Option Hop} {f : Link → Link}
    (keeps : Link.KeepsQuality f) (h : IsRoute ls hop) : IsRoute (ls.map f) hop := by
  obtain ⟨best, isBest, rfl⟩ := h
  refine ⟨best.map f, isBest.map keeps, ?_⟩
  rw [Option.map_map]
  exact congrArg (Option.map · best) (funext fun l => (keeps l).1.symm)

theorem IsRoute.append {ls : List Link} {hop : Option Hop} {l : Link} (zero : l.average = 0)
    (h : IsRoute ls hop) : IsRoute (ls ++ [l]) hop := by
  obtain ⟨best, isBest, same⟩ := h
  exact ⟨best, isBest.append zero, same⟩

/-- The links of an originator have different hops and usable qualities, and the route is the hop
of a best one. -/
structure Sound (low high : Nat) (a : Addr) (o : Originator) : Prop where
  key : o.addr = a
  distinct : (o.links.map Link.hop).Nodup
  usable : ∀ l ∈ o.links, l.IsUsable low high
  routed : o.WellRouted

variable {low high : Nat} {a : Addr} {o : Originator}

theorem link?_of_mem (distinct : (o.links.map Link.hop).Nodup) {l : Link} (mem : l ∈ o.links) :
    o.link? l.hop = some l := by
  cases found : o.link? l.hop with
  | none =>
    have absent := List.find?_eq_none.mp found l mem
    simp at absent
  | some other =>
    have listed : other ∈ o.links := List.mem_of_find?_eq_some found
    rw [List.inj_on_of_nodup_map distinct listed mem (hop_of_link? found)]

theorem Sound.route_link (h : Sound low high a o) {hop : Hop} (used : o.route = some hop) :
    ∃ l, o.link? hop = some l ∧ l.average ≠ 0 := by
  obtain ⟨best, isBest, chosen⟩ := h.routed
  rw [used] at chosen
  obtain ⟨b, rfl, rfl⟩ := Option.map_eq_some_iff.mp chosen.symm
  exact ⟨b, link?_of_mem h.distinct isBest.1, isBest.2.1⟩

theorem Sound.relink (h : Sound low high a o) {o' : Originator} {f : Link → Link}
    (keeps : Link.KeepsQuality f) (addr : o'.addr = o.addr) (route : o'.route = o.route)
    (links : o'.links = o.links.map f) : Sound low high a o' where
  key := addr.trans h.key
  distinct := by
    rw [links, List.map_map]
    have hops : Link.hop ∘ f = Link.hop := funext fun l => (keeps l).1
    rw [hops]
    exact h.distinct
  usable := by
    rw [links]
    refine List.forall_mem_map.mpr fun l hl => ?_
    unfold Link.IsUsable
    rw [(keeps l).2]
    exact h.usable l hl
  routed := by
    unfold WellRouted
    rw [links, route]
    exact h.routed.map keeps

theorem Sound.congr (h : Sound low high a o) {o' : Originator} (addr : o'.addr = o.addr)
    (route : o'.route = o.route) (links : o'.links = o.links) : Sound low high a o' :=
  h.relink (f := id) (fun _ => ⟨rfl, rfl⟩) addr route (by rw [links, List.map_id])

theorem sound_new (a : Addr) (ifaces : Nat) (now : Time) :
    Sound low high a (.new a ifaces now) where
  key := rfl
  distinct := List.nodup_nil
  usable := nofun
  routed := ⟨none, Link.isBest_nil, rfl⟩

theorem Sound.ensureLink (h : Sound low high a o) (hop : Hop) (now : Time) :
    Sound low high a (o.ensureLink hop now) := by
  unfold Originator.ensureLink
  split
  · exact h
  · rename_i unknown
    refine ⟨h.key, ?_, ?_, h.routed.append (Link.average_new hop now)⟩
    · rw [List.map_append]
      refine List.nodup_append.mpr ⟨h.distinct, List.pairwise_singleton _ _, ?_⟩
      rintro other known _ last rfl
      obtain ⟨l, hl, rfl⟩ := List.mem_map.mp known
      refine unknown (List.any_eq_true.mpr ⟨l, hl, ?_⟩)
      simpa using last
    · refine List.forall_mem_append.mpr ⟨h.usable, List.forall_mem_singleton.mpr ?_⟩
      rintro q ⟨⟩

theorem Sound.modifyLink (h : Sound low high a o) (hop : Hop) {f : Link → Link}
    (keeps : Link.KeepsQuality f) : Sound low high a (o.modifyLink hop f) := by
  refine h.relink (f := fun l => if l.hop = hop then f l else l) (fun l => ?_) rfl rfl rfl
  dsimp only
  split
  · exact keeps l
  · exact ⟨rfl, rfl⟩

/-! ### The invariant -/

theorem Sound.hear (h : Sound low high a o) (seqno : Seqno) (ttl : UInt8) (hop : Hop)
    (now : Time) : Sound low high a (o.hear seqno ttl hop now) := by
  have newest : Sound low high a (o.hearNewest seqno hop now) := by
    let offset := Seqno.ahead seqno o.newest
    have moved : Sound low high a
        { o with received := o.received.mark offset true, newest := seqno, lastSeen := now } :=
      h.congr rfl rfl rfl
    have touched := (moved.ensureLink hop now).modifyLink hop (f := fun l => l.touch now)
      fun _ => ⟨rfl, rfl⟩
    exact touched.relink (f := fun l => l.hear offset (l.hop = hop)) (fun _ => ⟨rfl, rfl⟩)
      rfl rfl rfl
  unfold Originator.hear
  split
  · rename_i position _
    have marked : Sound low high a
        { o with received := o.received.record position, lastSeen := now } := h.congr rfl rfl rfl
    exact (marked.ensureLink hop now).modifyLink hop fun _ => ⟨rfl, rfl⟩
  · exact newest
  · exact newest.congr rfl rfl rfl

theorem Sound.ranked (h : Sound low high a o) (b : Beacon) (hop : Hop)
    (usable : low ≤ b.quality.toNat ∧ b.quality.toNat ≤ high) :
    Sound low high a (Engine.ranked o b hop).1 := by
  rw [ranked_eq]
  refine ⟨h.key, ?_, List.forall_mem_map.mpr fun l hl => ?_, choice?_isRoute (o.sampled b hop)⟩
  · have hops : (o.sampled b hop).links.map Link.hop = o.links.map Link.hop := by
      refine List.map_map.trans (List.map_congr_left fun l _ => ?_)
      dsimp only [Function.comp]
      split <;> rfl
    exact hops ▸ h.distinct
  · split
    · exact Link.addSample_isUsable (h.usable l hl) usable
    · exact h.usable l hl

theorem Sound.prune (h : Sound low high a o) (now timeout : Time) :
    Sound low high a (o.prune now timeout).1 := by
  obtain ⟨route, isRoute, eq⟩ := prune_eq now timeout h.routed
  rw [eq]
  have kept := List.filter_sublist (l := o.links) (p := fun l => ! l.isStale now timeout)
  exact ⟨h.key, h.distinct.sublist (kept.map _), fun l hl => h.usable l (kept.subset hl), isRoute⟩

theorem sound_invariant (s : Setup) :
    Engine.EntryInvariant s (Sound s.config.twoWayLimit.toNat s.config.maxQuality.toNat) where
  new a now := sound_new a _ now
  hear now _ h := h.hear _ _ _ now
  update {a o o'} move h := by
    cases move with
    | same => exact h
    | assess judged =>
      obtain ⟨_, _, rfl⟩ := assess_frame judged
      exact h.congr rfl rfl rfl
    | rank hop usable quality judged =>
      obtain ⟨_, _, _, judged⟩ := judged
      exact h.ranked _ hop (quality ▸ s.usable_quality judged usable)
    | flood seqno =>
      obtain ⟨_, _, heard⟩ := o.hearFlood_frame seqno
      rw [heard]
      exact h.congr rfl rfl rfl
    | _ => exact h.congr rfl rfl rfl
  decay {a o o'} move h := by
    cases move with
    | same => exact h
    | prune now => exact h.prune now _
    | expire hosts => exact h.congr rfl rfl rfl

end Originator

namespace Engine

/-- The invariant of originators, for every one that a node knows. -/
abbrev Sound (s : Setup) : Engine → Prop :=
  EntryInvariant.Holds s (Originator.Sound s.config.twoWayLimit.toNat s.config.maxQuality.toNat)

/-- An originator has a route if and only if a link averages above zero, and then it leads over one
of the greatest average. -/
theorem routes_valid_and_optimal {s : Setup} {jitter : Jitter} {cs : List Call} {e : Engine}
    (h : (Engine.new s jitter).run cs = .ok e) {a : Addr} {o : Originator}
    (known : e.origins.get? a = some o) :
    o.addr = a ∧ (o.links.map Link.hop).Nodup ∧
      (∀ l ∈ o.links, l.average = 0 ∨
        s.config.twoWayLimit.toNat ≤ l.average ∧ l.average ≤ s.config.maxQuality.toNat) ∧
      (o.route.isSome = true ↔ ∃ l ∈ o.links, l.average ≠ 0) ∧
      ∀ hop, o.route = some hop →
        ∃ l ∈ o.links, l.hop = hop ∧ ∀ m ∈ o.links, m.average ≤ l.average := by
  have sound := ((Originator.sound_invariant s).run h).each known
  obtain ⟨best, isBest, route⟩ := sound.routed
  refine ⟨sound.key, sound.distinct, fun l hl => Link.average_bounds (sound.usable l hl), ?_, ?_⟩
  · rw [route, Option.isSome_map]
    cases best with
    | none =>
      refine ⟨nofun, ?_⟩
      rintro ⟨l, hl, positive⟩
      exact absurd (isBest l hl) positive
    | some b => exact ⟨fun _ => ⟨b, isBest.1, isBest.2.1⟩, fun _ => rfl⟩
  · intro hop used
    rw [route] at used
    obtain ⟨b, rfl, rfl⟩ := Option.map_eq_some_iff.mp used
    exact ⟨b, isBest.1, rfl, isBest.2.2⟩

theorem routes_valid_and_optimal_sample :
    ∃ e o, (Engine.new Sample.setup default).run Sample.calls = .ok e ∧
      e.origins.get? Sample.far = some o ∧ o.route = some ⟨Sample.near, 0⟩ ∧
      o.addr = Sample.far ∧ (o.links.map Link.hop).Nodup ∧
      (∀ l ∈ o.links, l.average = 0 ∨
        Sample.setup.config.twoWayLimit.toNat ≤ l.average ∧
          l.average ≤ Sample.setup.config.maxQuality.toNat) ∧
      (o.route.isSome = true ↔ ∃ l ∈ o.links, l.average ≠ 0) ∧
      ∀ hop, o.route = some hop →
        ∃ l ∈ o.links, l.hop = hop ∧ ∀ m ∈ o.links, m.average ≤ l.average := by
  have reached : ∃ e o, (Engine.new Sample.setup default).run Sample.calls = .ok e ∧
      e.origins.get? Sample.far = some o ∧ o.route = some ⟨Sample.near, 0⟩ :=
    ⟨_, _, rfl, rfl, rfl⟩
  obtain ⟨e, o, run, known, route⟩ := reached
  exact ⟨e, o, run, known, route, routes_valid_and_optimal run known⟩

end Engine

end BeaconMesh

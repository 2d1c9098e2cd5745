import BeaconMesh.Proofs.Echoes.Windows
import BeaconMesh.Proofs.Faults.Runs
import BeaconMesh.Proofs.Routes.Rankings
import BeaconMesh.Proofs.Windows.Receptions

/-!
# Routes lead over two-way links

A beacon is ranked if the path it came has a quality, and a quality takes an echo and a reception
over the link. `Event.ranked?` names the calls that rank one; whatever counts for a route was ranked
in one of them, so `routes_over_two_way_links` says of every route that its neighbour was known to
hear us, and to be heard.
-/

namespace BeaconMesh

/-- What makes a link two-way: its neighbour echoed one of our last beacons, and one of its own last
beacons came straight over the link. -/
structure Originator.TwoWay (o : Originator) (hop : Hop) : Prop where
  echoed : ∃ w, o.echoes? hop.iface = some w ∧ ∃ p < Window.size, w.has p = true
  heard : ∃ l, o.link? hop = some l ∧ 1 ≤ l.received

namespace Originator

variable {o : Originator}

theorem echoCount_eq (o : Originator) (iface : IfaceId) :
    o.echoCount iface = (o.echoWindow iface).count := by
  unfold echoCount echoWindow
  cases o.echoes? iface with
  | none => decide
  | some w => rfl

theorem echoes?_of_echoWindow {iface : IfaceId} {p : Nat}
    (held : (o.echoWindow iface).has p = true) :
    ∃ w, o.echoes? iface = some w ∧ w.has p = true := by
  unfold echoWindow at held
  cases found : o.echoes? iface with
  | none => simp [found] at held
  | some w => exact ⟨w, rfl, by simpa [found] using held⟩

theorem link?_of_directCount {iface : IfaceId} (h : 0 < o.directCount iface) :
    ∃ l, o.link? ⟨o.addr, iface⟩ = some l ∧ 1 ≤ l.received := by
  unfold directCount at h
  cases found : o.link? ⟨o.addr, iface⟩ with
  | none => simp [found] at h
  | some l =>
    rw [found] at h
    exact ⟨l, rfl, h⟩

theorem directCount_ranked (o : Originator) (b : Beacon) (hop : Hop) (iface : IfaceId) :
    (Engine.ranked o b hop).1.directCount iface = o.directCount iface := by
  have addr : (Engine.ranked o b hop).1.addr = o.addr := by
    obtain ⟨_, frame⟩ := o.ranked_frame b hop
    rw [frame]
    rfl
  unfold directCount
  rw [addr, link?_ranked, Option.map_map]
  congr 2
  funext l
  simp only [Function.comp, Link.rankedAt]
  split <;> rfl

end Originator

namespace Engine

variable {e e' : Engine} {r : Reception} {assessed : Engine} {estimate : Estimate}

/-! ### What a judgement rests on -/

theorem assess_counts {b : Beacon} {hop : Hop} {now : Time}
    (h : e.assess b hop now = .ok (e', estimate)) :
    e.setup.estimator.estimate b.quality.toNat (e.echoWindow hop.addr hop.iface).count
      (e.directCount hop) = .ok estimate := by
  have window : (e.origins.getOrNew hop.addr now).echoWindow hop.iface =
      e.echoWindow hop.addr hop.iface :=
    Origins.field_getOrNew (g := fun o => o.echoWindow hop.iface) (Originator.echoWindow_new _ _ _ _)
  rw [← window, ← Originator.echoCount_eq, ← directCount_getOrNew e hop now]
  obtain ⟨_, assessed, h⟩ := Fault.bind_ok h
  obtain ⟨_, judged, assessed⟩ := Fault.bind_ok assessed
  cases Fault.pure_ok assessed
  cases Fault.pure_ok h
  exact judged

theorem Judges.counts (h : e.Judges r assessed estimate) (usable : estimate.twoWay = true) :
    (∃ p < Window.size, (assessed.echoWindow r.hop.addr r.hop.iface).has p = true) ∧
      0 < assessed.directCount r.hop := by
  have judged := assess_counts h
  have windows := assess_sameEchoes h r.hop.addr r.hop.iface
  have counts : assessed.directCount r.hop = (e.hear r.beacon r.hop r.now).directCount r.hop :=
    assess_sameField h rfl (fun _ _ _ => rfl) r.hop.addr
  rw [windows, counts, ← Window.count_pos_iff]
  obtain ⟨-, low⟩ := Estimator.estimate_quality judged
  obtain ⟨-, positive⟩ := Estimator.estimate_bounds judged
  have limit : 0 < e.setup.estimator.limit := e.setup.valid.twoWayLimit_pos
  have enough : e.setup.estimator.limit ≤ estimate.quality := low usable
  apply positive
  omega

theorem adopt_counts (e : Engine) (b : Beacon) (hop : Hop) (duplicate twoWay : Bool) (now : Time)
    (other : Hop) :
    (e.adopt b hop duplicate twoWay now).directCount other = e.directCount other :=
  adopt_sameField e b hop duplicate twoWay now (fun o => o.directCount_ranked b hop other.iface)
    (fun _ _ _ _ => rfl) other.addr

theorem Does.ranked {c : Call} {reply : Reply} (h : Does e c reply e')
    (ranked : Event.ranked? ⟨e, c, reply, e'⟩ = some r) :
    ∃ assessed estimate, e.setup.Admits r.beacon r.hop ∧ e.Judges r assessed estimate ∧
      estimate.twoWay = true ∧
      e'.origins = (assessed.adopt (r.beacon.judged estimate) r.hop false true r.now).origins := by
  unfold Event.ranked? at ranked
  split at ranked
  · rename_i relayed answered
    have brought : c.reception? false = some r := by
      unfold Event.reception? at ranked
      simp only at answered
      rw [answered] at ranked
      exact ranked
    simp only at answered
    subst answered
    obtain ⟨_, same, taken⟩ := h.takes brought
    cases same
    cases taken with
    | judged admitted arrival work =>
      obtain ⟨assessed, estimate, _, judged, considered, answered⟩ := judge_eq_ok.mp work
      injection answered with _ usable
      rw [← usable] at considered
      exact ⟨assessed, estimate, admitted, judged, usable.symm,
        (considerRelay_same considered).origins⟩
  · cases ranked

/-- The neighbour of a link that a beacon was ranked over is known to have a two-way link. -/
theorem Does.twoWay {c : Call} {reply : Reply} (h : Does e c reply e')
    (ranked : Event.ranked? ⟨e, c, reply, e'⟩ = some r) (keyed : e'.origins.Keyed) :
    ∃ o, e'.origins.get? r.hop.addr = some o ∧ o.TwoWay r.hop := by
  obtain ⟨assessed, estimate, -, judged, usable, origins⟩ := h.ranked ranked
  obtain ⟨⟨p, near, echoed⟩, heard⟩ := judged.counts usable
  rw [← adopt_sameEchoes assessed (r.beacon.judged estimate) r.hop false true r.now] at echoed
  rw [← adopt_counts assessed (r.beacon.judged estimate) r.hop false true r.now] at heard
  unfold Engine.echoWindow at echoed
  unfold Engine.directCount at heard
  rw [← origins] at echoed heard
  cases known : e'.origins.get? r.hop.addr with
  | none =>
    rw [Origins.field_of_none known] at heard
    cases heard
  | some o =>
    rw [Origins.field_of_get? known] at echoed heard
    obtain ⟨w, found, held⟩ := Originator.echoes?_of_echoWindow echoed
    have linked := Originator.link?_of_directCount heard
    rw [keyed _ _ known] at linked
    exact ⟨o, rfl, ⟨w, found, p, near, held⟩, linked⟩

/-! ### Histories -/

variable {s : Setup} {jitter : Jitter} {past : List Event}

/-- Whatever counts for a hop was ranked, and was never forgotten since. -/
theorem History.ranked_of_samples (h : History (.new s jitter) past e) {a : Addr} {hop : Hop}
    (known : (e.ranking a hop).samples ≠ []) :
    ∃ later x earlier r, past = later ++ x :: earlier ∧ x.ranked? = some r ∧ r.beacon.orig = a ∧
      r.hop = hop ∧ ∀ y ∈ later, (y.after.ranking a hop).samples ≠ [] := by
  induction h with
  | nil => exact absurd rfl known
  | @call past e e' c reply before made ih =>
    cases (step_does made).reranks before.sound a hop with
    | same kept =>
      -- The beacon that was ranked is an earlier one.
      have old : (e.ranking a hop).samples ≠ [] := by
        rw [← kept]
        exact known
      obtain ⟨later, x, earlier, r, split, ranked, orig, here, since⟩ := ih old
      refine ⟨⟨e, c, reply, e'⟩ :: later, x, earlier, r, ?_, ranked, orig, here, ?_⟩
      · rw [split]
        rfl
      · intro y mem
        rcases List.mem_cons.mp mem with rfl | mem
        · exact known
        · exact since y mem
    | forgotten blank =>
      apply absurd _ known
      have gone : e'.ranking a hop = {} := blank
      rw [gone]
    | @added r _ _ ranked _ orig here =>
      exact ⟨[], ⟨e, c, reply, e'⟩, past, r, rfl, ranked, orig.symm, here.symm, by simp⟩

theorem History.ranked_of_route (h : History (.new s jitter) past e) {a : Addr} {o : Originator}
    {hop : Hop} (known : e.origins.get? a = some o) (used : o.route = some hop) :
    ∃ later x earlier r, past = later ++ x :: earlier ∧ x.ranked? = some r ∧ r.beacon.orig = a ∧
      r.hop = hop ∧ ∀ y ∈ later, (y.after.ranking a hop).samples ≠ [] := by
  apply h.ranked_of_samples
  obtain ⟨l, found, positive⟩ := (h.sound.each known).route_link used
  have ranking : e.ranking a hop = l.ranking := by
    unfold Engine.ranking
    rw [Origins.field_of_get? known, Originator.ranking_of_link? found]
  rw [ranking]
  intro none
  apply positive
  unfold Link.average
  have empty : l.samples = [] := none
  rw [empty]
  rfl

theorem History.heard_of_received (h : History (.new s jitter) past e) {a : Addr} {o : Originator}
    {hop : Hop} {l : Link} (known : e.origins.get? a = some o) (found : o.link? hop = some l)
    (received : 1 ≤ l.received) :
    ∃ q ∈ (receptionLog a past).receptions, q.hop = hop ∧
      Seqno.behind o.newest q.beacon.seqno < Window.size := by
  have records := h.records a 0
  rw [Origins.getOrNew_of_get? known] at records
  have mem : l ∈ o.links := List.mem_of_find?_eq_some found
  rw [records.counted l mem] at received
  obtain ⟨p, near, held⟩ := Window.count_pos_iff.mp received
  obtain ⟨q, listed, place, here, -⟩ := (records.links l mem p near).mp held
  refine ⟨q, listed, here.trans (Originator.hop_of_link? found), ?_⟩
  rw [records.anchored.behind listed near place]
  exact near

theorem History.echo_of_window (h : History (.new s jitter) past e) {a : Addr} {iface : IfaceId}
    {p : Nat} (inRange : iface < s.ifaces.length) (near : p < Window.size)
    (held : (e.echoWindow a iface).has p = true) :
    ∃ here ∈ s.ifaces, here.id = iface ∧
      ∃ y ∈ echoLog a here past, y.position < Window.size := by
  have listed := List.getElem_mem inRange
  have number := s.numbered iface inRange
  have shows := h.shows listed a
  rw [number] at shows
  obtain ⟨y, mem, place⟩ := (shows p near).mp held
  exact ⟨_, listed, number, y, mem, place ▸ near⟩

/-- Whatever counts for a route was ranked while its neighbour was known to have a two-way link. -/
theorem routes_over_two_way_links {s : Setup} {jitter : Jitter} {cs : List Call} {e : Engine}
    (h : (Engine.new s jitter).run cs = .ok e) :
    ∃ past, History (.new s jitter) past e ∧ past.reverse.map Event.call = cs ∧
      (∀ later x earlier r, past = later ++ x :: earlier → x.ranked? = some r →
        ∃ o, x.after.origins.get? r.hop.addr = some o ∧ o.TwoWay r.hop ∧
          (∃ here ∈ s.ifaces, here.id = r.hop.iface ∧
            ∃ y ∈ echoLog r.hop.addr here (x :: earlier), y.position < Window.size) ∧
          ∃ q ∈ (receptionLog r.hop.addr (x :: earlier)).receptions, q.hop = r.hop ∧
            Seqno.behind o.newest q.beacon.seqno < Window.size) ∧
      (∀ x ∈ past, ∀ a hop, x.after.ranking a hop = x.before.ranking a hop ∨
        x.after.ranking a hop = {} ∨
          ∃ r, x.ranked? = some r ∧ r.beacon.orig = a ∧ r.hop = hop) ∧
      ∀ a o hop, e.origins.get? a = some o → o.route = some hop →
        ∃ later x earlier r, past = later ++ x :: earlier ∧ x.ranked? = some r ∧
          r.beacon.orig = a ∧ r.hop = hop ∧ ∀ y ∈ later, (y.after.ranking a hop).samples ≠ [] := by
  obtain ⟨past, history, calls⟩ := run_iff_history.mp h
  refine ⟨past, history, calls, ?_, ?_, ?_⟩
  · intro later x earlier r split ranked
    subst split
    obtain ⟨before, made⟩ := history.cut
    have after : History (.new s jitter) (x :: earlier) x.after := before.call made
    obtain ⟨assessed, estimate, admitted, -⟩ := (step_does made).ranked ranked
    obtain ⟨o, known, twoWay⟩ := (step_does made).twoWay ranked (run_keyed (run_of_history after))
    refine ⟨o, known, twoWay, ?_, ?_⟩
    · obtain ⟨w, found, p, near, held⟩ := twoWay.echoed
      have window : x.after.echoWindow r.hop.addr r.hop.iface = w := by
        unfold Engine.echoWindow Originator.echoWindow
        rw [Origins.field_of_get? known, found]
        rfl
      rw [before.setup] at admitted
      exact after.echo_of_window admitted.iface near (by rw [window]; exact held)
    · obtain ⟨l, found, received⟩ := twoWay.heard
      exact after.heard_of_received known found received
  · intro x mem a hop
    cases history.reranks mem a hop with
    | same kept => exact .inl kept
    | forgotten blank => exact .inr (.inl blank)
    | added ranked _ orig here => exact .inr (.inr ⟨_, ranked, orig.symm, here.symm⟩)
  · intro a o hop known used
    exact history.ranked_of_route known used

theorem routes_over_two_way_links_sample :
    ∃ e o past, (Engine.new Sample.setup default).run Sample.calls = .ok e ∧
      e.origins.get? Sample.far = some o ∧ o.route = some ⟨Sample.near, 0⟩ ∧
      History (.new Sample.setup default) past e ∧ past.reverse.map Event.call = Sample.calls ∧
      ∃ later x earlier r n, past = later ++ x :: earlier ∧ x.ranked? = some r ∧
        r.beacon.orig = Sample.far ∧ r.hop = ⟨Sample.near, 0⟩ ∧
        x.after.origins.get? Sample.near = some n ∧ n.TwoWay ⟨Sample.near, 0⟩ := by
  have reached : ∃ e o, (Engine.new Sample.setup default).run Sample.calls = .ok e ∧
      e.origins.get? Sample.far = some o ∧ o.route = some ⟨Sample.near, 0⟩ := ⟨_, _, rfl, rfl, rfl⟩
  obtain ⟨e, o, run, known, used⟩ := reached
  obtain ⟨past, history, calls, proven, -, routes⟩ := routes_over_two_way_links run
  obtain ⟨later, x, earlier, r, split, ranked, orig, here, -⟩ := routes _ o _ known used
  obtain ⟨n, neighbour, twoWay, -⟩ := proven later x earlier r split ranked
  rw [here] at neighbour twoWay
  exact ⟨e, o, past, run, known, used, history, calls, later, x, earlier, r, n, split, ranked, orig,
    here, neighbour, twoWay⟩

end Engine

end BeaconMesh
